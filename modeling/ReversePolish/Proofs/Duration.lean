import ReversePolish.Proofs.Discipline
import ReversePolish.Proofs.Lookahead
import ReversePolish.Proofs.Reading

/-!
# How long a conversion takes

**A conversion stops after as many steps as it reads tokens and emits operators**
(`conversion_duration`).  Every step either uses up a token, so that the next step reads another
one, or emits an operator and keeps the token; and a step that fails ends the run at a token that
was read (`Machine.stepCount_eq`).  Each operator is emitted once after it was stacked once, and it
was stacked when it was read, so that not more operators are emitted than are read; a run without a
fault leaves none on the stack, and emits them all (`TokenRun.emissionCount_add`).

`Machine.EndsAfter` counts the steps one by one and knows nothing of the weight by which runs are
defined.
-/

namespace ReversePolish

/-! ## What is counted -/

def Token.isLogical : Token → Bool
  | .operator op => op.isLogical
  | .operand _ => false

/-- Whether the event emits an operator, so that the token before which it is emitted is offered
again. -/
def Event.isReduce : Event → Bool
  | .reduce .. => true
  | .operand _ | .shift .. | .close .. => false

/-- The number of operators that are emitted. -/
def Run.emissionCount (r : Run) : Nat :=
  r.events.countP Event.isReduce

namespace Machine

/-- The machine stops after so many steps, by a fault or by itself.  A failing step counts, and
finding the stack empty does not. -/
inductive EndsAfter (accepts : Validator) : Machine → Nat → Option Fault → Prop where
  | halt {m : Machine} (step : m.step accepts = .halt) : EndsAfter accepts m 0 none
  | fail {m : Machine} {fault : Fault} (step : m.step accepts = .fail fault) :
      EndsAfter accepts m 1 (some fault)
  | next {m m' : Machine} {event : Event} {n : Nat} {fault : Option Fault}
      (step : m.step accepts = .next event m') (rest : EndsAfter accepts m' n fault) :
      EndsAfter accepts m (n + 1) fault

/-- The tokens that the machine reads, first to last. -/
def scanned (accepts : Validator) (m : Machine) : List Token :=
  (m.readings accepts).map (·.next.1)

variable {accepts : Validator} {m m' : Machine}

/-! ## The states of a run, counted -/

section Counting

lemma isActive_iff : m.isActive = true ↔ m.stack ≠ [] := by
  simp [isActive]

lemma isActive_of_step_ne (h : m.step accepts ≠ .halt) : m.isActive = true :=
  isActive_iff.2 fun hstack => h (step_of_stack_nil hstack)

lemma stepCount_of_halt (h : m.step accepts = .halt) : m.stepCount accepts = 0 := by
  simp [stepCount, visited_of_halt h, isActive, stack_of_halt h]

lemma stepCount_of_fail {fault : Fault} (h : m.step accepts = .fail fault) :
    m.stepCount accepts = 1 := by
  have hactive := isActive_of_step_ne (h.trans_ne nofun)
  simp [stepCount, visited_of_fail h, hactive]

lemma stepCount_of_next {event : Event} (h : m.step accepts = .next event m') :
    m.stepCount accepts = m'.stepCount accepts + 1 := by
  have hactive := isActive_of_step_ne (h.trans_ne nofun)
  simp [stepCount, visited_of_next h, hactive]

/-- The token that is read in a step, if none is pending. -/
def reading? (m : Machine) : Option Token :=
  if m.pending.isNone then some m.cursor.next.1 else none

lemma scanned_of_halt (h : m.step accepts = .halt) : m.scanned accepts = [] := by
  simp [scanned, readings, visited_of_halt h, isReading, isActive, stack_of_halt h]

lemma scanned_of_fail {fault : Fault} (h : m.step accepts = .fail fault) :
    m.scanned accepts = m.reading?.toList := by
  have hactive := isActive_of_step_ne (h.trans_ne nofun)
  cases hpending : m.pending <;>
    simp [scanned, readings, visited_of_fail h, isReading, hactive, hpending, reading?]

lemma scanned_of_next {event : Event} (h : m.step accepts = .next event m') :
    m.scanned accepts = m.reading?.toList ++ m'.scanned accepts := by
  have hactive := isActive_of_step_ne (h.trans_ne nofun)
  cases hpending : m.pending <;>
    simp [scanned, readings, visited_of_next h, isReading, hactive, hpending, reading?]

end Counting

/-! ## Steps and tokens -/

lemma Stuck.token?_eq {fault : Fault} (h : Stuck accepts m fault) :
    fault.token? = some m.upcoming.1 := by
  cases h with
  | rejected nonempty token refused => rw [token]; rfl
  | unmatched stack token precedence => rw [token]; rfl

/-- The upcoming token is pending, or it is read in the step. -/
lemma pending_append_reading (m : Machine) :
    (m.pending.map Prod.fst).toList ++ m.reading?.toList = [m.upcoming.1] := by
  cases hpending : m.pending <;> simp [reading?, upcoming, hpending]

/-- A move uses up the upcoming token, or keeps it pending. -/
lemma Move.used_append_pending {event : Event} (h : Move accepts m event m') :
    event.used?.toList ++ (m'.pending.map Prod.fst).toList = [m.upcoming.1] := by
  cases h with
  | operand nonempty token accepted => rw [token]; rfl
  | shift stack token precedence => rw [token]; rfl
  | reduce => rfl
  | close stack token precedence => rw [token]; rfl

/-- When the stack has become empty, no token is pending. -/
lemma Move.pending_of_layered {event : Event} (h : Move accepts m event m')
    (hl : Layered m.stack) : Layered m'.stack ∨ m'.stack = [] ∧ m'.pending = none := by
  refine (h.layered hl).imp_right ?_
  rintro ⟨rfl, hnil⟩
  cases h with
  | close => exact ⟨hnil, rfl⟩

end Machine

namespace Run

lemma read_after (event : Event) (r : Run) :
    (r.after event).read = event.used?.toList ++ r.read := by
  cases event <;> rfl

lemma emissionCount_after (event : Event) (r : Run) :
    (r.after event).emissionCount = r.emissionCount + if event.isReduce then 1 else 0 :=
  List.countP_cons

end Run

namespace Machine

variable {accepts : Validator} {m m' : Machine}

/-- **A run takes a step for every token that it reads and for every operator that it emits.** -/
theorem stepCount_eq (m : Machine) :
    m.stepCount accepts = (m.run accepts).read.length + (m.run accepts).emissionCount := by
  induction m using run.induct accepts with
  | case1 m hstep =>
      rw [stepCount_of_halt hstep, run_of_halt hstep]
      rfl
  | case2 m fault hstep =>
      have htoken := (stuck_of_step hstep).token?_eq
      rw [stepCount_of_fail hstep, run_of_fail hstep]
      simp [Run.read, Run.used, Run.emissionCount, htoken]
  | case3 m event m' hstep ih =>
      have hone : event.used?.toList.length + (if event.isReduce then 1 else 0) = 1 := by
        cases event <;> rfl
      rw [stepCount_of_next hstep, run_of_next hstep, Run.read_after, Run.emissionCount_after,
        List.length_append, ih]
      omega

theorem endsAfter_stepCount (m : Machine) :
    m.EndsAfter accepts (m.stepCount accepts) (m.run accepts).fault := by
  induction m using run.induct accepts with
  | case1 m hstep =>
      rw [stepCount_of_halt hstep, run_of_halt hstep]
      exact .halt hstep
  | case2 m fault hstep =>
      rw [stepCount_of_fail hstep, run_of_fail hstep]
      exact .fail hstep
  | case3 m event m' hstep ih =>
      rw [stepCount_of_next hstep, run_of_next hstep]
      exact .next hstep ih

/-- **A run reads the pending token, if there is one, and the tokens that it scans.** -/
theorem read_run_eq (h : Layered m.stack ∨ m.stack = [] ∧ m.pending = none) :
    (m.run accepts).read = (m.pending.map Prod.fst).toList ++ m.scanned accepts := by
  induction m using run.induct accepts with
  | case1 m hstep =>
      have hpending : m.pending = none := by
        rcases h with hl | ⟨-, hnone⟩
        · exact absurd (stack_of_halt hstep) hl.ne_nil
        · exact hnone
      rw [run_of_halt hstep, scanned_of_halt hstep, hpending]
      rfl
  | case2 m fault hstep =>
      have htoken := (stuck_of_step hstep).token?_eq
      rw [scanned_of_fail hstep, pending_append_reading, run_of_fail hstep]
      simp [Run.read, Run.used, htoken]
  | case3 m event m' hstep ih =>
      have hmove := move_of_step hstep
      have hl : Layered m.stack := h.resolve_right fun hover =>
        stack_ne_nil_of_step hstep hover.1
      calc (m.run accepts).read
          = event.used?.toList ++ (m'.run accepts).read := by
            rw [run_of_next hstep, Run.read_after]
        _ = event.used?.toList ++ (m'.pending.map Prod.fst).toList ++ m'.scanned accepts := by
            rw [ih (hmove.pending_of_layered hl), List.append_assoc]
        _ = (m.pending.map Prod.fst).toList ++ m.scanned accepts := by
            rw [hmove.used_append_pending, scanned_of_next hstep, ← List.append_assoc,
              pending_append_reading]

end Machine

/-! ## Operators are emitted once

What a run emits was on the stack or is read by it; what it reads and does not emit is left.
-/

variable {accepts : Validator} {text : String}

/-- **A run emits the operators that wait and those that it reads**, but for those that are left on
the stack when a fault ends it. -/
theorem TokenRun.emissionCount_add {stack : List Operator} {ts : List Token} {r : Run}
    (h : TokenRun accepts stack ts r) :
    ∃ left, r.emissionCount + left =
        stack.countP Operator.isLogical + r.read.countP Token.isLogical ∧
      (r.fault = none → left = 0) := by
  induction h with
  | finish => exact ⟨0, rfl, fun _ => rfl⟩
  | operand accepted rest ih => exact ih
  | rejected | unopened | unclosed => exact ⟨_, Nat.zero_add _, nofun⟩
  | @shift op top below ts r precedence rest ih =>
      obtain ⟨left, hcount, hempty⟩ := ih
      refine ⟨left, ?_, hempty⟩
      -- the operator is now counted among those that are read, and no more on the stack
      have hread : (r.after (.shift op top)).read.countP Token.isLogical =
          r.read.countP Token.isLogical + if op.isLogical then 1 else 0 := List.countP_cons
      have hemitted : (r.after (.shift op top)).emissionCount = r.emissionCount :=
        r.emissionCount_after _
      rw [List.countP_cons] at hcount
      omega
  | @reduce op top below ts r precedence rest ih =>
      obtain ⟨left, hcount, hempty⟩ := ih
      refine ⟨left, ?_, hempty⟩
      have hlogical := Operator.isLogical_of_precedence_eq_reduce precedence
      have hread : (r.after (.reduce top op)).read = r.read := rfl
      have hemitted : (r.after (.reduce top op)).emissionCount = r.emissionCount + 1 :=
        r.emissionCount_after _
      rw [hread, List.countP_cons_of_pos hlogical]
      omega
  | @close below ts r rest ih =>
      obtain ⟨left, hcount, hempty⟩ := ih
      exact ⟨left, hcount, hempty⟩

/-- A conversion emits no more operators than it reads, and as many if no fault ends it. -/
lemma emissionCount_conversion (accepts : Validator) (text : String) :
    (conversion accepts text).emissionCount ≤
        (conversion accepts text).read.countP Token.isLogical ∧
      ((conversion accepts text).fault = none → (conversion accepts text).emissionCount =
        (conversion accepts text).read.countP Token.isLogical) := by
  obtain ⟨left, hcount, hempty⟩ := (tokenRun_conversion accepts text).emissionCount_add
  have hstack : [Operator.endOfInput].countP Operator.isLogical = 0 := rfl
  refine ⟨by omega, fun hfault => ?_⟩
  have := hempty hfault
  omega

/-! ## The tokens that are scanned -/

lemma upToFaultAfter_isPrefix (accepts : Validator) (before ts : List Token) :
    upToFaultAfter accepts before ts <+: ts := by
  induction ts generalizing before with
  | nil => exact List.prefix_refl _
  | cons t ts ih =>
      cases hfault : faultAt? accepts before t with
      | some fault =>
          rw [upToFaultAfter_of_some hfault]
          exact List.cons_prefix_cons.2 ⟨rfl, List.nil_prefix⟩
      | none =>
          rw [upToFaultAfter_of_none hfault]
          exact List.cons_prefix_cons.2 ⟨rfl, ih _⟩

lemma scanned_start (accepts : Validator) (text : String) :
    (Machine.start text).scanned accepts = (conversion accepts text).read := by
  have hstart : Layered (Machine.start text).stack := .bottom .nil
  exact (Machine.read_run_eq (Or.inl hstart)).symm

/-- The tokens that a conversion scans are the first ones of its text. -/
lemma scanned_isPrefix (accepts : Validator) (text : String) :
    (Machine.start text).scanned accepts <+: tokensOf text ++ [.endMark] := by
  rw [scanned_start, conversion_read]
  exact upToFaultAfter_isPrefix _ _ _

/-- The end mark is scanned once at most. -/
lemma count_endMark_scanned (accepts : Validator) (text : String) :
    ((Machine.start text).scanned accepts).count .endMark ≤ 1 := by
  have hnone : (tokensOf text).count .endMark = 0 :=
    List.count_eq_zero.2 fun h => isWritable_of_mem_tokensOf h rfl
  have hone : (tokensOf text ++ [Token.endMark]).count .endMark = 1 := by
    rw [List.count_append, hnone]
    rfl
  rw [← hone]
  exact (scanned_isPrefix accepts text).sublist.count_le _

/-! ## The positions at which tokens are read -/

/-- A token that is not the end mark ends within the text. -/
lemma Cursor.position_next_le {position : Nat}
    (h : (ofPosition text position).next.1 ≠ .endMark) :
    (ofPosition text position).next.2.position ≤ text.length := by
  rcases blank_or_token (text.toList.drop position) with
    blank | ⟨gap, t, rest, blank, writable, longest, hrest⟩
  · rw [ofPosition, next_of_blank blank] at h
    exact absurd rfl h
  · have hlength := congrArg List.length hrest
    simp only [List.length_drop, List.length_append, String.length_toList] at hlength
    have hpos := Token.length_text_pos writable
    rw [ofPosition, hrest, next_of_token blank writable longest]
    show position + gap.length + t.text.length ≤ text.length
    omega

namespace Machine

variable {m m' : Machine}

/-- A move goes on within the text, or it empties the stack. -/
lemma Move.position_le {event : Event} (h : Move accepts m event m') (hm : AtText text m)
    (hl : Layered m.stack) (hle : m.cursor.position ≤ text.length) :
    m'.stack = [] ∨ m'.cursor.position ≤ text.length := by
  have hnext : m.upcoming.1 ≠ .endMark → m.upcoming.2.position ≤ text.length := by
    rw [hm.upcoming_eq, hm.cursor_eq]
    exact Cursor.position_next_le
  have hop : ∀ {op : Operator}, m.upcoming.1 = .operator op → op ≠ .endOfInput →
      m.upcoming.1 ≠ .endMark := fun token hne hend =>
    hne (Token.operator.inj (token.symm.trans hend))
  cases h with
  | operand nonempty token accepted =>
      exact Or.inr (hnext (by rw [token]; exact Token.noConfusion))
  | @shift op top below stack token precedence =>
      exact Or.inr (hnext (hop token (Operator.ne_endOfInput_of_precedence_eq_shift precedence)))
  | reduce => exact Or.inr hle
  | @close op top below stack token precedence =>
      rcases Operator.precedence_eq_close_iff.1 precedence with ⟨rfl, rfl⟩ | ⟨rfl, rfl⟩
      · exact Or.inr (hnext (hop token Operator.noConfusion))
      · rw [stack] at hl
        exact Or.inl hl.below_endOfInput

/-- Wherever the stack is not empty, the cursor is within the text. -/
lemma position_le_of_mem_visited :
    ∀ a ∈ (start text).visited accepts, a.stack ≠ [] → a.cursor.position ≤ text.length := by
  have hinvariant : ∀ a ∈ (start text).visited accepts, AtText text a ∧
      (a.stack = [] ∨ Layered a.stack ∧ a.cursor.position ≤ text.length) := by
    refine forall_mem_visited ⟨atText_start text, Or.inr ⟨.bottom .nil, Nat.zero_le _⟩⟩ ?_
    rintro a event b hstep ⟨hat, hstack⟩
    have hmove := move_of_step hstep
    obtain ⟨hl, hle⟩ := hstack.resolve_left (stack_ne_nil_of_step hstep)
    refine ⟨hmove.atText hat, ?_⟩
    rcases hmove.layered hl, hmove.position_le hat hl hle with ⟨hl' | ⟨-, hnil⟩, hnil' | hle'⟩
    · exact Or.inl hnil'
    · exact Or.inr ⟨hl', hle'⟩
    · exact Or.inl hnil
    · exact Or.inl hnil
  exact fun a ha hne => ((hinvariant a ha).2.resolve_left hne).2

/-- Every token is read at a position of the text, at its end at the latest. -/
lemma forall_mem_readings :
    ∀ c ∈ (start text).readings accepts,
      c = .ofPosition text c.position ∧ c.position ≤ text.length := by
  intro c hc
  obtain ⟨a, ha, rfl⟩ := List.mem_map.1 hc
  obtain ⟨hvisited, hreading⟩ := List.mem_filter.1 ha
  have hactive : a.isActive = true := (Bool.and_eq_true_iff.1 hreading).1
  exact ⟨(atText_of_mem_visited a hvisited).cursor_eq,
    position_le_of_mem_visited a hvisited (isActive_iff.1 hactive)⟩

end Machine

/-! ## The conversion -/

/-- **How long a conversion takes.**  It stops, after as many steps as it reads tokens and emits
operators, and it emits no more operators than it reads.  Where the emitted tokens come to be
counted, that is one step for each token, the end mark included, and another one for each logical
operator.  The tokens that it reads are the first ones of the text, each at a position of the text
or at its end, so that the end mark is read at most once. -/
theorem conversion_duration (accepts : Validator) (text : String) :
    (Machine.start text).EndsAfter accepts ((Machine.start text).stepCount accepts)
      (conversion accepts text).fault ∧
    (Machine.start text).stepCount accepts =
      ((Machine.start text).readings accepts).length + (conversion accepts text).emissionCount ∧
    (conversion accepts text).emissionCount ≤
      ((Machine.start text).scanned accepts).countP Token.isLogical ∧
    ((∃ p, convertWith accepts text = .ok p) ∨
        convertWith accepts text = .error (.invalidSyntax
          ⟨"mismatch between the number of operators and operands", none, text⟩) →
      (Machine.start text).stepCount accepts =
        (tokensOf text ++ [Token.endMark]).length + (tokensOf text).countP Token.isLogical) ∧
    (Machine.start text).scanned accepts <+: tokensOf text ++ [.endMark] ∧
    (∀ c ∈ (Machine.start text).readings accepts,
      c = .ofPosition text c.position ∧ c.position ≤ text.length) ∧
    ((Machine.start text).scanned accepts).count .endMark ≤ 1 := by
  obtain ⟨hle, heq⟩ := emissionCount_conversion accepts text
  have hsteps : (Machine.start text).stepCount accepts =
      ((Machine.start text).scanned accepts).length + (conversion accepts text).emissionCount := by
    rw [scanned_start]
    exact Machine.stepCount_eq _
  refine ⟨Machine.endsAfter_stepCount _, ?_, ?_, ?_, scanned_isPrefix accepts text,
    Machine.forall_mem_readings, count_endMark_scanned accepts text⟩
  · rw [hsteps, Machine.scanned, List.length_map]
  · rwa [scanned_start]
  · intro h
    have hfault : (conversion accepts text).fault = none := by
      rcases h with ⟨p, hok⟩ | hmismatch
      · exact (convertWith_eq_ok_iff.1 hok).1
      · exact (convertWith_eq_countMismatch_iff.1 hmismatch).1
    have hread := conversion_read_of_faultless (faultless_of_fault_none hfault)
    rw [hsteps, heq hfault, scanned_start, hread, List.countP_append]
    rfl

/-- Seven tokens and three operators; the end mark is read behind the last character. -/
theorem conversion_duration_chain :
    convertWith acceptAll "a & !b | c" =
      .ok { tokens := [.operand "a", .operand "b", .not, .and, .operand "c", .or] } ∧
    (Machine.start "a & !b | c").EndsAfter acceptAll 10 none ∧
    ⟨10, []⟩ ∈ (Machine.start "a & !b | c").readings acceptAll ∧
    (⟨10, []⟩ : Cursor) = .ofPosition "a & !b | c" 10 ∧ 10 ≤ "a & !b | c".length := by
  have hok : convertWith acceptAll "a & !b | c" =
      .ok { tokens := [.operand "a", .operand "b", .not, .and, .operand "c", .or] } := by
    decide +kernel
  have hend : ⟨10, []⟩ ∈ (Machine.start "a & !b | c").readings acceptAll := by
    decide +kernel
  have hcount : (tokensOf "a & !b | c" ++ [Token.endMark]).length +
      (tokensOf "a & !b | c").countP Token.isLogical = 10 := by
    decide +kernel
  obtain ⟨hstops, -, -, hsteps, -, hreadings, -⟩ := conversion_duration acceptAll "a & !b | c"
  rw [hsteps (Or.inl ⟨_, hok⟩), hcount, (convertWith_eq_ok_iff.1 hok).1] at hstops
  exact ⟨hok, hstops, hend, hreadings _ hend⟩

end ReversePolish
