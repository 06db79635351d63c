import ReversePolish.Conversion.FirstFault
import ReversePolish.Proofs.TokenRun

/-!
# The outcome of a conversion

**What a conversion answers can be told from its tokens** (`convertWith_outcome`): the first token
at fault decides alone, then an unclosed parenthesis, and only a conversion without either is
judged by what it has emitted.

The link between stack and tokens is that the opening parentheses on the stack are those which are
open in the text, whatever operators lie between them (`OpenOn`, with one lemma for each thing that
a run can do); `TokenRun.fault_eq` carries it along a run.  The rest relates the descriptions of
the first fault: computed or not (`firstFault?_eq_some_iff`), and of a token or of the end
(`firstFault_iff`).
-/

namespace ReversePolish

variable {accepts : Validator}

/-! ## Counting parentheses -/

@[simp] lemma opened_nil : opened [] = 0 := rfl

@[simp] lemma closed_nil : closed [] = 0 := rfl

lemma opened_cons (t : Token) (ts : List Token) : opened (t :: ts) = opened [t] + opened ts :=
  opened_append [t] ts

lemma closed_cons (t : Token) (ts : List Token) : closed (t :: ts) = closed [t] + closed ts :=
  closed_append [t] ts

@[simp] lemma opened_operand (name : String) : opened [.operand name] = 0 := rfl

@[simp] lemma closed_operand (name : String) : closed [.operand name] = 0 := rfl

@[simp] lemma opened_operator (op : Operator) :
    opened [.operator op] = if op = .openParen then 1 else 0 := by
  cases op <;> rfl

@[simp] lemma closed_operator (op : Operator) :
    closed [.operator op] = if op = .closeParen then 1 else 0 := by
  cases op <;> rfl

/-- The parentheses of the tokens match those of their own that are opened before and `depth`
further ones that are open already. -/
def MatchingBehind (depth : Nat) (ts : List Token) : Prop :=
  (∀ us, us <+: ts → closed us ≤ opened us + depth) ∧ closed ts = opened ts + depth

/-- Behind the first token another number of parentheses is open. -/
lemma MatchingBehind.tail {depth depth' : Nat} {t : Token} {ts : List Token}
    (h : MatchingBehind depth (t :: ts)) (hdepth : closed [t] + depth' = opened [t] + depth) :
    MatchingBehind depth' ts := by
  obtain ⟨hless, hsame⟩ := h
  rw [closed_cons, opened_cons] at hsame
  refine ⟨fun us hus => ?_, by omega⟩
  have hcons := hless (t :: us) (List.cons_prefix_cons.2 ⟨rfl, hus⟩)
  rw [closed_cons, opened_cons] at hcons
  omega

/-- Where a parenthesis is closed, one is open. -/
lemma MatchingBehind.pos {depth : Nat} {ts : List Token}
    (h : MatchingBehind depth (.operator .closeParen :: ts)) : 0 < depth := by
  have hone := h.1 [.operator .closeParen] (List.cons_prefix_cons.2 ⟨rfl, List.nil_prefix⟩)
  simp only [opened_operator, closed_operator, reduceCtorEq, if_true, if_false] at hone
  omega

/-! ## The first fault, computed and described -/

/-- Behind tokens without too many closing parentheses, one more token is at fault or not. -/
lemma faultAt?_eq_none_iff {before : List Token} {t : Token} (h : closed before ≤ opened before) :
    faultAt? accepts before t = none ↔
      (∀ name, t = .operand name → accepts name = true) ∧
        closed (before ++ [t]) ≤ opened (before ++ [t]) := by
  cases t with
  | operand name =>
      simp only [faultAt?, closed_append, opened_append, closed_operand, opened_operand]
      cases hname : accepts name <;> simp [h, hname]
  | operator op =>
      simp only [faultAt?, closed_append, opened_append, closed_operator, opened_operator]
      cases op <;> simp <;> omega

lemma faultAt?_of_accepted {before : List Token} {name : String} (accepted : accepts name = true) :
    faultAt? accepts before (.operand name) = none :=
  if_pos accepted

lemma faultAt?_of_refused {before : List Token} {name : String} (refused : accepts name = false) :
    faultAt? accepts before (.operand name) = some (.rejected name) := by
  simp only [faultAt?, refused, Bool.false_eq_true, if_false]

/-- The computed fault of a token is the one that is described. -/
lemma faultAt?_eq_some_iff {before : List Token} {t : Token} {fault : Fault} :
    faultAt? accepts before t = some fault ↔ AtFault accepts before t fault := by
  have hcount : opened (before ++ [.operator .closeParen]) <
      closed (before ++ [.operator .closeParen]) ↔ ¬ closed before < opened before := by
    simp only [opened_append, closed_append, opened_operator, closed_operator, if_true,
      reduceCtorEq, if_false]
    omega
  constructor
  · intro ht
    cases t with
    | operand name =>
        simp only [faultAt?] at ht
        split_ifs at ht with hname
        obtain rfl := Option.some.inj ht
        exact .rejected (Bool.eq_false_iff.2 hname)
    | operator op =>
        cases op with
        | closeParen =>
            simp only [faultAt?] at ht
            split_ifs at ht with hless
            obtain rfl := Option.some.inj ht
            exact .unopened (hcount.2 hless)
        | and | or | not | openParen | endOfInput => cases ht
  · rintro (refused | more)
    · exact faultAt?_of_refused refused
    · rw [faultAt?, if_neg (hcount.1 more)]

lemma firstFaultAfter?_append (before ts us : List Token) :
    firstFaultAfter? accepts before (ts ++ us) =
      (firstFaultAfter? accepts before ts).or (firstFaultAfter? accepts (before ++ ts) us) := by
  induction ts generalizing before with
  | nil => rw [List.append_nil]; rfl
  | cons t ts ih =>
      simp only [List.cons_append, firstFaultAfter?]
      cases faultAt? accepts before t with
      | some fault => rfl
      | none => rw [ih, List.append_assoc]; rfl

/-- The first token at fault is one with none before it. -/
lemma firstFaultAfter?_eq_some_iff {before ts : List Token} {fault : Fault} :
    firstFaultAfter? accepts before ts = some fault ↔
      ∃ us t vs, ts = us ++ t :: vs ∧ firstFaultAfter? accepts before us = none ∧
        faultAt? accepts (before ++ us) t = some fault := by
  constructor
  · intro h
    induction ts generalizing before with
    | nil => cases h
    | cons t ts ih =>
        cases hf : faultAt? accepts before t with
        | some f =>
            simp only [firstFaultAfter?, hf] at h
            refine ⟨[], t, ts, rfl, rfl, ?_⟩
            rw [List.append_nil, hf, h]
        | none =>
            simp only [firstFaultAfter?, hf] at h
            obtain ⟨us, u, vs, rfl, hus, hu⟩ := ih h
            refine ⟨t :: us, u, vs, rfl, ?_, ?_⟩
            · simp only [firstFaultAfter?, hf, hus]
            · rw [List.append_assoc] at hu
              exact hu
  · rintro ⟨us, t, vs, rfl, hus, ht⟩
    rw [firstFaultAfter?_append, hus]
    simp only [firstFaultAfter?, ht, Option.none_or]

/-- Behind tokens without too many closing parentheses, nothing is at fault if every operand is
accepted and the closing parentheses never become too many. -/
lemma firstFaultAfter?_eq_none_iff {before ts : List Token} (h : closed before ≤ opened before) :
    firstFaultAfter? accepts before ts = none ↔
      (∀ name, .operand name ∈ ts → accepts name = true) ∧
        ∀ us, us <+: ts → closed (before ++ us) ≤ opened (before ++ us) := by
  induction ts generalizing before with
  | nil =>
      refine ⟨fun _ => ⟨fun _ hn => absurd hn List.not_mem_nil, fun us hus => ?_⟩, fun _ => rfl⟩
      rw [List.prefix_nil.1 hus, List.append_nil]
      exact h
  | cons t ts ih =>
      have hsplit : firstFaultAfter? accepts before (t :: ts) = none ↔
          faultAt? accepts before t = none ∧
            firstFaultAfter? accepts (before ++ [t]) ts = none := by
        rw [firstFaultAfter?]
        cases faultAt? accepts before t <;> simp
      rw [hsplit, faultAt?_eq_none_iff h]
      constructor
      · rintro ⟨⟨hname, hcount⟩, hrest⟩
        obtain ⟨hnames, hcounts⟩ := (ih hcount).1 hrest
        refine ⟨fun name hmem => ?_, fun us hus => ?_⟩
        · rcases List.mem_cons.1 hmem with heq | hmem
          · exact hname name heq.symm
          · exact hnames name hmem
        · rcases List.prefix_cons_iff.1 hus with rfl | ⟨vs, rfl, hvs⟩
          · rw [List.append_nil]
            exact h
          · have := hcounts vs hvs
            rw [List.append_assoc] at this
            exact this
      · rintro ⟨hnames, hcounts⟩
        have hcount : closed (before ++ [t]) ≤ opened (before ++ [t]) :=
          hcounts [t] (List.prefix_cons_iff.2 (Or.inr ⟨[], rfl, List.nil_prefix⟩))
        refine ⟨⟨fun name heq => hnames name (heq ▸ List.mem_cons_self), hcount⟩,
          (ih hcount).2 ⟨fun name hmem => hnames name (List.mem_cons_of_mem _ hmem),
            fun us hus => ?_⟩⟩
        have := hcounts (t :: us) (List.cons_prefix_cons.2 ⟨rfl, hus⟩)
        rw [List.append_assoc]
        exact this

lemma firstFaultAfter?_nil_eq_none_iff {ts : List Token} :
    firstFaultAfter? accepts [] ts = none ↔ Faultless accepts ts :=
  firstFaultAfter?_eq_none_iff (Nat.le_refl 0)

lemma firstFaultAfter?_nil_eq_some_iff {ts : List Token} {fault : Fault} :
    firstFaultAfter? accepts [] ts = some fault ↔
      ∃ before t after, ts = before ++ t :: after ∧ Faultless accepts before ∧
        AtFault accepts before t fault := by
  simp only [firstFaultAfter?_eq_some_iff, firstFaultAfter?_nil_eq_none_iff, List.nil_append,
    faultAt?_eq_some_iff]

/-- A first fault is one of a token, or that of a parenthesis which is still open at the end. -/
lemma firstFault_iff {ts : List Token} {fault : Fault} :
    FirstFault accepts ts fault ↔
      (∃ before t after, ts = before ++ t :: after ∧ Faultless accepts before ∧
        AtFault accepts before t fault) ∨
      fault = .unmatched .endOfInput ∧ Faultless accepts ts ∧ closed ts < opened ts := by
  constructor
  · intro h
    cases h with
    | rejected tokens earlier refused => exact Or.inl ⟨_, _, _, tokens, earlier, .rejected refused⟩
    | unopened tokens earlier more => exact Or.inl ⟨_, _, _, tokens, earlier, .unopened more⟩
    | unclosed earlier more => exact Or.inr ⟨rfl, earlier, more⟩
  · rintro (⟨before, t, after, tokens, earlier, hat⟩ | ⟨rfl, earlier, more⟩)
    · cases hat with
      | rejected refused => exact .rejected tokens earlier refused
      | unopened more => exact .unopened tokens earlier more
    · exact .unclosed earlier more

/-- **The computed fault is the one that is described.** -/
theorem firstFault?_eq_some_iff {ts : List Token} {fault : Fault} :
    firstFault? accepts ts = some fault ↔ FirstFault accepts ts fault := by
  rw [firstFault_iff, ← firstFaultAfter?_nil_eq_some_iff, ← firstFaultAfter?_nil_eq_none_iff,
    firstFault?]
  cases firstFaultAfter? accepts [] ts with
  | some f => simp
  | none => simp [eq_comm, and_comm]

/-- Nothing is at fault, and no parenthesis stays open, if every operand is accepted and the
parentheses match. -/
lemma firstFault?_eq_none_iff {ts : List Token} :
    firstFault? accepts ts = none ↔
      (∀ name, .operand name ∈ ts → accepts name = true) ∧ Matching ts := by
  cases hf : firstFaultAfter? accepts [] ts with
  | some fault =>
      simp only [firstFault?, hf, reduceCtorEq, false_iff]
      rintro ⟨hnames, hcount, -⟩
      rw [firstFaultAfter?_nil_eq_none_iff.2 ⟨hnames, hcount⟩] at hf
      cases hf
  | none =>
      obtain ⟨hnames, hcount⟩ := firstFaultAfter?_nil_eq_none_iff.1 hf
      have hle := hcount ts (List.prefix_refl _)
      simp only [firstFault?, hf, ite_eq_right_iff, reduceCtorEq, imp_false]
      constructor
      · intro hless
        exact ⟨hnames, hcount, by omega⟩
      · rintro ⟨-, -, hsame⟩
        omega

/-! ## The fault of a run

The search for the first fault is cut open at the place that a run has reached.
-/

/-- The fault of tokens that stand behind others: that of the first one at fault, or else an
unclosed parenthesis. -/
def faultBehind? (accepts : Validator) (before ts : List Token) : Option Fault :=
  (firstFaultAfter? accepts before ts).or
    (if closed (before ++ ts) < opened (before ++ ts) then some (.unmatched .endOfInput)
      else none)

lemma firstFault?_eq_faultBehind? (ts : List Token) :
    firstFault? accepts ts = faultBehind? accepts [] ts := by
  rw [firstFault?, faultBehind?, List.nil_append]
  cases firstFaultAfter? accepts [] ts <;> rfl

lemma faultBehind?_of_some {before ts : List Token} {t : Token} {fault : Fault}
    (h : faultAt? accepts before t = some fault) :
    faultBehind? accepts before (t :: ts) = some fault := by
  rw [faultBehind?, firstFaultAfter?, h]
  rfl

lemma faultBehind?_of_none {before ts : List Token} {t : Token}
    (h : faultAt? accepts before t = none) :
    faultBehind? accepts before (t :: ts) = faultBehind? accepts (before ++ [t]) ts := by
  rw [faultBehind?, faultBehind?, firstFaultAfter?, h, List.append_assoc]
  rfl

/-- The end mark is never at fault. -/
lemma faultBehind?_append_endMark (before ts : List Token) :
    faultBehind? accepts before (ts ++ [.endMark]) = faultBehind? accepts before ts := by
  have hend : firstFaultAfter? accepts (before ++ ts) [.endMark] = none := rfl
  simp only [faultBehind?, firstFaultAfter?_append, hend, Option.or_none, ← List.append_assoc,
    closed_append, opened_append, closed_operator, opened_operator, reduceCtorEq, if_false,
    Nat.add_zero]

/-- The parentheses that are open behind the tokens are those on the stack, whatever operators lie
between them. -/
def OpenOn (stack : List Operator) (before : List Token) : Prop :=
  opened before = closed before + stack.count .openParen

section OpenOn

variable {before : List Token} {below : List Operator} {op top : Operator}

/-- What is stacked is not at fault. -/
lemma faultAt?_of_shift (precedence : top.precedence op = .shift) :
    faultAt? accepts before (.operator op) = none := by
  have hclose := Operator.ne_closeParen_of_precedence_eq_shift precedence
  revert hclose
  cases op <;> simp [faultAt?]

lemma OpenOn.operand {stack : List Operator} {name : String} (h : OpenOn stack before) :
    OpenOn stack (before ++ [.operand name]) := by
  simpa [OpenOn] using h

lemma OpenOn.shift (h : OpenOn (top :: below) before)
    (precedence : top.precedence op = .shift) :
    OpenOn (op :: top :: below) (before ++ [.operator op]) := by
  have hclose := Operator.ne_closeParen_of_precedence_eq_shift precedence
  rw [OpenOn] at h ⊢
  rw [List.count_cons]
  simp only [opened_append, closed_append, opened_operator, closed_operator, if_neg hclose,
    beq_iff_eq]
  omega

/-- What is emitted is logical, so the open parentheses on the stack stay the same. -/
lemma OpenOn.reduce (h : OpenOn (top :: below) before)
    (precedence : top.precedence op = .reduce) : OpenOn below before := by
  have hlogical := Operator.isLogical_of_precedence_eq_reduce precedence
  rwa [OpenOn, List.count_cons_of_ne] at h
  rintro rfl
  cases hlogical

lemma OpenOn.faultAt?_close (h : OpenOn (.openParen :: below) before) :
    faultAt? accepts before (.operator .closeParen) = none := by
  rw [OpenOn, List.count_cons_self] at h
  exact if_pos (by omega)

lemma OpenOn.close (h : OpenOn (.openParen :: below) before) :
    OpenOn below (before ++ [.operator .closeParen]) := by
  rw [OpenOn, List.count_cons_self] at h
  simp only [OpenOn, opened_append, closed_append, opened_operator, closed_operator, reduceCtorEq,
    if_false, if_true]
  omega

lemma OpenOn.faultAt?_unopened (h : OpenOn [.endOfInput] before) :
    faultAt? accepts before (.operator .closeParen) = some (.unmatched .closeParen) := by
  have hcount : opened before = closed before := h
  exact if_neg (by omega)

end OpenOn

/-- **The fault of a run**, when the opening parentheses on its stack are those that are open in
the tokens before it. -/
theorem TokenRun.fault_eq {stack : List Operator} {ts : List Token} {r : Run}
    (h : TokenRun accepts stack ts r) :
    ∀ before : List Token, OpenOn stack before → r.fault = faultBehind? accepts before ts := by
  induction h with
  | finish =>
      intro before hopen
      have hcount : opened before = closed before := hopen
      rw [← List.nil_append [Token.endMark], faultBehind?_append_endMark, faultBehind?,
        List.append_nil, if_neg (by omega)]
      rfl
  | operand accepted rest ih =>
      intro before hopen
      rw [faultBehind?_of_none (faultAt?_of_accepted accepted)]
      exact ih _ hopen.operand
  | rejected refused =>
      intro before hopen
      exact (faultBehind?_of_some (faultAt?_of_refused refused)).symm
  | shift precedence rest ih =>
      intro before hopen
      rw [faultBehind?_of_none (faultAt?_of_shift precedence)]
      exact ih _ (hopen.shift precedence)
  | reduce precedence rest ih =>
      intro before hopen
      exact ih before (hopen.reduce precedence)
  | close rest ih =>
      intro before hopen
      rw [faultBehind?_of_none hopen.faultAt?_close]
      exact ih _ hopen.close
  | unopened =>
      intro before hopen
      exact (faultBehind?_of_some hopen.faultAt?_unopened).symm
  | unclosed =>
      intro before hopen
      rw [OpenOn, List.count_cons_self] at hopen
      rw [← List.nil_append [Token.endMark], faultBehind?_append_endMark, faultBehind?,
        List.append_nil, if_pos (by omega)]
      rfl

/-- The fault that ends the run of a conversion. -/
theorem fault_conversion (accepts : Validator) (text : String) :
    (conversion accepts text).fault = firstFault? accepts (tokensOf text) := by
  rw [firstFault?_eq_faultBehind?, ← faultBehind?_append_endMark]
  exact (tokenRun_conversion accepts text).fault_eq [] rfl

lemma fault_conversion_eq_some_iff {text : String} {fault : Fault} :
    (conversion accepts text).fault = some fault ↔ FirstFault accepts (tokensOf text) fault := by
  rw [fault_conversion, firstFault?_eq_some_iff]

/-- The run of a conversion ends by itself if every operand is accepted and the parentheses
match. -/
lemma fault_conversion_eq_none_iff {text : String} :
    (conversion accepts text).fault = none ↔
      (∀ name, .operand name ∈ tokensOf text → accepts name = true) ∧
        Matching (tokensOf text) := by
  rw [fault_conversion, firstFault?_eq_none_iff]

/-! ## The outcome -/

/-- A run without a fault is judged by what it has emitted. -/
lemma Run.result_of_fault_none {r : Run} (h : r.fault = none) :
    r.result = if Postfix.isBalanced r.emitted then .ok { tokens := r.emitted }
      else .error .countMismatch := by
  rw [result, finalFault?, h]
  cases Postfix.isBalanced r.emitted <;> rfl

lemma Run.result_of_fault_some {r : Run} {fault : Fault} (h : r.fault = some fault) :
    r.result = .error fault := by
  rw [result, finalFault?, h]

lemma convertWith_of_fault_none {text : String} (h : (conversion accepts text).fault = none) :
    convertWith accepts text =
      if Postfix.isBalanced (conversion accepts text).emitted then
        .ok { tokens := (conversion accepts text).emitted }
      else .error (Fault.countMismatch.report text) := by
  rw [convertWith, Run.result_of_fault_none h]
  split <;> rfl

lemma convertWith_of_fault_some {text : String} {fault : Fault}
    (h : (conversion accepts text).fault = some fault) :
    convertWith accepts text = .error (fault.report text) := by
  rw [convertWith, Run.result_of_fault_some h]
  rfl

/-- A conversion answers with what it has emitted, if there was no fault and the count is right. -/
lemma convertWith_eq_ok_iff {text : String} {p : Postfix} :
    convertWith accepts text = .ok p ↔
      (conversion accepts text).fault = none ∧
        Postfix.isBalanced (conversion accepts text).emitted = true ∧
        (conversion accepts text).emitted = p.tokens := by
  constructor
  · intro h
    cases hfault : (conversion accepts text).fault with
    | some fault =>
        rw [convertWith_of_fault_some hfault] at h
        cases h
    | none =>
        rw [convertWith_of_fault_none hfault] at h
        split_ifs at h with hbalanced
        cases h
        exact ⟨rfl, hbalanced, rfl⟩
  · rintro ⟨hfault, hbalanced, htokens⟩
    rw [convertWith_of_fault_none hfault, if_pos hbalanced, htokens]

/-- Every answer is balanced. -/
lemma isBalanced_of_convertWith {text : String} {p : Postfix}
    (h : convertWith accepts text = .ok p) : Postfix.isBalanced p.tokens = true := by
  obtain ⟨-, hbalanced, htokens⟩ := convertWith_eq_ok_iff.1 h
  exact htokens ▸ hbalanced

/-- A conversion fails with the report of its fault. -/
lemma convertWith_eq_error_iff {text : String} {e : ConversionError} :
    convertWith accepts text = .error e ↔
      ∃ fault, (conversion accepts text).finalFault? = some fault ∧ e = fault.report text := by
  rw [convertWith, Run.result]
  cases (conversion accepts text).finalFault? with
  | none => simp [Except.mapError]
  | some fault => simp [Except.mapError, eq_comm]

/-- A fault that is not found by the count ended the run. -/
lemma fault_of_finalFault? {r : Run} {fault : Fault} (h : r.finalFault? = some fault)
    (hne : fault ≠ .countMismatch) : r.fault = some fault := by
  rw [Run.finalFault?] at h
  split at h
  next f hf => rw [hf, h]
  next hf =>
    split_ifs at h
    exact absurd (Option.some.inj h).symm hne

lemma fault_of_convertWith {text : String} {fault : Fault}
    (h : convertWith accepts text = .error (fault.report text)) (hne : fault ≠ .countMismatch) :
    (conversion accepts text).fault = some fault := by
  obtain ⟨f, hfinal, hreport⟩ := convertWith_eq_error_iff.1 h
  obtain rfl := Fault.report_inj.1 hreport
  exact fault_of_finalFault? hfinal hne

/-- A conversion fails by the count if nothing was at fault before and the emitted sequence is not
balanced. -/
lemma convertWith_eq_countMismatch_iff {text : String} :
    convertWith accepts text = .error (Fault.countMismatch.report text) ↔
      (conversion accepts text).fault = none ∧
        Postfix.isBalanced (conversion accepts text).emitted = false := by
  constructor
  · intro h
    cases hfault : (conversion accepts text).fault with
    | some fault =>
        rw [convertWith_of_fault_some hfault] at h
        obtain rfl := Fault.report_inj.1 (Except.error.inj h)
        -- no token is at fault by the count
        rw [fault_conversion] at hfault
        cases firstFault?_eq_some_iff.1 hfault
    | none =>
        rw [convertWith_of_fault_none hfault] at h
        split_ifs at h with hbalanced
        exact ⟨rfl, Bool.eq_false_iff.2 hbalanced⟩
  · rintro ⟨hfault, hbalanced⟩
    rw [convertWith_of_fault_none hfault, hbalanced]
    rfl

/-- **The outcome of every conversion.**  A fault of the tokens decides alone, wherever operators
are still waiting; without one the emitted sequence is the answer if it is balanced.  There are no
other errors, and each carries the expression as it was given. -/
theorem convertWith_outcome (accepts : Validator) (text : String) :
    (∀ name, FirstFault accepts (tokensOf text) (.rejected name) →
      convertWith accepts text = .error (.operandNotRecognized name text)) ∧
    (∀ op, FirstFault accepts (tokensOf text) (.unmatched op) →
      convertWith accepts text =
        .error (.invalidSyntax ⟨"no matching operator for", some op, text⟩)) ∧
    ((∀ fault, ¬ FirstFault accepts (tokensOf text) fault) →
      convertWith accepts text =
        if Postfix.isBalanced (conversion accepts text).emitted then
          .ok { tokens := (conversion accepts text).emitted }
        else
          .error (.invalidSyntax
            ⟨"mismatch between the number of operators and operands", none, text⟩)) ∧
    ∀ e, convertWith accepts text = .error e →
      (∃ name, Token.operand name ∈ tokensOf text ∧ accepts name = false ∧
        e = .operandNotRecognized name text) ∨
      e = .invalidSyntax ⟨"no matching operator for", some .closeParen, text⟩ ∨
      e = .invalidSyntax ⟨"no matching operator for", some .endOfInput, text⟩ ∨
      e = .invalidSyntax ⟨"mismatch between the number of operators and operands", none, text⟩ := by
  have hfault : ∀ fault, FirstFault accepts (tokensOf text) fault →
      convertWith accepts text = .error (fault.report text) := fun fault h =>
    convertWith_of_fault_some ((fault_conversion accepts text).trans (firstFault?_eq_some_iff.2 h))
  have hnone : (∀ fault, ¬ FirstFault accepts (tokensOf text) fault) →
      (conversion accepts text).fault = none := by
    intro h
    rw [fault_conversion]
    exact Option.eq_none_iff_forall_ne_some.2 fun fault heq =>
      h fault (firstFault?_eq_some_iff.1 heq)
  refine ⟨fun name h => hfault _ h, fun op h => hfault _ h,
    fun h => convertWith_of_fault_none (hnone h), fun e he => ?_⟩
  by_cases h : ∃ fault, FirstFault accepts (tokensOf text) fault
  · obtain ⟨fault, h⟩ := h
    obtain rfl := Except.error.inj ((hfault fault h).symm.trans he)
    cases h with
    | @rejected name before after tokens earlier refused =>
        refine Or.inl ⟨name, ?_, refused, rfl⟩
        rw [tokens]
        exact List.mem_append_right _ List.mem_cons_self
    | unopened tokens earlier more => exact Or.inr (Or.inl rfl)
    | unclosed earlier more => exact Or.inr (Or.inr (Or.inl rfl))
  · rw [convertWith_of_fault_none (hnone (not_exists.1 h))] at he
    split_ifs at he
    exact Or.inr (Or.inr (Or.inr (Except.error.inj he).symm))

end ReversePolish
