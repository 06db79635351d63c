import ReversePolish.Conversion.Trajectory
import ReversePolish.Proofs.Step

/-!
# The stack of a conversion

**In every state of a conversion the stack is layered, or the conversion is over and the stack
empty** (`visited_layered`).  A step that goes on keeps the stack layered, unless it closes the end
mark (`Machine.Move.layered`), and only a stack that holds nothing else lets it do that
(`Machine.Move.stack_of_close`); a state without a stack makes no further step.  So the invariant
holds along every run.

A closing parenthesis is never on a layered stack, and the end mark is on it once.  The row of the
closing parenthesis in the precedence table is therefore never looked up, and nothing that cannot
be emitted is ever to be emitted.
-/

namespace ReversePolish

/-! ## What is on a layered stack -/

lemma IsSegment.isLogical {ops : List Operator} (h : IsSegment ops) :
    ∀ op ∈ ops, op.isLogical = true := by
  obtain ⟨nots, binary, hbinary, rfl⟩ := h
  intro op hop
  rcases List.mem_append.1 hop with hnot | hop
  · rw [List.eq_of_mem_replicate hnot]
    rfl
  · rcases hbinary with rfl | rfl | rfl
    · cases hop
    · rw [List.mem_singleton.1 hop]
      rfl
    · rw [List.mem_singleton.1 hop]
      rfl

/-- An operator that is not logical is in no segment. -/
lemma IsSegment.notMem {ops : List Operator} {op : Operator} (h : IsSegment ops)
    (hop : op.isLogical = false) : op ∉ ops := by
  intro hmem
  rw [h.isLogical op hmem] at hop
  cases hop

lemma Layered.closeParen_notMem {stack : List Operator} (h : Layered stack) :
    .closeParen ∉ stack := by
  induction h with
  | bottom segment =>
      rw [List.mem_append, List.mem_singleton, not_or]
      exact ⟨segment.notMem rfl, Operator.noConfusion⟩
  | group segment below ih =>
      rw [List.mem_append, List.mem_cons, not_or, not_or]
      exact ⟨segment.notMem rfl, Operator.noConfusion, ih⟩

lemma Layered.count_endOfInput {stack : List Operator} (h : Layered stack) :
    stack.count .endOfInput = 1 := by
  induction h with
  | bottom segment =>
      rw [List.count_append, List.count_eq_zero.2 (segment.notMem rfl)]
      rfl
  | group segment below ih =>
      rw [List.count_append, List.count_eq_zero.2 (segment.notMem rfl),
        List.count_cons_of_ne Operator.noConfusion, ih]

/-! ## Along a run -/

namespace Machine

variable {accepts : Validator} {m m' : Machine}

lemma step_of_stack_nil (h : m.stack = []) : m.step accepts = .halt := by
  rw [step, h]

lemma stack_ne_nil_of_step {event : Event} (h : m.step accepts = .next event m') :
    m.stack ≠ [] := by
  intro hstack
  rw [step_of_stack_nil hstack] at h
  cases h

/-- The end mark is closed on a stack that holds nothing else. -/
lemma Move.stack_of_close (h : Move accepts m (.close .endOfInput .endOfInput) m')
    (hl : Layered m.stack) : m.stack = [.endOfInput] := by
  cases h with
  | close stack token precedence =>
      rw [stack] at hl ⊢
      rw [hl.below_endOfInput]

/-- A state of a run that starts with a layered stack has a layered stack or none. -/
lemma layered_or_nil_of_mem_visited (hl : Layered m.stack) :
    ∀ a ∈ m.visited accepts, Layered a.stack ∨ a.stack = [] := by
  refine forall_mem_visited (.inl hl) fun a event b hstep ha => ?_
  have hlayered := ha.resolve_right (stack_ne_nil_of_step hstep)
  exact ((move_of_step hstep).layered hlayered).imp_right And.right

/-- The stack is only emptied by closing the end mark. -/
lemma exists_close_of_mem_visited (hl : Layered m.stack) {a : Machine}
    (ha : a ∈ m.visited accepts) (hstack : a.stack = []) :
    ∃ b ∈ m.visited accepts, b.stack = [.endOfInput] ∧
      b.step accepts = .next (.close .endOfInput .endOfInput) a := by
  rcases exists_step_of_mem_visited ha with rfl | ⟨b, hb, event, hstep⟩
  · exact absurd hstack hl.ne_nil
  · have hmove := move_of_step hstep
    have hlayered := (layered_or_nil_of_mem_visited hl b hb).resolve_right
      (stack_ne_nil_of_step hstep)
    rcases hmove.layered hlayered with ha | ⟨rfl, -⟩
    · exact absurd hstack ha.ne_nil
    · exact ⟨b, hb, hmove.stack_of_close hlayered, hstep⟩

end Machine

/-- **The stack discipline.**  In every state of a conversion the stack is layered, with no closing
parenthesis and one end mark on it; or it is empty, and the conversion is over because the end mark
has just been closed.  Where an operator is offered to the top, the top is no closing parenthesis,
and it can be emitted if it is to be. -/
theorem visited_layered (accepts : Validator) (text : String) :
    ∀ m ∈ (Machine.start text).visited accepts,
      (Layered m.stack ∧ .closeParen ∉ m.stack ∧ m.stack.count .endOfInput = 1 ∨
        m.stack = [] ∧ m.step accepts = .halt ∧
          ∃ before ∈ (Machine.start text).visited accepts, before.stack = [.endOfInput] ∧
            before.step accepts = .next (.close .endOfInput .endOfInput) m) ∧
      ∀ top below op, m.stack = top :: below → m.upcoming.1 = .operator op →
        top ≠ .closeParen ∧
          (top.precedence op = .reduce → Postfix.Token.ofOperator? top ≠ none) := by
  intro m hm
  have hstart : Layered (Machine.start text).stack := .bottom .nil
  have hstack := Machine.layered_or_nil_of_mem_visited hstart m hm
  constructor
  · rcases hstack with hlayered | hnil
    · exact Or.inl ⟨hlayered, hlayered.closeParen_notMem, hlayered.count_endOfInput⟩
    · exact Or.inr ⟨hnil, Machine.step_of_stack_nil hnil,
        Machine.exists_close_of_mem_visited hstart hm hnil⟩
  · intro top below op htop _
    have hlayered := hstack.resolve_right (by rw [htop]; exact List.cons_ne_nil _ _)
    constructor
    · rintro rfl
      exact hlayered.closeParen_notMem (htop ▸ List.mem_cons_self)
    · intro hreduce hnone
      have hsome := Machine.isSome_ofOperator?_of_reduce hreduce
      rw [hnone] at hsome
      cases hsome

/-- A stack of two segments, and the end of the same conversion. -/
theorem visited_layered_nested :
    ⟨[.not, .or, .openParen, .not, .endOfInput], ⟨6, [')']⟩, none⟩ ∈
        (Machine.start "!(a|!b)").visited acceptAll ∧
      Layered [.not, .or, .openParen, .not, .endOfInput] ∧
    ⟨[], ⟨8, []⟩, none⟩ ∈ (Machine.start "!(a|!b)").visited acceptAll ∧
      ∃ before ∈ (Machine.start "!(a|!b)").visited acceptAll, before.stack = [.endOfInput] ∧
        before.step acceptAll = .next (.close .endOfInput .endOfInput) ⟨[], ⟨8, []⟩, none⟩ := by
  have hnested : ⟨[.not, .or, .openParen, .not, .endOfInput], ⟨6, [')']⟩, none⟩ ∈
      (Machine.start "!(a|!b)").visited acceptAll := by
    decide +kernel
  have hend : ⟨[], ⟨8, []⟩, none⟩ ∈ (Machine.start "!(a|!b)").visited acceptAll := by
    decide +kernel
  obtain ⟨hlayered, -, -⟩ :=
    (visited_layered _ _ _ hnested).1.resolve_right fun h => List.cons_ne_nil _ _ h.1
  obtain ⟨-, -, hclosed⟩ :=
    (visited_layered _ _ _ hend).1.resolve_left fun h => h.1.ne_nil rfl
  exact ⟨hnested, hlayered, hend, hclosed⟩

end ReversePolish
