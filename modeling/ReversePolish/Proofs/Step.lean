import Mathlib.Tactic.Lemma
import ReversePolish.Conversion.Discipline
import ReversePolish.Conversion.Machine

/-!
# What one step can do

`Machine.Move` lists the four things that a step can do before the machine goes on, and
`Machine.Stuck` the two ways in which it can fail.  Every later argument about runs distinguishes
these cases and does not open `Machine.step` again (`outcome_step`, and from it `move_of_step` and
`stuck_of_step`).

**The stack stays layered.**  `Layered` is kept by every move (`Move.layered`) but the one that
closes the end mark, which empties the stack.  Of a layered stack only three things can be on top
(`Layered.shape`): the end mark with nothing below it, an opening parenthesis, or a logical
operator.  In particular a closing parenthesis never is.
-/

namespace ReversePolish

/-! ## Layered stacks -/

/-- What can be on top of a layered stack, and that a layered stack is below it. -/
theorem Layered.shape {stack : List Operator} (h : Layered stack) :
    stack = [.endOfInput] ∨ (∃ below, stack = .openParen :: below ∧ Layered below) ∨
      ∃ op below, stack = op :: below ∧ op.isLogical = true ∧ Layered below := by
  -- a segment is empty, or its top is logical and a segment is left below it
  have hsegment : ∀ {ops : List Operator}, IsSegment ops →
      ops = [] ∨ ∃ op more, ops = op :: more ∧ op.isLogical = true ∧ IsSegment more := by
    rintro ops ⟨nots, binary, hb, rfl⟩
    cases nots with
    | zero =>
        rcases hb with rfl | rfl | rfl
        · exact Or.inl rfl
        · exact Or.inr ⟨.and, [], rfl, rfl, .nil⟩
        · exact Or.inr ⟨.or, [], rfl, rfl, .nil⟩
    | succ n => exact Or.inr ⟨.not, _, rfl, rfl, n, binary, hb, rfl⟩
  cases h with
  | bottom segment =>
      rcases hsegment segment with rfl | ⟨op, more, rfl, hop, hmore⟩
      · exact Or.inl rfl
      · exact Or.inr (Or.inr ⟨op, _, rfl, hop, .bottom hmore⟩)
  | group segment below =>
      rcases hsegment segment with rfl | ⟨op, more, rfl, hop, hmore⟩
      · exact Or.inr (Or.inl ⟨_, rfl, below⟩)
      · exact Or.inr (Or.inr ⟨op, _, rfl, hop, .group hmore below⟩)

/-- What the top of a layered stack can be, and what is then below it. -/
lemma Layered.cons_cases {top : Operator} {below : List Operator} (h : Layered (top :: below)) :
    (top = .endOfInput ∧ below = []) ∨ (top = .openParen ∧ Layered below) ∨
      (top.isLogical = true ∧ Layered below) := by
  rcases h.shape with heq | ⟨_, heq, hbelow⟩ | ⟨_, _, heq, hlogical, hbelow⟩ <;>
    obtain ⟨rfl, rfl⟩ := List.cons.inj heq
  · exact Or.inl ⟨rfl, rfl⟩
  · exact Or.inr (Or.inl ⟨rfl, hbelow⟩)
  · exact Or.inr (Or.inr ⟨hlogical, hbelow⟩)

lemma Layered.ne_nil {stack : List Operator} (h : Layered stack) : stack ≠ [] := by
  rcases h.shape with rfl | ⟨_, rfl, _⟩ | ⟨_, _, rfl, _⟩ <;> exact List.cons_ne_nil _ _

/-- A negation may be put on any layered stack. -/
lemma Layered.not {stack : List Operator} (h : Layered stack) : Layered (.not :: stack) := by
  cases h with
  | bottom segment => exact .bottom segment.not
  | group segment below => exact .group segment.not below

/-- A binary operator may be put on a layered stack whose top is not logical. -/
lemma Layered.binary {op top : Operator} {below : List Operator} (h : Layered (top :: below))
    (hop : op = .and ∨ op = .or) (htop : top.isLogical = false) :
    Layered (op :: top :: below) := by
  have hsegment : IsSegment [op] := by
    rcases hop with rfl | rfl
    · exact ⟨0, [.and], Or.inr (Or.inl rfl), rfl⟩
    · exact ⟨0, [.or], Or.inr (Or.inr rfl), rfl⟩
  rcases h.cons_cases with ⟨rfl, rfl⟩ | ⟨rfl, hbelow⟩ | ⟨hlogical, -⟩
  · exact .bottom hsegment
  · exact .group hsegment hbelow
  · rw [htop] at hlogical
    exact absurd hlogical Bool.false_ne_true

/-- What may be stacked leaves the stack layered. -/
lemma Layered.shift {op top : Operator} {below : List Operator} (h : Layered (top :: below))
    (precedence : top.precedence op = .shift) : Layered (op :: top :: below) := by
  cases op with
  | not => exact h.not
  | openParen => exact h.openParen
  | and => exact h.binary (Or.inl rfl) (by revert precedence; cases top <;> decide)
  | or => exact h.binary (Or.inr rfl) (by revert precedence; cases top <;> decide)
  | closeParen => exact absurd rfl (Operator.ne_closeParen_of_precedence_eq_shift precedence)
  | endOfInput => exact absurd rfl (Operator.ne_endOfInput_of_precedence_eq_shift precedence)

/-- Below anything but the end mark there is a layered stack. -/
lemma Layered.tail {top : Operator} {below : List Operator} (h : Layered (top :: below))
    (htop : top ≠ .endOfInput) : Layered below := by
  rcases h.cons_cases with ⟨hend, -⟩ | ⟨-, hbelow⟩ | ⟨-, hbelow⟩
  · exact absurd hend htop
  · exact hbelow
  · exact hbelow

/-- Below the end mark there is nothing. -/
lemma Layered.below_endOfInput {below : List Operator} (h : Layered (.endOfInput :: below)) :
    below = [] := by
  rcases h.cons_cases with ⟨-, hbelow⟩ | ⟨htop, -⟩ | ⟨hlogical, -⟩
  · exact hbelow
  · cases htop
  · cases hlogical

/-- Below an operator that is to be emitted there is a layered stack. -/
lemma Layered.reduce {op top : Operator} {below : List Operator} (h : Layered (top :: below))
    (precedence : top.precedence op = .reduce) : Layered below := by
  refine h.tail ?_
  rintro rfl
  exact absurd (Operator.isLogical_of_precedence_eq_reduce precedence) Bool.false_ne_true

namespace Machine

variable {accepts : Validator} {m m' : Machine}

/-- What a step does that lets the machine go on. -/
inductive Move (accepts : Validator) (m : Machine) : Event → Machine → Prop where
  | operand {name : String} (nonempty : m.stack ≠ [])
      (token : m.upcoming.1 = .operand name) (accepted : accepts name = true) :
      Move accepts m (.operand name) ⟨m.stack, m.upcoming.2, none⟩
  | shift {op top : Operator} {below : List Operator} (stack : m.stack = top :: below)
      (token : m.upcoming.1 = .operator op) (precedence : top.precedence op = .shift) :
      Move accepts m (.shift op top) ⟨op :: m.stack, m.upcoming.2, none⟩
  | reduce {op top : Operator} {below : List Operator} (stack : m.stack = top :: below)
      (token : m.upcoming.1 = .operator op) (precedence : top.precedence op = .reduce) :
      Move accepts m (.reduce top op) ⟨below, m.cursor, some m.upcoming⟩
  | close {op top : Operator} {below : List Operator} (stack : m.stack = top :: below)
      (token : m.upcoming.1 = .operator op) (precedence : top.precedence op = .close) :
      Move accepts m (.close top op) ⟨below, m.upcoming.2, none⟩

/-- How a step fails. -/
inductive Stuck (accepts : Validator) (m : Machine) : Fault → Prop where
  | rejected {name : String} (nonempty : m.stack ≠ [])
      (token : m.upcoming.1 = .operand name) (refused : accepts name = false) :
      Stuck accepts m (.rejected name)
  | unmatched {op top : Operator} {below : List Operator} (stack : m.stack = top :: below)
      (token : m.upcoming.1 = .operator op) (precedence : top.precedence op = .invalid) :
      Stuck accepts m (.unmatched op)

/-- The outcomes that a step can have. -/
inductive Outcome (accepts : Validator) (m : Machine) : Step → Prop where
  | halt (stack : m.stack = []) : Outcome accepts m .halt
  | fail {fault : Fault} (stuck : Stuck accepts m fault) : Outcome accepts m (.fail fault)
  | next {event : Event} {m' : Machine} (move : Move accepts m event m') :
      Outcome accepts m (.next event m')

/-- An emitted operator always has a token, so that the branch of `step` for one without is never
taken. -/
lemma isSome_ofOperator?_of_reduce {top op : Operator} (h : top.precedence op = .reduce) :
    (Postfix.Token.ofOperator? top).isSome = true := by
  rw [Postfix.Token.isSome_ofOperator?]
  exact Operator.isLogical_of_precedence_eq_reduce h

/-- **What a step does**: nothing without a stack, and otherwise it fails or moves on. -/
theorem outcome_step (accepts : Validator) (m : Machine) :
    Outcome accepts m (m.step accepts) := by
  unfold step
  split
  next hstack => exact .halt hstack
  next top below hstack =>
    have hne : m.stack ≠ [] := by rw [hstack]; exact List.cons_ne_nil _ _
    dsimp only
    split
    next name htoken =>
      split
      next haccepts => exact .next (.operand hne htoken haccepts)
      next haccepts => exact .fail (.rejected hne htoken (Bool.eq_false_iff.2 haccepts))
    next op htoken =>
      split
      next hrel => exact .next (.shift hstack htoken hrel)
      next hrel =>
        split
        next =>
          rw [← htoken]
          exact .next (.reduce hstack htoken hrel)
        next hnone =>
          have hsome := isSome_ofOperator?_of_reduce hrel
          rw [hnone] at hsome
          cases hsome
      next hrel => exact .next (.close hstack htoken hrel)
      next hrel => exact .fail (.unmatched hstack htoken hrel)

theorem move_of_step {event : Event} (h : m.step accepts = .next event m') :
    Move accepts m event m' := by
  have houtcome := outcome_step accepts m
  rw [h] at houtcome
  cases houtcome with
  | next move => exact move

theorem stuck_of_step {fault : Fault} (h : m.step accepts = .fail fault) :
    Stuck accepts m fault := by
  have houtcome := outcome_step accepts m
  rw [h] at houtcome
  cases houtcome with
  | fail stuck => exact stuck

/-- Only a stack without operators makes the machine halt. -/
lemma stack_of_halt (h : m.step accepts = .halt) : m.stack = [] := by
  have houtcome := outcome_step accepts m
  rw [h] at houtcome
  cases houtcome with
  | halt stack => exact stack

/-- **A move keeps the stack layered, or empties it by closing the end mark.** -/
theorem Move.layered {event : Event} (h : Move accepts m event m') (hl : Layered m.stack) :
    Layered m'.stack ∨ (event = .close .endOfInput .endOfInput ∧ m'.stack = []) := by
  cases h with
  | operand => exact Or.inl hl
  | @shift op top below stack token precedence =>
      refine Or.inl ?_
      show Layered (op :: m.stack)
      rw [stack] at hl ⊢
      exact hl.shift precedence
  | @reduce op top below stack token precedence =>
      rw [stack] at hl
      exact Or.inl (hl.reduce precedence)
  | @close op top below stack token precedence =>
      rw [stack] at hl
      rcases Operator.precedence_eq_close_iff.1 precedence with ⟨rfl, rfl⟩ | ⟨rfl, rfl⟩
      · exact Or.inl (hl.tail Operator.noConfusion)
      · exact Or.inr ⟨rfl, hl.below_endOfInput⟩

end Machine

end ReversePolish
