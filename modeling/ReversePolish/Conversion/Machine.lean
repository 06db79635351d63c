import ReversePolish.Conversion.Error
import ReversePolish.Conversion.Validator
import ReversePolish.Postfix.Basic
import ReversePolish.Precedence
import ReversePolish.Token.Cursor

/-!
# The conversion machine

A conversion reads an expression once, from left to right, and keeps the operators that still
wait for an operand on a stack.  The stack starts with the end mark, and the machine halts when
the stack is empty, which happens when the end of the text meets that mark.

One step offers the next token to the top of the stack.  An operand is asked about and emitted at
once.  An operator is stacked, closes the top, or makes the top be emitted, as the precedence
table says; in the last case it stays *pending* and is offered again to the new top.

* `Machine.step` — one step: what happens, and the machine after it.
* `Machine.weight` — what every step lowers (`weight_lt_of_step`), so that no conversion goes on
  for ever.  A step that reads a token leaves less to read, by more than what it may add to the
  stack, and a step that reads none shortens the stack.
-/

namespace ReversePolish

/-- The state of a conversion. -/
structure Machine where
  /-- The waiting operators, the top first. -/
  stack : List Operator
  /-- The place up to which tokens have been used. -/
  cursor : Cursor
  /-- A token that was read but not used yet, with the place after it. -/
  pending : Option (Token × Cursor)
deriving DecidableEq, Repr

/-- What a step of a conversion does. -/
inductive Event where
  /-- An operand is emitted. -/
  | operand (name : String)
  /-- The incoming operator is stacked over the top. -/
  | shift (op top : Operator)
  /-- The top is emitted before the incoming operator is used. -/
  | reduce (top op : Operator)
  /-- The top and the incoming operator close each other. -/
  | close (top op : Operator)
deriving DecidableEq, Repr

/-- The outcome of a step. -/
inductive Step where
  /-- The stack is empty: there is nothing more to do. -/
  | halt
  | fail (fault : Fault)
  | next (event : Event) (machine : Machine)
deriving DecidableEq, Repr

namespace Machine

/-- The machine before the first token of an expression. -/
def start (expression : String) : Machine where
  stack := [.endOfInput]
  cursor := .start expression
  pending := none

/-- The token that the next step uses, and the place after it. -/
def upcoming (m : Machine) : Token × Cursor :=
  match m.pending with
  | some p => p
  | none => m.cursor.next

def step (accepts : Validator) (m : Machine) : Step :=
  match m.stack with
  | [] => .halt
  | top :: below =>
    let after := m.upcoming.2
    match m.upcoming.1 with
    | .operand name =>
      if accepts name then
        .next (.operand name) { stack := m.stack, cursor := after, pending := none }
      else .fail (.rejected name)
    | .operator op =>
      match top.precedence op with
      | .shift => .next (.shift op top) { stack := op :: m.stack, cursor := after, pending := none }
      | .reduce =>
        match Postfix.Token.ofOperator? top with
        | some _ =>
          .next (.reduce top op)
            { stack := below, cursor := m.cursor, pending := some (.operator op, after) }
        | none => .fail (.unmatched top)
      | .close => .next (.close top op) { stack := below, cursor := after, pending := none }
      | .invalid => .fail (.unmatched op)

/-! ## Every run ends

The weight of a machine counts each stacked operator once and each character to be read twice.  A
pending token weighs as much as one character, unless it is the end mark, which weighs nothing.
-/

/-- The weight of a token that was read, and of what is left after it. -/
def tokenWeight (p : Token × Cursor) : Nat :=
  2 * p.2.rest.length + if p.1 = .endMark then 0 else 2

/-- The weight of a machine, which every step lowers. -/
def weight (m : Machine) : Nat :=
  m.stack.length +
    match m.pending with
    | none => 2 * m.cursor.rest.length
    | some p => tokenWeight p

theorem tokenWeight_of_ne {p : Token × Cursor} (h : p.1 ≠ .endMark) :
    tokenWeight p = 2 * p.2.rest.length + 2 := by
  rw [tokenWeight, if_neg h]

theorem two_mul_le_tokenWeight (p : Token × Cursor) : 2 * p.2.rest.length ≤ tokenWeight p :=
  Nat.le_add_right _ _

/-- Reading a token adds no weight. -/
theorem tokenWeight_next_le (c : Cursor) : tokenWeight c.next ≤ 2 * c.rest.length := by
  by_cases h : c.next.1 = .endMark
  · simp [tokenWeight, h, Cursor.rest_next_eq_nil h]
  · have hlt := Cursor.length_rest_next_lt h
    rw [tokenWeight_of_ne h]
    omega

theorem weight_none (stack : List Operator) (cursor : Cursor) :
    weight ⟨stack, cursor, none⟩ = stack.length + 2 * cursor.rest.length := rfl

theorem weight_some (stack : List Operator) (cursor : Cursor) (p : Token × Cursor) :
    weight ⟨stack, cursor, some p⟩ = stack.length + tokenWeight p := rfl

/-- A machine weighs at least its stack and its upcoming token. -/
theorem stack_add_tokenWeight_le_weight (m : Machine) :
    m.stack.length + tokenWeight m.upcoming ≤ m.weight := by
  obtain ⟨stack, cursor, pending⟩ := m
  cases pending with
  | some p => exact Nat.le_refl _
  | none => exact Nat.add_le_add_left (tokenWeight_next_le cursor) _

/-- A step that goes on lowers the weight. -/
theorem weight_lt_of_step {accepts : Validator} {m m' : Machine} {event : Event}
    (h : m.step accepts = .next event m') : m'.weight < m.weight := by
  have hle := m.stack_add_tokenWeight_le_weight
  have hrest := two_mul_le_tokenWeight m.upcoming
  unfold step at h
  split at h
  · cases h
  · rename_i top below hstack
    rw [hstack, List.length_cons] at hle
    dsimp only at h
    split at h
    · rename_i name htoken
      split at h
      · have hw := tokenWeight_of_ne (p := m.upcoming) (by rw [htoken]; exact Token.noConfusion)
        cases h
        rw [weight_none, hstack, List.length_cons]
        omega
      · cases h
    · rename_i op htoken
      split at h
      · rename_i hrel
        have hop := Operator.ne_endOfInput_of_precedence_eq_shift hrel
        have hw := tokenWeight_of_ne (p := m.upcoming) (by simpa [htoken] using hop)
        cases h
        rw [weight_none, hstack, List.length_cons, List.length_cons]
        omega
      · split at h
        · cases h
          have hw : tokenWeight (.operator op, m.upcoming.2) = tokenWeight m.upcoming := by
            rw [← htoken]
          rw [weight_some, hw]
          omega
        · cases h
      · cases h
        rw [weight_none]
        omega
      · cases h

end Machine

end ReversePolish
