import ReversePolish.Conversion.Run

/-!
# Converting without a pending token

The conversion machine keeps a token in hand while it emits operators before it.  It could as well
put the token back and read it again: emitting an operator then leaves the cursor where it is.
`rescan` is the conversion in that form.  Its state is only a stack and a cursor, and it makes the
step of a machine that has no token in hand (`rescan_eq`).
-/

namespace ReversePolish

/-- The run of a conversion that reads every token anew. -/
def rescan (accepts : Validator) (stack : List Operator) (c : Cursor) : Run :=
  match stack with
  | [] => { events := [], fault := none }
  | top :: below =>
    match _htoken : c.next.1 with
    | .operand name =>
      if accepts name then (rescan accepts (top :: below) c.next.2).after (.operand name)
      else { events := [], fault := some (.rejected name) }
    | .operator op =>
      match _hrel : top.precedence op with
      | .shift => (rescan accepts (op :: top :: below) c.next.2).after (.shift op top)
      | .reduce =>
        if top.isLogical then (rescan accepts below c).after (.reduce top op)
        else { events := [], fault := some (.unmatched top) }
      | .close => (rescan accepts below c.next.2).after (.close top op)
      | .invalid => { events := [], fault := some (.unmatched op) }
termination_by stack.length + 2 * c.rest.length
decreasing_by
  · have hlt := Cursor.length_rest_next_lt (c := c) (by simp [‹c.next.1 = _›])
    simp only [List.length_cons]
    omega
  · have hop := Operator.ne_endOfInput_of_precedence_eq_shift ‹top.precedence op = .shift›
    have hlt := Cursor.length_rest_next_lt (c := c) (by simpa [‹c.next.1 = _›] using hop)
    simp only [List.length_cons]
    omega
  · simp only [List.length_cons]
    omega
  · have hle := Cursor.length_rest_next_le c
    simp only [List.length_cons]
    omega

/-- Reading every token anew is making the step of a machine without a pending token, and going on
at the cursor that this machine comes to. -/
theorem rescan_eq (accepts : Validator) (stack : List Operator) (c : Cursor) :
    rescan accepts stack c =
      match Machine.step accepts ⟨stack, c, none⟩ with
      | .halt => { events := [], fault := none }
      | .fail fault => { events := [], fault := some fault }
      | .next event m => (rescan accepts m.stack m.cursor).after event := by
  rw [rescan.eq_def, Machine.step]
  cases stack with
  | nil => rfl
  | cons top below =>
    dsimp only [Machine.upcoming]
    cases c.next.1 with
    | operand name =>
      dsimp only
      split <;> rfl
    | operator op =>
      dsimp only
      cases top.precedence op with
      | shift | close | invalid => rfl
      | reduce =>
        rw [← Postfix.Token.isSome_ofOperator?]
        cases Postfix.Token.ofOperator? top <;> rfl

end ReversePolish
