import ReversePolish.Postfix.Balance

/-!
# Evaluating a sequence

Given a truth value for every operand name, a sequence in reverse Polish order is evaluated with
one stack of values: an operand adds its value, an operator takes its arguments from the top and
adds its result.  `valuesAfter` is the stack after a sequence; it is undefined when an operator
finds too few values.

The stack is as high as the depth that `depthAfter` counts (`map_length_valuesAfter`), so whether
an evaluation succeeds does not depend on the truth values.
-/

namespace ReversePolish.Postfix

/-- The values after a token, the latest first, if the token finds the values it consumes. -/
def valuesAfterToken (env : String → Bool) : List Bool → Token → Option (List Bool)
  | values, .operand name => some (env name :: values)
  | b :: values, .not => some ((!b) :: values)
  | b :: a :: values, .and => some ((a && b) :: values)
  | b :: a :: values, .or => some ((a || b) :: values)
  | _, _ => none

/-- The values after a sequence, the latest first, if every token finds the values it consumes. -/
def valuesAfter (env : String → Bool) (values : List Bool) : List Token → Option (List Bool)
  | [] => some values
  | t :: ts => (valuesAfterToken env values t).bind fun vs => valuesAfter env vs ts

/-- The value of a sequence: the one value that is left at the end, if it is the only one. -/
def value? (env : String → Bool) (ts : List Token) : Option Bool :=
  match valuesAfter env [] ts with
  | some [b] => some b
  | _ => none

theorem value?_eq_some_iff {env : String → Bool} {ts : List Token} {b : Bool} :
    value? env ts = some b ↔ valuesAfter env [] ts = some [b] := by
  rw [value?]
  split
  · rename_i a heq
    simp [heq]
  · rename_i hother
    exact ⟨nofun, fun h => absurd h (hother b)⟩

theorem valuesAfter_append (env : String → Bool) (values : List Bool) (ts us : List Token) :
    valuesAfter env values (ts ++ us) =
      (valuesAfter env values ts).bind fun vs => valuesAfter env vs us := by
  induction ts generalizing values with
  | nil => rfl
  | cons t ts ih => simp only [List.cons_append, valuesAfter, ih, Option.bind_assoc]

/-- A token changes the height of the stack as it changes the depth. -/
theorem map_length_valuesAfterToken (env : String → Bool) (values : List Bool) (t : Token) :
    (valuesAfterToken env values t).map List.length = depthAfterToken values.length t := by
  cases t with
  | operand name => rfl
  | not => cases values <;> rfl
  | and =>
    match values with
    | [] | [_] | _ :: _ :: _ => simp [valuesAfterToken, depthAfterToken, Token.arity]
  | or =>
    match values with
    | [] | [_] | _ :: _ :: _ => simp [valuesAfterToken, depthAfterToken, Token.arity]

/-- A sequence changes the height of the stack as it changes the depth. -/
theorem map_length_valuesAfter (env : String → Bool) (values : List Bool) (ts : List Token) :
    (valuesAfter env values ts).map List.length = depthAfter values.length ts := by
  induction ts generalizing values with
  | nil => rfl
  | cons t ts ih =>
    have hlen := map_length_valuesAfterToken env values t
    rw [valuesAfter, depthAfter_cons, ← hlen]
    cases valuesAfterToken env values t with
    | none => rfl
    | some vs => exact ih vs

end ReversePolish.Postfix
