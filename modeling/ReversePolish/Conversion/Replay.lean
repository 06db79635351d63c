import ReversePolish.Conversion.Log

/-!
# Replaying a log

The records of a log can be carried out again on a stack of operators, without the text: each
record says what has to be on top and what becomes of it.  `Log.replay` is undefined as soon as a
record does not fit the stack, so that it tells a faithful log from one that lacks a record or has
one too many.
-/

namespace ReversePolish.Log

namespace Record

/-- The stack after a record, if the record fits it.  The report of a fault changes nothing. -/
def replay (stack : List Operator) : Record → Option (List Operator)
  | .shift op top => if stack.head? = some top then some (op :: stack) else none
  | .reduce top _ =>
    if stack.head? = some top ∧ top.isLogical = true then some stack.tail else none
  | .close top _ => if stack.head? = some top then some stack.tail else none
  | .failed .. => some stack

/-- The operator of the text that a record uses up, if it uses one up. -/
def consumed? : Record → Option Operator
  | .shift op _ => some op
  | .close _ op => some op
  | .reduce .. | .failed .. => none

/-- The token that a record emits, if it emits one. -/
def emitted? : Record → Option Postfix.Token
  | .reduce top _ => Postfix.Token.ofOperator? top
  | .shift .. | .close .. | .failed .. => none

end Record

/-- The stack after a log, if every record fits. -/
def replay (stack : List Operator) : List Record → Option (List Operator)
  | [] => some stack
  | r :: rs => (r.replay stack).bind fun s => replay s rs

/-- Every operator that is emitted makes way for the operator that is used up next, or for the
one at which the conversion fails. -/
def MakesWay (failing : Option Operator) : List Record → Prop
  | [] => True
  | r :: rs =>
    (∀ top op, r = .reduce top op → (rs.findSome? Record.consumed?).or failing = some op) ∧
      MakesWay failing rs

section Steps

variable {op top : Operator} {below : List Operator} {rs : List Record}

@[simp] theorem replay_shift :
    replay (top :: below) (.shift op top :: rs) = replay (op :: top :: below) rs := by
  simp [replay, Record.replay]

theorem replay_reduce (logical : top.isLogical = true) :
    replay (top :: below) (.reduce top op :: rs) = replay below rs := by
  simp [replay, Record.replay, logical]

@[simp] theorem replay_close :
    replay (top :: below) (.close top op :: rs) = replay below rs := by
  simp [replay, Record.replay]

end Steps

end ReversePolish.Log
