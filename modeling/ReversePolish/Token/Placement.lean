import ReversePolish.Token.Basic

/-!
# Placement of tokens

Whether tokens stand in a sensible order can be judged from neighbours alone.  The start of a
text, a binary operator, a negation and an opening parenthesis want an operand to follow, or
something that leads to one; an operand and a closing parenthesis want what may come after an
operand.  The end mark stands at both ends.
-/

namespace ReversePolish

namespace Token

/-- Whether an operand, a negation or an opening parenthesis has to follow.  The end mark is taken
for the start of the text. -/
def wantsOperand : Token → Bool
  | .operand _ | .operator .closeParen => false
  | .operator .and | .operator .or | .operator .not | .operator .openParen
  | .operator .endOfInput => true

/-- Whether the token is an operand or leads to one.  The end mark is taken for the end of the
text. -/
def leadsOperand : Token → Bool
  | .operand _ | .operator .not | .operator .openParen => true
  | .operator .and | .operator .or | .operator .closeParen | .operator .endOfInput => false

/-- Whether the second token may stand right behind the first. -/
def MayFollow (a b : Token) : Prop :=
  b.leadsOperand = a.wantsOperand

instance (a b : Token) : Decidable (MayFollow a b) :=
  inferInstanceAs (Decidable (_ = _))

end Token

/-- Every token of the list, and the end mark after it, may stand where it stands. -/
def WellPlacedAfter (before : Token) : List Token → Prop
  | [] => before.MayFollow .endMark
  | t :: ts => before.MayFollow t ∧ WellPlacedAfter t ts

/-- The tokens of a text are well placed, its start and its end included. -/
def WellPlaced (ts : List Token) : Prop :=
  WellPlacedAfter .endMark ts

end ReversePolish
