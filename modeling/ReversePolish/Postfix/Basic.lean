import ReversePolish.Token.Basic

/-!
# Rules in reverse Polish order

In reverse Polish order an operator stands behind its operands, so that a rule needs no
parentheses.  A `Postfix.Token` is an operand or one of the three logical operators; a `Postfix`
is a sequence of them, with nothing said yet about whether the operands suffice for the operators
(`Postfix.Balance` says that).

* `Postfix.Token.ofOperator?` — the operators that can stand in a sequence; they are the logical
  ones (`isSome_ofOperator?`).
* `Postfix.Token.toToken` — the token of a rule that is written in the same way.
* `Postfix.text` — the written form.  A name is written as it is, whatever characters it holds.
-/

namespace ReversePolish

/-- A token of a sequence in reverse Polish order. -/
inductive Postfix.Token where
  | operand (name : String)
  | and
  | or
  | not
deriving DecidableEq, Repr

/-- A sequence in reverse Polish order. -/
structure Postfix where
  tokens : List Postfix.Token
deriving DecidableEq, Repr

namespace Postfix

namespace Token

/-- The token an operator is emitted as.  Only logical operators are. -/
def ofOperator? : Operator → Option Token
  | .and => some .and
  | .or => some .or
  | .not => some .not
  | .openParen | .closeParen | .endOfInput => none

/-- The token of a rule that is written like this one. -/
def toToken : Token → ReversePolish.Token
  | .operand name => .operand name
  | .and => .operator .and
  | .or => .operator .or
  | .not => .operator .not

/-- How the token is written. -/
def text : Token → String
  | .operand name => name
  | .and => "&"
  | .or => "|"
  | .not => "!"

/-- The number of values that the token consumes. -/
def arity : Token → Nat
  | .operand _ => 0
  | .not => 1
  | .and | .or => 2

def name? : Token → Option String
  | .operand name => some name
  | .and | .or | .not => none

/-- The logical operators are the ones with a token. -/
theorem isSome_ofOperator? (op : Operator) : (ofOperator? op).isSome = op.isLogical := by
  cases op <;> rfl

theorem toToken_of_ofOperator? {op : Operator} {t : Token} (h : ofOperator? op = some t) :
    t.toToken = .operator op := by
  cases op <;> cases h <;> rfl

/-- A token is written in the same way in both orders. -/
theorem toList_text (t : Token) : t.text.toList = t.toToken.text := by
  cases t <;> rfl

theorem toToken_inj {t u : Token} : t.toToken = u.toToken ↔ t = u := by
  cases t <;> cases u <;> simp [toToken]

end Token

/-! ## The whole sequence -/

protected def empty : Postfix where
  tokens := []

instance : Inhabited Postfix where
  default := .empty

/-- The written tokens, first to last. -/
def strings (p : Postfix) : List String :=
  p.tokens.map Token.text

/-- The written form: the tokens with one space between neighbours. -/
def text (p : Postfix) : String :=
  " ".intercalate p.strings

instance : ToString Postfix where
  toString := text

/-- The names of the operands, first to last. -/
def names (p : Postfix) : List String :=
  p.tokens.filterMap Token.name?

end Postfix

end ReversePolish
