import ReversePolish.Expr.Rule

/-!
# Bracket trees

Tokens with matching parentheses form a tree whose groups are the pairs of parentheses.  Nothing
is asked of the order of operands and operators, so that a tree also holds `a b &` or `& a b`.
`Bracketed.ofTokens` reads the tree, and `Bracketed.tokens` writes it.

`Bracketed.translate` puts such a tree into reverse Polish order by recursion on groups.  Within a
group two things wait to be emitted: the last binary operator, and the negations since then.
Operands and groups are emitted as they come; a binary operator and the end of the group first
emit what waits, the negations before the operator.
-/

namespace ReversePolish

/-- A list of operands, logical operators and groups. -/
inductive Bracketed where
  | nil
  | operand (name : String) (rest : Bracketed)
  | and (rest : Bracketed)
  | or (rest : Bracketed)
  | not (rest : Bracketed)
  | group (inner rest : Bracketed)
deriving DecidableEq, Repr

namespace Bracketed

/-- The tokens of the tree, left to right. -/
def tokens : Bracketed → List Token
  | .nil => []
  | .operand name rest => .operand name :: rest.tokens
  | .and rest => .operator .and :: rest.tokens
  | .or rest => .operator .or :: rest.tokens
  | .not rest => .operator .not :: rest.tokens
  | .group inner rest => parenthesized inner.tokens ++ rest.tokens

/-- Reads tokens from the right: the tree in front of the first parenthesis that is closed without
having been opened, and the trees behind each such parenthesis. -/
def levels : List Token → Bracketed × List Bracketed
  | [] => (.nil, [])
  | .operand name :: ts => (.operand name (levels ts).1, (levels ts).2)
  | .operator .and :: ts => (.and (levels ts).1, (levels ts).2)
  | .operator .or :: ts => (.or (levels ts).1, (levels ts).2)
  | .operator .not :: ts => (.not (levels ts).1, (levels ts).2)
  | .operator .openParen :: ts =>
      (.group (levels ts).1 ((levels ts).2.headD .nil), (levels ts).2.tail)
  | .operator .closeParen :: ts => (.nil, (levels ts).1 :: (levels ts).2)
  | .operator .endOfInput :: ts => levels ts

/-- The tree of tokens with matching parentheses. -/
def ofTokens (ts : List Token) : Bracketed :=
  (levels ts).1

/-- What waits in a group: negations, and below them perhaps a binary operator. -/
def waiting (nots : Nat) (binary : Option Postfix.Token) : List Postfix.Token :=
  List.replicate nots .not ++ binary.toList

/-- The tree in reverse Polish order, given what waits. -/
def translateWith (nots : Nat) (binary : Option Postfix.Token) : Bracketed → List Postfix.Token
  | .nil => waiting nots binary
  | .operand name rest => .operand name :: rest.translateWith nots binary
  | .and rest => waiting nots binary ++ rest.translateWith 0 (some .and)
  | .or rest => waiting nots binary ++ rest.translateWith 0 (some .or)
  | .not rest => rest.translateWith (nots + 1) binary
  | .group inner rest => inner.translateWith 0 none ++ rest.translateWith nots binary

/-- The tree in reverse Polish order. -/
def translate (b : Bracketed) : List Postfix.Token :=
  b.translateWith 0 none

end Bracketed

end ReversePolish
