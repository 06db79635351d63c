import ReversePolish.Expr.Basic

/-!
# Writing a tree as a rule

A rule groups conjunctions and disjunctions to the left, and a negation applies to the operand or
group behind it.  A tree can therefore be written with parentheses in two places only: around a
binary right operand, and around a binary operand of a negation.
-/

namespace ReversePolish

/-- Tokens in parentheses. -/
def parenthesized (ts : List Token) : List Token :=
  .operator .openParen :: ts ++ [.operator .closeParen]

namespace Expr

/-- The tokens of the tree as a rule, with no more parentheses than its shape needs. -/
def ruleTokens : Expr → List Token
  | .name n => [.operand n]
  | .not e => .operator .not :: argument e e.ruleTokens
  | .and l r => l.ruleTokens ++ .operator .and :: argument r r.ruleTokens
  | .or l r => l.ruleTokens ++ .operator .or :: argument r r.ruleTokens
where
  /-- The tokens of a tree where a factor is expected: in parentheses if its root is binary. -/
  argument (e : Expr) (ts : List Token) : List Token :=
    if e.isBinary then parenthesized ts else ts

/-- The rule as text, without blanks. -/
def rule (e : Expr) : String :=
  String.ofList (e.ruleTokens.flatMap Token.text)

example : rule (.and (.or (.name "a") (.name "b")) (.not (.or (.name "c") (.name "d")))) =
    "a|b&!(c|d)" := by
  decide +kernel

end Expr

end ReversePolish
