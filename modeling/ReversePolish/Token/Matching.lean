import ReversePolish.Token.Basic

/-!
# Matching parentheses

A list of tokens has matching parentheses when, read from the left, at no point more have been
closed than opened, and in the end as many.
-/

namespace ReversePolish

/-- The number of opening parentheses. -/
def opened (ts : List Token) : Nat :=
  ts.count (.operator .openParen)

/-- The number of closing parentheses. -/
def closed (ts : List Token) : Nat :=
  ts.count (.operator .closeParen)

/-- The parentheses of the tokens match. -/
def Matching (ts : List Token) : Prop :=
  (∀ before, before <+: ts → closed before ≤ opened before) ∧ closed ts = opened ts

@[simp] theorem opened_append (ts us : List Token) :
    opened (ts ++ us) = opened ts + opened us :=
  List.count_append

@[simp] theorem closed_append (ts us : List Token) :
    closed (ts ++ us) = closed ts + closed us :=
  List.count_append

end ReversePolish
