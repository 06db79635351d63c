import ReversePolish.Postfix.Basic
import ReversePolish.Precedence

/-!
# Exchanging conjunction and disjunction

Conjunction and disjunction share one level, so a rule keeps its grouping when the two are
exchanged throughout.  The exchange is defined on operators, on the characters that stand for
them, and on sequences in reverse Polish order; doing it twice changes nothing.
-/

namespace ReversePolish

/-- The operator with conjunction and disjunction exchanged. -/
def Operator.exchange : Operator → Operator
  | .and => .or
  | .or => .and
  | .not => .not
  | .openParen => .openParen
  | .closeParen => .closeParen
  | .endOfInput => .endOfInput

def exchangeSign (c : Char) : Char :=
  if c = '&' then '|' else if c = '|' then '&' else c

def exchangeSigns (text : String) : String :=
  String.ofList (text.toList.map exchangeSign)

namespace Postfix

def Token.exchange : Token → Token
  | .operand name => .operand name
  | .and => .or
  | .or => .and
  | .not => .not

def exchange (p : Postfix) : Postfix where
  tokens := p.tokens.map Token.exchange

@[simp] theorem Token.arity_exchange (t : Token) : t.exchange.arity = t.arity := by
  cases t <;> rfl

@[simp] theorem Token.exchange_exchange (t : Token) : t.exchange.exchange = t := by
  cases t <;> rfl

end Postfix

@[simp] theorem Operator.exchange_exchange (op : Operator) : op.exchange.exchange = op := by
  cases op <;> rfl

/-- The exchange keeps what a pair of operators does. -/
@[simp] theorem Operator.precedence_exchange (top incoming : Operator) :
    top.exchange.precedence incoming.exchange = top.precedence incoming := by
  cases top <;> cases incoming <;> rfl

/-- The exchanged sign stands for the exchanged operator. -/
theorem ofSymbol?_exchangeSign (c : Char) :
    Operator.ofSymbol? (exchangeSign c) = (Operator.ofSymbol? c).map Operator.exchange := by
  cases hop : Operator.ofSymbol? c with
  | none =>
    have hand : c ≠ '&' := fun hc => absurd (hc ▸ hop) (by decide)
    have hor : c ≠ '|' := fun hc => absurd (hc ▸ hop) (by decide)
    rw [exchangeSign, if_neg hand, if_neg hor, hop]
    rfl
  | some op =>
    have hc := Operator.symbol?_of_ofSymbol? hop
    cases op <;> simp only [Operator.symbol?, Option.some.injEq, reduceCtorEq] at hc <;>
      subst hc <;> rfl

end ReversePolish
