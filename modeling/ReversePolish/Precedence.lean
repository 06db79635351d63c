import ReversePolish.Operator

/-!
# Operator precedence

`precedence top incoming` says what a conversion does when the operator on top of its stack is
`top` and the next operator of the text is `incoming`.  The table encodes three conventions:

* conjunction and disjunction share one level and group to the left, so either one on the stack
  is emitted before the next binary operator is stacked;
* a negation or an opening parenthesis always has to wait for what follows it, so it is stacked
  over anything;
* a parenthesis closes its opener, and the end of the text closes the mark at the bottom.

A closing parenthesis is never stacked, so its row is never consulted; it allows nothing.
-/

namespace ReversePolish

/-- What to do with a pair of operators, one on the stack and one in the text. -/
inductive Precedence where
  /-- Stack the incoming operator: it has to wait for its right operand. -/
  | shift
  /-- Emit the operator on the stack, then look at the incoming one again. -/
  | reduce
  /-- Drop both operators: they close each other. -/
  | close
  /-- The two cannot meet in a rule. -/
  | invalid
deriving DecidableEq, Repr

namespace Operator

/-- The precedence of a stacked operator against the incoming one. -/
def precedence (top incoming : Operator) : Precedence :=
  match top with
  | .and | .or | .not =>
    match incoming with
    | .not | .openParen => .shift
    | .and | .or | .closeParen | .endOfInput => .reduce
  | .openParen =>
    match incoming with
    | .and | .or | .not | .openParen => .shift
    | .closeParen => .close
    | .endOfInput => .invalid
  | .closeParen => .invalid
  | .endOfInput =>
    match incoming with
    | .and | .or | .not | .openParen => .shift
    | .closeParen => .invalid
    | .endOfInput => .close

/-- The end mark is never stacked. -/
theorem ne_endOfInput_of_precedence_eq_shift {top incoming : Operator}
    (h : top.precedence incoming = .shift) : incoming ≠ .endOfInput := by
  revert h
  cases top <;> cases incoming <;> decide

/-- A closing parenthesis is never stacked. -/
theorem ne_closeParen_of_precedence_eq_shift {top incoming : Operator}
    (h : top.precedence incoming = .shift) : incoming ≠ .closeParen := by
  revert h
  cases top <;> cases incoming <;> decide

/-- An opening parenthesis is stacked over everything but a closing one. -/
theorem precedence_openParen {top : Operator} (h : top ≠ .closeParen) :
    top.precedence .openParen = .shift := by
  revert h
  cases top <;> decide

/-- Only logical operators are ever emitted. -/
theorem isLogical_of_precedence_eq_reduce {top incoming : Operator}
    (h : top.precedence incoming = .reduce) : top.isLogical = true := by
  revert h
  cases top <;> cases incoming <;> decide

/-- A logical operator on the stack can meet any operator. -/
theorem precedence_ne_invalid_of_isLogical {top : Operator} (h : top.isLogical = true)
    (incoming : Operator) : top.precedence incoming ≠ .invalid := by
  revert h
  cases top <;> cases incoming <;> decide

/-- Only a pair of parentheses and a pair of end marks close each other. -/
theorem precedence_eq_close_iff {top incoming : Operator} :
    top.precedence incoming = .close ↔
      (top = .openParen ∧ incoming = .closeParen) ∨
        (top = .endOfInput ∧ incoming = .endOfInput) := by
  cases top <;> cases incoming <;> decide

end Operator

end ReversePolish
