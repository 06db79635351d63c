import ReversePolish.Conversion.Error
import ReversePolish.Conversion.Validator
import ReversePolish.Token.Matching

/-!
# The first fault of a list of tokens

Whether a conversion fails at a token depends only on the tokens before it: an operand is at fault
if its name is rejected, and a closing parenthesis if those before it have closed all that were
opened.  The first such token decides, and nothing behind it is looked at.  When no token is at
fault, a parenthesis may still be open at the end.

The definitions read the tokens as they stand in the text and know nothing of a stack.
`firstFault?` computes the fault, and `FirstFault` says where it is.
-/

namespace ReversePolish

/-- The fault of a token that stands behind others, if it is at fault. -/
def faultAt? (accepts : Validator) (before : List Token) : Token → Option Fault
  | .operand name => if accepts name then none else some (.rejected name)
  | .operator .closeParen =>
    if closed before < opened before then none else some (.unmatched .closeParen)
  | .operator _ => none

/-- The fault of the first token at fault, given the tokens before the list. -/
def firstFaultAfter? (accepts : Validator) (before : List Token) : List Token → Option Fault
  | [] => none
  | t :: ts =>
    match faultAt? accepts before t with
    | some fault => some fault
    | none => firstFaultAfter? accepts (before ++ [t]) ts

/-- The tokens up to the first one at fault, that one included, given the tokens before them. -/
def upToFaultAfter (accepts : Validator) (before : List Token) : List Token → List Token
  | [] => []
  | t :: ts =>
    match faultAt? accepts before t with
    | some _ => [t]
    | none => t :: upToFaultAfter accepts (before ++ [t]) ts

/-- The fault that ends a conversion of the tokens before it has emitted everything: that of the
first token at fault, or else an unclosed parenthesis. -/
def firstFault? (accepts : Validator) (ts : List Token) : Option Fault :=
  match firstFaultAfter? accepts [] ts with
  | some fault => some fault
  | none => if closed ts < opened ts then some (.unmatched .endOfInput) else none

/-- The tokens that a conversion looks at: all of them, or those up to the first at fault. -/
def upToFault (accepts : Validator) (ts : List Token) : List Token :=
  upToFaultAfter accepts [] ts

/-- No token of the list is at fault: every operand is accepted, and at no point have more
parentheses been closed than opened. -/
def Faultless (accepts : Validator) (ts : List Token) : Prop :=
  (∀ name, .operand name ∈ ts → accepts name = true) ∧
    ∀ before, before <+: ts → closed before ≤ opened before

/-- The fault of a token that stands behind others, described by what is wrong with it. -/
inductive AtFault (accepts : Validator) (before : List Token) : Token → Fault → Prop where
  /-- The token is an operand, and it is rejected. -/
  | rejected {name : String} (refused : accepts name = false) :
      AtFault accepts before (.operand name) (.rejected name)
  /-- The token is a closing parenthesis, and with it more are closed than opened. -/
  | unopened (more : opened (before ++ [.operator .closeParen]) <
        closed (before ++ [.operator .closeParen])) :
      AtFault accepts before (.operator .closeParen) (.unmatched .closeParen)

/-- The fault of a list of tokens, described by the place where it is. -/
inductive FirstFault (accepts : Validator) (ts : List Token) : Fault → Prop where
  /-- An operand is rejected, and nothing before it is at fault. -/
  | rejected {name : String} {before after : List Token}
      (tokens : ts = before ++ .operand name :: after) (earlier : Faultless accepts before)
      (refused : accepts name = false) : FirstFault accepts ts (.rejected name)
  /-- With a closing parenthesis more are closed than opened, and nothing before it is at
  fault. -/
  | unopened {before after : List Token}
      (tokens : ts = before ++ .operator .closeParen :: after)
      (earlier : Faultless accepts before)
      (more : opened (before ++ [.operator .closeParen]) <
        closed (before ++ [.operator .closeParen])) :
      FirstFault accepts ts (.unmatched .closeParen)
  /-- No token is at fault, but more parentheses are opened than closed. -/
  | unclosed (earlier : Faultless accepts ts) (more : closed ts < opened ts) :
      FirstFault accepts ts (.unmatched .endOfInput)

example : firstFault? (· != "b") [.operand "a", .operator .closeParen, .operand "b"] =
    some (.unmatched .closeParen) := by
  decide

example : firstFault? (· != "b") [.operator .openParen, .operand "b", .operator .closeParen] =
    some (.rejected "b") := by
  decide

section UpToFault

variable {accepts : Validator} {before ts : List Token} {t : Token}

theorem upToFaultAfter_of_some {fault : Fault} (h : faultAt? accepts before t = some fault) :
    upToFaultAfter accepts before (t :: ts) = [t] := by
  simp only [upToFaultAfter, h]

theorem upToFaultAfter_of_none (h : faultAt? accepts before t = none) :
    upToFaultAfter accepts before (t :: ts) = t :: upToFaultAfter accepts (before ++ [t]) ts := by
  simp only [upToFaultAfter, h]

/-- Tokens of which none is at fault are passed. -/
theorem upToFaultAfter_append (us : List Token)
    (h : firstFaultAfter? accepts before ts = none) :
    upToFaultAfter accepts before (ts ++ us) =
      ts ++ upToFaultAfter accepts (before ++ ts) us := by
  induction ts generalizing before with
  | nil => rw [List.append_nil]; rfl
  | cons t ts ih =>
    cases hf : faultAt? accepts before t with
    | some fault => simp only [firstFaultAfter?, hf, reduceCtorEq] at h
    | none =>
      simp only [firstFaultAfter?, hf] at h
      rw [List.cons_append, upToFaultAfter_of_none hf, ih h, List.append_assoc]
      rfl

end UpToFault

end ReversePolish
