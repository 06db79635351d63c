import ReversePolish.Operator
import ReversePolish.Text.Blank

/-!
# Tokens of a rule

A rule is read as operators and operand names.  A name is a non-empty run of *name characters*,
those that are neither blank nor the symbol of an operator; nothing else is asked of it, so that
quotes, control characters and any script may stand in one.

`Token.IsWritable` marks the tokens that a text can hold: every operator but the end mark, and
every operand with a proper name.
-/

namespace ReversePolish

/-- A token of a rule. -/
inductive Token where
  | operator (op : Operator)
  | operand (name : String)
deriving DecidableEq, Repr

/-- Whether a character can stand in an operand name. -/
def isNameChar (c : Char) : Bool :=
  (Operator.ofSymbol? c).isNone && !isBlank c

/-- A text that can be read as one operand name: it is not empty, and neither a blank nor the
symbol of an operator occurs in it. -/
def IsName (name : String) : Prop :=
  name ≠ "" ∧ ∀ c ∈ name.toList, isNameChar c = true

instance (name : String) : Decidable (IsName name) :=
  decidable_of_iff (name ≠ "" ∧ name.toList.all isNameChar = true)
    (and_congr_right fun _ => List.all_eq_true)

namespace Token

/-- The token for the end of the text. -/
abbrev endMark : Token := .operator .endOfInput

/-- How the token is written.  The end mark is written as nothing. -/
def text : Token → List Char
  | .operator op => op.symbol?.toList
  | .operand name => name.toList

def isOperand : Token → Bool
  | .operand _ => true
  | .operator _ => false

def name? : Token → Option String
  | .operand name => some name
  | .operator _ => none

def operator? : Token → Option Operator
  | .operator op => some op
  | .operand _ => none

/-- A token that some text holds. -/
def IsWritable : Token → Prop
  | .operator op => op ≠ .endOfInput
  | .operand name => IsName name

instance : DecidablePred IsWritable
  | .operator op => inferInstanceAs (Decidable (op ≠ .endOfInput))
  | .operand name => inferInstanceAs (Decidable (IsName name))

end Token

/-! ## The three kinds of character

Every character is a blank, the symbol of one operator, or a name character, and no two of these
at once.
-/

theorem isBlank_of_ofSymbol? {c : Char} {op : Operator} (h : Operator.ofSymbol? c = some op) :
    isBlank c = false := by
  have hc := Operator.symbol?_of_ofSymbol? h
  cases op <;> simp only [Operator.symbol?, Option.some.injEq, reduceCtorEq] at hc <;> subst hc <;>
    decide

theorem isNameChar_of_ofSymbol? {c : Char} {op : Operator}
    (h : Operator.ofSymbol? c = some op) : isNameChar c = false := by
  simp [isNameChar, h]

theorem isNameChar_of_isBlank {c : Char} (h : isBlank c = true) : isNameChar c = false := by
  simp [isNameChar, h]

/-- What is neither a blank nor a symbol is a name character. -/
theorem isNameChar_of_none {c : Char} (hb : isBlank c = false)
    (hs : Operator.ofSymbol? c = none) : isNameChar c = true := by
  simp [isNameChar, hb, hs]

end ReversePolish
