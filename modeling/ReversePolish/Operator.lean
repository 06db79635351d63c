/-!
# The operator alphabet

Six operators: the three logical ones, the two parentheses, and the mark that stands for the end
of a text.  The first five are written with one character each; the end mark is written with
none, so that no character of a text can be mistaken for it.

* `Operator.symbol?` and `Operator.ofSymbol?` are inverse to each other
  (`ofSymbol?_eq_some_iff`), which is what lets a scanner and a printer agree.
* `Operator.isLogical` marks the operators that a postfix sequence can hold.
* An operator is shown in messages by `toString`, and `Operator.ofText?` tells it from the text
  (`ofText?_eq_some_iff`).
-/

namespace ReversePolish

/-- An operator of a rule, or the mark for its end. -/
inductive Operator where
  | and
  | or
  | not
  | openParen
  | closeParen
  | endOfInput
deriving DecidableEq, Repr

namespace Operator

/-- All operators, in the order in which tables list them. -/
def all : List Operator :=
  [.and, .or, .not, .openParen, .closeParen, .endOfInput]

/-- The operator that a character stands for, if it stands for one. -/
def ofSymbol? : Char → Option Operator
  | '&' => some .and
  | '|' => some .or
  | '!' => some .not
  | '(' => some .openParen
  | ')' => some .closeParen
  | _ => none

/-- The character an operator is written with.  The end mark has none. -/
def symbol? : Operator → Option Char
  | .and => some '&'
  | .or => some '|'
  | .not => some '!'
  | .openParen => some '('
  | .closeParen => some ')'
  | .endOfInput => none

/-- Whether the operator computes a truth value, and so can stand in a postfix sequence. -/
def isLogical : Operator → Bool
  | .and | .or | .not => true
  | .openParen | .closeParen | .endOfInput => false

/-- An operator is shown as its symbol, and the end mark in words. -/
instance : ToString Operator where
  toString op :=
    match op.symbol? with
    | some c => c.toString
    | none => "end of input"

/-- The operator that a text shows, if it shows one. -/
def ofText? : String → Option Operator
  | "&" => some .and
  | "|" => some .or
  | "!" => some .not
  | "(" => some .openParen
  | ")" => some .closeParen
  | "end of input" => some .endOfInput
  | _ => none

/-! ## Reading and writing symbols -/

theorem mem_all (op : Operator) : op ∈ all := by
  cases op <;> decide

@[simp] theorem ofSymbol?_of_symbol? {op : Operator} {c : Char} (h : op.symbol? = some c) :
    ofSymbol? c = some op := by
  cases op <;> simp only [symbol?, Option.some.injEq, reduceCtorEq] at h <;> subst h <;> rfl

theorem symbol?_of_ofSymbol? {op : Operator} {c : Char} (h : ofSymbol? c = some op) :
    op.symbol? = some c := by
  unfold ofSymbol? at h
  split at h <;> cases h <;> rfl

/-- Reading a symbol and writing it are inverse to each other. -/
theorem ofSymbol?_eq_some_iff {op : Operator} {c : Char} :
    ofSymbol? c = some op ↔ op.symbol? = some c :=
  ⟨symbol?_of_ofSymbol?, ofSymbol?_of_symbol?⟩

/-- No character is read as the end mark. -/
theorem ofSymbol?_ne_endOfInput (c : Char) : ofSymbol? c ≠ some .endOfInput := fun h => by
  simpa [symbol?] using symbol?_of_ofSymbol? h

/-! ## How operators are shown -/

theorem ofText?_toString (op : Operator) : ofText? (toString op) = some op := by
  cases op <;> rfl

theorem toString_of_ofText? {text : String} {op : Operator} (h : ofText? text = some op) :
    toString op = text := by
  unfold ofText? at h
  split at h <;> cases h <;> rfl

/-- Every operator is shown as a text of its own. -/
theorem ofText?_eq_some_iff {text : String} {op : Operator} :
    ofText? text = some op ↔ toString op = text :=
  ⟨toString_of_ofText?, fun h => h ▸ ofText?_toString op⟩

theorem quote_notMem_toString (op : Operator) : '\'' ∉ (toString op).toList := by
  cases op <;> decide

end Operator

end ReversePolish
