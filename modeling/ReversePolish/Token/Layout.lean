import ReversePolish.Token.Basic

/-!
# Laying out tokens as text

A list of tokens can be written as a text in many ways: before, between and after the tokens there
may be any number of blanks.  Only between two operands there has to be at least one, as their
names would run into each other.

`Layout ts text` says that `text` is one of the ways to write `ts`.  `Segmented` looks at the same
thing from the side of the text: which tokens it falls into, where each one ends, and that a name
goes on as far as it can.  `Spelled` lets the blanks be missing everywhere, so that a spelling may
also be one of other tokens, whose names run into each other in it.
-/

namespace ReversePolish

/-- A run of blanks. -/
def AllBlank (gap : List Char) : Prop :=
  ∀ c ∈ gap, isBlank c = true

instance : DecidablePred AllBlank := fun gap =>
  decidable_of_iff (gap.all isBlank = true) List.all_eq_true

/-- The texts that consist of the tokens, with any blanks or none around them. -/
inductive Spelled : List Token → List Char → Prop where
  | done {gap : List Char} (blank : AllBlank gap) : Spelled [] gap
  | token {gap text : List Char} {t : Token} {ts : List Token} (blank : AllBlank gap)
      (rest : Spelled ts text) : Spelled (t :: ts) (gap ++ t.text ++ text)

/-- The ways to write tokens that follow an operand or not. -/
inductive LayoutAfter : Bool → List Token → List Char → Prop where
  | done {afterOperand : Bool} {gap : List Char} (blank : AllBlank gap) :
      LayoutAfter afterOperand [] gap
  | token {afterOperand : Bool} {gap text : List Char} {t : Token} {ts : List Token}
      (blank : AllBlank gap) (writable : t.IsWritable)
      (apart : afterOperand = true → t.isOperand = true → gap ≠ [])
      (rest : LayoutAfter t.isOperand ts text) :
      LayoutAfter afterOperand (t :: ts) (gap ++ t.text ++ text)

/-- The text is a way to write the tokens. -/
def Layout (ts : List Token) (text : String) : Prop :=
  LayoutAfter false ts text.toList

/-- The tokens into which a text falls from a position on, each with the position behind it.  The
end mark comes last and counts as one character. -/
inductive Segmented : Nat → List Char → List (Token × Nat) → Prop where
  | last {position : Nat} {gap : List Char} (blank : AllBlank gap) :
      Segmented position gap [(.endMark, position + gap.length + 1)]
  | token {position : Nat} {gap text : List Char} {t : Token} {scanned : List (Token × Nat)}
      (blank : AllBlank gap) (writable : t.IsWritable)
      (longest : t.isOperand = true → ∀ c ∈ text.head?, isNameChar c = false)
      (rest : Segmented (position + gap.length + t.text.length) text scanned) :
      Segmented position (gap ++ t.text ++ text)
        ((t, position + gap.length + t.text.length) :: scanned)

theorem AllBlank.nil : AllBlank [] := fun _ h => nomatch h

/-- Without blanks, tokens of which no two neighbours are operands are laid out. -/
theorem LayoutAfter.compact {b : Bool} {t : Token} {ts : List Token} {text : List Char}
    (writable : t.IsWritable) (apart : b = true → t.isOperand = false)
    (rest : LayoutAfter t.isOperand ts text) : LayoutAfter b (t :: ts) (t.text ++ text) :=
  .token .nil writable (fun hb ht => absurd ht (by simp [apart hb])) rest

end ReversePolish
