/-!
# Blanks

A blank is a character with the Unicode property `White_Space`: 25 characters in ten ranges, the
no-break spaces and the next-line control among them.  The information separators U+001C to
U+001F, the zero-width space and the byte order mark are not blanks.

Core's `Char.isWhitespace` knows four of the 25; `isBlank_of_isWhitespace` says that the table
below only adds to it.
-/

namespace ReversePolish

/-- The blanks as closed ranges of code points, ascending and apart. -/
def blankRanges : List (Nat × Nat) :=
  [(0x09, 0x0D), (0x20, 0x20), (0x85, 0x85), (0xA0, 0xA0), (0x1680, 0x1680), (0x2000, 0x200A),
    (0x2028, 0x2029), (0x202F, 0x202F), (0x205F, 0x205F), (0x3000, 0x3000)]

/-- Whether a character is a blank. -/
def isBlank (c : Char) : Bool :=
  blankRanges.any fun r => r.1 ≤ c.toNat && c.toNat ≤ r.2

-- the ranges ascend and do not touch, and hold 25 characters
example : (blankRanges.Pairwise fun r s => r.2 + 1 < s.1) ∧
    (blankRanges.flatMap fun r => List.range' r.1 (r.2 + 1 - r.1)).length = 25 := by
  decide

/-- What core calls white space is blank. -/
theorem isBlank_of_isWhitespace {c : Char} (h : c.isWhitespace = true) : isBlank c = true := by
  simp only [Char.isWhitespace, Bool.or_eq_true, decide_eq_true_eq] at h
  rcases h with ((h | h) | h) | h <;> subst h <;> decide

@[simp] theorem isBlank_space : isBlank ' ' = true := by
  decide

example : isBlank '\u0085' = true ∧ isBlank '\u3000' = true := by decide

example : isBlank '\u001c' = false ∧ isBlank '\u200b' = false ∧ isBlank '\ufeff' = false := by
  decide

end ReversePolish
