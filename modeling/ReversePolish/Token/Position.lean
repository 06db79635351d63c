import ReversePolish.Token.Cursor

/-!
# Positions in machine words

A `Cursor` counts characters without a limit.  Where a position is handed in and handed out, it is
kept in a machine word, and among the words of one size there is a last one.  A text that is held
in memory ends before it, so that tokens of the text are never counted too far.  The end mark alone
stands behind the text, and behind the position when that is further on: where it is read at the
last position, there is no word for the position to go on from.

* `Overflow` — what a machine makes of that: some count on from zero, others stop.
* `readAt?` — one token at a position, and the position behind it.
-/

namespace ReversePolish

/-- The last position that a word can hold. -/
def lastPosition (w : Nat) : BitVec w :=
  .allOnes w

/-- No position lies behind the last one. -/
theorem le_lastPosition {w : Nat} (position : BitVec w) : position ≤ lastPosition w := by
  rw [BitVec.le_def, lastPosition, BitVec.toNat_allOnes]
  exact Nat.le_sub_one_of_lt position.isLt

/-- What a machine does with a number that is too large for a word. -/
inductive Overflow where
  /-- The number is counted from zero again. -/
  | wraps
  /-- The machine stops, and there is no answer. -/
  | stops
deriving DecidableEq, Repr

/-- The word for a number, if the machine goes on. -/
def Overflow.word? (overflow : Overflow) (w n : Nat) : Option (BitVec w) :=
  match overflow with
  | .wraps => some (.ofNat w n)
  | .stops => if n ≤ (lastPosition w).toNat then some (.ofNat w n) else none

/-- As long as a number fits, there is one word for it, on every machine. -/
theorem Overflow.word?_eq_some_iff {overflow : Overflow} {w n : Nat} {word : BitVec w}
    (fits : n ≤ (lastPosition w).toNat) :
    overflow.word? w n = some word ↔ word.toNat = n := by
  have hword : overflow.word? w n = some (.ofNat w n) := by
    cases overflow with
    | wraps => rfl
    | stops => exact if_pos fits
  have hmod := Nat.mod_eq_of_lt (Nat.lt_of_le_of_lt fits (lastPosition w).isLt)
  rw [hword, Option.some.injEq, ← BitVec.toNat_inj, BitVec.toNat_ofNat, hmod, eq_comm]

/-- Reads the token at a position of a text, and gives the position behind it.  The position may
lie inside a name or behind the end of the text. -/
def readAt? {w : Nat} (overflow : Overflow) (text : String) (position : BitVec w) :
    Option (Token × BitVec w) :=
  let read := (Cursor.ofPosition text position.toNat).next
  (overflow.word? w read.2.position).map fun behind => (read.1, behind)

end ReversePolish
