import ReversePolish.Token.Basic

/-!
# Reading tokens

A `Cursor` is a position in a text together with what is left of the text from there.  Reading a
token skips blanks and then takes either the symbol of one operator or the longest run of name
characters.  When nothing but blanks is left, the end mark is read, and it counts as one character
past the end: the cursor after it stands at the length of the text plus one, or one further on if
it already stood behind the end.

* `Cursor.next` — one token and the cursor after it.  It looks at nothing before the cursor, and
  counts without a limit; for positions in machine words there is `readAt?`.
* `Cursor.tokens` — the tokens up to the end, without the end mark.
* `Cursor.scan` — the same with the end mark, and the position after each token.

Reading goes on because a token other than the end mark leaves a shorter rest
(`length_rest_next_lt`), and the end mark leaves none (`rest_next_eq_nil`).
-/

namespace ReversePolish

/-- A position in a text, counted in characters, and the text from there on. -/
structure Cursor where
  /-- The number of characters passed. -/
  position : Nat
  /-- The characters still to be read. -/
  rest : List Char
deriving DecidableEq, Repr

namespace Cursor

def start (text : String) : Cursor where
  position := 0
  rest := text.toList

/-- The cursor at a position of a text.  The position may lie inside a name or behind the end. -/
def ofPosition (text : String) (position : Nat) : Cursor where
  position := position
  rest := text.toList.drop position

/-- Reads one token. -/
def next (c : Cursor) : Token × Cursor :=
  let blanks := (c.rest.takeWhile isBlank).length
  match c.rest.dropWhile isBlank with
  | [] => (.endMark, { position := c.position + blanks + 1, rest := [] })
  | first :: more =>
    match Operator.ofSymbol? first with
    | some op => (.operator op, { position := c.position + blanks + 1, rest := more })
    | none =>
      let name := (first :: more).takeWhile isNameChar
      (.operand (String.ofList name),
        { position := c.position + blanks + name.length
          rest := (first :: more).dropWhile isNameChar })

/-! ## Progress -/

theorem length_dropWhile_le {α : Type} (p : α → Bool) (l : List α) :
    (l.dropWhile p).length ≤ l.length :=
  (List.dropWhile_sublist p).length_le

/-- What is left after skipping blanks does not start with a blank. -/
theorem isBlank_of_dropWhile_eq_cons {l more : List Char} {first : Char}
    (h : l.dropWhile isBlank = first :: more) : isBlank first = false := by
  have := List.head?_dropWhile_not isBlank l
  rw [h] at this
  exact this

/-- A token other than the end mark leaves less to read. -/
theorem length_rest_next_lt {c : Cursor} (h : c.next.1 ≠ .endMark) :
    c.next.2.rest.length < c.rest.length := by
  have hle := length_dropWhile_le isBlank c.rest
  cases hd : c.rest.dropWhile isBlank with
  | nil => exact absurd (by rw [next, hd]) h
  | cons first more =>
    rw [hd, List.length_cons] at hle
    cases hop : Operator.ofSymbol? first with
    | some op => simpa only [next, hd, hop] using Nat.lt_of_succ_le hle
    | none =>
      have hname := isNameChar_of_none (isBlank_of_dropWhile_eq_cons hd) hop
      have hrest := length_dropWhile_le isNameChar more
      simp only [next, hd, hop, List.dropWhile_cons, hname, if_true]
      omega

/-- After the end mark nothing is left. -/
theorem rest_next_eq_nil {c : Cursor} (h : c.next.1 = .endMark) : c.next.2.rest = [] := by
  cases hd : c.rest.dropWhile isBlank with
  | nil => rw [next, hd]
  | cons first more =>
    cases hop : Operator.ofSymbol? first with
    | some op =>
      simp only [next, hd, hop, Token.operator.injEq] at h
      exact absurd (h ▸ hop) (Operator.ofSymbol?_ne_endOfInput first)
    | none => simp only [next, hd, hop, reduceCtorEq] at h

/-- Reading never lengthens the rest. -/
theorem length_rest_next_le (c : Cursor) : c.next.2.rest.length ≤ c.rest.length := by
  by_cases h : c.next.1 = .endMark
  · simp [rest_next_eq_nil h]
  · exact Nat.le_of_lt (length_rest_next_lt h)

/-! ## Reading to the end -/

/-- The tokens from the cursor on, without the end mark. -/
def tokens (c : Cursor) : List Token :=
  if c.next.1 = .endMark then [] else c.next.1 :: c.next.2.tokens
termination_by c.rest.length
decreasing_by exact length_rest_next_lt ‹_›

/-- The tokens from the cursor on, the end mark last, each with the position after it. -/
def scan (c : Cursor) : List (Token × Nat) :=
  if c.next.1 = .endMark then [(.endMark, c.next.2.position)]
  else (c.next.1, c.next.2.position) :: c.next.2.scan
termination_by c.rest.length
decreasing_by exact length_rest_next_lt ‹_›

/-- Both ways of reading to the end see the same tokens. -/
theorem map_fst_scan (c : Cursor) : c.scan.map Prod.fst = c.tokens ++ [.endMark] := by
  fun_induction scan c with
  | case1 c h => rw [tokens, if_pos h]; rfl
  | case2 c h ih => rw [tokens, if_neg h, List.map_cons, ih]; rfl

end Cursor

/-- The tokens of a text, without the end mark. -/
def tokensOf (text : String) : List Token :=
  (Cursor.start text).tokens

end ReversePolish
