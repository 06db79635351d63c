import Mathlib.Data.List.TakeWhile
import ReversePolish.Token.Cursor
import ReversePolish.Token.Layout

/-!
# What a cursor reads

A text from any place on is of one of two forms: blanks up to the end, or blanks, a token that goes
on as far as it can, and the rest (`blank_or_token`).  `Cursor.next` is determined by the form
(`next_of_blank`, `next_of_token`), so no later argument opens it again.

* **`tokensOf_of_layout`** — reading undoes laying out.
* `isWritable_of_mem_tokensOf` — what is read can be written: operators with a symbol, and operands
  with proper names.
-/

namespace ReversePolish

/-! ## Names and symbols -/

lemma isNameChar_iff {c : Char} :
    isNameChar c = true ↔ Operator.ofSymbol? c = none ∧ isBlank c = false := by
  simp only [isNameChar, Bool.and_eq_true, Option.isNone_iff_eq_none, Bool.not_eq_true']

/-- An operator that can be written has a symbol, and its text is that symbol. -/
lemma Token.text_operator {op : Operator} (h : (Token.operator op).IsWritable) :
    ∃ c, Operator.ofSymbol? c = some op ∧ (Token.operator op).text = [c] := by
  cases op with
  | endOfInput => exact absurd rfl h
  | and => exact ⟨'&', rfl, rfl⟩
  | or => exact ⟨'|', rfl, rfl⟩
  | not => exact ⟨'!', rfl, rfl⟩
  | openParen => exact ⟨'(', rfl, rfl⟩
  | closeParen => exact ⟨')', rfl, rfl⟩

/-- The text of a token starts with something that is no blank, and with a name character only if
it is a name. -/
lemma Token.text_eq_cons {t : Token} (h : t.IsWritable) :
    ∃ first more, t.text = first :: more ∧ isBlank first = false ∧
      isNameChar first = t.isOperand := by
  cases t with
  | operator op =>
      obtain ⟨c, hc, htext⟩ := Token.text_operator h
      exact ⟨c, [], htext, isBlank_of_ofSymbol? hc, isNameChar_of_ofSymbol? hc⟩
  | operand name =>
      obtain ⟨hne, hchars⟩ := h
      cases hl : name.toList with
      | nil => exact absurd (String.toList_eq_nil_iff.1 hl) hne
      | cons first more =>
          have hfirst := hchars first (hl ▸ List.mem_cons_self)
          exact ⟨first, more, hl, (isNameChar_iff.1 hfirst).2, hfirst⟩

lemma Token.ne_endMark {t : Token} (h : t.IsWritable) : t ≠ .endMark := by
  rintro rfl
  exact h rfl

lemma Token.length_text_pos {t : Token} (h : t.IsWritable) : 0 < t.text.length := by
  obtain ⟨first, more, htext, -⟩ := Token.text_eq_cons h
  simp [htext]

/-- No blank stands in a token. -/
lemma Token.isBlank_of_mem_text {t : Token} (h : t.IsWritable) :
    ∀ c ∈ t.text, isBlank c = false := by
  cases t with
  | operator op =>
      obtain ⟨symbol, hsymbol, htext⟩ := Token.text_operator h
      simpa [htext] using isBlank_of_ofSymbol? hsymbol
  | operand name =>
      intro c hc
      exact (isNameChar_iff.1 (h.2 c hc)).2

/-! ## The two forms of a text -/

/-- A run of characters of one kind is cut off in front of one that is of another kind. -/
lemma takeWhile_dropWhile_append {p : Char → Bool} {l rest : List Char}
    (inside : ∀ c ∈ l, p c = true) (outside : ∀ c ∈ rest.head?, p c = false) :
    (l ++ rest).takeWhile p = l ∧ (l ++ rest).dropWhile p = rest := by
  rw [List.takeWhile_append_of_pos inside, List.dropWhile_append_of_pos inside]
  cases rest with
  | nil => exact ⟨List.append_nil l, rfl⟩
  | cons c cs =>
      have hc : ¬ p c = true := Bool.eq_false_iff.1 (outside c rfl)
      rw [List.takeWhile_cons_of_neg hc, List.dropWhile_cons_of_neg hc, List.append_nil]
      exact ⟨rfl, rfl⟩

/-- Blanks up to the end, or blanks and a token that goes on as far as it can. -/
theorem blank_or_token (rest : List Char) :
    AllBlank rest ∨
      ∃ (gap : List Char) (t : Token) (text : List Char), AllBlank gap ∧ t.IsWritable ∧
        (t.isOperand = true → ∀ c ∈ text.head?, isNameChar c = false) ∧
        rest = gap ++ t.text ++ text := by
  have hgap : AllBlank (rest.takeWhile isBlank) := fun c hc => List.mem_takeWhile_imp hc
  have hsplit : rest = rest.takeWhile isBlank ++ rest.dropWhile isBlank :=
    List.takeWhile_append_dropWhile.symm
  cases hd : rest.dropWhile isBlank with
  | nil =>
      rw [hd, List.append_nil] at hsplit
      exact Or.inl (hsplit ▸ hgap)
  | cons first more =>
      rw [hd] at hsplit
      cases hop : Operator.ofSymbol? first with
      | some op =>
          have hend : op ≠ .endOfInput := fun h =>
            Operator.ofSymbol?_ne_endOfInput first (h ▸ hop)
          have htext : (Token.operator op).text = [first] := by
            rw [Token.text, Operator.symbol?_of_ofSymbol? hop]
            rfl
          refine Or.inr ⟨_, .operator op, more, hgap, hend, nofun, ?_⟩
          rw [htext, List.append_assoc]
          exact hsplit
      | none =>
          -- the name is the longest run of name characters, and the first one is among them
          have hfirst := isNameChar_of_none (Cursor.isBlank_of_dropWhile_eq_cons hd) hop
          have hname : IsName (String.ofList ((first :: more).takeWhile isNameChar)) := by
            refine ⟨fun h => ?_, fun c hc => ?_⟩
            · rw [String.ofList_eq_empty_iff, List.takeWhile_cons_of_pos hfirst] at h
              exact absurd h (List.cons_ne_nil _ _)
            · rw [String.toList_ofList] at hc
              exact List.mem_takeWhile_imp hc
          refine Or.inr ⟨_, .operand _, (first :: more).dropWhile isNameChar, hgap, hname, ?_, ?_⟩
          · intro _ c hc
            have := List.head?_dropWhile_not isNameChar (first :: more)
            rw [Option.mem_def.1 hc] at this
            exact this
          · simp only [Token.text, String.toList_ofList, List.append_assoc,
              List.takeWhile_append_dropWhile]
            exact hsplit

/-- Induction on a text, token by token. -/
theorem text_induction {motive : List Char → Prop}
    (blank : ∀ gap, AllBlank gap → motive gap)
    (token : ∀ (gap : List Char) (t : Token) (text : List Char), AllBlank gap → t.IsWritable →
      (t.isOperand = true → ∀ c ∈ text.head?, isNameChar c = false) → motive text →
      motive (gap ++ t.text ++ text))
    (text : List Char) : motive text := by
  rcases blank_or_token text with hblank | ⟨gap, t, rest, hblank, writable, longest, htext⟩
  · exact blank text hblank
  · have hpos := Token.length_text_pos writable
    have hlt : rest.length < text.length := by
      simp only [htext, List.length_append]
      omega
    rw [htext]
    exact token gap t rest hblank writable longest (text_induction blank token rest)
termination_by text.length

namespace Cursor

/-- In front of nothing but blanks the end mark is read. -/
theorem next_of_blank {position : Nat} {gap : List Char} (blank : AllBlank gap) :
    next ⟨position, gap⟩ = (.endMark, ⟨position + gap.length + 1, []⟩) := by
  have hd : gap.dropWhile isBlank = [] := List.dropWhile_eq_nil_iff.2 blank
  have ht : gap.takeWhile isBlank = gap := List.takeWhile_eq_self_iff.2 blank
  simp only [next, hd, ht]

/-- In front of blanks and a token that goes on as far as it can, that token is read. -/
theorem next_of_token {position : Nat} {gap text : List Char} {t : Token} (blank : AllBlank gap)
    (writable : t.IsWritable)
    (longest : t.isOperand = true → ∀ c ∈ text.head?, isNameChar c = false) :
    next ⟨position, gap ++ t.text ++ text⟩ =
      (t, ⟨position + gap.length + t.text.length, text⟩) := by
  obtain ⟨first, more, htext, hblank, -⟩ := Token.text_eq_cons writable
  have hbegin : ∀ c ∈ (t.text ++ text).head?, isBlank c = false := by
    rw [htext]
    rintro c ⟨⟩
    exact hblank
  obtain ⟨ht, hd⟩ := takeWhile_dropWhile_append blank hbegin
  rw [← List.append_assoc, htext] at ht hd
  rw [List.cons_append] at hd
  cases t with
  | operator op =>
      obtain ⟨c, hc, hsymbol⟩ := Token.text_operator writable
      rw [htext] at hsymbol
      obtain ⟨rfl, rfl⟩ := List.cons.inj hsymbol
      rw [htext]
      simp only [next, hd, ht, hc]
      rfl
  | operand name =>
      have hchars : ∀ c ∈ first :: more, isNameChar c = true := fun c hc =>
        writable.2 c (by rw [← htext] at hc; exact hc)
      have hnone := (isNameChar_iff.1 (hchars first List.mem_cons_self)).1
      obtain ⟨hname, hrest⟩ := takeWhile_dropWhile_append hchars (longest rfl)
      rw [List.cons_append] at hname hrest
      have hback : String.ofList (first :: more) = name := by
        rw [← htext, Token.text, String.ofList_toList]
      rw [htext]
      simp only [next, hd, ht, hnone, hname, hrest, hback]

theorem tokens_of_blank {position : Nat} {gap : List Char} (blank : AllBlank gap) :
    tokens ⟨position, gap⟩ = [] := by
  rw [tokens, next_of_blank blank, if_pos rfl]

theorem tokens_of_token {position : Nat} {gap text : List Char} {t : Token} (blank : AllBlank gap)
    (writable : t.IsWritable)
    (longest : t.isOperand = true → ∀ c ∈ text.head?, isNameChar c = false) :
    tokens ⟨position, gap ++ t.text ++ text⟩ =
      t :: tokens ⟨position + gap.length + t.text.length, text⟩ := by
  rw [tokens, next_of_token blank writable longest, if_neg (Token.ne_endMark writable)]

/-- What is read can be written. -/
theorem isWritable_of_mem_tokens (c : Cursor) : ∀ t ∈ c.tokens, t.IsWritable := by
  obtain ⟨position, rest⟩ := c
  induction rest using text_induction generalizing position with
  | blank gap blank =>
      rw [tokens_of_blank blank]
      exact nofun
  | token gap t text blank writable longest ih =>
      rw [tokens_of_token blank writable longest, List.forall_mem_cons]
      exact ⟨writable, ih _⟩

end Cursor

theorem isWritable_of_mem_tokensOf {text : String} {t : Token} (h : t ∈ tokensOf text) :
    t.IsWritable :=
  Cursor.isWritable_of_mem_tokens _ t h

/-! ## Reading what was laid out -/

/-- Behind an operand no name goes on: a blank, an operator or nothing follows. -/
lemma LayoutAfter.not_isNameChar {ts : List Token} {text : List Char}
    (h : LayoutAfter true ts text) : ∀ c ∈ text.head?, isNameChar c = false := by
  intro c hc
  cases h with
  | done blank =>
      exact isNameChar_of_isBlank (blank c (List.mem_of_mem_head? hc))
  | @token _ gap text t ts blank writable apart rest =>
      cases gap with
      | cons g gs =>
          obtain rfl : g = c := Option.some.inj hc
          exact isNameChar_of_isBlank (blank g List.mem_cons_self)
      | nil =>
          obtain ⟨first, more, htext, -, hfirst⟩ := Token.text_eq_cons writable
          rw [List.nil_append, htext] at hc
          obtain rfl : first = c := Option.some.inj hc
          rw [hfirst]
          exact Bool.eq_false_iff.2 fun ht => apart rfl ht rfl

lemma LayoutAfter.tokens_eq {afterOperand : Bool} {ts : List Token} {text : List Char}
    (h : LayoutAfter afterOperand ts text) (position : Nat) :
    Cursor.tokens ⟨position, text⟩ = ts := by
  induction h generalizing position with
  | done blank => exact Cursor.tokens_of_blank blank
  | token blank writable apart rest ih =>
      rw [Cursor.tokens_of_token blank writable, ih]
      intro ht
      exact LayoutAfter.not_isNameChar (ht ▸ rest)

/-- **Reading undoes laying out.** -/
theorem tokensOf_of_layout {ts : List Token} {text : String} (h : Layout ts text) :
    tokensOf text = ts :=
  LayoutAfter.tokens_eq h 0

end ReversePolish
