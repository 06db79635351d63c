import ReversePolish.Token.Position
import ReversePolish.Proofs.Segmentation

/-!
# Reading from any position

**What is read at a position depends on nothing before it, and reading falls back into step**
(`readAt_local`).  The position may lie anywhere below the last one: in blanks, inside a name, or
behind the end of the text.  Text in front of it shifts the answer and changes nothing else.  From
any position in front of a name, with only blanks between, the whole name is read; from a position
inside it, the rest of the name; and both times reading goes on behind the name, so that a wrong
position costs at most one token.

`TokenAhead` says what lies in front of a position.  It is passed on to the positions behind it: to
those in the blanks (`TokenAhead.skip_blanks`), and to those inside the name with what is left of
the name (`TokenAhead.skip_into_name`).  What is read there follows from what lies ahead
(`TokenAhead.tokenAt_eq`).

All this is shown for `tokenAt`, which counts without a limit.  Below the last position the words of
a machine are exact (`readAt?_eq_some_iff`), because reading leads at most one position behind the
text or the position itself (`tokenAt_le`).  At the last position the statement fails: no word lies
behind it (`readAt_lastPosition`).
-/

namespace ReversePolish

/-- In front of a position of the text lie blanks, a token that goes on as far as it can, and a
rest. -/
structure TokenAhead (text : String) (position : Nat) (gap : List Char) (t : Token)
    (rest : List Char) : Prop where
  drop_eq : text.toList.drop position = gap ++ t.text ++ rest
  blank : AllBlank gap
  writable : t.IsWritable
  longest : t.isOperand = true → ∀ c ∈ rest.head?, isNameChar c = false

variable {text : String} {position : Nat} {gap rest : List Char}

/-! ## What lies in front of a position -/

/-- **In front of a position lie blanks up to the end, or a token.** -/
lemma blank_or_tokenAhead (text : String) (position : Nat) :
    AllBlank (text.toList.drop position) ∨ ∃ gap t rest, TokenAhead text position gap t rest := by
  rcases blank_or_token (text.toList.drop position) with
    blank | ⟨gap, t, rest, blank, writable, longest, hdrop⟩
  · exact Or.inl blank
  · exact Or.inr ⟨gap, t, rest, hdrop, blank, writable, longest⟩

lemma tokenAt_of_blank (blank : AllBlank (text.toList.drop position)) :
    tokenAt text position = (.endMark, max text.length position + 1) := by
  have hlength : position + (text.toList.drop position).length = max text.length position := by
    rw [List.length_drop, String.length_toList]
    omega
  rw [tokenAt_of_drop rfl, Cursor.next_of_blank blank, hlength]

/-- Where a list goes on with `front`, it goes on further behind with the end of `front`. -/
lemma drop_add_of_drop_eq_append {l front back : List Char} {n k : Nat}
    (h : l.drop n = front ++ back) (hk : k ≤ front.length) :
    l.drop (n + k) = front.drop k ++ back := by
  rw [← List.drop_drop, h, List.drop_append_of_le_length hk]

lemma Token.length_text_operand (name : String) :
    (Token.operand name).text.length = name.length :=
  String.length_toList

/-- What is left of a name is a name. -/
lemma IsName.drop {name : String} {k : Nat} (h : IsName name) (hk : k < name.length) :
    IsName (String.ofList (name.toList.drop k)) := by
  constructor
  · rw [Ne, String.ofList_eq_empty_iff, List.drop_eq_nil_iff, String.length_toList]
    omega
  · intro c hc
    rw [String.toList_ofList] at hc
    exact h.2 c (List.mem_of_mem_drop hc)

namespace TokenAhead

variable {t : Token} {name : String}

lemma tokenAt_eq (h : TokenAhead text position gap t rest) :
    tokenAt text position = (t, position + gap.length + t.text.length) := by
  rw [tokenAt_of_drop h.drop_eq, Cursor.next_of_token h.blank h.writable h.longest]

/-- The same token lies in front of every position in the blanks before it, and of its own. -/
lemma skip_blanks (h : TokenAhead text position gap t rest) {k : Nat} (hk : k ≤ gap.length) :
    TokenAhead text (position + k) (gap.drop k) t rest where
  drop_eq := by
    have hdrop := h.drop_eq
    rw [List.append_assoc] at hdrop ⊢
    exact drop_add_of_drop_eq_append hdrop hk
  blank := fun c hc => h.blank c (List.mem_of_mem_drop hc)
  writable := h.writable
  longest := h.longest

/-- In front of a position inside a name lies what is left of the name. -/
lemma skip_into_name (h : TokenAhead text position gap (.operand name) rest) {k : Nat}
    (hk : k < name.length) :
    TokenAhead text (position + gap.length + k) []
      (.operand (String.ofList (name.toList.drop k))) rest where
  drop_eq := by
    have hname := (h.skip_blanks le_rfl).drop_eq
    have hle : k ≤ (Token.operand name).text.length := by
      rw [Token.length_text_operand]
      exact hk.le
    rw [List.drop_length, List.nil_append] at hname
    rw [List.nil_append, Token.text, String.toList_ofList]
    exact drop_add_of_drop_eq_append hname hle
  blank := .nil
  writable := IsName.drop h.writable hk
  longest := fun _ => h.longest rfl

/-- In the blanks in front of a token it does not matter where reading begins. -/
lemma tokenAt_in_blanks (h : TokenAhead text position gap t rest) {k : Nat}
    (hk : k ≤ gap.length) : tokenAt text (position + k) = tokenAt text position := by
  have hfirst : position + k + (gap.drop k).length = position + gap.length := by
    rw [List.length_drop]
    omega
  rw [(h.skip_blanks hk).tokenAt_eq, h.tokenAt_eq, hfirst]

/-- Inside a name what is left of it is read, and reading goes on where it does behind the name. -/
lemma tokenAt_in_name (h : TokenAhead text position gap (.operand name) rest) {k : Nat}
    (hk : k < name.length) :
    tokenAt text (position + gap.length + k) =
      (.operand (String.ofList (name.toList.drop k)), (tokenAt text position).2) := by
  have hbehind : position + gap.length + k + (String.ofList (name.toList.drop k)).length =
      position + gap.length + name.length := by
    rw [String.length_ofList, List.length_drop, String.length_toList]
    omega
  rw [(h.skip_into_name hk).tokenAt_eq, h.tokenAt_eq, Token.length_text_operand,
    Token.length_text_operand, List.length_nil, Nat.add_zero, hbehind]

end TokenAhead

/-! ## What is read at a position -/

/-- Reading leads on. -/
lemma lt_tokenAt (text : String) (position : Nat) : position < (tokenAt text position).2 := by
  rcases blank_or_tokenAhead text position with blank | ⟨gap, t, rest, h⟩
  · rw [tokenAt_of_blank blank]
    omega
  · have hpos := Token.length_text_pos h.writable
    rw [h.tokenAt_eq]
    omega

/-- The end mark is read in front of nothing but blanks. -/
lemma tokenAt_eq_endMark_iff :
    (tokenAt text position).1 = .endMark ↔ AllBlank (text.toList.drop position) := by
  refine ⟨fun hend => ?_, fun blank => by rw [tokenAt_of_blank blank]⟩
  rcases blank_or_tokenAhead text position with blank | ⟨gap, t, rest, h⟩
  · exact blank
  · rw [h.tokenAt_eq] at hend
    exact absurd hend (Token.ne_endMark h.writable)

/-- **Text in front shifts what is read, and does nothing else.** -/
theorem tokenAt_append (front text : String) (position : Nat) :
    tokenAt (front ++ text) (front.length + position) =
      ((tokenAt text position).1, front.length + (tokenAt text position).2) := by
  have hdrop : (front ++ text).toList.drop (front.length + position) =
      text.toList.drop position := by
    rw [String.toList_append, ← String.length_toList, List.drop_length_add_append]
  rcases blank_or_tokenAhead text position with blank | ⟨gap, t, rest, h⟩
  · rw [tokenAt_of_drop hdrop, tokenAt_of_drop rfl, Cursor.next_of_blank blank,
      Cursor.next_of_blank blank]
    simp only [Nat.add_assoc]
  · rw [TokenAhead.tokenAt_eq ⟨hdrop.trans h.drop_eq, h.blank, h.writable, h.longest⟩,
      h.tokenAt_eq]
    simp only [Nat.add_assoc]

/-- If an operand is read, its name lies ahead. -/
lemma exists_tokenAhead_of_operand {name : String} {behind : Nat}
    (h : tokenAt text position = (.operand name, behind)) :
    ∃ gap rest, TokenAhead text position gap (.operand name) rest ∧
      position + gap.length + name.length = behind := by
  rcases blank_or_tokenAhead text position with blank | ⟨gap, t, rest, hahead⟩
  · rw [tokenAt_of_blank blank] at h
    cases h
  · rw [hahead.tokenAt_eq] at h
    obtain ⟨rfl, rfl⟩ := Prod.mk.inj h
    exact ⟨gap, rest, hahead, by rw [Token.length_text_operand]⟩

/-! ## Positions in words -/

/-- Reading leads at most one position behind the text, or behind the position. -/
lemma tokenAt_le (text : String) (position : Nat) :
    (tokenAt text position).2 ≤ max text.length position + 1 := by
  rcases blank_or_tokenAhead text position with blank | ⟨gap, t, rest, h⟩
  · rw [tokenAt_of_blank blank]
  · have hlength := congrArg List.length h.drop_eq
    have hpos := Token.length_text_pos h.writable
    rw [List.length_drop, String.length_toList, List.length_append, List.length_append] at hlength
    rw [h.tokenAt_eq]
    omega

section Words

variable {w : Nat} {overflow : Overflow} {p behind : BitVec w} {t : Token}

/-- A position with another one behind it is not the last one. -/
lemma lt_lastPosition_of_lt (h : p < behind) : p < lastPosition w := by
  rw [BitVec.lt_def] at h ⊢
  exact h.trans_le (BitVec.le_def.1 (le_lastPosition behind))

/-- From below the last position, reading leads to a position at most. -/
lemma tokenAt_le_lastPosition (fits : text.length < (lastPosition w).toNat)
    (below : p < lastPosition w) : (tokenAt text p.toNat).2 ≤ (lastPosition w).toNat :=
  (tokenAt_le text p.toNat).trans (max_lt fits (BitVec.lt_def.1 below))

/-- **Below the last position words are exact.** -/
theorem readAt?_eq_some_iff (fits : text.length < (lastPosition w).toNat)
    (below : p < lastPosition w) :
    readAt? overflow text p = some (t, behind) ↔ tokenAt text p.toNat = (t, behind.toNat) := by
  have hfits := tokenAt_le_lastPosition fits below
  show ((overflow.word? w (tokenAt text p.toNat).2).map fun behind =>
    ((tokenAt text p.toNat).1, behind)) = some (t, behind) ↔ _
  simp only [Option.map_eq_some_iff, Overflow.word?_eq_some_iff hfits, Prod.ext_iff]
  constructor
  · rintro ⟨_, hbehind, rfl, rfl⟩
    exact ⟨rfl, hbehind.symm⟩
  · rintro ⟨rfl, hbehind⟩
    exact ⟨behind, hbehind.symm, rfl, rfl⟩

/-- What is read without a limit is read in words, if it leads to a word. -/
lemma readAt?_of_tokenAt (fits : text.length < (lastPosition w).toNat)
    (h : tokenAt text p.toNat = (t, behind.toNat)) : readAt? overflow text p = some (t, behind) := by
  have hlt : p < behind := by
    rw [BitVec.lt_def]
    have hleads := lt_tokenAt text p.toNat
    rwa [h] at hleads
  exact (readAt?_eq_some_iff fits (lt_lastPosition_of_lt hlt)).2 h

/-- Below the last position there is an answer. -/
lemma exists_readAt? (overflow : Overflow) (fits : text.length < (lastPosition w).toNat)
    (below : p < lastPosition w) :
    ∃ behind, readAt? overflow text p = some ((tokenAt text p.toNat).1, behind) ∧
      behind.toNat = (tokenAt text p.toNat).2 := by
  obtain ⟨behind, hbehind⟩ : ∃ behind : BitVec w, behind.toNat = (tokenAt text p.toNat).2 :=
    ⟨.ofFin ⟨_, (tokenAt_le_lastPosition fits below).trans_lt (lastPosition w).isLt⟩, rfl⟩
  exact ⟨behind, readAt?_of_tokenAt fits (Prod.ext rfl hbehind.symm), hbehind⟩

end Words

/-- **Reading is local and falls back into step.**  At every position below the last one of a text
that fits into memory there is an answer, and it leads on.  Text in front shifts the answer only,
so that no character before the position matters; a position inside the text is shifted to one
below the last as soon as the longer text fits.  The end mark is read where nothing but blanks is
ahead, and counts as one character behind the end of the text or behind the position.  Where an
operand is read, it is read from every position in the blanks in front of its name, and from every
position inside the name what is left of it is read; reading goes on at the same place each
time. -/
theorem readAt_local {w : Nat} (overflow : Overflow) (text : String) (position : BitVec w)
    (fits : text.length < (lastPosition w).toNat) (below : position < lastPosition w) :
    ∃ t behind, readAt? overflow text position = some (t, behind) ∧ position < behind ∧
      (∀ (front : String) (shifted : BitVec w),
        (front ++ text).length < (lastPosition w).toNat → shifted < lastPosition w →
        shifted.toNat = front.length + position.toNat →
        ∃ further, readAt? overflow (front ++ text) shifted = some (t, further) ∧
          further.toNat = front.length + behind.toNat) ∧
      (t = .endMark ↔ AllBlank (text.toList.drop position.toNat)) ∧
      (t = .endMark → behind.toNat = max text.length position.toNat + 1) ∧
      ∀ name, t = .operand name →
        ∃ gap rest, TokenAhead text position.toNat gap (.operand name) rest ∧
          position.toNat + gap.length + name.length = behind.toNat ∧
          (∀ p : BitVec w, position ≤ p → p.toNat ≤ position.toNat + gap.length →
            readAt? overflow text p = some (.operand name, behind)) ∧
          ∀ p : BitVec w, position.toNat + gap.length ≤ p.toNat → p < behind →
            readAt? overflow text p =
              some (.operand (String.ofList
                (name.toList.drop (p.toNat - (position.toNat + gap.length)))), behind) := by
  obtain ⟨behind, hread, hbehind⟩ := exists_readAt? overflow fits below
  refine ⟨_, behind, hread, ?_, ?_, tokenAt_eq_endMark_iff, ?_, ?_⟩
  · rw [BitVec.lt_def, hbehind]
    exact lt_tokenAt text position.toNat
  · intro front shifted hfits hbelow hshifted
    obtain ⟨further, hfront, hfurther⟩ := exists_readAt? overflow hfits hbelow
    rw [hshifted, tokenAt_append] at hfront hfurther
    exact ⟨further, hfront, by rw [hfurther, hbehind]⟩
  · intro hend
    rw [hbehind, tokenAt_of_blank (tokenAt_eq_endMark_iff.1 hend)]
  · intro name hname
    have hread : tokenAt text position.toNat = (.operand name, behind.toNat) :=
      Prod.ext hname hbehind.symm
    obtain ⟨gap, rest, hahead, hlength⟩ := exists_tokenAhead_of_operand hread
    refine ⟨gap, rest, hahead, hlength, fun p hfrom hto => readAt?_of_tokenAt fits ?_,
      fun p hfrom hto => readAt?_of_tokenAt fits ?_⟩
    · obtain ⟨k, hk⟩ := Nat.exists_eq_add_of_le (BitVec.le_def.1 hfrom)
      rw [hk, hahead.tokenAt_in_blanks (by omega), hread]
    · obtain ⟨k, hk⟩ := Nat.exists_eq_add_of_le hfrom
      rw [BitVec.lt_def] at hto
      rw [hk, hahead.tokenAt_in_name (by omega), hread, Nat.add_sub_cancel_left]

/-- A name that is read from the blanks in front of it and from its second character, the same with
more text in front, and the end mark far behind the text. -/
theorem readAt_local_inside :
    readAt? .stops "!  a新b & " (1 : BitVec 64) = some (.operand "a新b", 6) ∧
    readAt? .stops "!  a新b & " (3 : BitVec 64) = some (.operand "a新b", 6) ∧
    readAt? .stops "!  a新b & " (4 : BitVec 64) = some (.operand "新b", 6) ∧
    (∃ further, readAt? .stops ("(x" ++ "!  a新b & ") (3 : BitVec 64) =
      some (.operand "a新b", further) ∧ further.toNat = 8) ∧
    readAt? .stops "!  a新b & " (20 : BitVec 64) = some (.endMark, 21) := by
  have hfits : "!  a新b & ".length < (lastPosition 64).toNat := by decide +kernel
  have hread : readAt? .stops "!  a新b & " (1 : BitVec 64) = some (.operand "a新b", 6) := by
    decide +kernel
  have hname : "a新b".length = 3 := by decide +kernel
  have hrest : String.ofList ("a新b".toList.drop 1) = "新b" := by decide +kernel
  obtain ⟨t, behind, hlocal, -, hfront, -, -, hinside⟩ :=
    readAt_local .stops "!  a新b & " (1 : BitVec 64) hfits (by decide)
  obtain ⟨rfl, rfl⟩ := Prod.mk.inj (Option.some.inj (hread.symm.trans hlocal))
  obtain ⟨gap, rest, -, hlength, hblanks, hrestOf⟩ := hinside "a新b" rfl
  have hgap : gap.length = 2 := by
    rw [hname] at hlength
    exact Nat.add_left_cancel (Nat.add_right_cancel hlength)
  rw [hgap] at hblanks hrestOf
  obtain ⟨t, further, hpast, -, -, hend, hcount, -⟩ :=
    readAt_local .stops "!  a新b & " (20 : BitVec 64) hfits (by decide)
  have hblank : AllBlank ("!  a新b & ".toList.drop (20 : BitVec 64).toNat) := nofun
  obtain rfl := hend.2 hblank
  obtain rfl : further = 21 := BitVec.eq_of_toNat_eq (hcount rfl)
  refine ⟨hread, hblanks 3 (by decide) (by decide), ?_, ?_, hpast⟩
  · rw [← hrest]
    exact hrestOf 4 (by decide) (by decide)
  · exact hfront "(x" 3 (by decide +kernel) (by decide) (by decide +kernel)

/-- At the last position nothing but the end mark is left to read, and no position lies behind it:
a machine that counts on answers the first position, and one that stops does not answer. -/
theorem readAt_lastPosition :
    readAt? .wraps "" (lastPosition 64) = some (.endMark, 0) ∧
    readAt? .stops "" (lastPosition 64) = none ∧
    ∀ overflow, ¬∃ t behind, readAt? overflow "" (lastPosition 64) = some (t, behind) ∧
      lastPosition 64 < behind := by
  have hwraps : readAt? .wraps "" (lastPosition 64) = some (.endMark, 0) := by decide +kernel
  have hstops : readAt? .stops "" (lastPosition 64) = none := by decide +kernel
  refine ⟨hwraps, hstops, ?_⟩
  rintro overflow ⟨t, behind, hread, hlt⟩
  cases overflow with
  | wraps =>
      obtain ⟨-, rfl⟩ := Prod.mk.inj (Option.some.inj (hwraps.symm.trans hread))
      exact absurd hlt (by decide)
  | stops => cases hstops.symm.trans hread

end ReversePolish
