import ReversePolish.Proofs.Scanning
import ReversePolish.Proofs.TokenRun

/-!
# Layout does not matter

**Every text is laid out in exactly one way** (`layout_iff`): it is a way to write the tokens that
are read from it, and of no others.  **Two ways to write the same tokens are converted alike**
(`layout_insignificant`), because a run knows nothing but its tokens.  The text itself is only
echoed, in the report of a fault and in the last record of the log.  Two texts behind one another
are read as if each stood alone, unless a name goes on from one into the other (`tokensOf_append`);
a sign between them rules that out (`tokensOf_append_sign`).
-/

namespace ReversePolish

/-! ## The layout of a text -/

/-- What is read from a text is laid out in it, behind an operand too unless its name goes on. -/
lemma layoutAfter_tokens (text : List Char) :
    ∀ (afterOperand : Bool) (position : Nat),
      (afterOperand = true → ∀ c ∈ text.head?, isNameChar c = false) →
      LayoutAfter afterOperand (Cursor.tokens ⟨position, text⟩) text := by
  induction text using text_induction with
  | blank gap blank =>
      intro afterOperand position _
      rw [Cursor.tokens_of_blank blank]
      exact .done blank
  | token gap t text blank writable longest ih =>
      intro afterOperand position stops
      rw [Cursor.tokens_of_token blank writable longest]
      refine .token blank writable (fun hafter ht hgap => ?_) (ih _ _ longest)
      -- without a blank the name of the operand before would go on in this one
      obtain ⟨first, more, hcons, -, hfirst⟩ := Token.text_eq_cons writable
      have hstop := stops hafter first (by simp [hgap, hcons])
      rw [hfirst, ht] at hstop
      cases hstop

/-- **A text is a way to write the tokens that are read from it, and no others.** -/
theorem layout_iff {ts : List Token} {text : String} : Layout ts text ↔ tokensOf text = ts := by
  constructor
  · exact tokensOf_of_layout
  · rintro rfl
    exact layoutAfter_tokens text.toList false 0 nofun

/-! ## Texts behind one another -/

lemma AllBlank.append {gap gap' : List Char} (h : AllBlank gap) (h' : AllBlank gap') :
    AllBlank (gap ++ gap') := by
  intro c hc
  rcases List.mem_append.1 hc with hc | hc
  · exact h c hc
  · exact h' c hc

/-- Blanks in front of a layout belong to it. -/
lemma LayoutAfter.blank_append {afterOperand : Bool} {ts : List Token} {gap text : List Char}
    (blank : AllBlank gap) (h : LayoutAfter afterOperand ts text) :
    LayoutAfter afterOperand ts (gap ++ text) := by
  cases h with
  | done blank' => exact .done (blank.append blank')
  | token blank' writable apart rest =>
      rw [← List.append_assoc, ← List.append_assoc]
      refine .token (blank.append blank') writable (fun hafter ht => ?_) rest
      exact List.append_ne_nil_of_right_ne_nil gap (apart hafter ht)

/-- Tokens do not depend on blanks in front of them, nor on the position. -/
lemma Cursor.tokens_blank_append {gap : List Char} (blank : AllBlank gap) (text : List Char)
    (position position' : Nat) :
    tokens ⟨position, gap ++ text⟩ = tokens ⟨position', text⟩ := by
  have hlayout := layoutAfter_tokens text false position' nofun
  exact (hlayout.blank_append blank).tokens_eq position

/-- No name of the first text goes on in the second one. -/
def Apart (text text' : List Char) : Prop :=
  ∀ c ∈ text.getLast?, ∀ d ∈ text'.head?, isNameChar c = true → isNameChar d = false

-- the instances are named, so that a check looks at these two characters and not at all there are
instance (text text' : List Char) : Decidable (Apart text text') :=
  @Option.decidableForallMem _ _ (fun _ => Option.decidableForallMem _) _

lemma Apart.left {text text' rest : List Char} (h : Apart text (text' ++ rest)) :
    Apart text text' := by
  intro c hc d hd
  refine h c hc d ?_
  rw [List.head?_append, hd]
  rfl

lemma Apart.right {text text' rest : List Char} (h : Apart (rest ++ text) text') :
    Apart text text' := by
  intro c hc
  refine h c ?_
  rw [List.getLast?_append, hc]
  rfl

/-- A token that goes on as far as it can still does so when another text follows. -/
lemma Apart.longest {gap text text' : List Char} {t : Token}
    (h : Apart (gap ++ t.text ++ text) text') (writable : t.IsWritable)
    (longest : t.isOperand = true → ∀ c ∈ text.head?, isNameChar c = false) :
    t.isOperand = true → ∀ c ∈ (text ++ text').head?, isNameChar c = false := by
  intro ht
  cases text with
  | cons c cs => exact longest ht
  | nil =>
      intro d hd
      cases t with
      | operator op => cases ht
      | operand name =>
          -- the last character of the first text is the last one of the name
          have hne : name.toList ≠ [] := fun hnil => writable.1 (String.toList_eq_nil_iff.1 hnil)
          have hlast : (gap ++ (Token.operand name).text ++ []).getLast? =
              some (name.toList.getLast hne) := by
            rw [List.append_nil, List.getLast?_append, Token.text,
              List.getLast?_eq_some_getLast hne, Option.some_or]
          exact h _ hlast d hd (writable.2 _ (List.getLast_mem hne))

/-- **Two texts behind one another are read one after the other**, if no name goes on from the
first into the second. -/
theorem Cursor.tokens_append (text text' : List Char) :
    ∀ position position' : Nat, Apart text text' →
      tokens ⟨position, text ++ text'⟩ = tokens ⟨position, text⟩ ++ tokens ⟨position', text'⟩ := by
  induction text using text_induction with
  | blank gap blank =>
      intro position position' _
      rw [tokens_of_blank blank, List.nil_append]
      exact tokens_blank_append blank text' position position'
  | token gap t text blank writable longest ih =>
      intro position position' apart
      rw [List.append_assoc, tokens_of_token blank writable (apart.longest writable longest),
        tokens_of_token blank writable longest, ih _ position' apart.right]
      rfl

theorem tokensOf_append {text text' : String} (apart : Apart text.toList text'.toList) :
    tokensOf (text ++ text') = tokensOf text ++ tokensOf text' := by
  rw [tokensOf, Cursor.start, String.toList_append]
  exact Cursor.tokens_append _ _ 0 0 apart

/-- **A sign keeps two texts apart**: what is read are the tokens of the first one, the operator
and the tokens of the second one. -/
theorem tokensOf_append_sign {op : Operator} {sign : String}
    (writable : (Token.operator op).IsWritable) (hsign : sign.toList = (Token.operator op).text)
    (text text' : String) :
    tokensOf (text ++ sign ++ text') = tokensOf text ++ .operator op :: tokensOf text' := by
  obtain ⟨c, hc, htext⟩ := Token.text_operator writable
  have hname : isNameChar c = false := isNameChar_of_ofSymbol? hc
  rw [htext] at hsign
  have hafter : Apart (text ++ sign).toList text'.toList := by
    intro d hd _ _ hd'
    rw [String.toList_append, hsign, List.getLast?_concat] at hd
    cases hd
    rw [hname] at hd'
    cases hd'
  have hbefore : Apart text.toList sign.toList := by
    rw [hsign]
    rintro _ _ _ ⟨⟩ _
    exact hname
  have htokens : tokensOf sign = [.operator op] := by
    refine layout_iff.1 ?_
    rw [Layout, hsign, ← htext, ← List.append_nil (Token.operator op).text]
    exact .compact writable nofun (.done .nil)
  rw [tokensOf_append hafter, tokensOf_append hbefore, htokens, List.append_assoc]
  rfl

/-! ## What is echoed -/

/-- Of two texts whose conversions come out alike, the answers differ in the echoed expression
only. -/
lemma convertWith_of_result_eq {accepts : Validator} {text text' : String}
    (h : (conversion accepts text').result = (conversion accepts text).result) :
    convertWith accepts text' =
      (convertWith accepts text).mapError (·.withExpression text') := by
  rw [convertWith, convertWith, h]
  cases (conversion accepts text).result with
  | ok p => rfl
  | error fault => exact congrArg Except.error (fault.withExpression_report text text').symm

lemma convertWith_of_conversion_eq {accepts : Validator} {text text' : String}
    (h : conversion accepts text' = conversion accepts text) :
    convertWith accepts text' =
      (convertWith accepts text).mapError (·.withExpression text') :=
  convertWith_of_result_eq (congrArg Run.result h)

/-- Over two expressions a run leaves the same log, but for the echoed expression. -/
lemma Run.log_eq_map (r : Run) (text text' : String) :
    r.log text' = (r.log text).map (·.withExpression text') := by
  have hevents : ∀ events : List Event,
      (events.filterMap Log.Record.ofEvent?).map (·.withExpression text') =
        events.filterMap Log.Record.ofEvent? := by
    intro events
    rw [List.map_filterMap]
    congr 1
    funext event
    cases event <;> rfl
  rw [Run.log, Run.log, List.map_append, hevents]
  cases r.finalFault? <;> rfl

/-- **Layout is insignificant.**  Reading gives back the tokens of a layout and then the end mark,
and two layouts of the same tokens have the same conversion: the same answer, the same names asked
about and the same log, all but the echoed expression. -/
theorem layout_insignificant {ts : List Token} {text : String} (h : Layout ts text) :
    (Cursor.start text).scan.map Prod.fst = ts ++ [.endMark] ∧
    ∀ (accepts : Validator) (text' : String), Layout ts text' →
      convertWith accepts text' =
        (convertWith accepts text).mapError (·.withExpression text') ∧
      (conversion accepts text').asked = (conversion accepts text).asked ∧
      (conversion accepts text').log text' =
        ((conversion accepts text).log text).map (·.withExpression text') := by
  have htokens : tokensOf text = ts := layout_iff.1 h
  constructor
  · rw [Cursor.map_fst_scan, ← htokens]
    rfl
  · intro accepts text' h'
    have hrun : conversion accepts text' = conversion accepts text :=
      conversion_congr accepts ((layout_iff.1 h').trans htokens.symm)
    refine ⟨convertWith_of_conversion_eq hrun, by rw [hrun], ?_⟩
    rw [hrun]
    exact Run.log_eq_map _ text text'

/-- Two layouts of tokens that do not form a rule, one with blanks of other scripts. -/
theorem layout_insignificant_blanks :
    Layout [.operand "a", .operand "b", .operator .and] "a b&" ∧
    Layout [.operand "a", .operand "b", .operator .and] "\u3000a\n\tb \u0085& " ∧
    (Cursor.start "a b&").scan.map Prod.fst =
      [.operand "a", .operand "b", .operator .and, .endMark] ∧
    convertWith (· != "b") "\u3000a\n\tb \u0085& " =
      (convertWith (· != "b") "a b&").mapError (·.withExpression "\u3000a\n\tb \u0085& ") ∧
    (conversion acceptAll "\u3000a\n\tb \u0085& ").log "\u3000a\n\tb \u0085& " =
      ((conversion acceptAll "a b&").log "a b&").map
        (·.withExpression "\u3000a\n\tb \u0085& ") := by
  have hplain : Layout [.operand "a", .operand "b", .operator .and] "a b&" :=
    layout_iff.2 (by decide +kernel)
  have hspaced : Layout [.operand "a", .operand "b", .operator .and] "\u3000a\n\tb \u0085& " :=
    layout_iff.2 (by decide +kernel)
  obtain ⟨hscan, hlike⟩ := layout_insignificant hplain
  exact ⟨hplain, hspaced, hscan, (hlike _ _ hspaced).1, (hlike _ _ hspaced).2.2⟩

end ReversePolish
