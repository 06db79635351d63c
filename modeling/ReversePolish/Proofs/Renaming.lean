import ReversePolish.Proofs.Relabelling
import ReversePolish.Proofs.Scanning

/-!
# Operand names are opaque

**Renaming the operands of a text renames the operands of its conversion, and changes nothing
else** (`conversion_of_renamed`), whether or not different names stay different.  An image may be
longer or shorter than the name in whose place it stands, so what follows it moves; but blanks and
signs keep their places between the names, and a sign or a blank that ended a name ends its image
too.  So the tokens of the new text are the renamed tokens of the old one (`tokensOf_renameNames`),
and the rest is a matter of tokens alone (`conversion_relabel`).
-/

namespace ReversePolish

variable {f : String → String}

/-! ## The renamed text -/

/-- What stands in no name is left where it is. -/
lemma renameRuns_append {l : List Char} (h : ∀ c ∈ l, isNameChar c = false) (rest : List Char) :
    renameRuns f (l ++ rest) = l ++ renameRuns f rest := by
  induction l with
  | nil => rfl
  | cons c cs ih =>
      obtain ⟨hc, hcs⟩ := List.forall_mem_cons.1 h
      rw [List.cons_append, renameRuns, hc, if_neg Bool.false_ne_true, ih hcs]
      rfl

/-- A name that goes on as far as it can is replaced by its image. -/
lemma renameRuns_name_append {n : String} {rest : List Char} (hn : IsName n)
    (longest : ∀ c ∈ rest.head?, isNameChar c = false) :
    renameRuns f (n.toList ++ rest) = (f n).toList ++ renameRuns f rest := by
  obtain ⟨hne, hchars⟩ := hn
  cases hlist : n.toList with
  | nil => exact absurd (String.toList_eq_nil_iff.1 hlist) hne
  | cons first more =>
      rw [hlist] at hchars
      obtain ⟨hfirst, hmore⟩ := List.forall_mem_cons.1 hchars
      have hback : String.ofList (first :: more) = n := by rw [← hlist, String.ofList_toList]
      obtain ⟨htake, hdrop⟩ := takeWhile_dropWhile_append hmore longest
      rw [List.cons_append, renameRuns, if_pos hfirst, htake, hdrop, hback]

/-- What ends a name ends its image too. -/
lemma head?_renameRuns {rest : List Char} (h : ∀ c ∈ rest.head?, isNameChar c = false) :
    ∀ c ∈ (renameRuns f rest).head?, isNameChar c = false := by
  cases rest with
  | nil => rwa [renameRuns_nil]
  | cons c cs =>
      have hc := h c rfl
      rw [renameRuns, hc, if_neg Bool.false_ne_true]
      exact h

lemma renameRuns_token {gap rest : List Char} {t : Token} (blank : AllBlank gap)
    (writable : t.IsWritable)
    (longest : t.isOperand = true → ∀ c ∈ rest.head?, isNameChar c = false) :
    renameRuns f (gap ++ t.text ++ rest) = gap ++ (t.rename f).text ++ renameRuns f rest := by
  have hgap : ∀ c ∈ gap, isNameChar c = false := fun c hc => isNameChar_of_isBlank (blank c hc)
  rw [List.append_assoc, renameRuns_append hgap, List.append_assoc]
  cases t with
  | operator op =>
      obtain ⟨sign, hsign, htext⟩ := Token.text_operator writable
      refine congrArg (gap ++ ·) (renameRuns_append ?_ rest)
      simpa [htext] using isNameChar_of_ofSymbol? hsign
  | operand n => exact congrArg (gap ++ ·) (renameRuns_name_append writable (longest rfl))

/-! ## Its tokens -/

/-- The images of names are names, so that the renamed token can be written. -/
lemma Token.isWritable_rename {t : Token} (h : t.IsWritable)
    (hf : ∀ n, t = .operand n → IsName (f n)) : (t.rename f).IsWritable := by
  cases t with
  | operator op => exact h
  | operand n => exact hf n rfl

/-- **Renaming the names in a text renames its operands**, at whatever positions the tokens are
read. -/
theorem Cursor.tokens_renameRuns (rest : List Char) :
    ∀ position position' : Nat,
      (∀ n, .operand n ∈ tokens ⟨position, rest⟩ → IsName (f n)) →
      tokens ⟨position', renameRuns f rest⟩ = (tokens ⟨position, rest⟩).map (Token.rename f) := by
  induction rest using text_induction with
  | blank gap blank =>
      intro position position' _
      have hgap := renameRuns_append (f := f) (fun c hc => isNameChar_of_isBlank (blank c hc)) []
      rw [renameRuns_nil, List.append_nil] at hgap
      rw [hgap, tokens_of_blank blank, tokens_of_blank blank]
      rfl
  | token gap t rest blank writable longest ih =>
      intro position position' names
      rw [tokens_of_token blank writable longest] at names ⊢
      have hwritable : (t.rename f).IsWritable :=
        Token.isWritable_rename writable fun n ht => names n (ht ▸ List.mem_cons_self)
      have hlongest : (t.rename f).isOperand = true →
          ∀ c ∈ (renameRuns f rest).head?, isNameChar c = false := by
        intro ht
        exact head?_renameRuns (longest (by cases t <;> exact ht))
      rw [renameRuns_token blank writable longest, tokens_of_token blank hwritable hlongest,
        ih _ _ fun n hn => names n (List.mem_cons_of_mem _ hn)]
      rfl

/-- **The tokens of a renamed text are the renamed tokens.** -/
theorem tokensOf_renameNames {text : String}
    (names : ∀ n, Token.operand n ∈ tokensOf text → IsName (f n)) :
    tokensOf (renameNames f text) = (tokensOf text).map (Token.rename f) := by
  have htokens := Cursor.tokens_renameRuns text.toList 0 0 names
  rwa [← String.toList_ofList (l := renameRuns f text.toList)] at htokens

/-! ## Its conversion -/

/-- **Operand names are opaque.**  Where names of the text are replaced by names, which may
coincide, the new text is converted as the old one is by a validator that asks about the images:
the operands of an answer are replaced, a report is the same but for the operand that it is about
and for the echoed expression, and the names asked about are the images, in the same order. -/
theorem conversion_of_renamed {text : String}
    (names : ∀ n, Token.operand n ∈ tokensOf text → IsName (f n)) (accepts : Validator) :
    (convertWith accepts (renameNames f text) =
      match convertWith (fun n => accepts (f n)) text with
      | .ok p => .ok (p.rename f)
      | .error (.invalidSyntax info) =>
        .error (.invalidSyntax ⟨info.reason, info.operator, renameNames f text⟩)
      | .error (.operandNotRecognized operand _) =>
        .error (.operandNotRecognized (f operand) (renameNames f text))) ∧
    (conversion accepts (renameNames f text)).asked =
      (conversion (fun n => accepts (f n)) text).asked.map f := by
  have htokens : tokensOf (renameNames f text) =
      (tokensOf text).map (Relabelling.rename f).token := by
    rw [tokensOf_renameNames names]
    refine List.map_congr_left fun t _ => ?_
    cases t <;> rfl
  constructor
  · have hlike := convertWith_relabel (v := fun n => accepts (f n)) (fun _ => rfl) htokens
    rw [hlike]
    rcases convertWith (fun n => accepts (f n)) text with (info | operand) | p <;> rfl
  · rw [conversion_relabel (fun _ => rfl) htokens]
    exact (Relabelling.rename f).asked_run _

/-- Two names that become one, longer than the first and shorter than the second, and an operand
that is rejected by its image. -/
theorem conversion_of_renamed_merged :
    (∀ n, Token.operand n ∈ tokensOf "a &!(b1|long)" →
      IsName (if n = "a" then "A" else "xyz")) ∧
    renameNames (fun n => if n = "a" then "A" else "xyz") "a &!(b1|long)" = "A &!(xyz|xyz)" ∧
    convertWith acceptAll "A &!(xyz|xyz)" =
      .ok { tokens := [.operand "A", .operand "xyz", .operand "xyz", .or, .not, .and] } ∧
    convertWith (· != "xyz") "A &!(xyz|xyz)" =
      .error (.operandNotRecognized "xyz" "A &!(xyz|xyz)") ∧
    (conversion (· != "xyz") "A &!(xyz|xyz)").asked = ["A", "xyz"] := by
  have names : ∀ n, Token.operand n ∈ tokensOf "a &!(b1|long)" →
      IsName (if n = "a" then "A" else "xyz") := by
    intro n _
    split <;> decide
  have hrenamed : renameNames (fun n => if n = "a" then "A" else "xyz") "a &!(b1|long)" =
      "A &!(xyz|xyz)" := by
    decide +kernel
  have hok : convertWith (fun n => acceptAll (if n = "a" then "A" else "xyz")) "a &!(b1|long)" =
      .ok { tokens := [.operand "a", .operand "b1", .operand "long", .or, .not, .and] } := by
    decide +kernel
  have hrejected : convertWith (fun n => (if n = "a" then "A" else "xyz") != "xyz")
      "a &!(b1|long)" = .error (.operandNotRecognized "b1" "a &!(b1|long)") := by
    decide +kernel
  have hasked : (conversion (fun n => (if n = "a" then "A" else "xyz") != "xyz")
      "a &!(b1|long)").asked = ["a", "b1"] := by
    decide +kernel
  have haccepted := (conversion_of_renamed names acceptAll).1
  have hrefused := conversion_of_renamed names (· != "xyz")
  rw [hrenamed, hok] at haccepted
  rw [hrenamed, hrejected, hasked] at hrefused
  exact ⟨names, hrenamed, haccepted, hrefused.1, hrefused.2⟩

end ReversePolish
