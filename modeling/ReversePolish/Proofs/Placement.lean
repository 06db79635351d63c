import Mathlib.Data.List.Chain
import ReversePolish.Proofs.Bracketed
import ReversePolish.Proofs.Derivation

/-!
# Placement and the grammar

**A conversion fails by the count only where two neighbours do not fit**
(`convertWith_of_wellPlaced`).  The count looks at what was emitted, which stands in another order
than the text; the neighbours are those of the text.  What ties them together is the grammar.

* **`Grammar.exists_derives_iff`** — the rules of the grammar are the tokens with matching
  parentheses of which every one may follow the one before it.  A rule is converted to the postorder
  of its tree, and a postorder is balanced, so the count is right whatever operators waited in
  between.
* `wellPlacedAfter_iff_isChain` — being well placed is a matter of neighbours.

The tree of a rule is found along the bracket tree of the tokens.  What has been read at a place
inside a group either is a chain or lacks one factor to be one, and which of the two it is can be
seen from the last token alone (`Grammar.Begins`).
-/

namespace ReversePolish

/-! ## Neighbours -/

/-- Tokens are well placed if every two neighbours fit, the end mark included. -/
lemma wellPlacedAfter_iff_isChain {before : Token} {ts : List Token} :
    WellPlacedAfter before ts ↔ List.IsChain Token.MayFollow (before :: (ts ++ [.endMark])) := by
  induction ts generalizing before with
  | nil => simp [WellPlacedAfter]
  | cons t ts ih => simp [WellPlacedAfter, ih]

instance (before : Token) : DecidablePred (WellPlacedAfter before) := fun _ =>
  decidable_of_iff _ wellPlacedAfter_iff_isChain.symm

instance : DecidablePred WellPlaced :=
  inferInstanceAs (DecidablePred (WellPlacedAfter .endMark))

/-- Where tokens are not well placed, two neighbours do not fit. -/
lemma exists_not_mayFollow {ts : List Token} (h : ¬ WellPlaced ts) :
    ∃ before a b after, Token.endMark :: (ts ++ [.endMark]) = before ++ a :: b :: after ∧
      ¬ Token.MayFollow a b := by
  rw [WellPlaced, wellPlacedAfter_iff_isChain,
    List.isChain_iff_forall_rel_of_append_cons_cons] at h
  push Not at h
  obtain ⟨a, b, before, after, hsplit, hfollow⟩ := h
  exact ⟨before, a, b, after, hsplit, hfollow⟩

/-- A token that may follow where the end may follow cuts well-placed tokens into two parts. -/
lemma WellPlacedAfter.split {before t : Token} {ts us : List Token} (ht : t.leadsOperand = false)
    (h : WellPlacedAfter before (ts ++ t :: us)) :
    WellPlacedAfter before ts ∧ WellPlacedAfter t us := by
  induction ts generalizing before with
  | nil => exact ⟨ht.symm.trans h.1, h.2⟩
  | cons u ts ih =>
      obtain ⟨hts, hus⟩ := ih h.2
      exact ⟨⟨h.1, hts⟩, hus⟩

/-! ## Well-placed tokens form a rule -/

namespace Grammar

/-- What has been read of a chain: it lacks a factor to be one, or it is one already. -/
def Begins (wantsFactor : Bool) (ts : List Token) : Prop :=
  if wantsFactor then ∀ us e, Derives .factor us e → ∃ e', Derives .chain (ts ++ us) e'
  else ∃ e, Derives .chain ts e

section Begins

variable {ts us : List Token}

lemma Begins.nil : Begins true [] :=
  fun _ e h => ⟨e, .single h⟩

/-- A token that may follow says whether a factor is lacking. -/
lemma Begins.of_mayFollow {before t : Token} (h : Begins before.wantsOperand ts)
    (follow : before.MayFollow t) : Begins t.leadsOperand ts := by
  rw [show t.leadsOperand = before.wantsOperand from follow]
  exact h

lemma Begins.operand {n : String} (h : Begins true ts) (isName : IsName n) :
    Begins false (ts ++ [.operand n]) :=
  h _ _ (.name isName)

lemma Begins.not (h : Begins true ts) : Begins true (ts ++ [.operator .not]) := by
  intro us e he
  rw [List.append_assoc]
  exact h _ _ (.not he)

lemma Begins.and (h : Begins false ts) : Begins true (ts ++ [.operator .and]) := by
  intro us e he
  obtain ⟨l, hl⟩ := h
  rw [List.append_assoc]
  exact ⟨.and l e, .and hl he⟩

lemma Begins.or (h : Begins false ts) : Begins true (ts ++ [.operator .or]) := by
  intro us e he
  obtain ⟨l, hl⟩ := h
  rw [List.append_assoc]
  exact ⟨.or l e, .or hl he⟩

lemma Begins.group (h : Begins true ts) (inner : Begins false us) :
    Begins false (ts ++ parenthesized us) := by
  obtain ⟨e, he⟩ := inner
  exact h _ _ (.group he)

end Begins

/-- **Behind the beginning of a chain, a well-placed tree completes it.** -/
theorem begins_append_tokens (b : Bracketed) :
    ∀ (before : Token) (ts : List Token), (∀ t ∈ b.tokens, t.IsWritable) →
      WellPlacedAfter before b.tokens → Begins before.wantsOperand ts →
      Begins false (ts ++ b.tokens) := by
  induction b with
  | nil =>
      intro before ts _ placed h
      rw [Bracketed.tokens, List.append_nil]
      exact h.of_mayFollow placed
  | operand n rest ih =>
      rintro before ts writable ⟨follow, placed⟩ h
      obtain ⟨isName, writable⟩ := List.forall_mem_cons.1 writable
      simpa [Bracketed.tokens] using
        ih _ _ writable placed ((h.of_mayFollow follow).operand isName)
  | and rest ih =>
      rintro before ts writable ⟨follow, placed⟩ h
      obtain ⟨-, writable⟩ := List.forall_mem_cons.1 writable
      simpa [Bracketed.tokens] using ih _ _ writable placed (h.of_mayFollow follow).and
  | or rest ih =>
      rintro before ts writable ⟨follow, placed⟩ h
      obtain ⟨-, writable⟩ := List.forall_mem_cons.1 writable
      simpa [Bracketed.tokens] using ih _ _ writable placed (h.of_mayFollow follow).or
  | not rest ih =>
      rintro before ts writable ⟨follow, placed⟩ h
      obtain ⟨-, writable⟩ := List.forall_mem_cons.1 writable
      simpa [Bracketed.tokens] using ih _ _ writable placed (h.of_mayFollow follow).not
  | group inner rest ihi ihr =>
      intro before ts writable placed h
      have htokens : (Bracketed.group inner rest).tokens =
          .operator .openParen :: (inner.tokens ++ .operator .closeParen :: rest.tokens) := by
        simp [Bracketed.tokens, parenthesized]
      rw [htokens] at placed
      obtain ⟨follow, placed⟩ := placed
      -- the closing parenthesis stands where the end of the group could stand
      obtain ⟨hinner, hrest⟩ := placed.split rfl
      have hgroup := ihi _ [] (fun t ht => writable t (by simp [htokens, ht])) hinner .nil
      rw [Bracketed.tokens, ← List.append_assoc]
      exact ihr _ _ (fun t ht => writable t (by simp [htokens, ht])) hrest
        ((h.of_mayFollow follow).group hgroup)

/-- The parentheses of a rule match: reading it ends without a fault. -/
lemma Derives.matching {ts : List Token} {e : Expr} (h : Derives .chain ts e) : Matching ts := by
  have hemits : Emits acceptAll [.endOfInput] (ts ++ [.endMark]) e.postorder _ _ :=
    h.emits (fun n _ => acceptAll_apply n) .endOfInput [] _ (Or.inr rfl) flushing_endMark
  obtain ⟨r, hr, hfault, -⟩ := hemits _ .finish
  have hnone : firstFault? acceptAll ts = none := by
    rw [firstFault?_eq_faultBehind?, ← faultBehind?_append_endMark, ← hr.fault_eq [] rfl, hfault]
  exact (firstFault?_eq_none_iff.1 hnone).2

/-- **The rules of the grammar are the well-placed tokens with matching parentheses.** -/
theorem exists_derives_iff {ts : List Token} :
    (∃ e, Derives .chain ts e) ↔
      Matching ts ∧ WellPlaced ts ∧ ∀ t ∈ ts, t.IsWritable := by
  constructor
  · rintro ⟨e, h⟩
    have hplaced := h.wellPlaced .endMark [] rfl fun last hlast => hlast.symm
    rw [List.append_nil] at hplaced
    exact ⟨h.matching, hplaced, h.isWritable⟩
  · rintro ⟨matching, placed, writable⟩
    have hend : Token.endMark ∉ ts := fun h => writable _ h rfl
    rw [← Bracketed.tokens_ofTokens hend matching] at placed writable ⊢
    exact begins_append_tokens (Bracketed.ofTokens ts) .endMark [] writable placed .nil

/-- The operands of a rule are those of its tree. -/
lemma Derives.filterMap_name? {level : Level} {ts : List Token} {e : Expr}
    (h : Derives level ts e) : ts.filterMap Token.name? = e.names := by
  induction h with
  | and left right ihl ihr | or left right ihl ihr =>
      simp [Expr.names, List.filterMap_cons, Token.name?, ihl, ihr]
  | single factor ih => exact ih
  | not factor ih => simpa [Expr.names, List.filterMap_cons, Token.name?] using ih
  | group inner ih => simpa [parenthesized, List.filterMap_cons, Token.name?] using ih
  | name isName => rfl

end Grammar

/-! ## The conversion -/

/-- **A count that does not come out has a local cause.**  Where the parentheses match, all
operands are accepted and every token may follow the one before it, a conversion succeeds; so
where it fails by the count, two neighbours do not fit, the start and the end of the text
included. -/
theorem convertWith_of_wellPlaced (accepts : Validator) (text : String) :
    (Matching (tokensOf text) →
      (∀ name, .operand name ∈ tokensOf text → accepts name = true) →
      WellPlaced (tokensOf text) → ∃ p, convertWith accepts text = .ok p) ∧
    (convertWith accepts text =
        .error (.invalidSyntax
          ⟨"mismatch between the number of operators and operands", none, text⟩) →
      ∃ before a b after,
        Token.endMark :: (tokensOf text ++ [.endMark]) = before ++ a :: b :: after ∧
          ¬ Token.MayFollow a b) := by
  have hok : Matching (tokensOf text) →
      (∀ name, .operand name ∈ tokensOf text → accepts name = true) →
      WellPlaced (tokensOf text) → ∃ p, convertWith accepts text = .ok p := by
    intro matching accepted placed
    obtain ⟨e, he⟩ := Grammar.exists_derives_iff.2
      ⟨matching, placed, fun t => isWritable_of_mem_tokensOf⟩
    refine ⟨{ tokens := e.postorder }, convertWith_of_tokensOf he rfl fun n hn => ?_⟩
    rw [← he.filterMap_name?] at hn
    exact accepted n (mem_filterMap_name?.1 hn)
  refine ⟨hok, fun h => exists_not_mayFollow fun placed => ?_⟩
  obtain ⟨hfault, -⟩ := convertWith_eq_countMismatch_iff.1 h
  rw [fault_conversion] at hfault
  obtain ⟨accepted, matching⟩ := firstFault?_eq_none_iff.1 hfault
  obtain ⟨p, hp⟩ := hok matching accepted placed
  rw [h] at hp
  cases hp

/-- Neighbours that fit in nested groups, and two binary operators that do not. -/
theorem convertWith_neighbours :
    Matching (tokensOf "!(a|!(b&a))&c") ∧ WellPlaced (tokensOf "!(a|!(b&a))&c") ∧
    (∃ p, convertWith (· != "d") "!(a|!(b&a))&c" = .ok p) ∧
    convertWith acceptAll "(a & | b)" =
      .error (.invalidSyntax
        ⟨"mismatch between the number of operators and operands", none, "(a & | b)"⟩) ∧
    ∃ before a b after,
      Token.endMark :: (tokensOf "(a & | b)" ++ [.endMark]) = before ++ a :: b :: after ∧
        ¬ Token.MayFollow a b := by
  have hmatching : Matching (tokensOf "!(a|!(b&a))&c") := by decide +kernel
  have hplaced : WellPlaced (tokensOf "!(a|!(b&a))&c") := by decide +kernel
  have haccepted : ∀ name, .operand name ∈ tokensOf "!(a|!(b&a))&c" → (name != "d") = true := by
    have htokens : tokensOf "!(a|!(b&a))&c" =
        [.operator .not, .operator .openParen, .operand "a", .operator .or, .operator .not,
          .operator .openParen, .operand "b", .operator .and, .operand "a",
          .operator .closeParen, .operator .closeParen, .operator .and, .operand "c"] := by
      decide +kernel
    simp [htokens]
  have hmismatch : convertWith acceptAll "(a & | b)" =
      .error (.invalidSyntax
        ⟨"mismatch between the number of operators and operands", none, "(a & | b)"⟩) := by
    decide +kernel
  exact ⟨hmatching, hplaced, (convertWith_of_wellPlaced _ _).1 hmatching haccepted hplaced,
    hmismatch, (convertWith_of_wellPlaced _ _).2 hmismatch⟩

end ReversePolish
