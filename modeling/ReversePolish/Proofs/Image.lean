import ReversePolish.Proofs.Derivation
import ReversePolish.Proofs.Postorder

/-!
# What conversions can answer

**The answers are exactly the balanced sequences of proper names** (`convert_eq_ok_iff`).  One
direction follows a run: what it emits are operands that it has read, and an answer has passed the
count.  For the other direction a balanced sequence is read back as a tree, and the rule of the
tree, with parentheses around a binary right operand and a binary operand of a negation only, is
converted to the sequence again.
-/

namespace ReversePolish

variable {accepts : Validator}

/-- The operands of an answer have proper names. -/
lemma isName_of_convertWith {text : String} {p : Postfix} (h : convertWith accepts text = .ok p) :
    ∀ n ∈ p.names, IsName n := by
  intro n hn
  obtain ⟨hfault, -, htokens⟩ := convertWith_eq_ok_iff.1 h
  have hnames := (tokenRun_conversion accepts text).names_emitted hfault
  rw [htokens] at hnames
  have hmem : n ∈ (tokensOf text ++ [Token.endMark]).filterMap Token.name? := hnames ▸ hn
  rcases List.mem_append.1 (mem_filterMap_name?.1 hmem) with ht | ht
  · exact isWritable_of_mem_tokensOf ht
  · cases List.mem_singleton.1 ht

/-! ## The rule of a tree -/

/-- Tokens that are written without blanks are a spelling. -/
lemma spelled_flatMap_text (ts : List Token) : Spelled ts (ts.flatMap Token.text) := by
  induction ts with
  | nil => exact .done .nil
  | cons t ts ih => exact Spelled.token .nil ih

/-- **The rule of a tree is converted to its postorder.** -/
theorem convert_rule {e : Expr} (h : ∀ n ∈ e.names, IsName n) :
    convert e.rule = .ok { tokens := e.postorder } := by
  have hderives := (Grammar.derives_ruleTokens e h).1
  refine convert_of_tokensOf hderives (tokensOf_of_spelled hderives ?_)
  rw [Expr.rule, String.toList_ofList]
  exact spelled_flatMap_text e.ruleTokens

/-- **The answers of conversions are the balanced sequences of proper names**, and each is the
answer to the rule of its tree. -/
theorem convert_eq_ok_iff (p : Postfix) :
    ((∃ text, convert text = .ok p) ↔
      Postfix.isBalanced p.tokens = true ∧ ∀ n ∈ p.names, IsName n) ∧
    (Postfix.isBalanced p.tokens = true → (∀ n ∈ p.names, IsName n) →
      ∃ e : Expr, (∀ e' : Expr, e'.postorder = p.tokens ↔ e' = e) ∧
        convert e.rule = .ok p) := by
  have hrule : Postfix.isBalanced p.tokens = true → (∀ n ∈ p.names, IsName n) →
      ∃ e : Expr, (∀ e' : Expr, e'.postorder = p.tokens ↔ e' = e) ∧
        convert e.rule = .ok p := by
    intro hbalanced hnames
    obtain ⟨e, he⟩ := Postfix.isBalanced_iff_postorder.1 hbalanced
    refine ⟨e, fun e' => ⟨fun he' => Expr.postorder_inj (he'.trans he.symm), ?_⟩, ?_⟩
    · rintro rfl
      exact he
    · rw [Postfix.names, ← he, e.filterMap_name?_postorder] at hnames
      rw [convert_rule hnames, he]
  refine ⟨⟨?_, ?_⟩, hrule⟩
  · rintro ⟨text, h⟩
    obtain ⟨-, hbalanced, htokens⟩ := convertWith_eq_ok_iff.1 h
    exact ⟨htokens ▸ hbalanced, isName_of_convertWith h⟩
  · rintro ⟨hbalanced, hnames⟩
    obtain ⟨e, -, he⟩ := hrule hbalanced hnames
    exact ⟨e.rule, he⟩

end ReversePolish
