import ReversePolish.Proofs.Image
import ReversePolish.Proofs.Layout

/-!
# The written form of a sequence

**The written form of an answer tells which answer it is** (`printed_answer_unambiguous`): its
tokens are read from it, and cut at its spaces it is the list of the written tokens.

Nothing is quoted where a sequence is written, and a name is written as it is.  So this does not
hold of every sequence: an operand `a b` is written like two operands, and an operand `&` like a
conjunction.  It holds of the sequences whose operands have proper names, because their written form
is a way to lay out their tokens (`Postfix.layout_text`), and conversions answer with no others.
-/

namespace ReversePolish

/-! ## Tokens with one space between neighbours -/

/-- A space keeps a layout apart from an operand in front of it. -/
lemma LayoutAfter.space {afterOperand : Bool} {ts : List Token} {text : List Char}
    (h : LayoutAfter false ts text) : LayoutAfter afterOperand ts (' ' :: text) := by
  have hspace : AllBlank [' '] := by decide
  cases h with
  | done blank => exact .done (hspace.append blank)
  | token blank writable apart rest =>
      exact .token (hspace.append blank) writable (fun _ _ => List.cons_ne_nil _ _) rest

/-- Tokens with one space between neighbours are laid out. -/
lemma layoutAfter_intercalate {ts : List Token} (writable : ∀ t ∈ ts, t.IsWritable) :
    LayoutAfter false ts ([' '].intercalate (ts.map Token.text)) := by
  induction ts with
  | nil => exact .done .nil
  | cons t ts ih =>
      obtain ⟨ht, hts⟩ := List.forall_mem_cons.1 writable
      cases ts with
      | nil =>
          rw [List.map_singleton, List.intercalate_singleton, ← List.append_nil t.text]
          exact .compact ht nofun (.done .nil)
      | cons u us =>
          rw [List.map_cons, List.map_cons, List.intercalate_cons_cons, List.append_assoc]
          exact .compact ht nofun (ih hts).space

/-! ## Sequences of proper names -/

namespace Postfix

variable {p q : Postfix}

/-- The operands of a sequence are those of the tokens that are written in the same way. -/
lemma filterMap_name?_map_toToken (ts : List Token) :
    (ts.map Token.toToken).filterMap ReversePolish.Token.name? = ts.filterMap Token.name? := by
  rw [List.filterMap_map]
  congr 1
  funext t
  cases t <;> rfl

lemma mem_names_iff {n : String} : n ∈ p.names ↔ .operand n ∈ p.tokens.map Token.toToken := by
  rw [names, ← filterMap_name?_map_toToken, mem_filterMap_name?]

/-- Every token can be written if the operands have proper names. -/
lemma isWritable_toToken (h : ∀ n ∈ p.names, IsName n) :
    ∀ t ∈ p.tokens.map Token.toToken, t.IsWritable := by
  intro t ht
  cases t with
  | operand n => exact h n (mem_names_iff.2 ht)
  | operator op =>
      obtain ⟨u, -, hu⟩ := List.mem_map.1 ht
      rintro rfl
      cases u <;> cases hu

/-- **The written form is a way to write the tokens.** -/
theorem layout_text (h : ∀ n ∈ p.names, IsName n) :
    Layout (p.tokens.map Token.toToken) p.text := by
  have htext : p.text.toList =
      [' '].intercalate ((p.tokens.map Token.toToken).map ReversePolish.Token.text) := by
    rw [text, strings, String.toList_intercalate, List.map_map, List.map_map]
    congr 2
    funext t
    exact t.toList_text
  rw [Layout, htext]
  exact layoutAfter_intercalate (isWritable_toToken h)

lemma tokensOf_text (h : ∀ n ∈ p.names, IsName n) :
    tokensOf p.text = p.tokens.map Token.toToken :=
  layout_iff.1 (layout_text h)

/-- Cut at its spaces, the written form is the list of the written tokens, none of which holds a
space. -/
lemma split_text (h : ∀ n ∈ p.names, IsName n) (nonempty : p.tokens ≠ []) :
    (p.text.split ' ').toList.map (·.copy) = p.strings := by
  have hspace : ∀ s ∈ p.strings, ' ' ∉ s.toList := by
    intro s hs
    obtain ⟨t, ht, rfl⟩ := List.mem_map.1 hs
    have hwritable := isWritable_toToken h _ (List.mem_map_of_mem ht)
    rw [t.toList_text]
    intro hmem
    have hblank := ReversePolish.Token.isBlank_of_mem_text hwritable ' ' hmem
    rw [isBlank_space] at hblank
    cases hblank
  have hne : p.strings ≠ [] := fun hnil => nonempty (List.map_eq_nil_iff.1 hnil)
  have hsplit := String.toList_split_intercalate hspace
  rw [if_neg hne] at hsplit
  exact hsplit

/-- **Sequences of proper names that are written alike are the same.** -/
theorem text_inj (hp : ∀ n ∈ p.names, IsName n) (hq : ∀ n ∈ q.names, IsName n) :
    p.text = q.text ↔ p = q := by
  refine ⟨fun h => ?_, congrArg text⟩
  have htokens := tokensOf_text hp
  rw [h, tokensOf_text hq] at htokens
  have hsame : q.tokens = p.tokens := (List.map_inj_right fun _ _ => Token.toToken_inj.1).1 htokens
  exact congrArg Postfix.mk hsame.symm

/-- Without proper names one text may stand for two sequences. -/
example : text ⟨[.operand "a & b"]⟩ = text ⟨[.operand "a", .and, .operand "b"]⟩ := by decide

end Postfix

/-! ## The answers of conversions -/

/-- **The written form of an answer is unambiguous.**  Reading it gives the tokens of the answer and
then the end mark, cutting it at every space gives the list of its written tokens, and no other
answer has the same written form or the same list. -/
theorem printed_answer_unambiguous {accepts : Validator} {text : String} {p : Postfix}
    (h : convertWith accepts text = .ok p) :
    (Cursor.start p.text).scan.map Prod.fst =
      p.tokens.map Postfix.Token.toToken ++ [.endMark] ∧
    (p.text.split ' ').toList.map (·.copy) = p.strings ∧
    ∀ (accepts' : Validator) (text' : String) (q : Postfix),
      convertWith accepts' text' = .ok q →
      (p.text = q.text → p = q) ∧ (p.strings = q.strings → p = q) := by
  have hnames := isName_of_convertWith h
  have hne := Postfix.ne_nil_of_isBalanced (isBalanced_of_convertWith h)
  refine ⟨?_, Postfix.split_text hnames hne, ?_⟩
  · rw [Cursor.map_fst_scan, ← Postfix.tokensOf_text hnames]
    rfl
  · intro accepts' text' q h'
    have hinj : p.text = q.text → p = q := (Postfix.text_inj hnames (isName_of_convertWith h')).1
    exact ⟨hinj, fun hstrings => hinj (congrArg (" ".intercalate ·) hstrings)⟩

/-- A name of another script, written beside operators without a blank. -/
theorem printed_answer_unambiguous_group :
    convertWith (· != "c") "!(新|b)&b" =
      .ok { tokens := [.operand "新", .operand "b", .or, .not, .operand "b", .and] } ∧
    (Cursor.start "新 b | ! b &").scan.map Prod.fst =
      [.operand "新", .operand "b", .operator .or, .operator .not, .operand "b",
        .operator .and, .endMark] ∧
    ("新 b | ! b &".split ' ').toList.map (·.copy) = ["新", "b", "|", "!", "b", "&"] ∧
    ∀ (accepts : Validator) (text : String) (q : Postfix),
      convertWith accepts text = .ok q → q.text = "新 b | ! b &" →
      q = { tokens := [.operand "新", .operand "b", .or, .not, .operand "b", .and] } := by
  have hok : convertWith (· != "c") "!(新|b)&b" =
      .ok { tokens := [.operand "新", .operand "b", .or, .not, .operand "b", .and] } := by
    decide +kernel
  obtain ⟨hscan, hsplit, hunique⟩ := printed_answer_unambiguous hok
  exact ⟨hok, hscan, hsplit,
    fun accepts text q h hq => ((hunique accepts text q h).1 hq.symm).symm⟩

end ReversePolish
