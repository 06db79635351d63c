import ReversePolish.Proofs.FirstFault

/-!
# Balanced parts of sequences

**A balanced part does what one operand does**, wherever it stands: it adds one value to those that
lie there already, however many they are.  So it can be put in the place of an operand, and an
operand in its place, in any sequence, also in one that is not balanced; and nothing else can
(`isBalanced_iff_interchangeable`).

**No balanced sequence ends with another one** (`suffixFree_of_isBalanced`).  What stands before a
proper end has left a value, because every token leaves one.  A balanced end would add another one
to it, but there is only one in the end.  Beginnings are different: `a` and `a !` are both
balanced.
-/

namespace ReversePolish.Postfix

/-! ## In the place of an operand -/

/-- **A balanced sequence adds one to any depth.** -/
theorem isBalanced_iff_forall_depthAfter {ts : List Token} :
    isBalanced ts = true ↔ ∀ d, depthAfter d ts = some (d + 1) := by
  rw [isBalanced_iff]
  refine ⟨fun h d => ?_, fun h => h 0⟩
  have hadd := depthAfter_add h d
  rwa [Nat.zero_add, Nat.add_comm 1] at hadd

/-- Parts that do the same to every depth can be put in the place of each other. -/
lemma isBalanced_append_congr {ts us : List Token}
    (h : ∀ d, depthAfter d ts = depthAfter d us) (before behind : List Token) :
    isBalanced (before ++ ts ++ behind) = isBalanced (before ++ us ++ behind) := by
  rw [isBalanced, isBalanced]
  simp only [depthAfter_append, h]

/-- **The balanced sequences are those that can stand for an operand**: to put one in the place of
an operand, or an operand in its place, changes nothing about whether the whole is balanced. -/
theorem isBalanced_iff_interchangeable (ts : List Token) :
    isBalanced ts = true ↔
      ∀ (before behind : List Token) (name : String),
        isBalanced (before ++ ts ++ behind) =
          isBalanced (before ++ [.operand name] ++ behind) := by
  constructor
  · intro h before behind name
    exact isBalanced_append_congr (isBalanced_iff_forall_depthAfter.1 h) before behind
  · intro h
    have halone := h [] [] ""
    rw [List.nil_append, List.append_nil] at halone
    rw [halone]
    rfl

/-! ## Ends of balanced sequences -/

/-- The last token finds what it consumes and leaves one value. -/
lemma depthAfter_concat_eq_some_iff {d e : Nat} {ts : List Token} {t : Token} :
    depthAfter d (ts ++ [t]) = some e ↔
      ∃ m, depthAfter d ts = some m ∧ t.arity ≤ m ∧ e + t.arity = m + 1 := by
  have hlast : ∀ m, depthAfter m [t] = depthAfterToken m t := fun m => Option.bind_fun_some _
  simp only [depthAfter_append, Option.bind_eq_some_iff, hlast, depthAfterToken_eq_some_iff]

/-- Behind a token there is a value. -/
lemma depthAfter_pos {d e : Nat} {ts : List Token} (h : depthAfter d ts = some e)
    (nonempty : ts ≠ []) : 0 < e := by
  rw [← List.dropLast_concat_getLast nonempty] at h
  obtain ⟨m, -, hle, heq⟩ := depthAfter_concat_eq_some_iff.1 h
  omega

/-- **A balanced sequence that ends with a balanced one is that one.** -/
theorem eq_of_suffix_of_isBalanced {ts us : List Token} (h : isBalanced ts = true)
    (hus : isBalanced us = true) (suffix : us <:+ ts) : us = ts := by
  obtain ⟨before, rfl⟩ := suffix
  rw [isBalanced_iff, depthAfter_append] at h
  obtain ⟨d, hbefore, hend⟩ := Option.bind_eq_some_iff.1 h
  -- the end adds one to the depth behind `before` and comes out at one
  rw [isBalanced_iff_forall_depthAfter.1 hus] at hend
  obtain rfl : d = 0 := Nat.succ.inj (Option.some.inj hend)
  cases before with
  | nil => rfl
  | cons t more => exact absurd (depthAfter_pos hbefore (List.cons_ne_nil t more)) (Nat.lt_irrefl 0)

/-- Of the tokens only a negation consumes one value. -/
lemma Token.arity_eq_one_iff {t : Token} : t.arity = 1 ↔ t = .not := by
  cases t <;> simp [arity]

/-- Before its last token a balanced sequence has as many values as the token consumes. -/
lemma isBalanced_of_concat_iff {ts : List Token} {t : Token}
    (h : isBalanced (ts ++ [t]) = true) : isBalanced ts = true ↔ t = .not := by
  obtain ⟨m, hm, -, heq⟩ := depthAfter_concat_eq_some_iff.1 (isBalanced_iff.1 h)
  obtain rfl : t.arity = m := by omega
  rw [isBalanced_iff, hm, Option.some.injEq, Token.arity_eq_one_iff]

/-- No proper end of the sequence is balanced, the empty one included, and without its last token
the sequence is balanced exactly if that token is a negation. -/
structure SuffixFree (ts : List Token) : Prop where
  suffix : ∀ us, us <:+ ts → us ≠ ts → isBalanced us = false
  dropLast : isBalanced ts.dropLast = true ↔ ts.getLast? = some .not

/-- **Balanced sequences are suffix-free**, the answers of conversions among them. -/
theorem suffixFree_of_isBalanced (ts : List Token) :
    (isBalanced ts = true → SuffixFree ts) ∧
    ∀ (accepts : Validator) (text : String),
      convertWith accepts text = .ok { tokens := ts } → SuffixFree ts := by
  have hfree : isBalanced ts = true → SuffixFree ts := by
    intro h
    refine ⟨fun us suffix hne => ?_, ?_⟩
    · exact Bool.eq_false_iff.2 fun hus => hne (eq_of_suffix_of_isBalanced h hus suffix)
    · have hsplit := List.dropLast_concat_getLast (ne_nil_of_isBalanced h)
      rw [← hsplit] at h
      rw [isBalanced_of_concat_iff h, List.getLast?_eq_some_getLast, Option.some.injEq]
  exact ⟨hfree, fun accepts text h => hfree (isBalanced_of_convertWith h)⟩

/-- A sequence that ends with a negation, and an answer that does not. -/
theorem suffixFree_of_isBalanced_negation :
    isBalanced [.operand "a", .operand "b", .or, .not] = true ∧
    SuffixFree [.operand "a", .operand "b", .or, .not] ∧
    convertWith (· != "c") "!(a|b)&d" =
      .ok { tokens := [.operand "a", .operand "b", .or, .not, .operand "d", .and] } ∧
    SuffixFree [.operand "a", .operand "b", .or, .not, .operand "d", .and] := by
  have hbalanced : isBalanced [.operand "a", .operand "b", .or, .not] = true := by decide
  have hok : convertWith (· != "c") "!(a|b)&d" =
      .ok { tokens := [.operand "a", .operand "b", .or, .not, .operand "d", .and] } := by
    decide +kernel
  exact ⟨hbalanced, (suffixFree_of_isBalanced _).1 hbalanced, hok,
    (suffixFree_of_isBalanced _).2 _ _ hok⟩

end ReversePolish.Postfix
