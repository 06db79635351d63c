import ReversePolish.Expr.Rule

/-!
# The grammar of rules

A *chain* is a sequence of factors joined by conjunctions and disjunctions, which have one level
and group to the left.  A *factor* is a negated factor, a chain in parentheses, or a name.

`Derives level ts e` says that the tokens `ts` form a chain or a factor whose tree is `e`.
Parentheses leave no node in the tree.
-/

namespace ReversePolish.Grammar

/-- The two levels of the grammar. -/
inductive Level where
  /-- Factors joined by binary operators. -/
  | chain
  /-- What a negation applies to. -/
  | factor
deriving DecidableEq, Repr

/-- The derivations of the grammar. -/
inductive Derives : Level → List Token → Expr → Prop where
  | and {ts us : List Token} {l r : Expr} (left : Derives .chain ts l)
      (right : Derives .factor us r) :
      Derives .chain (ts ++ .operator .and :: us) (.and l r)
  | or {ts us : List Token} {l r : Expr} (left : Derives .chain ts l)
      (right : Derives .factor us r) :
      Derives .chain (ts ++ .operator .or :: us) (.or l r)
  | single {ts : List Token} {e : Expr} (factor : Derives .factor ts e) : Derives .chain ts e
  | not {ts : List Token} {e : Expr} (factor : Derives .factor ts e) :
      Derives .factor (.operator .not :: ts) (.not e)
  | group {ts : List Token} {e : Expr} (inner : Derives .chain ts e) :
      Derives .factor (parenthesized ts) e
  | name {n : String} (isName : IsName n) : Derives .factor [.operand n] (.name n)

/-- A tree with proper names has a derivation: the one of its rule. -/
theorem derives_ruleTokens (e : Expr) (h : ∀ n ∈ e.names, IsName n) :
    Derives .chain e.ruleTokens e ∧
      Derives .factor (Expr.ruleTokens.argument e e.ruleTokens) e := by
  induction e with
  | name n =>
    have hn := Derives.name (h n (List.mem_singleton_self n))
    exact ⟨.single hn, hn⟩
  | not e ih =>
    have hn := Derives.not (ih h).2
    exact ⟨.single hn, hn⟩
  | and l r ihl ihr =>
    have hc := Derives.and (ihl fun n hn => h n (List.mem_append_left _ hn)).1
      (ihr fun n hn => h n (List.mem_append_right _ hn)).2
    exact ⟨hc, .group hc⟩
  | or l r ihl ihr =>
    have hc := Derives.or (ihl fun n hn => h n (List.mem_append_left _ hn)).1
      (ihr fun n hn => h n (List.mem_append_right _ hn)).2
    exact ⟨hc, .group hc⟩

end ReversePolish.Grammar
