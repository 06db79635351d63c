import Mathlib.Logic.ExistsUnique
import Mathlib.Tactic.Lemma
import ReversePolish.Expr.Basic

/-!
# Reading a sequence back as a tree

A sequence in reverse Polish order is read with a stack of trees, as it is evaluated with a stack
of values: an operand adds a leaf, and an operator puts the trees on top under one node.
`treesAfter` is the stack after a sequence.

* `treesAfter_postorder` — a postorder adds its tree, so it is the postorder of no other
  (`Expr.postorder_inj`).
* `map_value_treesAfter` — evaluating every tree on the stack gives the stack of values.  Reading
  therefore succeeds where evaluating does, and that depends on the depth alone.
* **`isBalanced_iff_postorder`** — the balanced sequences are the postorders.
* **`isBalanced_iff_exists_tree_and_value`** — counting, reading and evaluating accept the same
  sequences, and there is one way to read each.
-/

namespace ReversePolish

namespace Postfix

/-- The trees after a token, the latest first, if the token finds the trees it consumes. -/
def treesAfterToken : List Expr → Token → Option (List Expr)
  | trees, .operand name => some (.name name :: trees)
  | e :: trees, .not => some (.not e :: trees)
  | r :: l :: trees, .and => some (.and l r :: trees)
  | r :: l :: trees, .or => some (.or l r :: trees)
  | _, _ => none

/-- The trees after a sequence, the latest first, if every token finds the trees it consumes. -/
def treesAfter (trees : List Expr) : List Token → Option (List Expr)
  | [] => some trees
  | t :: ts => (treesAfterToken trees t).bind fun es => treesAfter es ts

lemma treesAfter_append (trees : List Expr) (ts us : List Token) :
    treesAfter trees (ts ++ us) = (treesAfter trees ts).bind fun es => treesAfter es us := by
  induction ts generalizing trees with
  | nil => rfl
  | cons t ts ih => simp only [List.cons_append, treesAfter, ih, Option.bind_assoc]

/-- A postorder adds its tree. -/
lemma treesAfter_postorder (e : Expr) :
    ∀ trees, treesAfter trees e.postorder = some (e :: trees) := by
  induction e with
  | name n => exact fun _ => rfl
  | not e ih =>
      intro trees
      rw [Expr.postorder, treesAfter_append, ih]
      rfl
  | and l r ihl ihr | or l r ihl ihr =>
      intro trees
      rw [Expr.postorder, treesAfter_append, treesAfter_append, ihl, Option.bind_some, ihr]
      rfl

/-- Reading a token keeps what is written on the stack, and adds the token. -/
lemma flatMap_treesAfterToken {trees es : List Expr} {t : Token}
    (h : treesAfterToken trees t = some es) :
    es.reverse.flatMap Expr.postorder = trees.reverse.flatMap Expr.postorder ++ [t] := by
  cases t with
  | operand name =>
      cases h
      simp [Expr.postorder]
  | not =>
      rcases trees with _ | ⟨e, trees⟩
      · cases h
      · cases h
        simp [Expr.postorder]
  | and | or =>
      rcases trees with _ | ⟨r, _ | ⟨l, trees⟩⟩
      · cases h
      · cases h
      · cases h
        simp [Expr.postorder]

/-- Nothing is lost in reading: the trees on the stack are written as the sequence. -/
lemma flatMap_treesAfter {trees es : List Expr} {ts : List Token}
    (h : treesAfter trees ts = some es) :
    es.reverse.flatMap Expr.postorder = trees.reverse.flatMap Expr.postorder ++ ts := by
  induction ts generalizing trees with
  | nil =>
      cases h
      rw [List.append_nil]
  | cons t ts ih =>
      obtain ⟨more, hmore, hrest⟩ := Option.bind_eq_some_iff.1 h
      rw [ih hrest, flatMap_treesAfterToken hmore, List.append_assoc]
      rfl

/-- Evaluating the trees on the stack commutes with reading a token. -/
lemma map_value_treesAfterToken (env : String → Bool) (trees : List Expr) (t : Token) :
    (treesAfterToken trees t).map (List.map (Expr.value env)) =
      valuesAfterToken env (trees.map (Expr.value env)) t := by
  cases t with
  | operand name => rfl
  | not => cases trees <;> rfl
  | and | or => rcases trees with _ | ⟨r, _ | ⟨l, trees⟩⟩ <;> rfl

/-- Evaluating the trees on the stack commutes with reading a sequence. -/
theorem map_value_treesAfter (env : String → Bool) (trees : List Expr) (ts : List Token) :
    (treesAfter trees ts).map (List.map (Expr.value env)) =
      valuesAfter env (trees.map (Expr.value env)) ts := by
  induction ts generalizing trees with
  | nil => rfl
  | cons t ts ih =>
      rw [treesAfter, valuesAfter, ← map_value_treesAfterToken]
      cases treesAfterToken trees t with
      | none => rfl
      | some es => exact ih es

/-- Reading changes the height of the stack as it changes the depth. -/
lemma map_length_treesAfter (trees : List Expr) (ts : List Token) :
    (treesAfter trees ts).map List.length = depthAfter trees.length ts := by
  -- the height of the stack of values does not depend on the values
  have hvalues := map_length_valuesAfter (fun _ => false) (trees.map (Expr.value fun _ => false)) ts
  rw [← map_value_treesAfter, Option.map_map, List.length_map] at hvalues
  rw [← hvalues]
  cases treesAfter trees ts with
  | none => rfl
  | some es => exact congrArg some (List.length_map _).symm

end Postfix

/-- **A sequence is the postorder of at most one tree.** -/
theorem Expr.postorder_inj {e f : Expr} (h : e.postorder = f.postorder) : e = f := by
  have he := Postfix.treesAfter_postorder e []
  rw [h, Postfix.treesAfter_postorder f []] at he
  exact (List.cons.inj (Option.some.inj he)).1.symm

/-- **The balanced sequences are the postorders.** -/
theorem Postfix.isBalanced_iff_postorder {ts : List Token} :
    isBalanced ts = true ↔ ∃ e : Expr, e.postorder = ts := by
  rw [isBalanced_iff]
  constructor
  · intro h
    have hlength := map_length_treesAfter [] ts
    rw [List.length_nil, h] at hlength
    obtain ⟨es, hes, hone⟩ := Option.map_eq_some_iff.1 hlength
    obtain ⟨e, rfl⟩ := List.length_eq_one_iff.1 hone
    exact ⟨e, by simpa using flatMap_treesAfter hes⟩
  · rintro ⟨e, rfl⟩
    exact e.depthAfter_postorder 0

/-- A sequence is balanced if it has a value, whatever the truth values of its operands are. -/
lemma Postfix.isBalanced_iff_exists_value? (env : String → Bool) {ts : List Token} :
    isBalanced ts = true ↔ ∃ b, value? env ts = some b := by
  have hlength := map_length_valuesAfter env [] ts
  rw [List.length_nil] at hlength
  rw [isBalanced_iff, ← hlength, Option.map_eq_some_iff]
  constructor
  · rintro ⟨values, hvalues, hone⟩
    obtain ⟨b, rfl⟩ := List.length_eq_one_iff.1 hone
    exact ⟨b, value?_eq_some_iff.2 hvalues⟩
  · rintro ⟨b, hb⟩
    exact ⟨[b], value?_eq_some_iff.1 hb, rfl⟩

/-- **Counting decides which sequences are expressions**: the balanced ones are the postorders of
trees, each of exactly one tree, and they are those that have a value, under any truth values: no
operator lacks an argument, and one value is left at the end. -/
theorem Postfix.isBalanced_iff_exists_tree_and_value (ts : List Token) :
    (isBalanced ts = true ↔ ∃ e : Expr, e.postorder = ts) ∧
    (isBalanced ts = true ↔ ∃! e : Expr, e.postorder = ts) ∧
    ∀ env, (isBalanced ts = true ↔ ∃ b, value? env ts = some b) := by
  refine ⟨isBalanced_iff_postorder, ?_, fun env => isBalanced_iff_exists_value? env⟩
  rw [isBalanced_iff_postorder]
  constructor
  · rintro ⟨e, he⟩
    exact ⟨e, he, fun e' he' => Expr.postorder_inj (he'.trans he.symm)⟩
  · exact ExistsUnique.exists

end ReversePolish
