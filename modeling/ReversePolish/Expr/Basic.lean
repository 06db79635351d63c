import ReversePolish.Postfix.Value

/-!
# Expression trees

An `Expr` is a rule with its grouping made explicit.  It has a value for every choice of truth
values, and one sequence in reverse Polish order, its postorder.

Both are tied to the stack: counting or evaluating a postorder adds exactly one value to whatever
lies below, and leaves the rest alone (`depthAfter_postorder`, `valuesAfter_postorder`).
-/

namespace ReversePolish

/-- A rule as a tree. -/
inductive Expr where
  | name (name : String)
  | not (e : Expr)
  | and (left right : Expr)
  | or (left right : Expr)
deriving DecidableEq, Repr

namespace Expr

/-- The tree in reverse Polish order: operands before their operator, left before right. -/
def postorder : Expr → List Postfix.Token
  | .name n => [.operand n]
  | .not e => e.postorder ++ [.not]
  | .and l r => l.postorder ++ r.postorder ++ [.and]
  | .or l r => l.postorder ++ r.postorder ++ [.or]

/-- The truth value of the tree. -/
def value (env : String → Bool) : Expr → Bool
  | .name n => env n
  | .not e => !e.value env
  | .and l r => l.value env && r.value env
  | .or l r => l.value env || r.value env

def names : Expr → List String
  | .name n => [n]
  | .not e => e.names
  | .and l r | .or l r => l.names ++ r.names

def isBinary : Expr → Bool
  | .and .. | .or .. => true
  | .name _ | .not _ => false

/-- A postorder adds one to the depth. -/
theorem depthAfter_postorder (e : Expr) (d : Nat) :
    Postfix.depthAfter d e.postorder = some (d + 1) := by
  induction e generalizing d with
  | name n => rfl
  | not e ih => simp [postorder, Postfix.depthAfter_append, ih, Postfix.depthAfter_cons]
  | and l r ihl ihr | or l r ihl ihr =>
    simp [postorder, Postfix.depthAfter_append, ihl, ihr, Postfix.depthAfter_cons]

/-- A postorder adds the value of its tree. -/
theorem valuesAfter_postorder (env : String → Bool) (e : Expr) (values : List Bool) :
    Postfix.valuesAfter env values e.postorder = some (e.value env :: values) := by
  induction e generalizing values with
  | name n => rfl
  | not e ih =>
    simp [postorder, Postfix.valuesAfter_append, ih, Postfix.valuesAfter,
      Postfix.valuesAfterToken, value]
  | and l r ihl ihr | or l r ihl ihr =>
    simp [postorder, Postfix.valuesAfter_append, ihl, ihr, Postfix.valuesAfter,
      Postfix.valuesAfterToken, value]

/-- The operands stand in the postorder as they stand in the tree. -/
theorem filterMap_name?_postorder (e : Expr) :
    e.postorder.filterMap Postfix.Token.name? = e.names := by
  induction e with
  | name n => rfl
  | not e ih => simp [postorder, names, ih, Postfix.Token.name?]
  | and l r ihl ihr | or l r ihl ihr => simp [postorder, names, ihl, ihr, Postfix.Token.name?]

end Expr

end ReversePolish
