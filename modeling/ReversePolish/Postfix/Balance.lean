import ReversePolish.Postfix.Basic

/-!
# Counting operands against operators

Reading a sequence from left to right, an operand adds one value, a negation replaces one, and a
binary operator replaces two by one.  The *depth* is the number of values at hand.  A sequence is
balanced when no operator finds fewer values than it consumes and one value is left at the end.

`depthAfter` is the count from any starting depth, because a part of a sequence has to be counted
where it stands.  Two facts carry all reasoning about parts: the count runs through a
concatenation in order (`depthAfter_append`), and further values under the ones that are used
change nothing (`depthAfter_add`).
-/

namespace ReversePolish.Postfix

/-- The depth after a token, if the token finds the values it consumes. -/
def depthAfterToken (depth : Nat) (t : Token) : Option Nat :=
  if depth < t.arity then none else some (depth - t.arity + 1)

/-- The depth after a sequence, if every token finds the values it consumes. -/
def depthAfter (depth : Nat) : List Token → Option Nat
  | [] => some depth
  | t :: ts => (depthAfterToken depth t).bind fun d => depthAfter d ts

/-- Whether a sequence leaves exactly one value and no operator lacks one. -/
def isBalanced (ts : List Token) : Bool :=
  depthAfter 0 ts == some 1

theorem isBalanced_iff {ts : List Token} : isBalanced ts = true ↔ depthAfter 0 ts = some 1 :=
  beq_iff_eq

theorem ne_nil_of_isBalanced {ts : List Token} (h : isBalanced ts = true) : ts ≠ [] := by
  rintro rfl
  cases h

/-! ## One token

From depth `d`, an operand leads to `d + 1`, a negation needs one value and keeps the depth, and a
binary operator needs two and leaves one less.
-/

@[simp] theorem depthAfterToken_operand (d : Nat) (name : String) :
    depthAfterToken d (.operand name) = some (d + 1) := rfl

@[simp] theorem depthAfterToken_not_succ (d : Nat) :
    depthAfterToken (d + 1) .not = some (d + 1) := by
  simp [depthAfterToken, Token.arity]

@[simp] theorem depthAfterToken_and_succ (d : Nat) :
    depthAfterToken (d + 2) .and = some (d + 1) := by
  simp [depthAfterToken, Token.arity]

@[simp] theorem depthAfterToken_or_succ (d : Nat) :
    depthAfterToken (d + 2) .or = some (d + 1) := by
  simp [depthAfterToken, Token.arity]

theorem depthAfterToken_eq_some_iff {d e : Nat} {t : Token} :
    depthAfterToken d t = some e ↔ t.arity ≤ d ∧ e + t.arity = d + 1 := by
  unfold depthAfterToken
  split
  · simp only [reduceCtorEq, false_iff]
    omega
  · simp only [Option.some.injEq]
    omega

/-! ## Parts of a sequence -/

@[simp] theorem depthAfter_nil (d : Nat) : depthAfter d [] = some d := rfl

theorem depthAfter_cons (d : Nat) (t : Token) (ts : List Token) :
    depthAfter d (t :: ts) = (depthAfterToken d t).bind fun e => depthAfter e ts := rfl

/-- The count runs through a concatenation in order. -/
theorem depthAfter_append (d : Nat) (ts us : List Token) :
    depthAfter d (ts ++ us) = (depthAfter d ts).bind fun e => depthAfter e us := by
  induction ts generalizing d with
  | nil => rfl
  | cons t ts ih =>
    simp only [List.cons_append, depthAfter_cons, ih, Option.bind_assoc]

/-- Values that lie deeper than the ones used stay where they are. -/
theorem depthAfter_add {d e : Nat} {ts : List Token} (h : depthAfter d ts = some e) (k : Nat) :
    depthAfter (d + k) ts = some (e + k) := by
  induction ts generalizing d with
  | nil => cases h; rfl
  | cons t ts ih =>
    obtain ⟨m, hm, hts⟩ := Option.bind_eq_some_iff.1 h
    obtain ⟨hle, heq⟩ := depthAfterToken_eq_some_iff.1 hm
    have hk : depthAfterToken (d + k) t = some (m + k) :=
      depthAfterToken_eq_some_iff.2 (by omega)
    rw [depthAfter_cons, hk]
    exact ih hts

/-- The depth does not change when every token is replaced by one that consumes as many values. -/
theorem depthAfter_map {f : Token → Token} (arity : ∀ t, (f t).arity = t.arity) (d : Nat)
    (ts : List Token) : depthAfter d (ts.map f) = depthAfter d ts := by
  induction ts generalizing d with
  | nil => rfl
  | cons t ts ih => simp only [List.map_cons, depthAfter_cons, depthAfterToken, arity, ih]

/-! ## Balanced sequences put together -/

theorem isBalanced_append_not {ts : List Token} (h : isBalanced ts = true) :
    isBalanced (ts ++ [.not]) = true := by
  rw [isBalanced_iff] at h ⊢
  rw [depthAfter_append, h]
  rfl

/-- Two balanced sequences and a binary operator behind them. -/
theorem isBalanced_append_binary {ts us : List Token} {op : Token} (h : isBalanced ts = true)
    (h' : isBalanced us = true) (hop : op.arity = 2) :
    isBalanced (ts ++ us ++ [op]) = true := by
  rw [isBalanced_iff] at h h' ⊢
  have hus : depthAfter 1 us = some 2 := depthAfter_add h' 1
  have hlast : depthAfterToken 2 op = some 1 :=
    depthAfterToken_eq_some_iff.2 (by omega)
  rw [depthAfter_append, depthAfter_append, h, Option.bind_some, hus, Option.bind_some,
    depthAfter_cons, hlast]
  rfl

end ReversePolish.Postfix
