import Mathlib.Data.List.Count
import ReversePolish.Proofs.Composition
import ReversePolish.Proofs.Conservation
import ReversePolish.Proofs.Printing

/-!
# Converting an answer again

**The written form of a balanced sequence of proper names is converted without a fault**
(`convert_printed_answer`), and so is that of every answer.  The second answer may be another
sequence with another meaning, because a rule is read differently: `a ! b &` negates `a`, but as a
rule it is converted to `a b ! &`.  It always has the same operands in the same order and every
operator as often.

The written form has no parentheses, so it is one group (`Bracketed.ofPostfix`), and what waits in
it is emitted later than it was read.  No operator lacks a value for that
(`Bracketed.depthAfter_translateWith_ofPostfix`): a negation does not change the depth, and as long
as a binary operator waits, the emission is one deeper than the sequence at that place.
-/

namespace ReversePolish

/-! ## Operators behind one another -/

namespace Postfix

/-- Where a value lies, negations leave one. -/
lemma depthAfter_replicate_not (nots d : Nat) :
    depthAfter (d + 1) (List.replicate nots .not) = some (d + 1) := by
  induction nots with
  | zero => rfl
  | succ n ih =>
      rw [List.replicate_succ, depthAfter_cons, depthAfterToken_not_succ, Option.bind_some, ih]

/-- A binary operator finds two values and leaves one of them. -/
lemma exists_of_depthAfterToken_binary {d e : Nat} {t : Token} (harity : t.arity = 2)
    (h : depthAfterToken d t = some e) : ∃ k, d = k + 2 ∧ e = k + 1 := by
  obtain ⟨hle, heq⟩ := depthAfterToken_eq_some_iff.1 h
  exact ⟨d - 2, by omega, by omega⟩

end Postfix

/-! ## A sequence as a group -/

namespace Bracketed

/-- The tree without groups whose tokens are written like those of the sequence. -/
def ofPostfix : List Postfix.Token → Bracketed
  | [] => .nil
  | .operand name :: ts => .operand name (ofPostfix ts)
  | .and :: ts => .and (ofPostfix ts)
  | .or :: ts => .or (ofPostfix ts)
  | .not :: ts => .not (ofPostfix ts)

lemma tokens_ofPostfix (ts : List Postfix.Token) :
    (ofPostfix ts).tokens = ts.map Postfix.Token.toToken := by
  induction ts with
  | nil => rfl
  | cons t ts ih => cases t <;> exact congrArg _ ih

/-- What waits can be emitted if it leaves a value, and only the binary operator counts. -/
lemma depthAfter_waiting {binary : Option Postfix.Token} (hbinary : ∀ t ∈ binary, t.arity = 2)
    (nots d : Nat) :
    Postfix.depthAfter (d + 1 + binary.toList.length) (waiting nots binary) = some (d + 1) := by
  rw [waiting, Postfix.depthAfter_append]
  cases binary with
  | none =>
      have hnots := Postfix.depthAfter_replicate_not nots d
      exact Option.bind_eq_some_iff.2 ⟨_, hnots, rfl⟩
  | some t =>
      have hnots := Postfix.depthAfter_replicate_not nots (d + 1)
      have ht : Postfix.depthAfterToken (d + 1 + 1) t = some (d + 1) := by
        have harity := hbinary t rfl
        exact Postfix.depthAfterToken_eq_some_iff.2 (by omega)
      refine Option.bind_eq_some_iff.2 ⟨_, hnots, ?_⟩
      rw [Option.toList_some, Postfix.depthAfter_cons, ht]
      rfl

/-- **What waits while a sequence is read never lacks a value.**  Between two tokens the emission
is as deep as the sequence, and one deeper if a binary operator waits. -/
theorem depthAfter_translateWith_ofPostfix (ts : List Postfix.Token) :
    ∀ (d k nots : Nat) (binary : Option Postfix.Token), (∀ t ∈ binary, t.arity = 2) →
      Postfix.depthAfter d ts = some (k + 1) →
      Postfix.depthAfter (d + binary.toList.length) ((ofPostfix ts).translateWith nots binary) =
        some (k + 1) := by
  induction ts with
  | nil =>
      rintro d k nots binary hbinary ⟨⟩
      exact depthAfter_waiting hbinary nots k
  | cons t ts ih =>
      intro d k nots binary hbinary h
      obtain ⟨e, ht, hts⟩ := Option.bind_eq_some_iff.1 h
      cases t with
      | operand name =>
          obtain rfl : d + 1 = e := Option.some.inj ht
          rw [ofPostfix, translateWith, Postfix.depthAfter_cons, Postfix.depthAfterToken_operand,
            Option.bind_some, Nat.add_right_comm]
          exact ih (d + 1) k nots binary hbinary hts
      | not =>
          -- it waits, and neither depth changes
          obtain ⟨-, heq⟩ := Postfix.depthAfterToken_eq_some_iff.1 ht
          obtain rfl : e = d := Nat.succ.inj heq
          exact ih e k (nots + 1) binary hbinary hts
      | and | or =>
          -- what waited is emitted down to the depth of the sequence, and the operator waits
          obtain ⟨j, rfl, rfl⟩ := Postfix.exists_of_depthAfterToken_binary rfl ht
          rw [ofPostfix, translateWith, Postfix.depthAfter_append,
            depthAfter_waiting hbinary nots (j + 1)]
          refine ih (j + 1) k 0 (some _) (fun t ht => ?_) hts
          cases ht
          rfl

/-- Delaying operators keeps a sequence balanced. -/
lemma isBalanced_translate_ofPostfix {ts : List Postfix.Token}
    (h : Postfix.isBalanced ts = true) :
    Postfix.isBalanced (ofPostfix ts).translate = true := by
  rw [Postfix.isBalanced_iff] at h ⊢
  exact depthAfter_translateWith_ofPostfix ts 0 0 0 none nofun h

end Bracketed

/-! ## The second conversion -/

/-- The second sequence has the operands of the first one in the same order, and every token as
often. -/
structure Postfix.Rearranges (p q : Postfix) : Prop where
  names : q.names = p.names
  count : ∀ t, q.tokens.count t = p.tokens.count t

/-- What is conserved of the tokens of a sequence is a rearrangement of it. -/
lemma Conserves.rearranges {p q : Postfix}
    (h : Conserves (p.tokens.map Postfix.Token.toToken) q.tokens) : p.Rearranges q := by
  refine ⟨h.names.trans (Postfix.filterMap_name?_map_toToken p.tokens), fun t => ?_⟩
  have hinj : Function.Injective Postfix.Token.toToken := fun _ _ => Postfix.Token.toToken_inj.1
  rw [h.count, List.count_map_of_injective p.tokens _ hinj]

/-- **A balanced sequence of proper names, read as a rule**, is emitted as the translation of its
one group. -/
theorem convert_text {p : Postfix} (balanced : Postfix.isBalanced p.tokens = true)
    (names : ∀ n ∈ p.names, IsName n) :
    convert p.text = .ok { tokens := (Bracketed.ofPostfix p.tokens).translate } := by
  have hemits := (Bracketed.ofPostfix p.tokens).emits 0 none [] .endOfInput [] [.endMark]
    (fun n _ => acceptAll_apply n) .nil (Or.inr rfl) flushing_endMark
  rw [Bracketed.tokens_ofPostfix, ← Postfix.tokensOf_text names] at hemits
  exact convertWith_of_emits hemits (Bracketed.isBalanced_translate_ofPostfix balanced)

/-- A second answer to a sequence of proper names is a rearrangement of it. -/
lemma rearranges_of_convert_text {p q : Postfix} (names : ∀ n ∈ p.names, IsName n)
    (h : convert p.text = .ok q) : p.Rearranges q := by
  obtain ⟨hfault, -, htokens⟩ := convertWith_eq_ok_iff.1 h
  have hconserves := conserves_emitted hfault
  rw [htokens, Postfix.tokensOf_text names] at hconserves
  exact hconserves.rearranges

/-- **An answer can be converted again.**  The written form of every balanced sequence of proper
names is accepted, that of an answer among them, and what comes out is a rearrangement of it. -/
theorem convert_printed_answer (p : Postfix) :
    (Postfix.isBalanced p.tokens = true → (∀ n ∈ p.names, IsName n) →
      ∃ q, convert p.text = .ok q ∧ p.Rearranges q) ∧
    ∀ text, convert text = .ok p → ∃ q, convert p.text = .ok q ∧ p.Rearranges q := by
  have haccepted : Postfix.isBalanced p.tokens = true → (∀ n ∈ p.names, IsName n) →
      ∃ q, convert p.text = .ok q ∧ p.Rearranges q := by
    intro balanced names
    have hconvert := convert_text balanced names
    exact ⟨_, hconvert, rearranges_of_convert_text names hconvert⟩
  exact ⟨haccepted, fun text h =>
    haccepted (isBalanced_of_convertWith h) (isName_of_convertWith h)⟩

/-- A sequence with a negated group, and an answer that is converted to another one: its negation
moves to the second operand. -/
theorem convert_printed_answer_negation :
    Postfix.isBalanced [.operand "a", .operand "b", .operand "c", .and, .not, .or] = true ∧
    (∀ n ∈ Postfix.names ⟨[.operand "a", .operand "b", .operand "c", .and, .not, .or]⟩, IsName n) ∧
    (∃ q, convert "a b c & ! |" = .ok q ∧
      Postfix.Rearranges ⟨[.operand "a", .operand "b", .operand "c", .and, .not, .or]⟩ q) ∧
    convert "!a & b" = .ok { tokens := [.operand "a", .not, .operand "b", .and] } ∧
    (∃ q, convert "a ! b &" = .ok q ∧
      Postfix.Rearranges ⟨[.operand "a", .not, .operand "b", .and]⟩ q) ∧
    convert "a ! b &" = .ok { tokens := [.operand "a", .operand "b", .not, .and] } := by
  have hbalanced :
      Postfix.isBalanced [.operand "a", .operand "b", .operand "c", .and, .not, .or] = true := by
    decide
  have hnames : ∀ n ∈ Postfix.names
      ⟨[.operand "a", .operand "b", .operand "c", .and, .not, .or]⟩, IsName n := by
    decide
  have hok : convert "!a & b" = .ok { tokens := [.operand "a", .not, .operand "b", .and] } := by
    decide +kernel
  have hgroup : Postfix.text ⟨[.operand "a", .operand "b", .operand "c", .and, .not, .or]⟩ =
      "a b c & ! |" := by
    decide
  have hanswer : Postfix.text ⟨[.operand "a", .not, .operand "b", .and]⟩ = "a ! b &" := by
    decide
  have hfirst := (convert_printed_answer _).1 hbalanced hnames
  have hsecond := (convert_printed_answer _).2 _ hok
  rw [hgroup] at hfirst
  rw [hanswer] at hsecond
  exact ⟨hbalanced, hnames, hfirst, hok, hsecond, by decide +kernel⟩

end ReversePolish
