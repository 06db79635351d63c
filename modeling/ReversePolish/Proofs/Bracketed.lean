import Mathlib.Data.List.Forall2
import Mathlib.Data.List.Infix
import ReversePolish.Bracketed
import ReversePolish.Proofs.FirstFault
import ReversePolish.Proofs.Scanning

/-!
# Conversions as translations of bracket trees

**Where the parentheses match, a conversion emits the translation of the bracket tree**
(`conversion_of_matching`), in whatever order operands and operators stand.

The recursion of `Bracketed.translateWith` and the one flat stack are related segment by segment:
what waits in a group lies on the stack above the parenthesis of the group, the negations on top
and the binary operator below them, and everything further down belongs to the groups around it
(`Bracketed.emits`).  Tokens with matching parentheses are the tokens of exactly one tree
(`Bracketed.tokens_ofTokens`, `Bracketed.ofTokens_tokens`).
-/

namespace ReversePolish

variable {accepts : Validator}

/-! ## Segments of the stack -/

/-- The operators wait on the stack, the top first, to be emitted as the given tokens. -/
def WaitAs (ops : List Operator) (out : List Postfix.Token) : Prop :=
  List.Forall₂ (fun op t => Postfix.Token.ofOperator? op = some t) ops out

/-- All that waits in a segment is emitted when its end is reached. -/
lemma Emits.flushAll {ops below : List Operator} {out : List Postfix.Token} {us : List Token}
    (h : WaitAs ops out) (hus : Flushing us) : Emits accepts (ops ++ below) us out below us := by
  induction h with
  | nil => exact .refl accepts below us
  | @cons op t ops out emitted rest ih =>
      exact (Emits.flush emitted hus).trans ih

/-- Over a segment a negation or an opening parenthesis can always be stacked. -/
lemma Emits.shiftOver {ops below : List Operator} {out : List Postfix.Token} {us : List Token}
    {op top : Operator} (h : WaitAs ops out) (htop : top.IsBase)
    (hop : op = .not ∨ op = .openParen) :
    Emits accepts (ops ++ top :: below) (.operator op :: us) [] (op :: (ops ++ top :: below))
      us := by
  cases h with
  | nil =>
      refine .shift ?_
      rcases htop with rfl | rfl <;> rcases hop with rfl | rfl <;> rfl
  | @cons op' t ops out emitted rest =>
      refine .shift ?_
      rcases hop with rfl | rfl <;> revert emitted <;> cases op' <;>
        simp [Postfix.Token.ofOperator?, Operator.precedence]

/-- A binary operator makes its segment be emitted and waits in its place. -/
lemma Emits.binary {ops below : List Operator} {out : List Postfix.Token} {us : List Token}
    {op top : Operator} (h : WaitAs ops out) (htop : top.IsBase) (hop : op = .and ∨ op = .or) :
    Emits accepts (ops ++ top :: below) (.operator op :: us) out (op :: top :: below) us := by
  rw [← List.append_nil out]
  exact (Emits.flushAll h (flushing_binary hop us)).trans (.shift (htop.precedence_binary hop))

namespace Bracketed

/-- **Reading a tree above what waits in its group** emits its translation and leaves the stack
at the base of the group. -/
theorem emits (b : Bracketed) :
    ∀ (nots : Nat) (binary : Option Postfix.Token) (ops : List Operator) (top : Operator)
      (below : List Operator) (us : List Token),
      (∀ name, .operand name ∈ b.tokens → accepts name = true) →
      WaitAs ops (waiting nots binary) → top.IsBase → Flushing us →
      Emits accepts (ops ++ top :: below) (b.tokens ++ us) (b.translateWith nots binary)
        (top :: below) us := by
  induction b with
  | nil =>
      intro nots binary ops top below us _ hops _ hus
      exact .flushAll hops hus
  | operand name rest ih =>
      intro nots binary ops top below us accepted hops htop hus
      have hname := accepted name List.mem_cons_self
      have hrest := ih nots binary ops top below us
        (fun n hn => accepted n (List.mem_cons_of_mem _ hn)) hops htop hus
      exact (Emits.operand hname).trans hrest
  | and rest ih =>
      intro nots binary ops top below us accepted hops htop hus
      have hrest := ih 0 (some .and) [.and] top below us
        (fun n hn => accepted n (List.mem_cons_of_mem _ hn)) (.cons rfl .nil) htop hus
      exact (Emits.binary hops htop (Or.inl rfl)).trans hrest
  | or rest ih =>
      intro nots binary ops top below us accepted hops htop hus
      have hrest := ih 0 (some .or) [.or] top below us
        (fun n hn => accepted n (List.mem_cons_of_mem _ hn)) (.cons rfl .nil) htop hus
      exact (Emits.binary hops htop (Or.inr rfl)).trans hrest
  | not rest ih =>
      intro nots binary ops top below us accepted hops htop hus
      have hrest := ih (nots + 1) binary (.not :: ops) top below us
        (fun n hn => accepted n (List.mem_cons_of_mem _ hn)) (.cons rfl hops) htop hus
      exact (Emits.shiftOver hops htop (Or.inl rfl)).trans hrest
  | group inner rest ihi ihr =>
      intro nots binary ops top below us accepted hops htop hus
      have hinner := ihi 0 none [] .openParen (ops ++ top :: below) _
        (fun n hn => accepted n (by simp [tokens, parenthesized, hn])) .nil (Or.inl rfl)
        (flushing_closeParen (rest.tokens ++ us))
      have hrest := ihr nots binary ops top below us
        (fun n hn => accepted n (List.mem_append_right _ hn)) hops htop hus
      rw [tokens, List.append_assoc]
      exact (Emits.parenthesized (fun _ => .shiftOver hops htop (Or.inr rfl)) hinner).trans hrest

/-! ## Reading and writing trees -/

/-- Reading gives back a tree in front of tokens that start with no tree. -/
lemma levels_tokens_append (b : Bracketed) :
    ∀ us : List Token, (levels us).1 = .nil → levels (b.tokens ++ us) = (b, (levels us).2) := by
  induction b with
  | nil =>
      intro us hus
      exact Prod.ext hus rfl
  | operand name rest ih | and rest ih | or rest ih | not rest ih =>
      intro us hus
      simp only [tokens, List.cons_append, levels, ih us hus]
  | group inner rest ihi ihr =>
      intro us hus
      have hinner := ihi (.operator .closeParen :: (rest.tokens ++ us)) rfl
      simp only [levels, ihr us hus] at hinner
      simp only [tokens, parenthesized, List.cons_append, List.append_assoc, List.nil_append,
        levels, hinner, List.headD_cons, List.tail_cons]

/-- Reading gives back what was written. -/
theorem ofTokens_tokens (b : Bracketed) : ofTokens b.tokens = b := by
  have h := levels_tokens_append b [] rfl
  rw [List.append_nil] at h
  rw [ofTokens, h]

/-- Tokens that close `depth` parentheses which were open before are those of one tree and of
`depth` further ones, each behind a closing parenthesis. -/
lemma tokens_levels (ts : List Token) :
    ∀ depth : Nat, Token.endMark ∉ ts → MatchingBehind depth ts →
      (levels ts).2.length = depth ∧
        (levels ts).1.tokens ++
          (levels ts).2.flatMap (fun b => .operator .closeParen :: b.tokens) = ts := by
  induction ts with
  | nil =>
      intro depth _ h
      have hdepth : depth = 0 := by simpa using h.2.symm
      exact ⟨hdepth.symm, rfl⟩
  | cons t ts ih =>
      intro depth hend h
      have hend' : Token.endMark ∉ ts := fun h => hend (List.mem_cons_of_mem _ h)
      -- the depth behind the token, which a parenthesis changes by one
      have hrest : ∀ depth' : Nat, closed [t] + depth' = opened [t] + depth →
          (levels ts).2.length = depth' ∧ (levels ts).1.tokens ++
            (levels ts).2.flatMap (fun b => .operator .closeParen :: b.tokens) = ts :=
        fun depth' hdepth => ih depth' hend' (h.tail hdepth)
      cases t with
      | operand name =>
          obtain ⟨hlength, htokens⟩ := hrest depth rfl
          exact ⟨hlength, congrArg _ htokens⟩
      | operator op =>
          cases op with
          | and | or | not =>
              obtain ⟨hlength, htokens⟩ := hrest depth rfl
              exact ⟨hlength, congrArg _ htokens⟩
          | openParen =>
              obtain ⟨hlength, htokens⟩ := hrest (depth + 1) (by
                show 0 + (depth + 1) = 1 + depth
                omega)
              cases hlevels : (levels ts).2 with
              | nil =>
                  rw [hlevels] at hlength
                  cases hlength
              | cons rest bs =>
                  rw [hlevels] at hlength htokens
                  simp only [levels, hlevels, tokens, parenthesized, List.headD_cons,
                    List.tail_cons, List.cons_append, List.append_assoc, List.nil_append]
                  refine ⟨Nat.succ.inj hlength, congrArg _ ?_⟩
                  simpa only [List.flatMap_cons, List.cons_append] using htokens
          | closeParen =>
              obtain ⟨d, rfl⟩ := Nat.exists_eq_succ_of_ne_zero (Nat.ne_of_gt h.pos)
              obtain ⟨hlength, htokens⟩ := hrest d (by
                show 1 + d = 0 + (d + 1)
                omega)
              refine ⟨congrArg Nat.succ hlength, ?_⟩
              simpa only [levels, tokens, List.flatMap_cons, List.nil_append,
                List.cons_append] using congrArg _ htokens
          | endOfInput => exact absurd List.mem_cons_self hend

/-- **Tokens with matching parentheses are those of their tree.** -/
theorem tokens_ofTokens {ts : List Token} (hend : Token.endMark ∉ ts) (h : Matching ts) :
    (ofTokens ts).tokens = ts := by
  obtain ⟨hlength, htokens⟩ := tokens_levels ts 0 hend h
  rw [List.length_eq_zero_iff.1 hlength, List.flatMap_nil, List.append_nil] at htokens
  exact htokens

end Bracketed

/-! ## The conversion -/

/-- Whether parentheses match is decided by all that stands before some place. -/
instance : DecidablePred Matching := fun ts =>
  decidable_of_iff ((∀ us ∈ ts.inits, closed us ≤ opened us) ∧ closed ts = opened ts)
    (by simp only [Matching, List.mem_inits])

/-- **Where the parentheses match and every operand is accepted, a conversion emits the
translation of the bracket tree**, of which there is exactly one, and answers with it if it is
balanced. -/
theorem conversion_of_matching {text : String} (matching : Matching (tokensOf text))
    (accepted : ∀ name, .operand name ∈ tokensOf text → accepts name = true) :
    ∃ b : Bracketed, (∀ b' : Bracketed, b'.tokens = tokensOf text ↔ b' = b) ∧
      (conversion accepts text).fault = none ∧
      (conversion accepts text).emitted = b.translate ∧
      convertWith accepts text =
        if Postfix.isBalanced b.translate then .ok { tokens := b.translate }
        else .error (.invalidSyntax
          ⟨"mismatch between the number of operators and operands", none, text⟩) := by
  have hend : Token.endMark ∉ tokensOf text := fun h => isWritable_of_mem_tokensOf h rfl
  have htokens := Bracketed.tokens_ofTokens hend matching
  have hemits := (Bracketed.ofTokens (tokensOf text)).emits 0 none [] .endOfInput [] [.endMark]
    (fun name hname => accepted name (htokens ▸ hname)) .nil (Or.inr rfl) flushing_endMark
  rw [htokens] at hemits
  obtain ⟨hfault, hout⟩ := hemits.conversion
  refine ⟨Bracketed.ofTokens (tokensOf text), fun b' => ⟨?_, ?_⟩, hfault, hout, ?_⟩
  · intro h
    rw [← h, Bracketed.ofTokens_tokens]
  · rintro rfl
    exact htokens
  · rw [convertWith_of_fault_none hfault, hout]
    rfl

/-- Signs that stand behind their operands, in and behind a group. -/
theorem conversion_signs_behind :
    Matching (tokensOf "a (b !) &") ∧
    (∀ name, .operand name ∈ tokensOf "a (b !) &" → acceptAll name = true) ∧
    (conversion acceptAll "a (b !) &").fault = none ∧
    (conversion acceptAll "a (b !) &").emitted = [.operand "a", .operand "b", .not, .and] := by
  have htokens : tokensOf "a (b !) &" =
      (Bracketed.operand "a" (.group (.operand "b" (.not .nil)) (.and .nil))).tokens := by
    decide +kernel
  have hmatching : Matching (tokensOf "a (b !) &") := by
    rw [htokens]
    decide
  have haccepted : ∀ name, .operand name ∈ tokensOf "a (b !) &" → acceptAll name = true :=
    fun _ _ => rfl
  obtain ⟨b, hb, hfault, hemitted, -⟩ := conversion_of_matching hmatching haccepted
  refine ⟨hmatching, haccepted, hfault, ?_⟩
  rw [hemitted, ← (hb _).1 htokens.symm]
  rfl

end ReversePolish
