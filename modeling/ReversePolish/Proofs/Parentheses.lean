import ReversePolish.Proofs.Composition
import ReversePolish.Proofs.Discipline

/-!
# Redundant parentheses

**Parentheses around operands, and a second pair around a pair, change nothing**
(`conversion_of_redundant_parens`), wherever they stand and whether or not the text is a rule.

An opening parenthesis is stacked over anything that can be on top, and its partner leaves the stack
as it was.  Operands between the two wait for nothing (`replaces_operands`).  What stands in a pair
that is there already runs above two parentheses as it does above one, until the pair is closed
(`TokenRun.doubled`).  From there on both runs are the same, and up to there as well: tokens that
may be replaced by others may be so behind any tokens (`Replaces.append`).
-/

namespace ReversePolish

variable {accepts : Validator}

/-! ## Runs that come out alike -/

/-- The runs end in the same way, emit the same and ask about the same names.  They may differ in
what they do with parentheses. -/
structure Run.Alike (r r' : Run) : Prop where
  fault : r'.fault = r.fault
  emitted : r'.emitted = r.emitted
  asked : r'.asked = r.asked

namespace Run

lemma asked_after (event : Event) (r : Run) :
    (r.after event).asked = event.asked?.toList ++ r.asked := by
  cases event <;> rfl

lemma Alike.refl (r : Run) : r.Alike r :=
  ⟨rfl, rfl, rfl⟩

variable {r r' : Run}

lemma Alike.after (h : r.Alike r') (event : Event) : (r.after event).Alike (r'.after event) where
  fault := h.fault
  emitted := by rw [emitted_after, emitted_after, h.emitted]
  asked := by rw [asked_after, asked_after, h.asked]

/-- One of the runs may stack an operator before. -/
lemma Alike.shift (h : r.Alike r') (op top : Operator) : r.Alike (r'.after (.shift op top)) :=
  ⟨h.fault, h.emitted, h.asked⟩

/-- One of the runs may close an operator before. -/
lemma Alike.close (h : r.Alike r') (top op : Operator) : r.Alike (r'.after (.close top op)) :=
  ⟨h.fault, h.emitted, h.asked⟩

lemma Alike.result_eq (h : r.Alike r') : r'.result = r.result := by
  rw [result, result, finalFault?, finalFault?, h.fault, h.emitted]

end Run

/-- Over the second tokens there is a run like the one over the first, whatever waits. -/
def Replaces (accepts : Validator) (ts ts' : List Token) : Prop :=
  ∀ stack r, Layered stack → TokenRun accepts stack ts r →
    ∃ r', TokenRun accepts stack ts' r' ∧ r.Alike r'

/-- Tokens may be replaced behind another one. -/
lemma Replaces.cons {ts ts' : List Token} (h : Replaces accepts ts ts') (hne : ts ≠ [])
    (t : Token) : Replaces accepts (t :: ts) (t :: ts') := by
  intro stack r hl hrun
  generalize hall : t :: ts = all at hrun
  -- operators may be emitted before the token is used up
  induction hrun with
  | finish => exact absurd (List.cons.inj hall).2 hne
  | unclosed => exact absurd (List.cons.inj hall).2 hne
  | operand accepted rest _ =>
      obtain ⟨rfl, rfl⟩ := List.cons.inj hall
      obtain ⟨r', hr', halike⟩ := h _ _ hl rest
      exact ⟨_, .operand accepted hr', halike.after _⟩
  | rejected refused =>
      obtain ⟨rfl, rfl⟩ := List.cons.inj hall
      exact ⟨_, .rejected refused, .refl _⟩
  | shift precedence rest _ =>
      obtain ⟨rfl, rfl⟩ := List.cons.inj hall
      obtain ⟨r', hr', halike⟩ := h _ _ (hl.shift precedence) rest
      exact ⟨_, .shift precedence hr', halike.after _⟩
  | reduce precedence rest ih =>
      obtain ⟨r', hr', halike⟩ := ih (hl.reduce precedence) hall
      obtain ⟨rfl, rfl⟩ := List.cons.inj hall
      exact ⟨_, .reduce precedence hr', halike.after _⟩
  | close rest _ =>
      obtain ⟨rfl, rfl⟩ := List.cons.inj hall
      obtain ⟨r', hr', halike⟩ := h _ _ (hl.tail Operator.noConfusion) rest
      exact ⟨_, .close hr', halike.after _⟩
  | unopened =>
      obtain ⟨rfl, rfl⟩ := List.cons.inj hall
      exact ⟨_, .unopened, .refl _⟩

/-- **Tokens may be replaced behind any others.** -/
theorem Replaces.append {ts ts' : List Token} (h : Replaces accepts ts ts') (hne : ts ≠ [])
    (us : List Token) : Replaces accepts (us ++ ts) (us ++ ts') := by
  induction us with
  | nil => exact h
  | cons t us ih => exact ih.cons (List.append_ne_nil_of_right_ne_nil us hne) t

/-! ## Parentheses around operands -/

/-- An opening parenthesis can be stacked on any layered stack. -/
lemma TokenRun.openParen {stack : List Operator} {ts : List Token} {r : Run}
    (hl : Layered stack) (h : TokenRun accepts (.openParen :: stack) ts r) :
    ∃ top, TokenRun accepts stack (.operator .openParen :: ts)
      (r.after (.shift .openParen top)) := by
  cases stack with
  | nil => exact absurd rfl hl.ne_nil
  | cons top below =>
      have htop : top ≠ .closeParen := by
        rintro rfl
        exact hl.closeParen_notMem List.mem_cons_self
      exact ⟨top, .shift (Operator.precedence_openParen htop) h⟩

/-- Operands are read in the same way on a parenthesis, which is closed behind them. -/
lemma TokenRun.operands_closed {stack : List Operator} {us ts : List Token} {r : Run}
    (operands : ∀ t ∈ us, t.isOperand = true) (h : TokenRun accepts stack (us ++ ts) r) :
    ∃ r', TokenRun accepts (.openParen :: stack) (us ++ .operator .closeParen :: ts) r' ∧
      r.Alike r' := by
  induction us generalizing r with
  | nil => exact ⟨_, .close h, (Run.Alike.refl r).close _ _⟩
  | cons t us ih =>
      obtain ⟨ht, hus⟩ := List.forall_mem_cons.1 operands
      cases t with
      | operator op => cases ht
      | operand name =>
          cases h with
          | operand accepted rest =>
              obtain ⟨r', hr', halike⟩ := ih hus rest
              exact ⟨_, .operand accepted hr', halike.after _⟩
          | rejected refused => exact ⟨_, .rejected refused, .refl _⟩

/-- **Operands may be put in parentheses.** -/
theorem replaces_operands {us : List Token} (operands : ∀ t ∈ us, t.isOperand = true)
    (ts : List Token) : Replaces accepts (us ++ ts) (parenthesized us ++ ts) := by
  intro stack r hl h
  obtain ⟨r', hr', halike⟩ := TokenRun.operands_closed operands h
  obtain ⟨top, hrun⟩ := hr'.openParen hl
  rw [parenthesized_append]
  exact ⟨_, hrun, halike.shift .openParen top⟩

/-! ## Parentheses around parentheses

Above the opening parenthesis of a pair lie the operators `ops`; the parentheses among them are
those that have been opened in the pair and not been closed.  The tokens of the pair that are still
to come close them all, and not the parenthesis of the pair itself.
-/

section Doubled

section Lists

variable {α : Type} {a b : α} {as xs bs : List α}

lemma cons_eq_append_cons_of_ne (hne : a ≠ b) (h : a :: as = xs ++ b :: bs) :
    ∃ xs', xs = a :: xs' ∧ as = xs' ++ b :: bs := by
  rcases List.cons_eq_append_iff.1 h with ⟨-, hcons⟩ | ⟨xs', hxs, has⟩
  · exact absurd (List.cons.inj hcons).1.symm hne
  · exact ⟨xs', hxs, has⟩

/-- A list begins as before when one of its elements is doubled. -/
lemma exists_cons_eq_append_double (h : a :: as = xs ++ b :: bs) :
    ∃ as', xs ++ b :: b :: bs = a :: as' := by
  rcases List.cons_eq_append_iff.1 h with ⟨rfl, hcons⟩ | ⟨xs', rfl, -⟩
  · exact ⟨_, by rw [(List.cons.inj hcons).1, List.nil_append]⟩
  · exact ⟨_, rfl⟩

end Lists

variable {ops : List Operator} {op : Operator} {us : List Token}

lemma MatchingBehind.operand {name : String} {depth : Nat}
    (h : MatchingBehind depth (.operand name :: us)) : MatchingBehind depth us :=
  h.tail rfl

/-- What is stacked counts as open if it is an opening parenthesis. -/
lemma MatchingBehind.shift {top : Operator}
    (h : MatchingBehind (ops.count .openParen) (.operator op :: us))
    (precedence : top.precedence op = .shift) :
    MatchingBehind ((op :: ops).count .openParen) us := by
  have hclose := Operator.ne_closeParen_of_precedence_eq_shift precedence
  refine h.tail ?_
  rw [List.count_cons, closed_operator, opened_operator, if_neg hclose]
  simp only [beq_iff_eq]
  omega

/-- What is closed was open. -/
lemma MatchingBehind.close
    (h : MatchingBehind ((.openParen :: ops).count .openParen) (.operator .closeParen :: us)) :
    MatchingBehind (ops.count .openParen) us := by
  refine h.tail ?_
  rw [List.count_cons_self, closed_operator, opened_operator, if_pos rfl, if_neg nofun]
  omega

/-- **What stands in a pair of parentheses runs above two parentheses as it does above one**, if a
second one is closed behind it. -/
theorem TokenRun.doubled {stack below : List Operator} {all ts : List Token} {r : Run}
    (h : TokenRun accepts stack all r) :
    ∀ (ops : List Operator) (us : List Token), stack = ops ++ .openParen :: below →
      all = us ++ .operator .closeParen :: ts → MatchingBehind (ops.count .openParen) us →
      ∃ r', TokenRun accepts (ops ++ .openParen :: .openParen :: below)
          (us ++ .operator .closeParen :: .operator .closeParen :: ts) r' ∧ r.Alike r' := by
  induction h with
  | finish | unopened =>
      intro ops us hstack
      have hmem : Operator.openParen ∈ [Operator.endOfInput] := by simp [hstack]
      cases List.mem_singleton.1 hmem
  | unclosed =>
      intro ops us _ hall
      have hmem : Token.operator .closeParen ∈ [Token.endMark] := by simp [hall]
      cases List.mem_singleton.1 hmem
  | operand accepted rest ih =>
      intro ops us hstack hall matching
      obtain ⟨us, rfl, hrest⟩ := cons_eq_append_cons_of_ne Token.noConfusion hall
      obtain ⟨r', hr', halike⟩ := ih ops us hstack hrest matching.operand
      exact ⟨_, .operand accepted hr', halike.after _⟩
  | rejected refused =>
      intro ops us hstack hall matching
      obtain ⟨us, rfl, -⟩ := cons_eq_append_cons_of_ne Token.noConfusion hall
      exact ⟨_, .rejected refused, .refl _⟩
  | @shift op top _ _ r precedence rest ih =>
      intro ops us hstack hall matching
      have hclose := Operator.ne_closeParen_of_precedence_eq_shift precedence
      obtain ⟨us, rfl, hrest⟩ :=
        cons_eq_append_cons_of_ne (fun h => hclose (Token.operator.inj h)) hall
      obtain ⟨r', hr', halike⟩ := ih (op :: ops) us (congrArg (op :: ·) hstack) hrest
        (matching.shift precedence)
      -- the same operator is on top
      obtain ⟨stack', htop⟩ := exists_cons_eq_append_double hstack
      rw [List.cons_append, htop] at hr'
      rw [htop]
      exact ⟨_, .shift precedence hr', halike.after _⟩
  | @reduce op top _ _ r precedence rest ih =>
      intro ops us hstack hall matching
      have hopen : top ≠ .openParen := by
        rintro rfl
        cases Operator.isLogical_of_precedence_eq_reduce precedence
      obtain ⟨ops, rfl, hbelow⟩ := cons_eq_append_cons_of_ne hopen hstack
      rw [List.count_cons_of_ne hopen] at matching
      obtain ⟨r', hr', halike⟩ := ih ops us hbelow hall matching
      -- the operator is still the first token to come
      obtain ⟨ts', hfirst⟩ := exists_cons_eq_append_double hall
      rw [hfirst] at hr' ⊢
      exact ⟨_, .reduce precedence hr', halike.after _⟩
  | @close _ _ r rest ih =>
      intro ops us hstack hall matching
      rcases List.cons_eq_append_iff.1 hall with ⟨rfl, hclose⟩ | ⟨us, rfl, hrest⟩
      · -- no parenthesis is open but that of the pair, and both runs go on below it
        have hcount : ops.count .openParen = 0 := by simpa using matching.2.symm
        rcases List.cons_eq_append_iff.1 hstack with ⟨rfl, hbase⟩ | ⟨ops, rfl, -⟩
        · cases hbase
          cases hclose
          exact ⟨_, .close (.close rest), ((Run.Alike.refl r).close _ _).after _⟩
        · rw [List.count_cons_self] at hcount
          cases hcount
      · rcases List.cons_eq_append_iff.1 hstack with ⟨rfl, -⟩ | ⟨ops, rfl, hbelow⟩
        · exact absurd matching.pos (Nat.lt_irrefl 0)
        · obtain ⟨r', hr', halike⟩ := ih ops us hbelow hrest matching.close
          exact ⟨_, .close hr', halike.after _⟩

end Doubled

/-- **A second pair of parentheses may be put around a pair.** -/
theorem replaces_parenthesized {us : List Token} (matching : Matching us) (ts : List Token) :
    Replaces accepts (parenthesized us ++ ts) (parenthesized (parenthesized us) ++ ts) := by
  intro stack r hl h
  rw [parenthesized_append] at h
  rw [parenthesized_append, parenthesized_append]
  cases h with
  | @reduce op top _ _ _ precedence rest => exact absurd precedence (by cases top <;> decide)
  | shift precedence rest =>
      obtain ⟨r', hr', halike⟩ := rest.doubled [] us rfl rfl matching
      exact ⟨_, .shift precedence (.shift rfl hr'), (halike.shift _ _).after _⟩

/-! ## The conversion -/

/-- The texts are converted alike: the answers differ in the echoed expression only, and the same
names are asked about. -/
structure ConvertedAlike (accepts : Validator) (text text' : String) : Prop where
  answer : convertWith accepts text' =
    (convertWith accepts text).mapError (·.withExpression text')
  asked : (conversion accepts text').asked = (conversion accepts text).asked

lemma Replaces.convertedAlike {text text' : String}
    (h : Replaces accepts (tokensOf text ++ [.endMark]) (tokensOf text' ++ [.endMark])) :
    ConvertedAlike accepts text text' := by
  obtain ⟨r', hr', halike⟩ := h _ _ (.bottom .nil) (tokenRun_conversion accepts text)
  rw [hr'.unique (tokenRun_conversion accepts text')] at halike
  exact ⟨convertWith_of_result_eq halike.result_eq, halike.asked⟩

lemma tokensOf_append_parens (before inner after : String) :
    tokensOf (before ++ "(" ++ inner ++ ")" ++ after) =
      tokensOf before ++ (parenthesized (tokensOf inner) ++ tokensOf after) := by
  have hopen : ("(" : String).toList = (Token.operator .openParen).text := rfl
  have hclose : (")" : String).toList = (Token.operator .closeParen).text := rfl
  rw [tokensOf_append_sign (by decide) hclose, tokensOf_append_sign (by decide) hopen,
    parenthesized_append, List.append_assoc]
  rfl

lemma tokensOf_append_double_parens (before inner after : String) :
    tokensOf (before ++ "((" ++ inner ++ "))" ++ after) =
      tokensOf before ++ (parenthesized (parenthesized (tokensOf inner)) ++ tokensOf after) := by
  have hsplit : before ++ "((" ++ inner ++ "))" ++ after =
      before ++ "(" ++ ("(" ++ inner ++ ")") ++ ")" ++ after := by
    have hopen : ("((" : String) = "(" ++ "(" := rfl
    have hclose : ("))" : String) = ")" ++ ")" := rfl
    simp only [hopen, hclose, String.append_assoc]
  rw [hsplit, tokensOf_append_parens, tokensOf_parens]

/-- **Redundant parentheses change nothing.**  Operands, or none, may be put in parentheses that
stand in no name, and a pair of parentheses may be doubled, in any text: the answer is the same but
for the echoed expression, and the same names are asked about. -/
theorem conversion_of_redundant_parens (accepts : Validator) (before inner after : String) :
    ((∀ t ∈ tokensOf inner, t.isOperand = true) →
      Apart before.toList (inner ++ after).toList → Apart (before ++ inner).toList after.toList →
      ConvertedAlike accepts (before ++ inner ++ after)
        (before ++ "(" ++ inner ++ ")" ++ after)) ∧
    (Matching (tokensOf inner) →
      ConvertedAlike accepts (before ++ "(" ++ inner ++ ")" ++ after)
        (before ++ "((" ++ inner ++ "))" ++ after)) := by
  constructor
  · intro operands hbefore hafter
    rw [String.toList_append] at hbefore
    refine Replaces.convertedAlike ?_
    rw [tokensOf_append_parens, tokensOf_append hafter, tokensOf_append hbefore.left]
    simp only [List.append_assoc]
    refine (replaces_operands operands _).append ?_ _
    simp
  · intro matching
    refine Replaces.convertedAlike ?_
    rw [tokensOf_append_parens, tokensOf_append_double_parens]
    simp only [List.append_assoc]
    exact (replaces_parenthesized matching _).append (List.cons_ne_nil _ _) _

/-- An operand in a text that fails behind it, no operand at all, and a pair that is doubled in a
text that is no rule. -/
theorem conversion_of_redundant_parens_failing :
    (∀ t ∈ tokensOf " c ", t.isOperand = true) ∧
    Apart "a b".toList (" c " ++ "d&)").toList ∧ Apart ("a b" ++ " c ").toList "d&)".toList ∧
    ConvertedAlike acceptAll "a b c d&)" "a b( c )d&)" ∧
    convertWith acceptAll "a b( c )d&)" = .error (.invalidSyntax
      ⟨"no matching operator for", some .closeParen, "a b( c )d&)"⟩) ∧
    ConvertedAlike acceptAll "a&b" "a()&b" ∧
    Matching (tokensOf "a b !") ∧ ConvertedAlike acceptAll "!(a b !) &" "!((a b !)) &" ∧
    convertWith acceptAll "!((a b !)) &" =
      .ok { tokens := [.operand "a", .operand "b", .not, .not, .and] } := by
  have operands : ∀ t ∈ tokensOf " c ", t.isOperand = true := by decide +kernel
  have hbefore : Apart "a b".toList (" c " ++ "d&)").toList := by decide +kernel
  have hafter : Apart ("a b" ++ " c ").toList "d&)".toList := by decide +kernel
  have hnone : ∀ t ∈ tokensOf "", t.isOperand = true := by decide +kernel
  have hgap : Apart "a".toList ("" ++ "&b").toList := by decide +kernel
  have matching : Matching (tokensOf "a b !") := by decide +kernel
  have hwrapped : ConvertedAlike acceptAll "a b c d&)" "a b( c )d&)" :=
    (conversion_of_redundant_parens acceptAll "a b" " c " "d&)").1 operands hbefore hafter
  have hempty : ConvertedAlike acceptAll "a&b" "a()&b" :=
    (conversion_of_redundant_parens acceptAll "a" "" "&b").1 hnone hgap hgap
  have hdoubled : ConvertedAlike acceptAll "!(a b !) &" "!((a b !)) &" :=
    (conversion_of_redundant_parens acceptAll "!" "a b !" " &").2 matching
  have hfails : convertWith acceptAll "a b c d&)" = .error (.invalidSyntax
      ⟨"no matching operator for", some .closeParen, "a b c d&)"⟩) := by
    decide +kernel
  have hok : convertWith acceptAll "!(a b !) &" =
      .ok { tokens := [.operand "a", .operand "b", .not, .not, .and] } := by
    decide +kernel
  refine ⟨operands, hbefore, hafter, hwrapped, ?_, hempty, matching, hdoubled, ?_⟩
  · rw [hwrapped.answer, hfails]
    rfl
  · rw [hdoubled.answer, hok]
    rfl

end ReversePolish
