import ReversePolish.Proofs.FirstFault

/-!
# What a conversion keeps

**Nothing is lost, invented or doubled** (`conversion_conserves`): an answer holds the operands of
the text in their order, and every logical operator as often as the text does.  An operator may be
emitted far from where it was read, and it may have been offered several times in between; but at
any place of a run what is still going to be emitted are the tokens still to come and the operators
that wait on the stack (`TokenRun.emitted_perm`), and at the start nothing waits.
-/

namespace ReversePolish

/-- What a token comes out as.  Parentheses and the end mark do not come out. -/
def Token.toPostfix? : Token → Option Postfix.Token
  | .operand name => some (.operand name)
  | .operator op => Postfix.Token.ofOperator? op

/-- The sequence holds the operands of the tokens in their order and every token as often as
they do, so that nothing else is in it. -/
structure Conserves (ts : List Token) (out : List Postfix.Token) : Prop where
  names : out.filterMap Postfix.Token.name? = ts.filterMap Token.name?
  count : ∀ t : Postfix.Token, out.count t = ts.count t.toToken

lemma Token.toPostfix?_eq_some_iff {t : Token} {u : Postfix.Token} :
    t.toPostfix? = some u ↔ t = u.toToken := by
  constructor
  · intro h
    cases t with
    | operand name =>
        cases h
        rfl
    | operator op => exact (Postfix.Token.toToken_of_ofOperator? h).symm
  · rintro rfl
    cases u <;> rfl

/-- A token comes out as often as it stands there. -/
lemma count_filterMap_toPostfix? (ts : List Token) (t : Postfix.Token) :
    (ts.filterMap Token.toPostfix?).count t = ts.count t.toToken := by
  induction ts with
  | nil => rfl
  | cons u ts ih =>
      cases hu : u.toPostfix? with
      | none =>
          have hne : u ≠ t.toToken := fun h => by
            rw [Token.toPostfix?_eq_some_iff.2 h] at hu
            cases hu
          rw [List.filterMap_cons_none hu, ih, List.count_cons_of_ne hne]
      | some v =>
          obtain rfl := Token.toPostfix?_eq_some_iff.1 hu
          rw [List.filterMap_cons_some hu, List.count_cons, List.count_cons, ih]
          simp [Postfix.Token.toToken_inj]

/-- **A run without a fault emits what is still to come and what waits**, in some order. -/
theorem TokenRun.emitted_perm {accepts : Validator} {stack : List Operator} {ts : List Token}
    {r : Run} (h : TokenRun accepts stack ts r) (hfault : r.fault = none) :
    r.emitted.Perm
      (ts.filterMap Token.toPostfix? ++ stack.filterMap Postfix.Token.ofOperator?) := by
  induction h with
  | finish => exact .nil
  | operand accepted rest ih => exact (ih hfault).cons _
  | @shift op top below ts r precedence rest ih =>
      have hrest := ih hfault
      rw [Run.emitted_after]
      show r.emitted.Perm ((Token.operator op :: ts).filterMap Token.toPostfix? ++ _)
      -- the operator moves from the tokens to come to the stack
      cases hop : Postfix.Token.ofOperator? op with
      | none =>
          rw [List.filterMap_cons_none hop] at hrest
          rwa [List.filterMap_cons_none (show Token.toPostfix? (.operator op) = none from hop)]
      | some t =>
          rw [List.filterMap_cons_some hop] at hrest
          rw [List.filterMap_cons_some (show Token.toPostfix? (.operator op) = some t from hop)]
          exact hrest.trans List.perm_middle
  | @reduce op top below ts r precedence rest ih =>
      obtain ⟨t, ht⟩ := Option.isSome_iff_exists.1
        (Machine.isSome_ofOperator?_of_reduce precedence)
      have hemitted : (r.after (.reduce top op)).emitted = t :: r.emitted :=
        List.filterMap_cons_some ht
      rw [hemitted, List.filterMap_cons_some ht]
      exact ((ih hfault).cons t).trans List.perm_middle.symm
  | close rest ih => exact ih hfault
  | rejected | unopened | unclosed => cases hfault

/-- What is emitted by a conversion without a fault. -/
lemma conserves_emitted {accepts : Validator} {text : String}
    (h : (conversion accepts text).fault = none) :
    Conserves (tokensOf text) (conversion accepts text).emitted := by
  have hrun := tokenRun_conversion accepts text
  constructor
  · rw [hrun.names_emitted h, List.filterMap_append]
    exact List.append_nil _
  · intro t
    have hend : [Token.endMark].filterMap Token.toPostfix? = [] := rfl
    have hstack : [Operator.endOfInput].filterMap Postfix.Token.ofOperator? = [] := rfl
    rw [(hrun.emitted_perm h).count_eq, List.filterMap_append, hend, hstack, List.append_nil,
      List.append_nil, count_filterMap_toPostfix?]

/-- **Nothing is lost, invented or doubled**, in an answer as well as in what was emitted when the
count does not come out. -/
theorem conversion_conserves (accepts : Validator) (text : String) :
    (∀ p, convertWith accepts text = .ok p → Conserves (tokensOf text) p.tokens) ∧
    (convertWith accepts text =
        .error (.invalidSyntax
          ⟨"mismatch between the number of operators and operands", none, text⟩) →
      Conserves (tokensOf text) (conversion accepts text).emitted) := by
  constructor
  · intro p h
    obtain ⟨hfault, -, htokens⟩ := convertWith_eq_ok_iff.1 h
    rw [← htokens]
    exact conserves_emitted hfault
  · intro h
    obtain ⟨hfault, -⟩ := convertWith_eq_countMismatch_iff.1 h
    exact conserves_emitted hfault

/-- A negation that overtakes the operator below it, and an operand that nothing joins. -/
theorem conversion_conserves_overtaking :
    convertWith acceptAll "a | !b ! & a" =
      .ok { tokens := [.operand "a", .operand "b", .not, .not, .or, .operand "a", .and] } ∧
    Conserves (tokensOf "a | !b ! & a")
      [.operand "a", .operand "b", .not, .not, .or, .operand "a", .and] ∧
    convertWith acceptAll "(a | b) b" =
      .error (.invalidSyntax
        ⟨"mismatch between the number of operators and operands", none, "(a | b) b"⟩) ∧
    Conserves (tokensOf "(a | b) b") (conversion acceptAll "(a | b) b").emitted := by
  have hok : convertWith acceptAll "a | !b ! & a" =
      .ok { tokens := [.operand "a", .operand "b", .not, .not, .or, .operand "a", .and] } := by
    decide +kernel
  have hmismatch : convertWith acceptAll "(a | b) b" =
      .error (.invalidSyntax
        ⟨"mismatch between the number of operators and operands", none, "(a | b) b"⟩) := by
    decide +kernel
  exact ⟨hok, (conversion_conserves _ _).1 _ hok, hmismatch,
    (conversion_conserves _ _).2 hmismatch⟩

end ReversePolish
