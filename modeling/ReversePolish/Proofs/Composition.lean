import ReversePolish.Proofs.Bracketed
import ReversePolish.Proofs.Derivation
import ReversePolish.Proofs.Layout

/-!
# Putting expressions together

**Expressions that are converted can be put together as if they were rules of the grammar**
(`conversion_composes`), also those that are not.  A text without a fault reads in front of any
operator that makes the waiting ones be emitted as it does in front of the end of the text, on an
opening parenthesis as on the end mark (`emits_tokensOf`); so it may stand in parentheses, and in
front of a binary operator even without.

Parentheses around a text with a fault do not mend it, unless a closing parenthesis was missing its
opening one (`FirstFault.parenthesized`).
-/

namespace ReversePolish

variable {accepts : Validator}

/-! ## Signs around texts -/

lemma tokensOf_empty : tokensOf "" = [] :=
  Cursor.tokens_of_blank .nil

lemma tokensOf_sign_append {op : Operator} {sign : String}
    (writable : (Token.operator op).IsWritable) (hsign : sign.toList = (Token.operator op).text)
    (text : String) : tokensOf (sign ++ text) = .operator op :: tokensOf text := by
  have h := tokensOf_append_sign writable hsign "" text
  rwa [String.empty_append, tokensOf_empty] at h

lemma tokensOf_append_closeParen (text : String) :
    tokensOf (text ++ ")") = tokensOf text ++ [.operator .closeParen] := by
  have hsign : (")" : String).toList = (Token.operator .closeParen).text := rfl
  have h := tokensOf_append_sign (by decide) hsign text ""
  rwa [String.append_empty, tokensOf_empty] at h

lemma tokensOf_parens (text : String) :
    tokensOf ("(" ++ text ++ ")") = parenthesized (tokensOf text) := by
  have hsign : ("(" : String).toList = (Token.operator .openParen).text := rfl
  rw [tokensOf_append_closeParen, tokensOf_sign_append (by decide) hsign]
  rfl

/-- A negation in front of a text in parentheses. -/
lemma tokensOf_not_parens (text : String) :
    tokensOf ("!(" ++ text ++ ")") = .operator .not :: parenthesized (tokensOf text) := by
  have hsign : ("!" : String).toList = (Token.operator .not).text := rfl
  have hsplit : "!(" ++ text ++ ")" = "!" ++ ("(" ++ text ++ ")") := by
    rw [← String.append_assoc, ← String.append_assoc]
    rfl
  rw [hsplit, tokensOf_sign_append (by decide) hsign, tokensOf_parens]

/-- A binary operator between a text and another one in parentheses. -/
lemma tokensOf_binary_parens {op : Operator} {sign : String}
    (writable : (Token.operator op).IsWritable) (hsign : sign.toList = (Token.operator op).text)
    (text text' : String) :
    tokensOf (text ++ sign ++ "(" ++ text' ++ ")") =
      tokensOf text ++ .operator op :: parenthesized (tokensOf text') := by
  have hsplit : text ++ sign ++ "(" ++ text' ++ ")" =
      text ++ sign ++ ("(" ++ text' ++ ")") := by
    simp only [String.append_assoc]
  rw [hsplit, tokensOf_append_sign writable hsign, tokensOf_parens]

/-! ## Reading a text on any base -/

section Emits

variable {text : String} {top : Operator} {below : List Operator} {us : List Token}

/-- The grouping of a text without a fault is read on any base and in front of any operator that
makes what waits be emitted. -/
lemma emits_ofTokens (h : (conversion accepts text).fault = none) (htop : top.IsBase)
    (hus : Flushing us) :
    Emits accepts (top :: below) (tokensOf text ++ us)
      (Bracketed.ofTokens (tokensOf text)).translate (top :: below) us := by
  obtain ⟨accepted, matching⟩ := fault_conversion_eq_none_iff.1 h
  have hend : Token.endMark ∉ tokensOf text := fun h => isWritable_of_mem_tokensOf h rfl
  have htokens := Bracketed.tokens_ofTokens hend matching
  have hemits := (Bracketed.ofTokens (tokensOf text)).emits 0 none [] top below us
    (fun name hname => accepted name (htokens ▸ hname)) .nil htop hus
  rwa [htokens] at hemits

/-- **A text without a fault is read on any base and in front of any operator that makes what
waits be emitted**, with the emission of its own conversion. -/
theorem emits_tokensOf (h : (conversion accepts text).fault = none) (htop : top.IsBase)
    (hus : Flushing us) :
    Emits accepts (top :: below) (tokensOf text ++ us) (conversion accepts text).emitted
      (top :: below) us := by
  obtain ⟨-, hout⟩ := (emits_ofTokens h (Or.inr rfl) flushing_endMark).conversion
  rw [hout]
  exact emits_ofTokens h htop hus

/-- In parentheses such a text is read over anything that may be on the stack. -/
lemma emits_parenthesized_tokensOf (h : (conversion accepts text).fault = none)
    (htop : top ≠ .closeParen) :
    Emits accepts (top :: below) (parenthesized (tokensOf text) ++ us)
      (conversion accepts text).emitted (top :: below) us :=
  .parenthesized (fun _ => .shift (Operator.precedence_openParen htop))
    (emits_tokensOf h (Or.inl rfl) (flushing_closeParen us))

end Emits

/-- A conversion that comes to the end with nothing waiting answers with a balanced emission. -/
lemma convertWith_of_emits {text : String} {out : List Postfix.Token}
    (h : Emits accepts [.endOfInput] (tokensOf text ++ [.endMark]) out [.endOfInput] [.endMark])
    (balanced : Postfix.isBalanced out = true) :
    convertWith accepts text = .ok { tokens := out } := by
  obtain ⟨hfault, hout⟩ := h.conversion
  rw [← hout] at balanced
  exact convertWith_eq_ok_iff.2 ⟨hfault, balanced, hout⟩

/-! ## Parentheses around a fault -/

section Faults

variable {ts : List Token}

lemma opened_openParen_cons : opened (.operator .openParen :: ts) = opened ts + 1 :=
  List.count_cons_self

lemma closed_openParen_cons : closed (.operator .openParen :: ts) = closed ts :=
  List.count_cons_of_ne (by decide)

lemma opened_append_closeParen : opened (ts ++ [.operator .closeParen]) = opened ts := by
  simp

lemma closed_append_closeParen : closed (ts ++ [.operator .closeParen]) = closed ts + 1 := by
  simp

lemma Faultless.openParen_cons (h : Faultless accepts ts) :
    Faultless accepts (.operator .openParen :: ts) := by
  refine ⟨fun name hname => h.1 name (List.mem_of_ne_of_mem Token.noConfusion hname), ?_⟩
  intro us hus
  rcases List.prefix_cons_iff.1 hus with rfl | ⟨vs, rfl, hvs⟩
  · exact Nat.zero_le _
  · rw [closed_openParen_cons, opened_openParen_cons]
    exact Nat.le_succ_of_le (h.2 vs hvs)

/-- Where a parenthesis is open, another one may be closed. -/
lemma Faultless.append_closeParen (h : Faultless accepts ts) (more : closed ts < opened ts) :
    Faultless accepts (ts ++ [.operator .closeParen]) := by
  constructor
  · intro name hname
    rcases List.mem_append.1 hname with hname | hname
    · exact h.1 name hname
    · cases List.mem_singleton.1 hname
  · intro us hus
    rcases List.prefix_concat_iff.1 hus with rfl | hus
    · rw [closed_append_closeParen, opened_append_closeParen]
      exact more
    · exact h.2 us hus

/-- **Parentheses around tokens leave a fault as it is**, unless it is a closing parenthesis that
finds its opening one in them. -/
lemma FirstFault.parenthesized {fault : Fault} (h : FirstFault accepts ts fault)
    (hne : fault ≠ .unmatched .closeParen) :
    FirstFault accepts (parenthesized ts) fault := by
  cases h with
  | @rejected name before after tokens earlier refused =>
      have htokens : ReversePolish.parenthesized ts =
          (.operator .openParen :: before) ++
            .operand name :: (after ++ [.operator .closeParen]) := by
        simp [ReversePolish.parenthesized, tokens]
      exact .rejected htokens earlier.openParen_cons refused
  | unopened => exact absurd rfl hne
  | unclosed earlier more =>
      have hmore : closed (.operator .openParen :: ts) < opened (.operator .openParen :: ts) := by
        rw [closed_openParen_cons, opened_openParen_cons]
        exact Nat.lt_succ_of_lt more
      refine .unclosed (earlier.openParen_cons.append_closeParen hmore) ?_
      rw [ReversePolish.parenthesized, closed_append_closeParen, opened_append_closeParen,
        closed_openParen_cons, opened_openParen_cons]
      exact Nat.succ_lt_succ more

end Faults

/-! ## The conversion -/

/-- **Parentheses around a text change nothing** but the echoed expression, unless a closing one in
the text was without an opening one. -/
lemma convertWith_parens {text : String}
    (h : (conversion accepts text).fault ≠ some (.unmatched .closeParen)) :
    convertWith accepts ("(" ++ text ++ ")") =
      (convertWith accepts text).mapError (·.withExpression ("(" ++ text ++ ")")) := by
  refine convertWith_of_result_eq ?_
  cases hfault : (conversion accepts text).fault with
  | some fault =>
      have hparens : (conversion accepts ("(" ++ text ++ ")")).fault = some fault := by
        rw [fault_conversion_eq_some_iff, tokensOf_parens]
        refine (fault_conversion_eq_some_iff.1 hfault).parenthesized ?_
        rintro rfl
        exact h hfault
      rw [Run.result_of_fault_some hparens, Run.result_of_fault_some hfault]
  | none =>
      have hemits : Emits accepts [.endOfInput] (tokensOf ("(" ++ text ++ ")") ++ [.endMark])
          (conversion accepts text).emitted [.endOfInput] [.endMark] := by
        rw [tokensOf_parens]
        exact emits_parenthesized_tokensOf hfault Operator.noConfusion
      obtain ⟨hfault', hout⟩ := hemits.conversion
      rw [Run.result_of_fault_none hfault', Run.result_of_fault_none hfault, hout]

lemma convertWith_not_parens {text : String} {p : Postfix}
    (h : convertWith accepts text = .ok p) :
    convertWith accepts ("!(" ++ text ++ ")") = .ok { tokens := p.tokens ++ [.not] } := by
  obtain ⟨hfault, balanced, htokens⟩ := convertWith_eq_ok_iff.1 h
  rw [← htokens]
  refine convertWith_of_emits ?_ (Postfix.isBalanced_append_not balanced)
  rw [tokensOf_not_parens]
  exact (Emits.shift rfl).trans
    ((emits_parenthesized_tokensOf hfault Operator.noConfusion).trans
      (.flush rfl flushing_endMark))

/-- A binary operator waits for the text in parentheses behind it, and the text before it is
emitted when the operator is read. -/
lemma convertWith_binary_parens {text text' : String} {p q : Postfix} {op : Operator}
    {t : Postfix.Token} (h : convertWith accepts text = .ok p)
    (h' : convertWith accepts text' = .ok q) (hop : op = .and ∨ op = .or)
    (emitted : Postfix.Token.ofOperator? op = some t) :
    convertWith accepts (text ++ t.text ++ "(" ++ text' ++ ")") =
      .ok { tokens := p.tokens ++ q.tokens ++ [t] } := by
  obtain ⟨hfault, balanced, htokens⟩ := convertWith_eq_ok_iff.1 h
  obtain ⟨hfault', balanced', htokens'⟩ := convertWith_eq_ok_iff.1 h'
  have harity : t.arity = 2 := by
    rcases hop with rfl | rfl <;> cases emitted <;> rfl
  have hwritable : (Token.operator op).IsWritable := by
    rcases hop with rfl | rfl <;> exact Operator.noConfusion
  have hsign : t.text.toList = (Token.operator op).text := by
    rw [t.toList_text, Postfix.Token.toToken_of_ofOperator? emitted]
  rw [← htokens, ← htokens']
  refine convertWith_of_emits ?_ (Postfix.isBalanced_append_binary balanced balanced' harity)
  rw [tokensOf_binary_parens hwritable hsign]
  refine Grammar.emits_binary hop emitted (Or.inr rfl) flushing_endMark
    (fun us hus => emits_tokensOf hfault (Or.inr rfl) hus) ?_
  refine emits_parenthesized_tokensOf hfault' ?_
  rcases hop with rfl | rfl <;> exact Operator.noConfusion

/-- **Accepted texts can be put together**, whatever their shape: in parentheses, in parentheses
behind a negation, and in front of a binary operator and another text in parentheses.  A text that
fails, but not at a closing parenthesis without an opening one, fails in parentheses alike. -/
theorem conversion_composes (accepts : Validator) (text : String) :
    (∀ p, convertWith accepts text = .ok p →
      convertWith accepts ("(" ++ text ++ ")") = .ok p ∧
      convertWith accepts ("!(" ++ text ++ ")") = .ok { tokens := p.tokens ++ [.not] } ∧
      ∀ (text' : String) (q : Postfix) (op : Postfix.Token),
        convertWith accepts text' = .ok q → op.arity = 2 →
        convertWith accepts (text ++ op.text ++ "(" ++ text' ++ ")") =
          .ok { tokens := p.tokens ++ q.tokens ++ [op] }) ∧
    ∀ e, convertWith accepts text = .error e →
      e ≠ .invalidSyntax ⟨"no matching operator for", some .closeParen, text⟩ →
      convertWith accepts ("(" ++ text ++ ")") =
        .error (e.withExpression ("(" ++ text ++ ")")) := by
  constructor
  · intro p h
    refine ⟨?_, convertWith_not_parens h, ?_⟩
    · have hfault := (convertWith_eq_ok_iff.1 h).1
      rw [convertWith_parens (by rw [hfault]; exact nofun), h]
      rfl
    · intro text' q op h' hop
      cases op with
      | and => exact convertWith_binary_parens h h' (Or.inl rfl) rfl
      | or => exact convertWith_binary_parens h h' (Or.inr rfl) rfl
      | operand | not => cases hop
  · intro e h hne
    have hopened : (conversion accepts text).fault ≠ some (.unmatched .closeParen) := by
      intro hfault
      exact hne (Except.error.inj (h.symm.trans (convertWith_of_fault_some hfault)))
    rw [convertWith_parens hopened, h]
    rfl

/-- Texts outside the grammar put together, and one that lacks a parenthesis. -/
theorem conversion_composes_signs_behind :
    convertWith acceptAll "a b &" = .ok { tokens := [.operand "a", .operand "b", .and] } ∧
    convertWith acceptAll ("!(" ++ "a b &" ++ ")") =
      .ok { tokens := [.operand "a", .operand "b", .and, .not] } ∧
    convertWith acceptAll "c !" = .ok { tokens := [.operand "c", .not] } ∧
    convertWith acceptAll ("a b &" ++ "|" ++ "(" ++ "c !" ++ ")") =
      .ok { tokens := [.operand "a", .operand "b", .and, .operand "c", .not, .or] } ∧
    convertWith acceptAll "(a" =
      .error (.invalidSyntax ⟨"no matching operator for", some .endOfInput, "(a"⟩) ∧
    convertWith acceptAll ("(" ++ "(a" ++ ")") =
      .error (.invalidSyntax
        ⟨"no matching operator for", some .endOfInput, "(" ++ "(a" ++ ")"⟩) := by
  have hab : convertWith acceptAll "a b &" =
      .ok { tokens := [.operand "a", .operand "b", .and] } := by
    decide +kernel
  have hc : convertWith acceptAll "c !" = .ok { tokens := [.operand "c", .not] } := by
    decide +kernel
  have hopen : convertWith acceptAll "(a" =
      .error (.invalidSyntax ⟨"no matching operator for", some .endOfInput, "(a"⟩) := by
    decide +kernel
  obtain ⟨-, hnot, hbinary⟩ := (conversion_composes _ _).1 _ hab
  exact ⟨hab, hnot, hc, hbinary _ _ .or hc rfl, hopen,
    (conversion_composes _ _).2 _ hopen (by decide)⟩

end ReversePolish
