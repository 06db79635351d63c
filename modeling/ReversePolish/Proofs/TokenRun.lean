import Mathlib.Tactic.SplitIfs
import ReversePolish.Conversion
import ReversePolish.Expr.Rule
import ReversePolish.Proofs.Step

/-!
# Conversions over tokens

A conversion reads its text one token at a time and holds at most one token back.  Neither the
places in the text nor the pending token matter to what it does: that depends on the stack and on
the tokens still to come.  `TokenRun accepts stack ts r` is the run `r` of a conversion with the
operators `stack` waiting and the tokens `ts` to come, the end mark last.  It has one case for
each thing that can happen above a layered stack.

* **`tokenRun_conversion`** — every conversion is such a run over the tokens of its text.
* `TokenRun.unique` — the stack and the tokens determine the run, so that a run which is put
  together from parts is the run of the conversion, and that blanks do not matter
  (`conversion_congr`).
* `TokenRun.names_emitted` — without a fault the emitted operands are those of the tokens.
* `Emits` — the parts: reading some tokens leads from one stack to another and emits a sequence,
  whatever happens before and afterwards.
-/

namespace ReversePolish

/-- The run of a conversion with the given operators waiting and the given tokens to come. -/
inductive TokenRun (accepts : Validator) : List Operator → List Token → Run → Prop where
  /-- The end of the text meets the end mark on the stack. -/
  | finish :
      TokenRun accepts [.endOfInput] [.endMark]
        { events := [.close .endOfInput .endOfInput], fault := none }
  | operand {name : String} {stack : List Operator} {ts : List Token} {r : Run}
      (accepted : accepts name = true) (rest : TokenRun accepts stack ts r) :
      TokenRun accepts stack (.operand name :: ts) (r.after (.operand name))
  | rejected {name : String} {stack : List Operator} {ts : List Token}
      (refused : accepts name = false) :
      TokenRun accepts stack (.operand name :: ts)
        { events := [], fault := some (.rejected name) }
  | shift {op top : Operator} {below : List Operator} {ts : List Token} {r : Run}
      (precedence : top.precedence op = .shift)
      (rest : TokenRun accepts (op :: top :: below) ts r) :
      TokenRun accepts (top :: below) (.operator op :: ts) (r.after (.shift op top))
  /-- The top is emitted before an operator, which is still to come. -/
  | reduce {op top : Operator} {below : List Operator} {ts : List Token} {r : Run}
      (precedence : top.precedence op = .reduce)
      (rest : TokenRun accepts below (.operator op :: ts) r) :
      TokenRun accepts (top :: below) (.operator op :: ts) (r.after (.reduce top op))
  | close {below : List Operator} {ts : List Token} {r : Run}
      (rest : TokenRun accepts below ts r) :
      TokenRun accepts (.openParen :: below) (.operator .closeParen :: ts)
        (r.after (.close .openParen .closeParen))
  /-- A parenthesis is closed that was not opened. -/
  | unopened {ts : List Token} :
      TokenRun accepts [.endOfInput] (.operator .closeParen :: ts)
        { events := [], fault := some (.unmatched .closeParen) }
  /-- A parenthesis is still open at the end. -/
  | unclosed {below : List Operator} :
      TokenRun accepts (.openParen :: below) [.endMark]
        { events := [], fault := some (.unmatched .endOfInput) }

/-! ## Every conversion is a run over tokens -/

/-- The tokens still to come, the end mark last. -/
def Machine.ahead (m : Machine) : List Token :=
  if m.upcoming.1 = .endMark then [.endMark]
  else m.upcoming.1 :: (m.upcoming.2.tokens ++ [.endMark])

lemma Machine.ahead_none (stack : List Operator) (c : Cursor) :
    ahead ⟨stack, c, none⟩ = c.tokens ++ [.endMark] := by
  show (if c.next.1 = .endMark then [.endMark] else c.next.1 :: (c.next.2.tokens ++ [.endMark])) =
    c.tokens ++ [.endMark]
  conv => rhs; rw [Cursor.tokens]
  split_ifs <;> rfl

lemma Machine.ahead_of_operand {m : Machine} {name : String}
    (h : m.upcoming.1 = .operand name) :
    m.ahead = .operand name :: (m.upcoming.2.tokens ++ [.endMark]) := by
  rw [ahead, h, if_neg Token.noConfusion]

lemma Machine.ahead_of_operator {m : Machine} {op : Operator} (h : m.upcoming.1 = .operator op)
    (hop : op ≠ .endOfInput) :
    m.ahead = .operator op :: (m.upcoming.2.tokens ++ [.endMark]) := by
  rw [ahead, h, if_neg fun heq => hop (Token.operator.inj heq)]

lemma Machine.ahead_of_endMark {m : Machine} (h : m.upcoming.1 = .endMark) :
    m.ahead = [.endMark] := by
  rw [ahead, if_pos h]

/-- Every operator that comes up is the first of the tokens still to come. -/
lemma Machine.exists_ahead_of_operator {m : Machine} {op : Operator}
    (h : m.upcoming.1 = .operator op) : ∃ ts, m.ahead = .operator op :: ts := by
  by_cases hop : op = .endOfInput
  · subst hop
    exact ⟨[], ahead_of_endMark h⟩
  · exact ⟨_, ahead_of_operator h hop⟩

/-- A machine with a layered stack runs over the tokens it has ahead. -/
theorem Machine.tokenRun_run (accepts : Validator) (m : Machine) (hl : Layered m.stack) :
    TokenRun accepts m.stack m.ahead (m.run accepts) := by
  induction m using Machine.run.induct accepts with
  | case1 m h => exact absurd (stack_of_halt h) hl.ne_nil
  | case2 m fault h =>
      rw [run_of_fail h]
      cases stuck_of_step h with
      | rejected nonempty token refused =>
          rw [ahead_of_operand token]
          exact .rejected refused
      | @unmatched op top below stack token precedence =>
          -- only the end mark and an opening parenthesis can be on top, and each for one operator
          rw [stack] at hl
          rcases hl.cons_cases with ⟨rfl, rfl⟩ | ⟨rfl, -⟩ | ⟨hlogical, -⟩
          · obtain rfl : op = .closeParen := by revert precedence; cases op <;> decide
            rw [stack, ahead_of_operator token Operator.noConfusion]
            exact .unopened
          · obtain rfl : op = .endOfInput := by revert precedence; cases op <;> decide
            rw [stack, ahead_of_endMark token]
            exact .unclosed
          · exact absurd precedence (Operator.precedence_ne_invalid_of_isLogical hlogical op)
  | case3 m event m' h ih =>
      rw [run_of_next h]
      have hmove := move_of_step h
      have hlayered := hmove.layered hl
      cases hmove with
      | operand nonempty token accepted =>
          rw [ahead_of_operand token]
          have hrest := ih hl
          rw [ahead_none] at hrest
          exact .operand accepted hrest
      | @shift op top below stack token precedence =>
          have hend := Operator.ne_endOfInput_of_precedence_eq_shift precedence
          have hrest := ih (hlayered.resolve_right fun hc => by cases hc.1)
          rw [ahead_none] at hrest
          rw [ahead_of_operator token hend, stack]
          exact .shift precedence (stack ▸ hrest)
      | @reduce op top below stack token precedence =>
          have hrest := ih (hlayered.resolve_right fun hc => by cases hc.1)
          obtain ⟨ts, hts⟩ := exists_ahead_of_operator token
          have hsame : ahead ⟨below, m.cursor, some m.upcoming⟩ = m.ahead := rfl
          rw [hsame, hts] at hrest
          rw [hts, stack]
          exact .reduce precedence hrest
      | @close op top below stack token precedence =>
          rcases Operator.precedence_eq_close_iff.1 precedence with ⟨rfl, rfl⟩ | ⟨rfl, rfl⟩
          · have hrest := ih (hlayered.resolve_right fun hc => by cases hc.1)
            rw [ahead_none] at hrest
            rw [ahead_of_operator token Operator.noConfusion, stack]
            exact .close hrest
          · rw [stack] at hl
            obtain rfl : below = [] := hl.below_endOfInput
            rw [ahead_of_endMark token, stack, run_of_halt (m := ⟨[], m.upcoming.2, none⟩) rfl]
            exact .finish

/-- **Every conversion is a run over the tokens of its text.** -/
theorem tokenRun_conversion (accepts : Validator) (text : String) :
    TokenRun accepts [.endOfInput] (tokensOf text ++ [.endMark]) (conversion accepts text) := by
  have hstart : Layered [.endOfInput] := .bottom .nil
  have h := (Machine.start text).tokenRun_run accepts hstart
  rw [Machine.start, Machine.ahead_none] at h
  exact h

/-! ## The run is determined -/

/-- **The stack and the tokens to come determine the run.** -/
theorem TokenRun.unique {accepts : Validator} {stack : List Operator} {ts : List Token}
    {r r' : Run} (h : TokenRun accepts stack ts r) (h' : TokenRun accepts stack ts r') :
    r = r' := by
  induction h generalizing r' with
  | finish =>
      cases h' with
      | finish => rfl
      | shift precedence => cases precedence
      | reduce precedence => cases precedence
  | operand accepted rest ih =>
      cases h' with
      | operand accepted' rest' => rw [ih rest']
      | rejected refused =>
          rw [accepted] at refused
          cases refused
  | rejected refused =>
      cases h' with
      | operand accepted rest' =>
          rw [accepted] at refused
          cases refused
      | rejected => rfl
  | shift precedence rest ih =>
      cases h' with
      | shift precedence' rest' => rw [ih rest']
      | reduce precedence' =>
          rw [precedence] at precedence'
          cases precedence'
      | finish | close | unopened | unclosed => cases precedence
  | reduce precedence rest ih =>
      cases h' with
      | reduce precedence' rest' => rw [ih rest']
      | shift precedence' =>
          rw [precedence] at precedence'
          cases precedence'
      | finish | close | unopened | unclosed => cases precedence
  | close rest ih =>
      cases h' with
      | close rest' => rw [ih rest']
      | shift precedence => cases precedence
      | reduce precedence => cases precedence
  | unopened =>
      cases h' with
      | unopened => rfl
      | shift precedence => cases precedence
      | reduce precedence => cases precedence
  | unclosed =>
      cases h' with
      | unclosed => rfl
      | shift precedence => cases precedence
      | reduce precedence => cases precedence

/-- **Texts with the same tokens are converted by the same run.** -/
theorem conversion_congr (accepts : Validator) {text text' : String}
    (h : tokensOf text = tokensOf text') :
    conversion accepts text = conversion accepts text' := by
  have hrun := tokenRun_conversion accepts text
  rw [h] at hrun
  exact hrun.unique (tokenRun_conversion accepts text')

/-! ## The operands of a run -/

lemma Run.emitted_after (event : Event) (r : Run) :
    (r.after event).emitted = event.emitted?.toList ++ r.emitted := by
  rw [Run.emitted, Run.after, List.filterMap_cons, Run.emitted]
  cases event.emitted? <;> rfl

lemma mem_filterMap_name? {n : String} {ts : List Token} :
    n ∈ ts.filterMap Token.name? ↔ .operand n ∈ ts := by
  rw [List.mem_filterMap]
  constructor
  · rintro ⟨t, ht, hname⟩
    cases t with
    | operator op => cases hname
    | operand name =>
        cases hname
        exact ht
  · exact fun h => ⟨_, h, rfl⟩

/-- An operator is not emitted as an operand. -/
lemma filterMap_name?_ofOperator? (op : Operator) :
    (Postfix.Token.ofOperator? op).toList.filterMap Postfix.Token.name? = [] := by
  cases op <;> rfl

/-- **A run without a fault emits the operands that it reads**, in their order. -/
theorem TokenRun.names_emitted {accepts : Validator} {stack : List Operator} {ts : List Token}
    {r : Run} (h : TokenRun accepts stack ts r) (hfault : r.fault = none) :
    r.emitted.filterMap Postfix.Token.name? = ts.filterMap Token.name? := by
  induction h with
  | finish => rfl
  | @operand name stack ts r accepted rest ih =>
      rw [Run.emitted_after, List.filterMap_append, ih hfault]
      rfl
  | shift precedence rest ih =>
      rw [Run.emitted_after, List.filterMap_append, ih hfault]
      rfl
  | @reduce op top below ts r precedence rest ih =>
      have hnone := filterMap_name?_ofOperator? top
      rw [Run.emitted_after, List.filterMap_append, ih hfault]
      exact (congrArg (· ++ _) hnone).trans (List.nil_append _)
  | close rest ih =>
      rw [Run.emitted_after, List.filterMap_append, ih hfault]
      rfl
  | rejected | unopened | unclosed => cases hfault

/-! ## Parts of a run

A part of a run leads from a stack and the tokens to come to another stack and the tokens that are
then still to come.  `Emits` says so by what it does for any run that goes on from there: a run
that starts earlier exists, ends in the same way, and has emitted `out` before.
-/

section Emits

variable {accepts : Validator} {stack below : List Operator} {ts : List Token}

/-- From the first stack and tokens the conversion comes to the second ones and emits `out`. -/
def Emits (accepts : Validator) (stack : List Operator) (ts : List Token)
    (out : List Postfix.Token) (stack' : List Operator) (ts' : List Token) : Prop :=
  ∀ r, TokenRun accepts stack' ts' r →
    ∃ r', TokenRun accepts stack ts r' ∧ r'.fault = r.fault ∧ r'.emitted = out ++ r.emitted

lemma Emits.refl (accepts : Validator) (stack : List Operator) (ts : List Token) :
    Emits accepts stack ts [] stack ts :=
  fun r h => ⟨r, h, rfl, rfl⟩

lemma Emits.trans {stack' stack'' : List Operator} {ts' ts'' : List Token}
    {out out' : List Postfix.Token} (h : Emits accepts stack ts out stack' ts')
    (h' : Emits accepts stack' ts' out' stack'' ts'') :
    Emits accepts stack ts (out ++ out') stack'' ts'' := by
  intro r hr
  obtain ⟨r', hr', hfault', hout'⟩ := h' r hr
  obtain ⟨r'', hr'', hfault'', hout''⟩ := h r' hr'
  refine ⟨r'', hr'', hfault''.trans hfault', ?_⟩
  rw [hout'', hout', List.append_assoc]

lemma Emits.operand {name : String} (accepted : accepts name = true) :
    Emits accepts stack (.operand name :: ts) [.operand name] stack ts :=
  fun r h => ⟨r.after (.operand name), .operand accepted h, rfl, rfl⟩

lemma Emits.shift {op top : Operator} (precedence : top.precedence op = .shift) :
    Emits accepts (top :: below) (.operator op :: ts) [] (op :: top :: below) ts :=
  fun r h => ⟨r.after (.shift op top), .shift precedence h, rfl, rfl⟩

lemma Emits.reduce {op top : Operator} {t : Postfix.Token}
    (emitted : Postfix.Token.ofOperator? top = some t) (precedence : top.precedence op = .reduce) :
    Emits accepts (top :: below) (.operator op :: ts) [t] below (.operator op :: ts) := by
  intro r h
  refine ⟨r.after (.reduce top op), .reduce precedence h, rfl, ?_⟩
  exact List.filterMap_cons_some emitted

lemma Emits.close :
    Emits accepts (.openParen :: below) (.operator .closeParen :: ts) [] below ts :=
  fun r h => ⟨r.after (.close .openParen .closeParen), .close h, rfl, rfl⟩

lemma parenthesized_append (ts us : List Token) :
    parenthesized ts ++ us = .operator .openParen :: (ts ++ .operator .closeParen :: us) := by
  rw [parenthesized, List.cons_append, List.cons_append, List.append_assoc]
  rfl

/-- What is emitted in parentheses is emitted around them, if the opening one can be stacked. -/
lemma Emits.parenthesized {us : List Token} {out : List Postfix.Token}
    (shift : ∀ vs, Emits accepts stack (.operator .openParen :: vs) [] (.openParen :: stack) vs)
    (inner : Emits accepts (.openParen :: stack) (ts ++ .operator .closeParen :: us) out
      (.openParen :: stack) (.operator .closeParen :: us)) :
    Emits accepts stack (parenthesized ts ++ us) out stack us := by
  rw [parenthesized_append, ← List.append_nil out]
  exact (shift _).trans (inner.trans .close)

/-- The operators on which a segment of the stack stands. -/
def Operator.IsBase (op : Operator) : Prop :=
  op = .openParen ∨ op = .endOfInput

/-- A binary operator is stacked at the base of a segment. -/
lemma Operator.IsBase.precedence_binary {op top : Operator} (h : top.IsBase)
    (hop : op = .and ∨ op = .or) : top.precedence op = .shift := by
  rcases h with rfl | rfl <;> rcases hop with rfl | rfl <;> rfl

/-- The tokens to come start with an operator before which every waiting logical one is
emitted. -/
def Flushing (us : List Token) : Prop :=
  ∃ op more, us = .operator op :: more ∧
    ∀ top : Operator, top.isLogical = true → top.precedence op = .reduce

lemma flushing_of_ne {op : Operator} (h : op ≠ .not) (h' : op ≠ .openParen) (us : List Token) :
    Flushing (.operator op :: us) := by
  refine ⟨op, us, rfl, fun top htop => ?_⟩
  revert h h' htop
  cases top <;> cases op <;> decide

lemma flushing_binary {op : Operator} (hop : op = .and ∨ op = .or) (us : List Token) :
    Flushing (.operator op :: us) := by
  rcases hop with rfl | rfl <;> exact flushing_of_ne Operator.noConfusion Operator.noConfusion us

lemma flushing_closeParen (us : List Token) : Flushing (.operator .closeParen :: us) :=
  flushing_of_ne Operator.noConfusion Operator.noConfusion us

lemma flushing_endMark : Flushing [.endMark] :=
  flushing_of_ne Operator.noConfusion Operator.noConfusion []

/-- A logical operator on the stack is emitted and leaves the stack below it. -/
lemma Emits.flush {top : Operator} {t : Postfix.Token}
    (emitted : Postfix.Token.ofOperator? top = some t) (h : Flushing ts) :
    Emits accepts (top :: below) ts [t] below ts := by
  obtain ⟨op, more, rfl, hop⟩ := h
  refine .reduce emitted (hop top ?_)
  rw [← Postfix.Token.isSome_ofOperator?, emitted]
  rfl

/-- A conversion that comes to the end with nothing waiting has emitted all that it emits. -/
theorem Emits.conversion {text : String} {out : List Postfix.Token}
    (h : Emits accepts [.endOfInput] (tokensOf text ++ [.endMark]) out
      [.endOfInput] [.endMark]) :
    (conversion accepts text).fault = none ∧ (conversion accepts text).emitted = out := by
  obtain ⟨r, hr, hfault, hout⟩ := h _ .finish
  rw [hr.unique (tokenRun_conversion accepts text)] at hfault hout
  exact ⟨hfault, hout.trans (List.append_nil out)⟩

end Emits

end ReversePolish
