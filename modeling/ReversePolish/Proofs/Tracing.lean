import ReversePolish.Conversion.Replay
import ReversePolish.Conversion.Transcript
import ReversePolish.Proofs.Reading

/-!
# The log as a trace of the conversion

**The log of a conversion can be replayed, and tells what was read** (`conversion_traces`).
The statement is about the lines of the log and needs nothing else of the run: the records of the
steps are read back from the lines (`Run.readBack?_trace`).  Carried out from the end mark alone,
every record finds the operator on top that it names (`TokenRun.replay_trace`); the records of
stacking and closing are the operators that were used up, in order; and whatever is emitted makes
way for the operator that is used up next, or for the one at which the conversion ends
(`TokenRun.makesWay_trace`).  The last two hold because a run reads its tokens from the first one
on: where an operator is emitted, the one that comes next is still the first of those to come.
-/

namespace ReversePolish

variable {accepts : Validator}

/-- The records of the steps of a run. -/
def Run.trace (r : Run) : List Log.Record :=
  r.events.filterMap Log.Record.ofEvent?

/-- The operator at which a run ends, if it ends at one. -/
def Run.failing? (r : Run) : Option Operator :=
  (r.fault.bind Fault.token?).bind Token.operator?

/-- The records are a trace of using up the tokens.  They can be replayed from the end mark alone
and leave a stack, they use up the operators among the tokens in order, and every operator that
they emit makes way for the one that is used up next or for the one at which the conversion
fails. -/
structure Log.Traces (tokens : List Token) (failing : Option Operator) (left : List Operator)
    (records : List Log.Record) : Prop where
  replays : Log.replay [.endOfInput] records = some left
  consumed : records.filterMap Log.Record.consumed? = tokens.filterMap Token.operator?
  makesWay : Log.MakesWay failing records

/-! ## Replaying -/

/-- **The steps of a run can be replayed on its stack**, and a run without a fault leaves none. -/
theorem TokenRun.replay_trace {stack : List Operator} {ts : List Token} {r : Run}
    (h : TokenRun accepts stack ts r) :
    ∃ left, Log.replay stack r.trace = some left ∧ (r.fault = none → left = []) := by
  induction h with
  | finish => exact ⟨[], rfl, fun _ => rfl⟩
  | operand accepted rest ih => exact ih
  | rejected | unopened | unclosed => exact ⟨_, rfl, nofun⟩
  | shift precedence rest ih =>
      obtain ⟨left, hleft, hempty⟩ := ih
      exact ⟨left, Log.replay_shift.trans hleft, hempty⟩
  | reduce precedence rest ih =>
      obtain ⟨left, hleft, hempty⟩ := ih
      have hlogical := Operator.isLogical_of_precedence_eq_reduce precedence
      exact ⟨left, (Log.replay_reduce hlogical).trans hleft, hempty⟩
  | close rest ih =>
      obtain ⟨left, hleft, hempty⟩ := ih
      exact ⟨left, Log.replay_close.trans hleft, hempty⟩

/-! ## What the records use up and emit -/

lemma Run.filterMap_consumed?_trace (r : Run) :
    r.trace.filterMap Log.Record.consumed? = r.used.filterMap Token.operator? := by
  rw [trace, used, List.filterMap_filterMap, List.filterMap_filterMap]
  congr 1
  funext event
  cases event <;> rfl

lemma Run.filterMap_emitted?_trace (r : Run) :
    r.trace.filterMap Log.Record.emitted? = r.emitted.filter (·.name?.isNone) := by
  rw [trace, emitted, List.filterMap_filterMap, List.filter_filterMap]
  congr 1
  funext event
  cases event with
  | operand | shift | close => rfl
  | reduce top op => cases top <;> rfl

/-- The operator that is used up first, or else the one at which the run ends, is the first
operator that is read. -/
lemma Run.findSome?_consumed?_trace (r : Run) :
    (r.trace.findSome? Log.Record.consumed?).or r.failing? =
      (r.read.filterMap Token.operator?).head? := by
  rw [← List.head?_filterMap, filterMap_consumed?_trace, read, List.filterMap_append,
    List.head?_append, failing?]
  congr 1
  rcases r.fault.bind Fault.token? with - | (op | name) <;> rfl

/-- **Every operator that a run emits makes way for the one that comes next.** -/
theorem TokenRun.makesWay_trace {stack : List Operator} {ts : List Token} {r : Run}
    (h : TokenRun accepts stack ts r) : Log.MakesWay r.failing? r.trace := by
  induction h with
  | finish => exact ⟨nofun, trivial⟩
  | operand accepted rest ih => exact ih
  | rejected | unopened | unclosed => trivial
  | shift precedence rest ih | close rest ih => exact ⟨nofun, ih⟩
  | @reduce op top below ts r precedence rest ih =>
      refine ⟨?_, ih⟩
      rintro _ _ ⟨⟩
      -- the operator that was offered is the first token still to come, so it is read first
      have hread : r.read.head? = some (.operator op) := rest.head?_read
      obtain ⟨more, hmore⟩ := List.head?_eq_some_iff.1 hread
      show (r.trace.findSome? Log.Record.consumed?).or r.failing? = some op
      rw [r.findSome?_consumed?_trace, hmore]
      rfl

/-! ## The log of a conversion -/

lemma Run.level_of_mem_trace {r : Run} {record : Log.Record} (h : record ∈ r.trace) :
    record.level = .trace := by
  obtain ⟨event, -, hevent⟩ := List.mem_filterMap.1 h
  cases event <;> cases hevent <;> rfl

lemma Run.log_of_finalFault?_none {r : Run} {expression : String} (h : r.finalFault? = none) :
    r.log expression = r.trace := by
  rw [log, h]
  exact List.append_nil _

lemma Run.log_of_finalFault?_some {r : Run} {expression : String} {fault : Fault}
    (h : r.finalFault? = some fault) :
    r.log expression = r.trace ++ [.failed fault expression] := by
  rw [log, h]
  rfl

/-- The steps of a run can be told from their lines. -/
lemma Run.readBack?_trace (r : Run) :
    Log.readBack? (r.trace.map Log.Record.line) = some r.trace :=
  Log.readBack?_eq_some_iff.2 ⟨fun _ => level_of_mem_trace, rfl⟩

lemma Run.lines_of_finalFault?_none {r : Run} {expression : String} (h : r.finalFault? = none) :
    r.lines expression = r.trace.map Log.Record.line := by
  rw [lines, log_of_finalFault?_none h]

lemma Run.lines_of_finalFault?_some {r : Run} {expression : String} {fault : Fault}
    (h : r.finalFault? = some fault) :
    r.lines expression = r.trace.map Log.Record.line ++
      [("debug", (Log.Record.failed fault expression).message)] := by
  rw [lines, log_of_finalFault?_some h, List.map_append]
  rfl

/-- The steps of a conversion are a trace of what was used up. -/
lemma exists_traces_used (accepts : Validator) (text : String) :
    ∃ left, Log.Traces (conversion accepts text).used (conversion accepts text).failing? left
        (conversion accepts text).trace ∧
      ((conversion accepts text).fault = none → left = []) := by
  have hrun := tokenRun_conversion accepts text
  obtain ⟨left, hleft, hempty⟩ := hrun.replay_trace
  exact ⟨left, ⟨hleft, Run.filterMap_consumed?_trace _, hrun.makesWay_trace⟩, hempty⟩

/-- A run without a fault uses up all tokens and the end mark, and leaves no stack. -/
lemma traces_of_fault_none {text : String} (h : (conversion accepts text).fault = none) :
    Log.Traces (tokensOf text ++ [.endMark]) none [] (conversion accepts text).trace := by
  obtain ⟨left, htraces, hempty⟩ := exists_traces_used accepts text
  have hused : (conversion accepts text).used = tokensOf text ++ [.endMark] := by
    rw [← conversion_read_of_faultless (faultless_of_fault_none h), Run.read, h]
    exact (List.append_nil _).symm
  rw [hused, hempty h, Run.failing?, h] at htraces
  exact htraces

/-- A run that ends at a token uses up the tokens before it. -/
lemma exists_traces_of_read {text : String} {before : List Token} {t : Token} {fault : Fault}
    (h : (conversion accepts text).fault = some fault) (ht : fault.token? = some t)
    (hread : (conversion accepts text).read = before ++ [t]) :
    ∃ left, Log.Traces before t.operator? left (conversion accepts text).trace := by
  obtain ⟨left, htraces, -⟩ := exists_traces_used accepts text
  have hend : (conversion accepts text).fault.bind Fault.token? = some t := by rw [h]; exact ht
  rw [Run.read, hend] at hread
  rw [List.append_cancel_right hread, Run.failing?, hend] at htraces
  exact ⟨left, htraces⟩

/-- **The log is a faithful trace of the conversion.**  On success it has lines of steps only, and
the records that are read back from them use up all tokens and the end mark, leave an empty stack
and emit the operators of the answer.  On failure the lines of the steps are followed by one that
reports the fault, and the steps use up the tokens before the one at fault; a count that does not
come out is found when everything has been used up. -/
theorem conversion_traces (accepts : Validator) (text : String) :
    (∀ p, convertWith accepts text = .ok p →
      (∀ line ∈ (conversion accepts text).lines text, line.1 = "trace") ∧
      ∃ records, Log.readBack? ((conversion accepts text).lines text) = some records ∧
        Log.Traces (tokensOf text ++ [.endMark]) none [] records ∧
        records.filterMap Log.Record.emitted? = p.tokens.filter (·.name?.isNone)) ∧
    ∀ e, convertWith accepts text = .error e →
      ∃ steps records fault,
        (conversion accepts text).lines text =
          steps ++ [("debug", (Log.Record.failed fault text).message)] ∧
        (∀ line ∈ steps, line.1 = "trace") ∧ Log.readBack? steps = some records ∧
        e = fault.report text ∧
        ((fault = .countMismatch ∧
            Log.Traces (tokensOf text ++ [.endMark]) none [] records) ∨
          (fault = .unmatched .endOfInput ∧ Faultless accepts (tokensOf text) ∧
            closed (tokensOf text) < opened (tokensOf text) ∧
            ∃ left, Log.Traces (tokensOf text) (some .endOfInput) left records) ∨
          ∃ before t after, tokensOf text = before ++ t :: after ∧ Faultless accepts before ∧
            AtFault accepts before t fault ∧
            ∃ left, Log.Traces before t.operator? left records) := by
  have hback := (conversion accepts text).readBack?_trace
  constructor
  · intro p h
    obtain ⟨hfault, hbalanced, htokens⟩ := convertWith_eq_ok_iff.1 h
    have hfinal : (conversion accepts text).finalFault? = none := by
      rw [Run.finalFault?, hfault]
      exact if_pos hbalanced
    rw [Run.lines_of_finalFault?_none hfinal]
    refine ⟨Log.level_of_readBack? hback, _, hback, traces_of_fault_none hfault, ?_⟩
    rw [Run.filterMap_emitted?_trace, htokens]
  · intro e h
    obtain ⟨fault, hfinal, rfl⟩ := convertWith_eq_error_iff.1 h
    refine ⟨_, _, fault, Run.lines_of_finalFault?_some hfinal, Log.level_of_readBack? hback, hback,
      rfl, ?_⟩
    by_cases hcount : fault = .countMismatch
    · subst hcount
      exact Or.inl ⟨rfl, traces_of_fault_none (convertWith_eq_countMismatch_iff.1 h).1⟩
    · have hfault := fault_of_finalFault? hfinal hcount
      refine Or.inr ?_
      rcases firstFault_iff.1 (fault_conversion_eq_some_iff.1 hfault) with
        ⟨before, t, after, tokens, earlier, hat⟩ | ⟨rfl, earlier, more⟩
      · exact Or.inr ⟨before, t, after, tokens, earlier, hat, exists_traces_of_read hfault
          hat.token?_eq (conversion_read_of_atFault tokens earlier hat)⟩
      · exact Or.inl ⟨rfl, earlier, more,
          exists_traces_of_read hfault rfl (conversion_read_of_faultless earlier)⟩

/-- The lines for a disjunction before which two operators are emitted, and a conversion that fails
at the end. -/
theorem conversion_traces_chain :
    convertWith acceptAll "a & !b | c" =
      .ok { tokens := [.operand "a", .operand "b", .not, .and, .operand "c", .or] } ∧
    (conversion acceptAll "a & !b | c").lines "a & !b | c" =
      [("trace", "shift '&' over 'end of input'"), ("trace", "shift '!' over '&'"),
        ("trace", "reduce '!' before '|'"), ("trace", "reduce '&' before '|'"),
        ("trace", "shift '|' over 'end of input'"), ("trace", "reduce '|' before 'end of input'"),
        ("trace", "match 'end of input' with 'end of input'")] ∧
    (∃ records,
      Log.readBack? ((conversion acceptAll "a & !b | c").lines "a & !b | c") = some records ∧
      Log.Traces
        [.operand "a", .operator .and, .operator .not, .operand "b", .operator .or, .operand "c",
          .endMark]
        none [] records ∧
      records.filterMap Log.Record.emitted? = [.not, .and, .or]) ∧
    convertWith acceptAll "(a & !b | c" = .error (.invalidSyntax
      ⟨"no matching operator for", some .endOfInput, "(a & !b | c"⟩) ∧
    ∃ steps fault, (conversion acceptAll "(a & !b | c").lines "(a & !b | c" =
        steps ++ [("debug", (Log.Record.failed fault "(a & !b | c").message)] ∧
      ∀ line ∈ steps, line.1 = "trace" := by
  have hok : convertWith acceptAll "a & !b | c" =
      .ok { tokens := [.operand "a", .operand "b", .not, .and, .operand "c", .or] } := by
    decide +kernel
  have htokens : tokensOf "a & !b | c" =
      [.operand "a", .operator .and, .operator .not, .operand "b", .operator .or,
        .operand "c"] := by
    decide +kernel
  have hlines : (conversion acceptAll "a & !b | c").lines "a & !b | c" =
      [("trace", "shift '&' over 'end of input'"), ("trace", "shift '!' over '&'"),
        ("trace", "reduce '!' before '|'"), ("trace", "reduce '&' before '|'"),
        ("trace", "shift '|' over 'end of input'"), ("trace", "reduce '|' before 'end of input'"),
        ("trace", "match 'end of input' with 'end of input'")] := by
    decide +kernel
  have hunclosed : convertWith acceptAll "(a & !b | c" = .error (.invalidSyntax
      ⟨"no matching operator for", some .endOfInput, "(a & !b | c"⟩) := by
    decide +kernel
  obtain ⟨-, records, hback, htraces, hemitted⟩ := (conversion_traces _ _).1 _ hok
  obtain ⟨steps, -, fault, hfailed, hlevel, -⟩ := (conversion_traces _ _).2 _ hunclosed
  rw [htokens] at htraces
  exact ⟨hok, hlines, ⟨records, hback, htraces, hemitted⟩, hunclosed, steps, fault, hfailed, hlevel⟩

end ReversePolish
