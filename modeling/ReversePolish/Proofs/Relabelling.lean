import ReversePolish.Proofs.FirstFault
import ReversePolish.Symmetry.Relabelling

/-!
# Conversions of relabelled tokens

**A conversion of relabelled tokens is the relabelled conversion** (`conversion_relabel`), provided
that the validator accepts the new names where the other one accepts the old ones.  The run over the
relabelled tokens makes the same steps, one for one (`TokenRun.relabel`), so everything that is read
off it is relabelled as well: the emitted tokens, the names asked about and the outcome.  The count
comes out as before, because no token consumes more or fewer values than the one in whose place it
stands.
-/

namespace ReversePolish

/-! ## Runs -/

/-- **The run over relabelled tokens is the relabelled run.** -/
theorem TokenRun.relabel (σ : Relabelling) {v w : Validator}
    (same : ∀ n, w (σ.name n) = v n) {stack : List Operator} {ts : List Token} {r : Run}
    (h : TokenRun v stack ts r) :
    TokenRun w (stack.map σ.operator) (ts.map σ.token) (σ.run r) := by
  induction h with
  | finish =>
      simp only [List.map_cons, List.map_nil, Relabelling.token, Relabelling.run,
        Relabelling.event, σ.operator_endOfInput]
      exact .finish
  | @operand n stack ts r accepted rest ih =>
      have haccepted : w (σ.name n) = true := (same n).trans accepted
      exact .operand haccepted ih
  | @rejected n stack ts refused =>
      have hrefused : w (σ.name n) = false := (same n).trans refused
      exact .rejected hrefused
  | @shift op top below ts r precedence rest ih =>
      exact .shift ((σ.precedence_operator top op).trans precedence) ih
  | @reduce op top below ts r precedence rest ih =>
      exact .reduce ((σ.precedence_operator top op).trans precedence) ih
  | close rest ih =>
      have hclose := TokenRun.close ih
      simpa only [List.map_cons, Relabelling.token, Relabelling.run, Relabelling.event, Run.after,
        σ.operator_openParen, σ.operator_closeParen] using hclose
  | unopened =>
      simp only [List.map_cons, List.map_nil, Relabelling.token, σ.operator_endOfInput,
        σ.operator_closeParen]
      exact .unopened
  | unclosed =>
      simp only [List.map_cons, List.map_nil, Relabelling.token, σ.operator_endOfInput,
        σ.operator_openParen]
      exact .unclosed

namespace Relabelling

variable (σ : Relabelling)

lemma emitted?_event (event : Event) :
    (σ.event event).emitted? = event.emitted?.map σ.output := by
  cases event with
  | operand n => exact congrArg some (σ.output_operand n).symm
  | reduce top op => exact σ.ofOperator?_operator top
  | shift | close => rfl

lemma emitted_run (r : Run) : (σ.run r).emitted = r.emitted.map σ.output := by
  rw [Run.emitted, run, List.filterMap_map, Run.emitted, List.map_filterMap]
  exact congrArg (List.filterMap · r.events) (funext σ.emitted?_event)

/-- The names asked about are the new ones. -/
theorem asked_run (r : Run) : (σ.run r).asked = r.asked.map σ.name := by
  have hevents : (r.events.map σ.event).filterMap Event.asked? =
      (r.events.filterMap Event.asked?).map σ.name := by
    rw [List.filterMap_map, List.map_filterMap]
    congr 1
    funext event
    cases event <;> rfl
  have hfault : ((r.fault.map σ.fault).bind Fault.asked?).toList =
      (r.fault.bind Fault.asked?).toList.map σ.name := by
    rcases r.fault with - | fault
    · rfl
    · cases fault <;> rfl
  rw [Run.asked, run, hevents, hfault, Run.asked, List.map_append]

lemma isBalanced_map_output (ts : List Postfix.Token) :
    Postfix.isBalanced (ts.map σ.output) = Postfix.isBalanced ts := by
  rw [Postfix.isBalanced, Postfix.depthAfter_map σ.arity_output, Postfix.isBalanced]

/-- The outcome is the relabelled one. -/
lemma result_run (r : Run) :
    (σ.run r).result = (r.result.map σ.sequence).mapError σ.fault := by
  cases hfault : r.fault with
  | some fault =>
      have hrun : (σ.run r).fault = some (σ.fault fault) := by rw [run, hfault, Option.map_some]
      rw [Run.result_of_fault_some hrun, Run.result_of_fault_some hfault]
      rfl
  | none =>
      have hrun : (σ.run r).fault = none := by rw [run, hfault, Option.map_none]
      rw [Run.result_of_fault_none hrun, Run.result_of_fault_none hfault, σ.emitted_run,
        σ.isBalanced_map_output]
      split <;> rfl

lemma report_fault (fault : Fault) (expression : String) :
    σ.report (fault.report expression) = (σ.fault fault).report expression := by
  cases fault <;> rfl

end Relabelling

/-! ## Conversions -/

section Conversion

variable {σ : Relabelling} {v w : Validator} {text text' : String}

/-- **A conversion of relabelled tokens is the relabelled conversion.** -/
theorem conversion_relabel (same : ∀ n, w (σ.name n) = v n)
    (tokens : tokensOf text' = (tokensOf text).map σ.token) :
    conversion w text' = σ.run (conversion v text) := by
  have hrun := (tokenRun_conversion v text).relabel σ same
  have hend : σ.token .endMark = .endMark := congrArg Token.operator σ.operator_endOfInput
  have htokens : (tokensOf text ++ [Token.endMark]).map σ.token =
      tokensOf text' ++ [Token.endMark] := by
    rw [List.map_append, ← tokens, List.map_singleton, hend]
  rw [htokens, List.map_singleton, σ.operator_endOfInput] at hrun
  exact (tokenRun_conversion w text').unique hrun

/-- The answer is the relabelled one, but for the echoed expression. -/
theorem convertWith_relabel (same : ∀ n, w (σ.name n) = v n)
    (tokens : tokensOf text' = (tokensOf text).map σ.token) :
    convertWith w text' = ((convertWith v text).map σ.sequence).mapError
      (fun e => (σ.report e).withExpression text') := by
  rw [convertWith, conversion_relabel same tokens, σ.result_run, convertWith]
  cases (conversion v text).result with
  | ok p => rfl
  | error fault =>
      show Except.error ((σ.fault fault).report text') =
        Except.error ((σ.report (fault.report text)).withExpression text')
      rw [σ.report_fault, Fault.withExpression_report]

end Conversion

end ReversePolish
