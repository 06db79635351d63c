import ReversePolish.Conversion.Log

/-!
# Converting an expression

`convertWith` puts a rule into reverse Polish order, asking a predicate about every operand name;
`convert` accepts every name.  `conversion` is the run behind both, from which the names asked
about and the log are read (`Run.asked`, `Run.log`).
-/

namespace ReversePolish

/-- The run of a conversion. -/
def conversion (accepts : Validator) (expression : String) : Run :=
  (Machine.start expression).run accepts

/-- The expression in reverse Polish order, or the report of the first fault. -/
def convertWith (accepts : Validator) (expression : String) : Except ConversionError Postfix :=
  (conversion accepts expression).result.mapError (Fault.report expression)

/-- The expression in reverse Polish order, whatever its operands are called. -/
def convert (expression : String) : Except ConversionError Postfix :=
  convertWith acceptAll expression

/-- Two conversions are equal if they give the same sequence or the same report. -/
instance : DecidableEq (Except ConversionError Postfix)
  | .ok p, .ok q => decidable_of_iff (p = q) (by simp)
  | .error e, .error f => decidable_of_iff (e = f) (by simp)
  | .ok _, .error _ => isFalse (by simp)
  | .error _, .ok _ => isFalse (by simp)

end ReversePolish
