import ReversePolish.Operator

/-!
# What can go wrong in a conversion

A conversion fails in one of three ways, and a `Fault` says which: an operand name was rejected,
an operator met nothing that it could be matched with, or the emitted operands and operators do
not add up to one value.

A `ConversionError` is the report of a fault.  It carries the expression as it was given and is
shown as one line.  `SyntaxError` is the part of a report that describes a malformed expression;
its reason may be any text, and the two that a conversion gives are `noMatchingOperator` and
`countMismatch`.
-/

namespace ReversePolish

/-- The cause of a failed conversion. -/
inductive Fault where
  /-- The operand name was asked about and rejected. -/
  | rejected (name : String)
  /-- The operator has no partner: a closing parenthesis without an opening one, or the end of
  the text while a parenthesis is still open. -/
  | unmatched (op : Operator)
  /-- The emitted tokens do not leave exactly one value. -/
  | countMismatch
deriving DecidableEq, Repr

/-- The report of a malformed expression. -/
structure SyntaxError where
  reason : String
  /-- The operator at which it went wrong, if it was at one. -/
  operator : Option Operator
  expression : String
deriving DecidableEq, Repr

namespace SyntaxError

def noMatchingOperator : String :=
  "no matching operator for"

def countMismatch : String :=
  "mismatch between the number of operators and operands"

/-- The report as one line: the reason, the operator in quotes if there is one, the expression. -/
def message (e : SyntaxError) : String :=
  match e.operator with
  | some op => s!"invalid syntax, {e.reason} '{op}', expr: {e.expression}"
  | none => s!"invalid syntax, {e.reason}, expr: {e.expression}"

end SyntaxError

/-- The report of a failed conversion. -/
inductive ConversionError where
  | invalidSyntax (info : SyntaxError)
  | operandNotRecognized (operand expression : String)
deriving DecidableEq, Repr

namespace ConversionError

def expression : ConversionError → String
  | .invalidSyntax info => info.expression
  | .operandNotRecognized _ expression => expression

def message : ConversionError → String
  | .invalidSyntax info => info.message
  | .operandNotRecognized operand expression =>
    s!"condition not recognized: '{operand}', expr: {expression}"

/-- The report that is the same in all but the expression. -/
def withExpression (expression : String) : ConversionError → ConversionError
  | .invalidSyntax info => .invalidSyntax { info with expression := expression }
  | .operandNotRecognized operand _ => .operandNotRecognized operand expression

end ConversionError

/-! ## From the cause to the report -/

/-- The report of a fault in an expression. -/
def Fault.report (expression : String) : Fault → ConversionError
  | .rejected name => .operandNotRecognized name expression
  | .unmatched op => .invalidSyntax ⟨SyntaxError.noMatchingOperator, some op, expression⟩
  | .countMismatch => .invalidSyntax ⟨SyntaxError.countMismatch, none, expression⟩

@[simp] theorem Fault.expression_report (expression : String) (fault : Fault) :
    (fault.report expression).expression = expression := by
  cases fault <;> rfl

@[simp] theorem Fault.withExpression_report (expression other : String) (fault : Fault) :
    (fault.report expression).withExpression other = fault.report other := by
  cases fault <;> rfl

/-- Within one expression a report names its cause. -/
theorem Fault.report_inj {expression : String} {f g : Fault} :
    f.report expression = g.report expression ↔ f = g := by
  cases f <;> cases g <;> simp [report]

end ReversePolish
