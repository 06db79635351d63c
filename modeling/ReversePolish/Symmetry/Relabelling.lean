import ReversePolish.Conversion.Run
import ReversePolish.Symmetry.Exchange
import ReversePolish.Symmetry.Renaming

/-!
# Relabellings

A conversion knows of an operator only how it meets other operators, and of an operand only whether
the validator accepts its name.  A `Relabelling` puts other operators and other names in their
place so that this stays the same: the new operators meet as the old ones do, and what they are
emitted as takes as many values.  The parentheses and the end mark cannot be relabelled, because no
other operators close each other (`operator_openParen`, `operator_closeParen`,
`operator_endOfInput`).

* `Relabelling.rename` — other names for the operands.
* `Relabelling.exchange` — conjunction for disjunction, and disjunction for conjunction.
-/

namespace ReversePolish

/-- Operators and names to be put in the place of others, without a difference to a conversion. -/
structure Relabelling where
  /-- The operator that is put in the place of another one. -/
  operator : Operator → Operator
  /-- The name that is put in the place of another one. -/
  name : String → String
  /-- The emitted token that comes in the place of another one. -/
  output : Postfix.Token → Postfix.Token
  precedence_operator : ∀ top op, (operator top).precedence (operator op) = top.precedence op
  ofOperator?_operator : ∀ op,
    Postfix.Token.ofOperator? (operator op) = (Postfix.Token.ofOperator? op).map output
  output_operand : ∀ n, output (.operand n) = .operand (name n)
  arity_output : ∀ t, (output t).arity = t.arity

namespace Relabelling

/-- Every operand gets another name. -/
def rename (f : String → String) : Relabelling where
  operator := id
  name := f
  output := Postfix.Token.rename f
  precedence_operator := fun _ _ => rfl
  ofOperator?_operator := fun op => by cases op <;> rfl
  output_operand := fun _ => rfl
  arity_output := Postfix.Token.arity_rename f

/-- Conjunction and disjunction change places. -/
def exchange : Relabelling where
  operator := Operator.exchange
  name := id
  output := Postfix.Token.exchange
  precedence_operator := Operator.precedence_exchange
  ofOperator?_operator := fun op => by cases op <;> rfl
  output_operand := fun _ => rfl
  arity_output := Postfix.Token.arity_exchange

variable (σ : Relabelling)

def token : Token → Token
  | .operator op => .operator (σ.operator op)
  | .operand n => .operand (σ.name n)

def sequence (p : Postfix) : Postfix where
  tokens := p.tokens.map σ.output

def event : Event → Event
  | .operand n => .operand (σ.name n)
  | .shift op top => .shift (σ.operator op) (σ.operator top)
  | .reduce top op => .reduce (σ.operator top) (σ.operator op)
  | .close top op => .close (σ.operator top) (σ.operator op)

/-- The fault with another name, if it is about a name.  The operators that faults are about are
not relabelled. -/
def fault : Fault → Fault
  | .rejected n => .rejected (σ.name n)
  | .unmatched op => .unmatched op
  | .countMismatch => .countMismatch

def run (r : Run) : Run where
  events := r.events.map σ.event
  fault := r.fault.map σ.fault

/-- The report with another name, if it is about a name. -/
def report : ConversionError → ConversionError
  | .invalidSyntax info => .invalidSyntax info
  | .operandNotRecognized operand expression => .operandNotRecognized (σ.name operand) expression

/-! ## What is not relabelled -/

/-- A pair of operators that close each other is put in the place of one. -/
theorem operator_eq_of_close {top op : Operator} (h : top.precedence op = .close) :
    σ.operator top = .openParen ∧ σ.operator op = .closeParen ∨
      σ.operator top = .endOfInput ∧ σ.operator op = .endOfInput := by
  rw [← σ.precedence_operator] at h
  exact Operator.precedence_eq_close_iff.1 h

@[simp] theorem operator_endOfInput : σ.operator .endOfInput = .endOfInput := by
  have hends : Operator.endOfInput.precedence .endOfInput = .close := rfl
  rcases σ.operator_eq_of_close hends with ⟨hopen, hclose⟩ | ⟨hend, -⟩
  · rw [hopen] at hclose
    cases hclose
  · exact hend

theorem operator_parens :
    σ.operator .openParen = .openParen ∧ σ.operator .closeParen = .closeParen := by
  have hparens : Operator.openParen.precedence .closeParen = .close := rfl
  rcases σ.operator_eq_of_close hparens with h | ⟨hopen, -⟩
  · exact h
  · -- an opening parenthesis is stacked over another one, and the end mark over none
    have hshift := σ.precedence_operator .openParen .openParen
    rw [hopen] at hshift
    cases hshift

@[simp] theorem operator_openParen : σ.operator .openParen = .openParen :=
  σ.operator_parens.1

@[simp] theorem operator_closeParen : σ.operator .closeParen = .closeParen :=
  σ.operator_parens.2

end Relabelling

end ReversePolish
