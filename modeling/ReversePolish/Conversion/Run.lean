import ReversePolish.Conversion.Machine
import ReversePolish.Postfix.Balance

/-!
# Runs of the conversion machine

A `Run` is the list of what happened in a conversion, and the fault that ended it, if one did.
Everything a conversion shows is read off it: the emitted tokens, the names asked about, the log
and the outcome.  A fact about the events of runs is therefore a fact about all of these.

* `Machine.run` — steps until the machine halts or fails.  It is unfolded by one lemma for each
  outcome of a step (`run_of_halt`, `run_of_fail`, `run_of_next`).
* `Run.emitted`, `Run.asked` — the emitted tokens and the names asked about.
* `Run.result` — the outcome: a run without a fault succeeds if its tokens leave one value.
-/

namespace ReversePolish

/-- What happened in a conversion. -/
structure Run where
  events : List Event
  /-- The fault that ended the run, if it did not end by itself. -/
  fault : Option Fault
deriving DecidableEq, Repr

/-- The run with one more event in front. -/
def Run.after (event : Event) (r : Run) : Run :=
  { r with events := event :: r.events }

namespace Machine

/-- Steps until the machine halts or fails. -/
def run (accepts : Validator) (m : Machine) : Run :=
  match _h : m.step accepts with
  | .halt => { events := [], fault := none }
  | .fail fault => { events := [], fault := some fault }
  | .next event m' => (m'.run accepts).after event
termination_by m.weight
decreasing_by exact weight_lt_of_step ‹_›

variable {accepts : Validator} {m m' : Machine}

theorem run_of_halt (h : m.step accepts = .halt) :
    m.run accepts = { events := [], fault := none } := by
  rw [run]; split <;> simp_all

theorem run_of_fail {fault : Fault} (h : m.step accepts = .fail fault) :
    m.run accepts = { events := [], fault := some fault } := by
  rw [run]; split <;> simp_all

theorem run_of_next {event : Event} (h : m.step accepts = .next event m') :
    m.run accepts = (m'.run accepts).after event := by
  rw [run]; split <;> simp_all

end Machine

/-- The token that an event adds to the output, if it adds one. -/
def Event.emitted? : Event → Option Postfix.Token
  | .operand name => some (.operand name)
  | .reduce top _ => Postfix.Token.ofOperator? top
  | .shift .. | .close .. => none

/-- The operand name that an event asks about, if it asks about one. -/
def Event.asked? : Event → Option String
  | .operand name => some name
  | .shift .. | .reduce .. | .close .. => none

/-- The operand name that was asked about and rejected, if that is the fault. -/
def Fault.asked? : Fault → Option String
  | .rejected name => some name
  | .unmatched _ | .countMismatch => none

namespace Run

/-- The emitted tokens, first to last. -/
def emitted (r : Run) : List Postfix.Token :=
  r.events.filterMap Event.emitted?

/-- The operand names asked about, first to last, a rejected one included. -/
def asked (r : Run) : List String :=
  r.events.filterMap Event.asked? ++ (r.fault.bind Fault.asked?).toList

/-- The fault of the conversion: the one that ended the run, or else the emitted tokens may fail to
leave exactly one value. -/
def finalFault? (r : Run) : Option Fault :=
  match r.fault with
  | some fault => some fault
  | none => if Postfix.isBalanced r.emitted then none else some .countMismatch

/-- The outcome of the conversion. -/
def result (r : Run) : Except Fault Postfix :=
  match r.finalFault? with
  | some fault => .error fault
  | none => .ok { tokens := r.emitted }

end Run

end ReversePolish
