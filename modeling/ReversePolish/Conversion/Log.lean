import ReversePolish.Conversion.Run

/-!
# The log of a conversion

A conversion logs what it does with operators: one `trace` record for each operator that is
stacked, emitted or closed, in the order of the steps.  Emitting an operand logs nothing.  A
failed conversion logs its fault in one last `debug` record; a successful one logs no such record.

A record is written as a line of two texts, the name of its level and its message.  `Run.log` are
the records of a run, and `Run.lines` is what a reader of the log sees of them.
-/

namespace ReversePolish.Log

/-- How important a record is. -/
inductive Level where
  /-- Single steps. -/
  | trace
  /-- The fault that ended a conversion. -/
  | debug
deriving DecidableEq, Repr

def Level.name : Level → String
  | .trace => "trace"
  | .debug => "debug"

/-- A record of the log. -/
inductive Record where
  | shift (op top : Operator)
  | reduce (top op : Operator)
  | close (top op : Operator)
  | failed (fault : Fault) (expression : String)
deriving DecidableEq, Repr

namespace Record

def level : Record → Level
  | .shift .. | .reduce .. | .close .. => .trace
  | .failed .. => .debug

def message : Record → String
  | .shift op top => s!"shift '{op}' over '{top}'"
  | .reduce top op => s!"reduce '{top}' before '{op}'"
  | .close top op => s!"match '{top}' with '{op}'"
  | .failed (.rejected name) expression =>
    s!"operand '{name}' rejected in expression '{expression}'"
  | .failed (.unmatched _) expression =>
    s!"no relation for operator in expression '{expression}'"
  | .failed .countMismatch expression =>
    s!"operator/operand count mismatch in expression '{expression}'"

/-- How the record is written: the name of its level, and its message. -/
def line (r : Record) : String × String :=
  (r.level.name, r.message)

/-- The record that is the same in all but the expression. -/
def withExpression (expression : String) : Record → Record
  | .failed fault _ => .failed fault expression
  | .shift op top => .shift op top
  | .reduce top op => .reduce top op
  | .close top op => .close top op

/-- The record of an event, if it is logged. -/
def ofEvent? : Event → Option Record
  | .operand _ => none
  | .shift op top => some (.shift op top)
  | .reduce top op => some (.reduce top op)
  | .close top op => some (.close top op)

end Record

end Log

/-- The log of a run over an expression. -/
def Run.log (expression : String) (r : Run) : List Log.Record :=
  r.events.filterMap Log.Record.ofEvent? ++
    (r.finalFault?.map fun fault => Log.Record.failed fault expression).toList

/-- The log of a run over an expression, as it is written. -/
def Run.lines (expression : String) (r : Run) : List (String × String) :=
  (r.log expression).map Log.Record.line

end ReversePolish
