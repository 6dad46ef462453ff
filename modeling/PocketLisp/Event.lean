import PocketLisp.Token.Cursor

/-!
# Events

A run leaves a log of what it did. Printed text and trace lines are views of that log, and so are
the bindings it made.

* `Event`: tokens taken, a program read, its evaluation begun, a list dispatched on its head, a name
  bound, a value printed.
* `Event.output`: the text that an event prints. A printed value is one line.
* `Event.traceLine?`: the line by which an event is traced. Bindings and prints are not traced.
-/

namespace PocketLisp

/-- Something that happened during a run. -/
inductive Event where
  /-- A token was taken off the source text. -/
  | token (t : Located)
  /-- The source text was read; it has `forms` top-level expressions. -/
  | parsed (forms : Nat)
  /-- The evaluation of `forms` expressions begins. -/
  | evaluating (forms : Nat)
  /-- A list with the symbol `head` and so many operands is evaluated. -/
  | dispatched (head : String) (operands : Nat)
  /-- A name was bound. -/
  | bound (name : String) (v : Value)
  /-- A value was printed. -/
  | printed (v : Value)

namespace Event

/-- The line that a printed value makes. -/
def line (v : Value) : String := v.debug ++ "\n"

/-- The text that an event prints. -/
def output : Event → String
  | .printed v => line v
  | _ => ""

/-- A line of the trace, from the part of the program `source`. -/
def record (source message : String) : String := source ++ ": DEBUG: " ++ message

/-- The line by which an event is traced. -/
def traceLine? : Event → Option String
  | .token t => some (record "mlsp.reader.lexer"
      ("line " ++ toString t.line ++ " pos " ++ toString t.pos ++ ": " ++ t.token.toValue.shown))
  | .parsed forms => some (record "mlsp.reader.parser"
      ("parsed " ++ toString forms ++ " top-level form(s)"))
  | .evaluating forms => some (record "mlsp.interpreter"
      ("evaluating " ++ toString forms ++ " form(s)"))
  | .dispatched head operands => some (record "mlsp.evaluation.evaluator"
      ("dispatch " ++ head ++ " with " ++ toString operands ++ " operand(s)"))
  | .bound .. | .printed _ => none

/-- The text printed by the events, in order. -/
def outputText (events : List Event) : String := String.join (events.map output)

/-- The trace of the events, in order. -/
def trace (events : List Event) : List String := events.filterMap traceLine?

@[simp] theorem trace_append (es fs : List Event) : trace (es ++ fs) = trace es ++ trace fs := by
  simp [trace]

end Event

end PocketLisp
