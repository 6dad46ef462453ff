import PocketLisp.Command.Args
import PocketLisp.Command.Folder
import PocketLisp.Session
import PocketLisp.Setting

/-!
# The command

Runs one source file. What the program prints goes to standard output, and so do the values of its
expressions if they are asked for. The trace and the report of a fault go to standard error.

* `Command.prepare`: what is settled before the file is read: help, refused arguments, settings that
  cannot be used, or a `Job`.
* `Job.finish`: the job done on the content of the file.
* `Command.run`: both, over a given way to read files. It is `none` if a loop used up its fuel.
-/

namespace PocketLisp

namespace Command

/-- How a command ends. -/
inductive Ending where
  /-- With an exit code. -/
  | exit (code : Nat)
  /-- With a fault that is nobody's to report. -/
  | crash (f : Fault)

/-- What a command leaves behind. -/
structure Finish where
  stdout : String := ""
  stderr : String := ""
  ending : Ending

/-- What a command is started with. -/
structure Setup where
  arguments : List String
  /-- The setting of the level of logging. -/
  level : Option String := none
  /-- The setting of the depth of recursion. -/
  depth : Option String := none

/-- What is to be done with a file. -/
structure Job where
  file : String
  /-- The values of the expressions are printed. -/
  results : Bool
  /-- The trace is written. -/
  traced : Bool
  /-- The frames that may be nested. -/
  room : Nat

/-- How the command is used. -/
def usage : String := "usage: mlsp [-h] [--results] [-v] file\n"

def helpText : String :=
  usage
    ++ "\nRun an mlsp source file.\n"
    ++ "\npositional arguments:\n"
    ++ "  file           UTF-8 source file to interpret and run\n"
    ++ "\noptions:\n"
    ++ "  -h, --help     show this help message and exit\n"
    ++ "  --results      print the value of every top-level form after the run\n"
    ++ "  -v, --verbose  enable debug logging\n"

/-- A line that the command writes in its own name. -/
def ownLine (message : String) : String := "mlsp: " ++ message ++ "\n"

/-- The frames in use before a program starts. -/
def framesOutside : Nat := 20

/-- The depth without a setting. -/
def defaultDepth : Nat := 1000

/-- The frames that a program may nest without a setting. -/
def defaultRoom : Nat := defaultDepth - framesOutside

/-- The greatest depth that can be set. -/
def maxDepth : Nat := 2147483647

/-- The frames that a program may nest under a setting of the depth. -/
def roomFor (setting : Option String) : Except HostFault Nat :=
  match depthLimit setting with
  | .error f => .error f
  | .ok none => .ok defaultRoom
  | .ok (some n) => if n ≤ maxDepth then .ok (n - framesOutside) else .error .limitTooGreat

/-- A command that ends without a run. -/
def stop (stdout stderr : String) (code : Nat) : Finish :=
  { stdout := stdout, stderr := stderr, ending := .exit code }

/-- A command that a fault of its surroundings ends. -/
def crash (f : HostFault) : Finish := { ending := .crash (.host f) }

/-- What can be said before the file is read: the end of the command, or its job. -/
def prepare (setup : Setup) : Except Finish Job :=
  match Args.parse setup.arguments with
  | .error f => .error (stop "" (usage ++ ownLine ("error: " ++ f.message)) 2)
  | .ok .help => .error (stop helpText "" 0)
  | .ok (.run file results verbose) =>
    match roomFor setup.depth with
    | .error f => .error (crash f)
    | .ok room =>
      if file.toList.contains '\x00' then .error (crash .nullInName)
      else
        .ok { file := file
              results := results
              traced := verbose || (Level.ofSetting setup.level).traces
              room := room }

/-- The line about a fault of the program, if the command is the one to report it. -/
def faultLine? (f : Fault) : Option String :=
  if f.kind = .hostDepth then
    some (ownLine "program nested too deeply, raise MLSP_RECURSION_LIMIT")
  else if f.kind.ofLanguage then some (ownLine (f.kind.label ++ ": " ++ f.message))
  else none

namespace Job

/-- The trace of the events as text, one line each. -/
def traceText (job : Job) (events : List Event) : String :=
  if job.traced then String.join ((Event.trace events).map (· ++ "\n")) else ""

/-- The values of the expressions, one after the other, are printed if they are asked for. -/
def printResults (job : Job) (vs : List Value) : Run (List Unit) :=
  .collect ((if job.results then vs else []).map .print)

/-- The end of a job whose run ended like this. The command reports a fault of the run. The results
are printed when the run is over: a fault in that is nobody's to report, and what was printed before
it stays. -/
def ofOutcome (job : Job) : Outcome (List Value) → Option Finish
  | .done vs s =>
    match job.printResults vs (some job.room) s with
    | .done _ t => some (stop (Event.outputText t.events) (job.traceText s.events) 0)
    | .failed f t =>
      some { stdout := Event.outputText t.events
             stderr := job.traceText s.events
             ending := .crash f }
    | .exhausted => none
  | .failed f s =>
    let out := Event.outputText s.events
    let err := job.traceText s.events
    match faultLine? f with
    | some line => some (stop out (err ++ line) 1)
    | none => some { stdout := out, stderr := err, ending := .crash f }
  | .exhausted => none

/-- The job done on the content of its file. -/
def finish (fuel : Nat) (job : Job) (content : Except FileFault (List UInt8)) : Option Finish :=
  match content.bind sourceText with
  | .error f =>
    some (stop "" (ownLine ("cannot read " ++ job.file ++ ": " ++ f.message job.file)) 1)
  | .ok text => job.ofOutcome (evalText fuel text (some job.room) {})

end Job

/-- The whole command, over a way to read files. -/
def run (fuel : Nat) (setup : Setup) (read : String → Except FileFault (List UInt8)) :
    Option Finish :=
  match prepare setup with
  | .error finish => some finish
  | .ok job => job.finish fuel (read job.file)

end Command

end PocketLisp
