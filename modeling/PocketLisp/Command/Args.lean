import PocketLisp.Text.Quoted

/-!
# Arguments of the command line

The command takes one file and three flags, in any order. A long flag may be cut short as long as it
stays unambiguous, short flags may share one dash, and `--` ends the flags. No flag takes a value:
what is given to a short flag as its value is read as further letters behind the dash.

* `Word.ofArgument`: what one argument is by itself.
* `cluster`: the flags that share one dash. All letters have to be flags.
* `Args.parse`: what all arguments ask for. Faults are found in this order: an ambiguous flag
  anywhere; then, from left to right, a flag that is given a value it does not take, where the flag
  for help ends the matter; then a missing file; then arguments that mean nothing.
-/

namespace PocketLisp.Command

/-- The flags. -/
inductive Flag where
  | help
  | results
  | verbose
  deriving DecidableEq

namespace Flag

/-- All spellings of the flags. -/
def options : List (String × Flag) :=
  [("-h", .help), ("--help", .help), ("--results", .results), ("-v", .verbose),
   ("--verbose", .verbose)]

/-- A flag by all its spellings. -/
def title : Flag → String
  | .help => "-h/--help"
  | .results => "--results"
  | .verbose => "-v/--verbose"

/-- The flag of one letter. -/
def ofLetter? (c : Char) : Option Flag := options.lookup (String.ofList ['-', c])

end Flag

/-- Why arguments are refused. -/
inductive ArgFault where
  /-- A flag cut too short. -/
  | ambiguous (argument : String) (candidates : List String)
  /-- A value for a flag, which takes none. -/
  | ignored (flag : Flag) (value : String)
  /-- No file is given. -/
  | missingFile
  /-- Arguments that mean nothing. -/
  | unrecognized (arguments : List String)
  deriving DecidableEq

/-- The wording of a refusal. -/
def ArgFault.message : ArgFault → String
  | .ambiguous argument candidates =>
      "ambiguous option: " ++ argument ++ " could match " ++ ", ".intercalate candidates
  | .ignored flag value =>
      "argument " ++ flag.title ++ ": ignored explicit argument " ++ Text.quoted value
  | .missingFile => "the following arguments are required: file"
  | .unrecognized arguments => "unrecognized arguments: " ++ " ".intercalate arguments

/-- What one argument is. -/
inductive Word where
  /-- A file, or an argument too many. -/
  | plain (argument : String)
  /-- A flag, with the letters that share its dash. -/
  | flags (first : Flag) (letters : List Char)
  /-- A flag that is given a value that cannot be letters. -/
  | valued (flag : Flag) (value : String)
  /-- Looks like a flag and is none. -/
  | unknown (argument : String)
  deriving DecidableEq

/-- The text before the first `=`, and the text behind it if there is one. -/
def splitAtEquals (cs : List Char) : List Char × Option (List Char) :=
  match cs.dropWhile (· != '=') with
  | [] => (cs, none)
  | _ :: value => (cs.takeWhile (· != '='), some value)

/-- `cs` is written with digits and at most one point, the last character being a digit. A newline
may follow. -/
def isNumber (cs : List Char) : Bool :=
  let body := if cs.getLast? = some '\n' then cs.dropLast else cs
  match body.dropWhile Text.isDecimalDigit with
  | [] => !body.isEmpty
  | '.' :: fraction => !fraction.isEmpty && fraction.all Text.isDecimalDigit
  | _ => false

namespace Word

/-- A long flag, with its value if it is given one. -/
def ofLongFlag (flag : Flag) : Option (List Char) → Word
  | none => .flags flag []
  | some value => .valued flag (String.ofList value)

/-- A short flag, with its value if it is given one: a value that is not empty goes on with the
letters. -/
def ofShortFlag (flag : Flag) : Option (List Char) → Word
  | none => .flags flag []
  | some [] => .valued flag ""
  | some value => .flags flag value

/-- The flag spelled in full by `name`, with its value if it is given one. -/
def ofFlag (name : List Char) (flag : Flag) : Option (List Char) → Word :=
  if ['-', '-'].isPrefixOf name then ofLongFlag flag else ofShortFlag flag

/-- What an argument is that begins with a dash, goes on, and spells no flag. A negative number and
a text with a space are plain. -/
def ofOther (argument : String) (behindDash : List Char) : Word :=
  if isNumber behindDash || behindDash.contains ' ' then .plain argument
  else .unknown argument

/-- What an argument is that begins with two dashes: a flag if its name is the beginning of exactly
one. -/
def ofLong (argument : String) (behindDash : List Char) : Except ArgFault Word :=
  let (name, value?) := splitAtEquals argument.toList
  match Flag.options.filter fun o => name.isPrefixOf o.1.toList with
  | [] => .ok (ofOther argument behindDash)
  | [(_, flag)] => .ok (ofLongFlag flag value?)
  | candidates => .error (.ambiguous argument (candidates.map (·.1)))

/-- What an argument is that begins with one dash and the letter `c`. -/
def ofShort (argument : String) (c : Char) (letters : List Char) : Word :=
  match Flag.ofLetter? c with
  | some flag => .flags flag letters
  | none => ofOther argument (c :: letters)

/-- What an argument is. -/
def ofArgument (argument : String) : Except ArgFault Word :=
  let (name, value?) := splitAtEquals argument.toList
  match Flag.options.lookup (String.ofList name) with
  | some flag => .ok (ofFlag name flag value?)
  | none =>
    match argument.toList with
    | '-' :: '-' :: cs => ofLong argument ('-' :: cs)
    | '-' :: c :: cs => .ok (ofShort argument c cs)
    | _ => .ok (.plain argument)

end Word

/-- The flags that share one dash: `flag`, and those of the letters behind it. Letters from the
first that is no flag on are a value for the flag before them. -/
def cluster (flag : Flag) : List Char → Except ArgFault (List Flag)
  | [] => .ok [flag]
  | c :: cs =>
    match Flag.ofLetter? c with
    | none => .error (.ignored flag (String.ofList (c :: cs)))
    | some next => (cluster next cs).map (flag :: ·)

/-- What the arguments ask for. -/
inductive Request where
  /-- The help text. -/
  | help
  /-- The run of a file. -/
  | run (file : String) (results verbose : Bool)
  deriving DecidableEq

/-- The arguments read so far. -/
structure Args where
  file? : Option String := none
  results : Bool := false
  verbose : Bool := false
  /-- Arguments that mean nothing, in order. -/
  extras : List String := []
  /-- The last argument was taken for the file. -/
  fileLast : Bool := false

namespace Args

/-- The file, if there is none yet. -/
def plain (args : Args) (argument : String) : Args :=
  match args.file? with
  | none => { args with file? := some argument, fileLast := true }
  | some _ => { args with extras := args.extras ++ [argument], fileLast := false }

/-- One more flag; `none` if it asks for help. -/
def flag? (args : Args) : Flag → Option Args
  | .help => none
  | .results => some { args with results := true, fileLast := false }
  | .verbose => some { args with verbose := true, fileLast := false }

/-- More flags; `none` if one of them asks for help. -/
def flags? (args : Args) (flags : List Flag) : Option Args := flags.foldlM flag? args

/-- One more word; `none` if it asks for help. -/
def word (args : Args) : Word → Except ArgFault (Option Args)
  | .plain argument => .ok (some (args.plain argument))
  | .unknown argument =>
    .ok (some { args with extras := args.extras ++ [argument], fileLast := false })
  | .valued flag value => .error (.ignored flag value)
  | .flags first letters => (cluster first letters).map args.flags?

/-- All words; `none` if one of them asks for help. -/
def words (args : Args) : List Word → Except ArgFault (Option Args)
  | [] => .ok (some args)
  | w :: ws =>
    match args.word w with
    | .error f => .error f
    | .ok none => .ok none
    | .ok (some args) => args.words ws

/-- What follows the end of the flags. The end mark itself is dropped beside the file, and means
nothing anywhere else. -/
def rest (args : Args) : Option (List String) → Args
  | none => args
  | some arguments =>
    match args.file?, arguments with
    | none, file :: arguments =>
      { args with file? := some file, extras := args.extras ++ arguments }
    | _, arguments =>
      if args.fileLast then { args with extras := args.extras ++ arguments }
      else { args with extras := args.extras ++ "--" :: arguments }

/-- The request, if there is a file and nothing too many. -/
def request (args : Args) : Except ArgFault Request :=
  match args.file? with
  | none => .error .missingFile
  | some file =>
    if args.extras.isEmpty then .ok (.run file args.results args.verbose)
    else .error (.unrecognized args.extras)

/-- The arguments before the end of the flags, and those behind it. -/
def splitAtEnd (arguments : List String) : List String × Option (List String) :=
  match arguments.dropWhile (· != "--") with
  | [] => (arguments, none)
  | _ :: behind => (arguments.takeWhile (· != "--"), some behind)

/-- What the arguments ask for. -/
def parse (arguments : List String) : Except ArgFault Request := do
  let (front, behind?) := splitAtEnd arguments
  let ws ← front.mapM Word.ofArgument
  match ← ({} : Args).words ws with
  | none => return .help
  | some args => (args.rest behind?).request

end Args

end PocketLisp.Command
