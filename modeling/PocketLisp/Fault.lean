import PocketLisp.Fault.Kind
import PocketLisp.Keyword
import PocketLisp.Value.Printer

/-!
# Faults

Everything that can go wrong, by cause. A cause carries the data it is about; its kind and its
wording are functions of it.

* `LexFault`, `ParseFault`: why a text is no program.
* `EvalFault`: why an expression has no value.
* `NameFault`: why a value cannot name a variable.
* `HostFault`: what the surroundings of a program refuse.
* `Fault`: all of these, with `Fault.kind`, `Fault.message` and, for a lexical fault,
  `Fault.place?`.
* `Value.printed`: the printed form of a value, where it has one.
* `Report`: what is told about a fault.

Wordings and printed forms show integers of any size in full. The host would not convert more than
`maxDigits` digits of an integer that was handed in from outside; the language has no such integers.
-/

namespace PocketLisp

/-- Why no token can be taken off a text. Places are a line, counted from one, and an offset into
the text, counted from zero. -/
inductive LexFault where
  /-- No token starts with the next character. -/
  | unrecognized (line pos : Nat)
  /-- An integer literal outside the range of integers. -/
  | outOfRange (spelling : String) (line pos : Nat)
  /-- An integer literal with more digits than are converted. -/
  | tooManyDigits (count : Nat)
  deriving DecidableEq

/-- Why tokens are no sequence of expressions. -/
inductive ParseFault where
  /-- A closing parenthesis with no list to close. -/
  | surplusClose
  /-- `count` lists that are never closed. -/
  | leftOpen (count : Nat)
  /-- Something among the tokens that can be no part of a program. -/
  | stray (v : Value)

/-- Why an expression has no value. -/
inductive EvalFault where
  /-- A parenthesis marker inside a tree. -/
  | marker (p : Paren)
  /-- The empty list. -/
  | emptyList
  /-- A list whose head is no symbol. -/
  | badHead (head : Value)
  /-- A form with too few operands. -/
  | formOperands (f : Form)
  /-- An operator with too few operands. -/
  | operatorOperands (o : Operator)
  /-- An operator on values that it is not defined on. -/
  | mismatch (o : Operator)
  /-- An arithmetic result that is no integer of the language. -/
  | overflow (o : Operator) (lhs rhs : Int)
  /-- An assignment to something that is no symbol. -/
  | badTarget (target : Value)
  /-- A head that is neither reserved nor bound. -/
  | unbound (name : String)
  /-- A foreign object in a value to be printed. -/
  | unprintable (x : Foreign)
  /-- Evaluation nested deeper than allowed. -/
  | tooDeep

/-- Why a value cannot name a variable. -/
inductive NameFault where
  /-- A binding needs a symbol. -/
  | notSymbol (v : Value)
  /-- A list can be no key. -/
  | unhashable
  /-- A name without a binding. -/
  | unbound (v : Value)

/-- What the surroundings of a program refuse. -/
inductive HostFault where
  /-- A setting that is made of digits and is no numeral. -/
  | badNumeral (raw : String)
  /-- A setting with more digits than are converted. -/
  | tooManyDigits (count : Nat)
  /-- A depth that is too great to be set. -/
  | limitTooGreat
  /-- A file name with a null character. -/
  | nullInName
  /-- A comparison of two values that goes deeper than allowed. -/
  | comparisonTooDeep
  deriving DecidableEq

/-- Anything that can go wrong. -/
inductive Fault where
  | lex (f : LexFault)
  | parse (f : ParseFault)
  | eval (f : EvalFault)
  | name (f : NameFault)
  | host (f : HostFault)

/-- The greatest number of digits that are converted to a number. -/
def maxDigits : Nat := 4300

/-- The refusal to convert a numeral of `count` digits. -/
def tooManyDigitsText (count : Nat) : String :=
  "Exceeds the limit (" ++ toString maxDigits
    ++ " digits) for integer string conversion: value has " ++ toString count
    ++ " digits; use sys.set_int_max_str_digits() to increase the limit"

/-- A message about a place in a text. -/
def placedText (message : String) (line pos : Int) : String :=
  message ++ " at line " ++ toString line ++ " position " ++ toString pos

namespace LexFault

def kind : LexFault → Kind
  | .unrecognized .. | .outOfRange .. => .lexical
  | .tooManyDigits _ => .hostValue

/-- Line and offset of the text at fault. -/
def place? : LexFault → Option (Nat × Nat)
  | .unrecognized line pos | .outOfRange _ line pos => some (line, pos)
  | .tooManyDigits _ => none

def message : LexFault → String
  | .unrecognized line pos => placedText "unrecognized symbol" line pos
  | .outOfRange spelling line pos =>
      placedText ("integer literal " ++ spelling ++ " out of range") line pos
  | .tooManyDigits count => tooManyDigitsText count

end LexFault

def ParseFault.message : ParseFault → String
  | .surplusClose => "unmatched parenthesis: extra ')'"
  | .leftOpen count => "unmatched parenthesis: " ++ toString count ++ " '(' left open"
  | .stray v => "unrecognized token in parsing: " ++ v.shown

/-- What a form says when operands are missing. A sequence needs none, so it never says anything. -/
def Form.arityText : Form → String
  | .conditional => "if requires a condition, a then-expression and an else-expression"
  | .loop => "while requires a condition and a body"
  | .sequence => ""
  | .assign => "set requires 2 arguments: (set var value)"
  | .print => "print requires 1 argument"

/-- What an operator says about values that it is not defined on. -/
def Operator.mismatchText : Operator → String
  | .add => "you can add only integers"
  | .subtract => "you can subtract only integers"
  | .multiply => "you can multiply only integers"
  | .greater | .less | .equal => "comparison works only for numbers and symbols"

/-- What is said about a name without a binding. -/
def unboundText (name : String) : String := "unknown symbol: " ++ name

namespace EvalFault

def kind : EvalFault → Kind
  | .marker _ | .emptyList | .badHead _ => .structural
  | .formOperands _ | .operatorOperands _ => .arity
  | .mismatch _ => .typing
  | .overflow .. => .overflow
  | .badTarget _ => .invalidSymbol
  | .unbound _ => .unboundSymbol
  | .unprintable _ => .hostType
  | .tooDeep => .hostDepth

def message : EvalFault → String
  | .marker p => p.text ++ " token in the tree makes no sense"
  | .emptyList => "can't evaluate an empty list"
  | .badHead head =>
      "can't evaluate list, first item needs to be a symbol, got " ++ head.shown
  | .formOperands f => f.arityText
  | .operatorOperands o => o.name ++ " requires 2 arguments"
  | .mismatch o => o.mismatchText
  | .overflow o lhs rhs =>
      "integer overflow in (" ++ o.name ++ " " ++ toString lhs ++ " " ++ toString rhs ++ ")"
  | .badTarget target => "set first argument must be a Symbol, got " ++ target.shown
  | .unbound name => unboundText name
  | .unprintable x => "not an mlsp value: " ++ x.shown
  | .tooDeep => "maximum recursion depth exceeded"

end EvalFault

/-- The printed form of a value, or the foreign object in it that has none. -/
def Value.printed (v : Value) : Except EvalFault String :=
  match v.foreign? with
  | none => .ok v.debug
  | some x => .error (.unprintable x)

namespace NameFault

def kind : NameFault → Kind
  | .notSymbol _ => .invalidSymbol
  | .unhashable => .hostType
  | .unbound _ => .unboundSymbol

def message : NameFault → String
  | .notSymbol v => "Cannot bind " ++ v.shown ++ ", a Symbol is required"
  | .unhashable => "unhashable type: 'list'"
  | .unbound v => unboundText v.plain

end NameFault

namespace HostFault

def kind : HostFault → Kind
  | .badNumeral _ | .tooManyDigits _ | .nullInName => .hostValue
  | .limitTooGreat => .hostRange
  | .comparisonTooDeep => .hostDepth

/-- The wording of a fault of the surroundings. A long text is shown by its first two hundred
characters, the quote included. -/
def message : HostFault → String
  | .badNumeral raw =>
      "invalid literal for int() with base 10: "
        ++ String.ofList ((Text.quoted raw).toList.take 200)
  | .tooManyDigits count => tooManyDigitsText count
  | .limitTooGreat => "Python int too large to convert to C int"
  | .nullInName => "embedded null byte"
  | .comparisonTooDeep => "maximum recursion depth exceeded in comparison"

end HostFault

namespace Fault

def kind : Fault → Kind
  | .lex f => f.kind
  | .parse _ => .parsing
  | .eval f => f.kind
  | .name f => f.kind
  | .host f => f.kind

def message : Fault → String
  | .lex f => f.message
  | .parse f => f.message
  | .eval f => f.message
  | .name f => f.message
  | .host f => f.message

/-- Line and offset, where a fault has them. -/
def place? : Fault → Option (Nat × Nat)
  | .lex f => f.place?
  | _ => none

end Fault

/-- What is told about a fault: its kind, its wording and, for a lexical one, its place. -/
structure Report where
  kind : Kind
  message : String
  place? : Option (Int × Int) := none

namespace Report

/-- The report of a fault. -/
def ofFault (f : Fault) : Report :=
  { kind := f.kind
    message := f.message
    place? := f.place?.map fun p => (p.1, p.2) }

/-- A report of kind `k` that says `message`. -/
def plain (k : Kind) (message : String) : Report := { kind := k, message := message }

/-- A lexical report about a place. The place need not be one of a text. -/
def placed (message : String) (line pos : Int) : Report :=
  { kind := .lexical, message := placedText message line pos, place? := some (line, pos) }

end Report

end PocketLisp
