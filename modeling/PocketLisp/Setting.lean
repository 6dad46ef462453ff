import PocketLisp.Fault
import PocketLisp.Text.Classes

/-!
# Settings

Two environment variables set up a run: the level of logging and the depth of recursion.

* `Level.ofSetting`: the level, read without regard to case and surrounding white space. A text that
  names no level means the default.
* `depthLimit`: the depth, at least `minDepth`. A text that is not all digits, or a smaller number,
  sets nothing. Digits may be of any script; a digit outside every decimal system passes for a digit
  and then fails to convert.
-/

namespace PocketLisp

/-- The name of the variable with the level of logging. -/
def levelVariable : String := "MLSP_LOG_LEVEL"

/-- The name of the variable with the depth of recursion. -/
def depthVariable : String := "MLSP_RECURSION_LIMIT"

/-- How much is logged. -/
inductive Level where
  | critical
  | error
  | warning
  | info
  | debug
  | unset
  deriving DecidableEq

namespace Level

/-- The number of a level; the higher, the less is logged. -/
def number : Level → Nat
  | .critical => 50
  | .error => 40
  | .warning => 30
  | .info => 20
  | .debug => 10
  | .unset => 0

/-- The levels by name. -/
def names : List (String × Level) :=
  [("CRITICAL", .critical), ("FATAL", .critical), ("ERROR", .error), ("WARNING", .warning),
   ("WARN", .warning), ("INFO", .info), ("DEBUG", .debug), ("NOTSET", .unset)]

/-- The level without a setting. -/
def default : Level := .warning

/-- The upper-case form of a character, as far as it is a letter of ASCII: two further letters have
one, the dotless i and the long s. Any other character stays, and stands in no name of a level. -/
def upper (c : Char) : Char :=
  if c = 'ı' then 'I' else if c = 'ſ' then 'S' else c.toUpper

/-- The level that a setting names. -/
def ofSetting : Option String → Level
  | none => default
  | some raw =>
    let name := String.ofList ((Text.strip raw.toList).map upper)
    (names.lookup name).getD default

/-- Traces are written at the level of debugging only. -/
def traces (level : Level) : Bool := level == .debug

end Level

/-- A blank that may surround a numeral. The four information separators are white space elsewhere
and are none here. -/
def isNumeralBlank (c : Char) : Bool :=
  Text.isSpace c && !(decide (0x1C ≤ c.toNat) && decide (c.toNat ≤ 0x1F))

/-- The number written by the decimal digits `ds` of any scripts. -/
def numeralValue (ds : List Char) : Nat := Text.natOfDigits (ds.filterMap Text.decimalDigit?)

/-- The number that `raw` writes: decimal digits with blanks around them. -/
def readNumeral (raw : String) : Except HostFault Nat :=
  let cs := raw.toList.dropWhile isNumeralBlank
  let ds := cs.takeWhile Text.isDecimalDigit
  let rest := cs.dropWhile Text.isDecimalDigit
  if maxDigits < ds.length then .error (.tooManyDigits ds.length)
  else if ds.isEmpty || !rest.all isNumeralBlank then .error (.badNumeral raw)
  else .ok (numeralValue ds)

/-- `cs` is not empty and all digits. -/
def allDigits (cs : List Char) : Bool := !cs.isEmpty && cs.all Text.isAnyDigit

/-- The least depth that can be set. -/
def minDepth : Nat := 1000

/-- The depth that a setting asks for. -/
def depthLimit : Option String → Except HostFault (Option Nat)
  | none => .ok none
  | some raw =>
    if allDigits (Text.strip raw.toList) then
      match readNumeral raw with
      | .error f => .error f
      | .ok n => .ok (if minDepth ≤ n then some n else none)
    else .ok none

end PocketLisp
