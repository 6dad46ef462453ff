/-!
# Kinds of faults

Every fault has a kind, and kinds form a tree: whoever handles a kind handles all kinds below it.
The kinds of the language hang below `general`. The four host kinds are faults of the program that
embeds the language; they stand outside that tree.

* `Kind.parent?`: the next more general kind.
* `Kind.lineage`: a kind and all more general ones, nearest first.
* `Kind.label`: the name under which a kind is reported.
-/

namespace PocketLisp

/-- The kind of a fault. -/
inductive Kind where
  /-- Any fault of the language. -/
  | general
  /-- A text that is no program. -/
  | reading
  /-- A text that cannot be divided into tokens. -/
  | lexical
  /-- Tokens with unbalanced parentheses. -/
  | parsing
  /-- A tree that has no value. -/
  | structural
  /-- A form without its operands. -/
  | arity
  /-- An operator applied to values it is not defined on. -/
  | typing
  /-- An integer that does not fit. -/
  | overflow
  /-- Something else where a symbol is needed. -/
  | invalidSymbol
  /-- A name that stands for nothing. -/
  | unboundSymbol
  /-- An object of the host that is not of the type needed. -/
  | hostType
  /-- A text that the host cannot convert. -/
  | hostValue
  /-- A number that the host cannot hold. -/
  | hostRange
  /-- A computation deeper than the host allows. -/
  | hostDepth
  deriving DecidableEq

namespace Kind

/-- The next more general kind. -/
def parent? : Kind → Option Kind
  | .general => none
  | .reading => some .general
  | .lexical => some .reading
  | .parsing => some .reading
  | .structural => some .general
  | .arity => some .general
  | .typing => some .general
  | .overflow => some .typing
  | .invalidSymbol => some .general
  | .unboundSymbol => some .general
  | .hostType | .hostValue | .hostRange | .hostDepth => none

/-- The name under which a kind is reported. -/
def label : Kind → String
  | .general => "MlspError"
  | .reading => "MlspSyntaxError"
  | .lexical => "MlspLexError"
  | .parsing => "MlspParseError"
  | .structural => "MlspStructureError"
  | .arity => "MlspArityError"
  | .typing => "MlspTypeError"
  | .overflow => "MlspOverflowError"
  | .invalidSymbol => "MlspInvalidSymbol"
  | .unboundSymbol => "MlspUnboundSymbol"
  | .hostType => "TypeError"
  | .hostValue => "ValueError"
  | .hostRange => "OverflowError"
  | .hostDepth => "RecursionError"

def all : List Kind :=
  [.general, .reading, .lexical, .parsing, .structural, .arity, .typing, .overflow,
   .invalidSymbol, .unboundSymbol, .hostType, .hostValue, .hostRange, .hostDepth]

/-- The kind that is reported as `label`. -/
def ofLabel? (label : String) : Option Kind := all.find? fun k => k.label == label

@[simp] theorem ofLabel?_label (k : Kind) : ofLabel? k.label = some k := by
  cases k <;> decide

/-- The number of kinds above a kind. -/
def rank : Kind → Nat
  | .general => 0
  | .hostType | .hostValue | .hostRange | .hostDepth => 0
  | .lexical | .parsing | .overflow => 2
  | .reading | .structural | .arity | .typing | .invalidSymbol | .unboundSymbol => 1

theorem rank_parent {k p : Kind} (h : k.parent? = some p) : p.rank < k.rank := by
  cases k <;> simp [parent?] at h <;> subst h <;> decide

/-- A kind and all more general ones, nearest first. -/
def lineage (k : Kind) : List Kind :=
  match _h : k.parent? with
  | none => [k]
  | some p => k :: lineage p
termination_by k.rank
decreasing_by exact rank_parent _h

/-- The label of what every fault is, whatever its kind. -/
def rootLabel : String := "Exception"

/-- The labels of a kind and of all that is more general. -/
def bases (k : Kind) : List String := k.lineage.map label ++ [rootLabel]

/-- A fault of this kind belongs to the language: the command line reports it as such. -/
def ofLanguage (k : Kind) : Bool := k.lineage.contains .general

end Kind

end PocketLisp
