import PocketLisp.Value
import PocketLisp.Text.Quoted

/-!
# The written forms of a value

* `Value.debug`: the form that programs print. Every kind of value shows its name, and a symbol's
  name stands between double quotes with nothing escaped.
* `Value.shown`: the form inside messages. Integers are bare, symbols and foreign texts are quoted.
* `Value.plain`: the form of a name: like `shown`, but a symbol or a foreign text at the root is
  written bare.

Integers of the language have ten digits at most. An integer from outside may have any number of
them, and is written here in full: the limit that the host sets to the digits of a conversion is not
part of these forms.
-/

namespace PocketLisp

def truthText (b : Bool) : String := if b then "True" else "False"

/-- A marker as it is written. -/
def Paren.text : Paren → String
  | .opening => "Open"
  | .closing => "Close"

/-- A foreign object inside a message. -/
def Foreign.shown : Foreign → String
  | .text s => Text.quoted s
  | .truth b => truthText b
  | .float n => toString n ++ ".0"
  | .nothing => "None"

namespace Value

/-- The items of a list, separated by a comma and a space. -/
def joined (items : List String) : String := ", ".intercalate items

mutual

/-- The form that programs print. A foreign object has no such form of its own and is written as in
messages; a value with one in it is never printed. -/
def debug : Value → String
  | .int n => "Int(" ++ toString n ++ ")"
  | .symbol name => "Symbol(\"" ++ name ++ "\")"
  | .list items => "List([" ++ joined (debugItems items) ++ "])"
  | .bool b => truthText b
  | .marker p => p.text
  | .foreign x => x.shown

def debugItems : List Value → List String
  | [] => []
  | v :: vs => debug v :: debugItems vs

end

mutual

/-- The form inside messages. -/
def shown : Value → String
  | .int n => toString n
  | .symbol name => "Symbol(" ++ Text.quoted name ++ ")"
  | .list items => "[" ++ joined (shownItems items) ++ "]"
  | .bool b => truthText b
  | .marker p => p.text
  | .foreign x => x.shown

def shownItems : List Value → List String
  | [] => []
  | v :: vs => shown v :: shownItems vs

end

/-- The form of a value used as a name. -/
def plain : Value → String
  | .symbol name => name
  | .foreign (.text s) => s
  | v => v.shown

theorem debugItems_eq_map (items : List Value) : debugItems items = items.map debug := by
  induction items with
  | nil => rfl
  | cons v vs ih => simp [debugItems, ih]

theorem shownItems_eq_map (items : List Value) : shownItems items = items.map shown := by
  induction items with
  | nil => rfl
  | cons v vs ih => simp [shownItems, ih]

@[simp] theorem debug_list (items : List Value) :
    debug (.list items) = "List([" ++ joined (items.map debug) ++ "])" := by
  rw [debug, debugItems_eq_map]

@[simp] theorem shown_list (items : List Value) :
    shown (.list items) = "[" ++ joined (items.map shown) ++ "]" := by
  rw [shown, shownItems_eq_map]

end Value

end PocketLisp
