/-!
# Values

The data of the language. Programs and results are the same kind of tree: a program is a list of
values, and evaluating one gives another.

* `Value`: integers, symbols, lists and the two truth values; a parenthesis marker, which only a
  token stream holds; and a foreign object, which only an embedding program can hand in.
* `Value.induct`: induction on values, with the hypothesis for every item of a list.
* `Value.same`: the equality that programs observe. It compares structure, and reads a foreign
  number as an integer (`Foreign.number?`).
* `Value.comparison`: how deep a comparison goes.
* `Value.depth`, `Value.foreign?`: the nesting of lists, and the first foreign object in a tree.
* `Value.copy`: what a binding keeps of a value.

Foreign objects are texts, truth values, floating-point numbers without a fraction and the foreign
nothing, and no others. Values have no identity: two of them are never parts of one object.
-/

namespace PocketLisp

/-- One of the two parentheses. -/
inductive Paren where
  | opening
  | closing
  deriving DecidableEq

/-- An object of the embedding program that is no value of the language. -/
inductive Foreign where
  | text (s : String)
  | truth (b : Bool)
  /-- A floating-point number without a fraction. -/
  | float (n : Int)
  | nothing
  deriving DecidableEq

namespace Foreign

/-- The integer that a foreign object equals. The foreign truth values are numbers, too. -/
def number? : Foreign → Option Int
  | .truth b => some (if b then 1 else 0)
  | .float n => some n
  | .text _ | .nothing => none

/-- The equality of two foreign objects: numbers by what they are worth, and others by identity. -/
def same (x y : Foreign) : Bool :=
  match x.number?, y.number? with
  | some m, some n => m == n
  | _, _ => x == y

end Foreign

/-- A value: what programs are made of and what they compute. -/
inductive Value where
  | int (n : Int)
  | symbol (name : String)
  | list (items : List Value)
  | bool (b : Bool)
  | marker (p : Paren)
  | foreign (x : Foreign)
  deriving Inhabited

namespace Value

/-- Induction on values. For a list, the property may be assumed of every item. -/
@[elab_as_elim, induction_eliminator]
theorem induct {motive : Value → Prop}
    (int : ∀ n, motive (.int n))
    (symbol : ∀ name, motive (.symbol name))
    (list : ∀ items, (∀ v ∈ items, motive v) → motive (.list items))
    (bool : ∀ b, motive (.bool b))
    (marker : ∀ p, motive (.marker p))
    (foreign : ∀ x, motive (.foreign x))
    (v : Value) : motive v :=
  @Value.rec motive (fun items => ∀ v ∈ items, motive v)
    int symbol list bool marker foreign
    (by simp)
    (fun _ _ hv hvs => by
      intro w hw
      rcases List.mem_cons.1 hw with rfl | h
      · exact hv
      · exact hvs w h)
    v

/-! ## Equality -/

mutual

/-- The equality of two values as programs observe it. -/
def same : Value → Value → Bool
  | .int m, .int n => m == n
  | .int n, .foreign x | .foreign x, .int n => x.number? == some n
  | .symbol x, .symbol y => x == y
  | .list vs, .list ws => sameItems vs ws
  | .bool a, .bool b => a == b
  | .marker p, .marker q => p == q
  | .foreign x, .foreign y => x.same y
  | _, _ => false

/-- Two lists of values are equal item by item. -/
def sameItems : List Value → List Value → Bool
  | [], [] => true
  | v :: vs, w :: ws => same v w && sameItems vs ws
  | _, _ => false

end

mutual

/-- How deep the comparison of two values goes: one level for every list that is entered. Lists of
different lengths are not entered, and of others the items are compared up to the first two that
differ. -/
def comparison : Value → Value → Nat
  | .list vs, .list ws => if vs.length = ws.length then comparisonItems vs ws + 1 else 1
  | _, _ => 1

/-- The greatest depth of the comparisons that are made among the items. -/
def comparisonItems : List Value → List Value → Nat
  | v :: vs, w :: ws =>
    if same v w then max (comparison v w) (comparisonItems vs ws) else comparison v w
  | _, _ => 0

end

/-! ## Measures and parts -/

mutual

/-- How deep lists are nested in a value: an atom has depth zero, the empty list one. -/
def depth : Value → Nat
  | .list items => depthItems items + 1
  | _ => 0

def depthItems : List Value → Nat
  | [] => 0
  | v :: vs => max (depth v) (depthItems vs)

end

mutual

/-- The first foreign object of a tree, from left to right. -/
def foreign? : Value → Option Foreign
  | .foreign x => some x
  | .list items => foreignItem? items
  | _ => none

def foreignItem? : List Value → Option Foreign
  | [] => none
  | v :: vs => (foreign? v).orElse fun _ => foreignItem? vs

end

/-- The truth of a value to the embedding program: false, zero, the empty list, the empty foreign
text and the foreign nothing are false, and all else is true. -/
def truthy : Value → Bool
  | .int n => n != 0
  | .list items => !items.isEmpty
  | .bool b => b
  | .foreign (.text s) => s != ""
  | .foreign (.truth b) => b
  | .foreign (.float n) => n != 0
  | .foreign .nothing => false
  | .symbol _ | .marker _ => true

/-- The value is an integer, of whatever size. -/
def isInt : Value → Bool
  | .int _ => true
  | _ => false

def isList : Value → Bool
  | .list _ => true
  | _ => false

/-- The name of a symbol, which is all that it is hashed by. -/
def name? : Value → Option String
  | .symbol name => some name
  | _ => none

mutual

/-- The copy that a binding keeps: a list is built anew from copies of its items, and anything else
is kept as it is. -/
def copy : Value → Value
  | .list items => .list (copyItems items)
  | v => v

def copyItems : List Value → List Value
  | [] => []
  | v :: vs => copy v :: copyItems vs

end

/-- The copy of a value is the object that was copied. -/
def copiedAsIs (v : Value) : Bool := !v.isList

/-- A list with `item` added at its end. What is no list has no end and stays as it is. -/
def push : Value → Value → Value
  | .list items, item => .list (items ++ [item])
  | v, _ => v

/-! ## Integers of the language -/

/-- The least integer of the language. -/
def minInt : Int := -2147483648

/-- The greatest integer of the language. -/
def maxInt : Int := 2147483647

/-- `n` fits into thirty-two bits, sign included. -/
def inRange (n : Int) : Bool := decide (minInt ≤ n) && decide (n ≤ maxInt)

theorem inRange_iff {n : Int} : inRange n = true ↔ minInt ≤ n ∧ n ≤ maxInt := by
  simp [inRange]

/-- A copy cannot be told from the value, so runs keep the value itself. -/
theorem copy_eq (v : Value) : v.copy = v := by
  induction v with
  | list items ih =>
    have hitems : copyItems items = items := by
      induction items with
      | nil => rfl
      | cons v vs ihs =>
        rw [copyItems, ih v List.mem_cons_self, ihs fun w hw => ih w (List.mem_cons_of_mem v hw)]
    rw [copy, hitems]
  | _ => rfl

@[simp] theorem foreign?_list (items : List Value) :
    foreign? (.list items) = foreignItem? items := by
  simp [foreign?]

theorem foreignItem?_eq_none {items : List Value} :
    foreignItem? items = none ↔ ∀ v ∈ items, foreign? v = none := by
  induction items with
  | nil => simp [foreignItem?]
  | cons v vs ih => cases h : foreign? v <;> simp [foreignItem?, h, ih]

end Value

end PocketLisp
