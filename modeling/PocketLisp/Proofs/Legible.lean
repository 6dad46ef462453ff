import PocketLisp.Event
import PocketLisp.Proofs.RoundTrip

/-!
# Telling printed values apart

What a program prints says which values it printed. A printed form shows in its first character what
kind of value it is of, and ends where its own text says, so no printed form goes on with another
one. Only a double quote in a name, which is written as it is, could blur that.

* `Value.Legible`: values without foreign objects, with integers that are converted and with names
  that have no double quote in them.
* `Value.initial`: the first character of a printed form.
* `Value.Delimited`: the printed form in front of a text can be read off, with what follows.
  `Value.Legible.delimited` says so of every legible value.
* `Value.lines_inj`: the lines of printed values can be read off.
* `output_decodable`: two sequences of values that print the same text are the same.
-/

namespace PocketLisp

/-- A leaf whose printed form can be told apart: no foreign object, an integer that is converted, or
a name without a double quote. -/
def Value.isLegibleLeaf : Value → Bool
  | .int n => decide ((Nat.toDigits 10 n.natAbs).length ≤ maxDigits)
  | .symbol name => !name.toList.contains '"'
  | .bool _ | .marker _ => true
  | .list _ | .foreign _ => false

/-- A value whose leaves can be told apart in print. -/
def Value.Legible (v : Value) : Prop := v.Tree (·.isLegibleLeaf = true)

theorem append_separator_inj {z : Char} {a b s t : List Char} (ha : z ∉ a) (hb : z ∉ b)
    (h : a ++ z :: s = b ++ z :: t) : a = b ∧ s = t := by
  have hspan {a s : List Char} (ha : z ∉ a) : (a ++ z :: s).takeWhile (· != z) = a := by
    have hrun : ∀ c ∈ a, (c != z) = true := fun c hc => bne_iff_ne.2 fun hcz => ha (hcz ▸ hc)
    exact (Lexeme.span_run hrun (by simp)).1
  have hsame : a = b := by rw [← hspan ha, h, hspan hb]
  subst hsame
  exact ⟨rfl, (List.cons.inj (List.append_cancel_left h)).2⟩

namespace Value

theorem Legible.printed {v : Value} (h : v.Legible) : v.printed = .ok v.debug := by
  have hforeign : v.foreign? = none := by
    induction h with
    | @leaf v hleaf =>
      cases v with
      | list items => cases hleaf
      | foreign x => cases hleaf
      | _ => rfl
    | list _ ih => rw [foreign?_list, foreignItem?_eq_none]; exact ih
  rw [Value.printed, hforeign]

theorem close_notMem_toString (n : Int) : ')' ∉ (toString n).toList := by
  have hdigits : ')' ∉ Nat.toDigits 10 n.natAbs := by
    intro hmem
    have hdigit := Nat.isDigit_of_mem_toDigits (by decide) (by decide) hmem
    exact absurd hdigit (by decide)
  rw [Lexeme.toList_toString]
  split
  · simp [hdigits]
  · exact hdigits

theorem Legible.quote_notMem {name : String} (h : (Value.symbol name).Legible) :
    '"' ∉ name.toList := by
  simpa [isLegibleLeaf] using h.of_atom rfl

theorem Legible.items {items : List Value} (h : (Value.list items).Legible) :
    ∀ v ∈ items, v.Legible :=
  Tree.items (fun _ hleaf => by cases hleaf) h

/-! ## Printed forms by their characters -/

theorem toList_debug_int (n : Int) :
    (debug (.int n)).toList = "Int(".toList ++ ((toString n).toList ++ [')']) := by
  simp [debug]

theorem toList_debug_symbol (name : String) :
    (debug (.symbol name)).toList = "Symbol(\"".toList ++ (name.toList ++ ['"', ')']) := by
  simp [debug]

theorem toList_debug_list (items : List Value) :
    (debug (.list items)).toList =
      "List([".toList ++ ((joined (items.map debug)).toList ++ [']', ')']) := by
  simp

/-- The first character of the printed form of a value. A foreign object has no such form. -/
def initial : Value → Char
  | .int _ => 'I'
  | .symbol _ => 'S'
  | .list _ => 'L'
  | .bool true => 'T'
  | .bool false => 'F'
  | .marker .opening => 'O'
  | .marker .closing => 'C'
  | .foreign _ => ' '

theorem Legible.exists_debug {v : Value} (h : v.Legible) :
    ∃ cs, v.debug.toList = v.initial :: cs := by
  cases v with
  | int n => exact ⟨_, toList_debug_int n⟩
  | symbol name => exact ⟨_, toList_debug_symbol name⟩
  | list items => exact ⟨_, toList_debug_list items⟩
  | bool b => cases b <;> exact ⟨_, rfl⟩
  | marker p => cases p <;> exact ⟨_, rfl⟩
  | foreign x => cases h.of_atom rfl

theorem initial_ne (v : Value) : v.initial ≠ ']' := by
  unfold initial
  split <;> decide

theorem kind_of_initial {v w : Value} (h : v.initial = w.initial) :
    match v with
    | .int _ => ∃ m, w = .int m
    | .symbol _ => ∃ x, w = .symbol x
    | .list _ => ∃ items, w = .list items
    | .foreign _ => ∃ x, w = .foreign x
    | v => w = v := by
  rcases v with _ | _ | _ | (_ | _) | (_ | _) | _ <;>
    rcases w with _ | _ | _ | (_ | _) | (_ | _) | _ <;> simp [initial] at h ⊢

theorem initial_eq {v w : Value} (hv : v.Legible) (hw : w.Legible) {s t : List Char}
    (h : v.debug.toList ++ s = w.debug.toList ++ t) : v.initial = w.initial := by
  obtain ⟨cs, hcs⟩ := hv.exists_debug
  obtain ⟨ds, hds⟩ := hw.exists_debug
  rw [hcs, hds] at h
  exact (List.cons.inj h).1

/-- The text of the items behind the first one, each behind its separator. -/
def separated (vs : List Value) : List Char := vs.flatMap fun v => ',' :: ' ' :: v.debug.toList

theorem toList_joined_cons (v : Value) (vs : List Value) :
    (joined ((v :: vs).map debug)).toList = v.debug.toList ++ separated vs := by
  induction vs generalizing v with
  | nil => simp [joined, separated]
  | cons w ws ih =>
    rw [List.map_cons, List.map_cons, joined, String.intercalate_cons_cons, String.toList_append,
      String.toList_append, ← joined, ← List.map_cons, ih w]
    simp [separated]

/-! ## Reading a printed form off -/

/-- The printed form of `v` in front of a text says that it is `v`, and where it ends. -/
def Delimited (v : Value) : Prop :=
  ∀ (w : Value) (s t : List Char), w.Legible → v.debug.toList ++ s = w.debug.toList ++ t →
    v = w ∧ s = t

section Items

variable {vs ws : List Value} {s t : List Char}

theorem separated_append_inj (hvs : ∀ v ∈ vs, v.Delimited) (hws : ∀ w ∈ ws, w.Legible)
    (h : separated vs ++ ']' :: s = separated ws ++ ']' :: t) : vs = ws ∧ s = t := by
  induction vs generalizing ws with
  | nil =>
    cases ws with
    | nil => exact ⟨rfl, (List.cons.inj h).2⟩
    | cons w ws => simp [separated] at h
  | cons v vs ih =>
    cases ws with
    | nil => simp [separated] at h
    | cons w ws =>
      obtain ⟨hv, hvs'⟩ := List.forall_mem_cons.1 hvs
      obtain ⟨hw, hws'⟩ := List.forall_mem_cons.1 hws
      simp only [separated, List.flatMap_cons, List.cons_append, List.append_assoc, List.cons.injEq,
        true_and] at h
      obtain ⟨rfl, hrest⟩ := hv w _ _ hw h
      obtain ⟨rfl, hst⟩ := ih hvs' hws' hrest
      exact ⟨rfl, hst⟩

/-- The items of a list, up to its end, can be read off if each of them can. -/
theorem joined_append_inj (hvs : ∀ v ∈ vs, v.Legible) (hdelim : ∀ v ∈ vs, v.Delimited)
    (hws : ∀ w ∈ ws, w.Legible)
    (h : (joined (vs.map debug)).toList ++ ']' :: s = (joined (ws.map debug)).toList ++ ']' :: t) :
    vs = ws ∧ s = t := by
  have hend {v : Value} {us : List Value} {s t : List Char} (hv : v.Legible) :
      ']' :: s ≠ (joined ((v :: us).map debug)).toList ++ t := by
    obtain ⟨cs, hcs⟩ := hv.exists_debug
    rw [toList_joined_cons, hcs]
    exact fun h => v.initial_ne (List.cons.inj h).1.symm
  cases vs with
  | nil =>
    cases ws with
    | nil => exact ⟨rfl, (List.cons.inj h).2⟩
    | cons w ws => exact absurd h (hend (hws w List.mem_cons_self))
  | cons v vs =>
    cases ws with
    | nil => exact absurd h.symm (hend (hvs v List.mem_cons_self))
    | cons w ws =>
      obtain ⟨hv, hdelim'⟩ := List.forall_mem_cons.1 hdelim
      obtain ⟨hw, hws'⟩ := List.forall_mem_cons.1 hws
      rw [toList_joined_cons, toList_joined_cons, List.append_assoc, List.append_assoc] at h
      obtain ⟨rfl, hrest⟩ := hv w _ _ hw h
      obtain ⟨rfl, hst⟩ := separated_append_inj hdelim' hws' hrest
      exact ⟨rfl, hst⟩

end Items

/-- Every legible value can be read off. The induction is on the value: a leaf ends at the first
parenthesis or quote behind its data, and a list where its items do. -/
theorem Legible.delimited {v : Value} (hv : v.Legible) : v.Delimited := by
  induction v with
  | int n =>
    intro w s t hw h
    obtain ⟨m, rfl⟩ := kind_of_initial (initial_eq hv hw h)
    simp only [toList_debug_int, List.append_assoc, List.append_cancel_left_eq,
      List.singleton_append] at h
    obtain ⟨hnm, hst⟩ :=
      append_separator_inj (close_notMem_toString n) (close_notMem_toString m) h
    have hvalue := congrArg Lexeme.intValue hnm
    rw [Lexeme.intValue_toString, Lexeme.intValue_toString] at hvalue
    exact ⟨congrArg _ hvalue, hst⟩
  | symbol name =>
    intro w s t hw h
    obtain ⟨other, rfl⟩ := kind_of_initial (initial_eq hv hw h)
    simp only [toList_debug_symbol, List.append_assoc, List.append_cancel_left_eq,
      List.cons_append] at h
    obtain ⟨hname, hst⟩ := append_separator_inj hv.quote_notMem hw.quote_notMem h
    exact ⟨congrArg _ (String.toList_inj.1 hname), (List.cons.inj hst).2⟩
  | list items ih =>
    intro w s t hw h
    obtain ⟨others, rfl⟩ := kind_of_initial (initial_eq hv hw h)
    simp only [toList_debug_list, List.append_assoc, List.append_cancel_left_eq,
      List.cons_append] at h
    have hdelim : ∀ v ∈ items, v.Delimited := fun v hmem => ih v hmem (hv.items v hmem)
    obtain ⟨hitems, hst⟩ := joined_append_inj hv.items hdelim hw.items h
    exact ⟨congrArg _ hitems, (List.cons.inj hst).2⟩
  | bool b =>
    intro w s t hw h
    have hkind : w = .bool b := kind_of_initial (initial_eq hv hw h)
    subst hkind
    exact ⟨rfl, List.append_cancel_left h⟩
  | marker p =>
    intro w s t hw h
    have hkind : w = .marker p := kind_of_initial (initial_eq hv hw h)
    subst hkind
    exact ⟨rfl, List.append_cancel_left h⟩
  | foreign x => cases hv.of_atom rfl

/-- The lines of printed values can be read off, one after the other. -/
theorem lines_inj {vs ws : List Value} (hvs : ∀ v ∈ vs, v.Legible) (hws : ∀ w ∈ ws, w.Legible)
    (h : vs.flatMap (fun v => v.debug.toList ++ ['\n']) =
      ws.flatMap fun w => w.debug.toList ++ ['\n']) : vs = ws := by
  induction vs generalizing ws with
  | nil =>
    cases ws with
    | nil => rfl
    | cons w ws => simp at h
  | cons v vs ih =>
    cases ws with
    | nil => simp at h
    | cons w ws =>
      obtain ⟨hv, hvs'⟩ := List.forall_mem_cons.1 hvs
      obtain ⟨hw, hws'⟩ := List.forall_mem_cons.1 hws
      simp only [List.flatMap_cons, List.append_assoc, List.singleton_append] at h
      obtain ⟨rfl, hrest⟩ := hv.delimited w _ _ hw h
      rw [ih hvs' hws' (List.cons.inj hrest).2]

end Value

/-- **Printed values.** What legible values print, a line each, says which values they are: two
sequences of them print the same text only if they are the same sequence. In particular each of them
has a printed form, and no other one has the same. -/
theorem output_decodable (vs ws : List Value) (hvs : ∀ v ∈ vs, v.Legible)
    (hws : ∀ w ∈ ws, w.Legible) :
    (String.join (vs.map Event.line) = String.join (ws.map Event.line) ↔ vs = ws) ∧
    ∀ v ∈ vs, ∀ w ∈ ws, v.printed = .ok v.debug ∧ (v.printed = w.printed ↔ v = w) := by
  have hline (us : List Value) : (String.join (us.map Event.line)).toList =
      us.flatMap fun v => v.debug.toList ++ ['\n'] := by
    simp [Event.line, List.flatMap_map]
  refine ⟨⟨fun h => ?_, fun h => by rw [h]⟩, fun v hv w hw => ?_⟩
  · have hlist := congrArg String.toList h
    rw [hline, hline] at hlist
    exact Value.lines_inj hvs hws hlist
  · refine ⟨(hvs v hv).printed, fun h => ?_, fun h => by rw [h]⟩
    rw [(hvs v hv).printed, (hws w hw).printed] at h
    have hlist := congrArg (fun s => String.toList s ++ []) (Except.ok.inj h)
    exact ((hvs v hv).delimited w [] [] (hws w hw) hlist).1

/-- A name that looks like the end of one symbol and the beginning of another is told from two
symbols. -/
theorem output_decodable_look_alike :
    let vs : List Value := [.list [.symbol "a), Symbol(b", .int (-1)], .marker .opening]
    let ws : List Value := [.list [.symbol "a", .symbol "b", .int (-1)], .marker .opening]
    (∀ v ∈ vs, v.Legible) ∧ (∀ w ∈ ws, w.Legible) ∧
    String.join (vs.map Event.line) = "List([Symbol(\"a), Symbol(b\"), Int(-1)])\nOpen\n" ∧
    String.join (vs.map Event.line) ≠ String.join (ws.map Event.line) := by
  intro vs ws
  have hvs : ∀ v ∈ vs, v.Legible := by
    refine List.forall_mem_cons.2 ⟨.list ?_, List.forall_mem_singleton.2 (.leaf rfl)⟩
    exact List.forall_mem_cons.2
      ⟨.leaf (by decide), List.forall_mem_singleton.2 (.leaf (by decide))⟩
  have hws : ∀ w ∈ ws, w.Legible := by
    refine List.forall_mem_cons.2 ⟨.list ?_, List.forall_mem_singleton.2 (.leaf rfl)⟩
    exact List.forall_mem_cons.2 ⟨.leaf (by decide), List.forall_mem_cons.2
      ⟨.leaf (by decide), List.forall_mem_singleton.2 (.leaf (by decide))⟩⟩
  refine ⟨hvs, hws, by decide +kernel, fun h => ?_⟩
  have hsame := (output_decodable vs ws hvs hws).1.1 h
  simp [vs, ws] at hsame

/-- A double quote in a name could be taken for the end of the name. -/
example : Value.debug (.list [.symbol "a\"), Symbol(\"b"]) =
    Value.debug (.list [.symbol "a", .symbol "b"]) := by
  decide +kernel

end PocketLisp
