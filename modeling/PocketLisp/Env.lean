import PocketLisp.Value

/-!
# Environments

An environment is one flat table from names to values. It is kept sorted by name, so a table has one
representation only: environments with the same bindings are equal (`Env.ext_get?`).

* `Env.get?`: the view. Every other operation is described by what it does to it.
* `Env.insert`: binds a name, replacing an earlier binding (`Env.get?_insert`).
* `Env.entries`: all bindings in the order of the names.
-/

namespace PocketLisp

/-- Bindings by name, each name at most once and in increasing order. -/
structure Env where
  entries : List (String × Value)
  sorted : entries.Pairwise fun a b => a.1 < b.1

namespace Env

def empty : Env := ⟨[], .nil⟩

instance : Inhabited Env := ⟨empty⟩

/-- The value at `name` in a list of bindings. -/
def find? (name : String) : List (String × Value) → Option Value
  | [] => none
  | e :: es => if name = e.1 then some e.2 else find? name es

/-- The value that `name` is bound to. -/
def get? (env : Env) (name : String) : Option Value := find? name env.entries

def contains (env : Env) (name : String) : Bool := (env.get? name).isSome

/-- The bindings `es` with `name` bound to `v`, at its place in the order. -/
def insertEntry (name : String) (v : Value) : List (String × Value) → List (String × Value)
  | [] => [(name, v)]
  | e :: es =>
    if name < e.1 then (name, v) :: e :: es
    else if name = e.1 then (name, v) :: es
    else e :: insertEntry name v es

/-- A binding after the insertion is the new one or an old one. -/
theorem mem_insertEntry {name : String} {v : Value} {es : List (String × Value)}
    {b : String × Value} (h : b ∈ insertEntry name v es) : b = (name, v) ∨ b ∈ es := by
  induction es with
  | nil => simpa [insertEntry] using h
  | cons e es ih =>
    unfold insertEntry at h
    split at h
    · simpa using h
    split at h
    · rcases List.mem_cons.1 h with h | h
      · exact .inl h
      · exact .inr (List.mem_cons_of_mem _ h)
    · rcases List.mem_cons.1 h with h | h
      · exact .inr (h ▸ List.mem_cons_self)
      · exact (ih h).imp_right (List.mem_cons_of_mem _)

/-- Insertion keeps the order. -/
theorem sorted_insertEntry (name : String) (v : Value) {es : List (String × Value)}
    (h : es.Pairwise fun a b => a.1 < b.1) :
    (insertEntry name v es).Pairwise fun a b => a.1 < b.1 := by
  induction es with
  | nil => simp [insertEntry]
  | cons e es ih =>
    obtain ⟨he, hes⟩ := List.pairwise_cons.1 h
    unfold insertEntry
    split
    · next hlt =>
      refine List.pairwise_cons.2 ⟨fun b hb => ?_, h⟩
      rcases List.mem_cons.1 hb with rfl | hb
      · exact hlt
      · exact String.lt_trans hlt (he b hb)
    split
    · next heq => exact List.pairwise_cons.2 ⟨fun b hb => heq ▸ he b hb, hes⟩
    · next hlt hne =>
      refine List.pairwise_cons.2 ⟨fun b hb => ?_, ih hes⟩
      rcases mem_insertEntry hb with rfl | hb
      · rcases Std.lt_trichotomy name e.1 with h | h | h
        · exact absurd h hlt
        · exact absurd h hne
        · exact h
      · exact he b hb

/-- The environment with `name` bound to `v`. -/
def insert (env : Env) (name : String) (v : Value) : Env :=
  ⟨insertEntry name v env.entries, sorted_insertEntry name v env.sorted⟩

/-- The environment with the bindings `bs` made in order. -/
def insertAll (env : Env) (bs : List (String × Value)) : Env :=
  bs.foldl (fun env b => env.insert b.1 b.2) env

/-! ## The view -/

@[simp] theorem get?_empty (name : String) : empty.get? name = none := rfl

theorem find?_insertEntry (name : String) (v : Value) (es : List (String × Value)) (x : String) :
    find? x (insertEntry name v es) = if x = name then some v else find? x es := by
  induction es with
  | nil => simp [insertEntry, find?]
  | cons e es ih =>
    unfold insertEntry
    split
    · simp [find?]
    split
    · next h =>
      subst h
      by_cases hx : x = e.1 <;> simp [find?, hx]
    · next h =>
      by_cases hx : x = e.1
      · have hn : ¬ x = name := fun hn => h (hn ▸ hx)
        simp [find?, hx, Ne.symm h]
      · simp [find?, hx, ih]

theorem get?_insert (env : Env) (name : String) (v : Value) (x : String) :
    (env.insert name v).get? x = if x = name then some v else env.get? x :=
  find?_insertEntry name v env.entries x

@[simp] theorem get?_insert_self (env : Env) (name : String) (v : Value) :
    (env.insert name v).get? name = some v := by
  simp [get?_insert]

theorem get?_insert_ne (env : Env) {name x : String} (v : Value) (h : x ≠ name) :
    (env.insert name v).get? x = env.get? x := by
  simp [get?_insert, h]

theorem mem_of_find? {name : String} {v : Value} {es : List (String × Value)}
    (h : find? name es = some v) : (name, v) ∈ es := by
  induction es with
  | nil => simp [find?] at h
  | cons e es ih =>
    unfold find? at h
    split at h
    · next hn => cases h; subst hn; exact List.mem_cons_self
    · exact List.mem_cons_of_mem _ (ih h)

theorem find?_of_mem {name : String} {v : Value} {es : List (String × Value)}
    (hs : es.Pairwise fun a b => a.1 < b.1) (h : (name, v) ∈ es) : find? name es = some v := by
  induction es with
  | nil => simp at h
  | cons e es ih =>
    obtain ⟨he, hes⟩ := List.pairwise_cons.1 hs
    rcases List.mem_cons.1 h with rfl | h
    · simp [find?]
    · have hlt := he _ h
      have hne : name ≠ e.1 := fun hn => String.lt_irrefl _ (hn ▸ hlt)
      simp [find?, hne, ih hes h]

theorem mem_entries {env : Env} {name : String} {v : Value} :
    (name, v) ∈ env.entries ↔ env.get? name = some v :=
  ⟨find?_of_mem env.sorted, mem_of_find?⟩

private theorem entries_eq {es fs : List (String × Value)}
    (hes : es.Pairwise fun a b => a.1 < b.1) (hfs : fs.Pairwise fun a b => a.1 < b.1)
    (h : ∀ b, b ∈ es ↔ b ∈ fs) : es = fs := by
  induction es generalizing fs with
  | nil =>
    cases fs with
    | nil => rfl
    | cons f fs => exact absurd ((h f).2 List.mem_cons_self) (by simp)
  | cons e es ih =>
    cases fs with
    | nil => exact absurd ((h e).1 List.mem_cons_self) (by simp)
    | cons f fs =>
      obtain ⟨he, hes'⟩ := List.pairwise_cons.1 hes
      obtain ⟨hf, hfs'⟩ := List.pairwise_cons.1 hfs
      have hef : e = f := by
        rcases List.mem_cons.1 ((h e).1 List.mem_cons_self) with h₁ | h₁
        · exact h₁
        rcases List.mem_cons.1 ((h f).2 List.mem_cons_self) with h₂ | h₂
        · exact h₂.symm
        exact absurd (hf e h₁) (String.lt_asymm (he f h₂))
      subst hef
      congr 1
      refine ih hes' hfs' fun b => ⟨fun hb => ?_, fun hb => ?_⟩
      · rcases List.mem_cons.1 ((h b).1 (List.mem_cons_of_mem _ hb)) with rfl | h'
        · exact absurd (he b hb) (String.lt_irrefl _)
        · exact h'
      · rcases List.mem_cons.1 ((h b).2 (List.mem_cons_of_mem _ hb)) with rfl | h'
        · exact absurd (hf b hb) (String.lt_irrefl _)
        · exact h'

theorem ext_get? {a b : Env} (h : ∀ name, a.get? name = b.get? name) : a = b := by
  have : a.entries = b.entries :=
    entries_eq a.sorted b.sorted fun ⟨name, v⟩ => by rw [mem_entries, mem_entries, h]
  cases a; cases b; cases this; rfl

end Env

end PocketLisp
