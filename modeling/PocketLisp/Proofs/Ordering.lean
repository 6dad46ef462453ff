import PocketLisp.Proofs.Equality

/-!
# The order of values

Integers are ordered by size and symbols by the code points of their names. Between any other values
there is no order, and to ask for one is a fault.

* `Value.Comparable`: two integers, or two symbols.
* `Precedes`: the order of names, said by code points: at the first place where two names differ the
  smaller code point decides, and a name stands before its continuations.
* `lt_iff_precedes`: this is the order that the operators use.
* `order_law`: the operators decide a strict total order on each of the two kinds, and it fits with
  equality.
-/

namespace PocketLisp

/-- The values are two integers or two symbols. -/
inductive Value.Comparable : Value → Value → Prop where
  | ints (m n : Int) : Comparable (.int m) (.int n)
  | symbols (x y : String) : Comparable (.symbol x) (.symbol y)

/-- The name `x` stands before `y`: `y` continues `x`, or behind a common beginning `x` has the
smaller code point. -/
def Precedes (x y : String) : Prop :=
  (∃ c rest, y.toList = x.toList ++ c :: rest) ∨
  ∃ common c d xs ys, x.toList = common ++ c :: xs ∧ y.toList = common ++ d :: ys ∧
    c.toNat < d.toNat

/-! ## Names -/

theorem lt_of_precedes {x y : String} (h : Precedes x y) : x < y := by
  rw [String.lt_iff]
  rcases h with ⟨c, rest, hy⟩ | ⟨common, c, d, xs, ys, hx, hy, hlt⟩
  · have hlonger : x.toList ++ [] < x.toList ++ c :: rest :=
      List.append_left_lt (List.nil_lt_cons c rest)
    rwa [List.append_nil, ← hy] at hlonger
  · rw [hx, hy]
    exact List.append_left_lt (List.cons_lt_cons_iff.2 (.inl hlt))

theorem precedes_of_lt {x y : String} (h : x < y) : Precedes x y := by
  rw [String.lt_iff] at h
  rcases List.lt_iff_exists.1 h with ⟨htake, hlength⟩ | ⟨i, hi, hi', hsame, hlt⟩
  · obtain ⟨rest, hrest⟩ := List.prefix_iff_eq_take.2 htake
    cases rest with
    | nil => rw [← hrest, List.append_nil] at hlength; omega
    | cons c rest => exact .inl ⟨c, rest, hrest.symm⟩
  · -- The names part at the place `i`; what stands before it is the common beginning.
    have hcommon : y.toList.take i = x.toList.take i := by
      refine List.ext_getElem (by simp only [List.length_take]; omega) fun k hk _ => ?_
      simp only [List.length_take] at hk
      simpa using (hsame k (by omega)).symm
    refine .inr ⟨x.toList.take i, x.toList[i], y.toList[i], x.toList.drop (i + 1),
      y.toList.drop (i + 1), ?_, ?_, hlt⟩
    · rw [← List.drop_eq_getElem_cons hi, List.take_append_drop]
    · rw [← List.drop_eq_getElem_cons hi', ← hcommon, List.take_append_drop]

theorem lt_iff_precedes {x y : String} : x < y ↔ Precedes x y := ⟨precedes_of_lt, lt_of_precedes⟩

theorem count_lt_eq_gt {α : Type} [LT α] [DecidableLT α] [DecidableEq α]
    [Std.Trichotomous fun x y : α => x < y] [Std.Asymm fun x y : α => x < y] (x y : α) :
    [decide (x < y), decide (x = y), decide (y < x)].count true = 1 := by
  have hasymm {x y : α} (h : x < y) : ¬ y < x := Std.Asymm.asymm (r := fun x y : α => x < y) x y h
  have hirrefl (x : α) : ¬ x < x := fun h => hasymm h h
  rcases Std.lt_trichotomy x y with hlt | rfl | hgt
  · have hne : x ≠ y := fun hxy => hirrefl y (hxy ▸ hlt)
    simp [hlt, hne, hasymm hlt]
  · simp [hirrefl]
  · have hne : x ≠ y := fun hxy => hirrefl y (hxy ▸ hgt)
    simp [hgt, hne, hasymm hgt]

/-! ## The operators -/

namespace Operator

variable {a b c : Value}

theorem compared_of_not_comparable (h : ¬ a.Comparable b) (o : Operator) (ints : Int → Int → Bool)
    (names : String → String → Bool) : compared o ints names a b = .error (.mismatch o) := by
  unfold compared
  split
  · exact absurd (.ints _ _) h
  · exact absurd (.symbols _ _) h
  · rfl

/-- A value is less than another one if both are integers and it is smaller, or if both are symbols
and its name stands before the other one. -/
theorem apply_less_eq_true : apply .less a b = .ok (.bool true) ↔
    (∃ m n, a = .int m ∧ b = .int n ∧ m < n) ∨
    ∃ x y, a = .symbol x ∧ b = .symbol y ∧ x < y := by
  cases a <;> cases b <;> simp [apply, compared]

/-- Less is transitive on integers and on symbols. -/
theorem apply_less_trans (hab : apply .less a b = .ok (.bool true))
    (hbc : apply .less b c = .ok (.bool true)) : apply .less a c = .ok (.bool true) := by
  rw [apply_less_eq_true] at hab hbc ⊢
  rcases hab with ⟨m, n, rfl, rfl, hmn⟩ | ⟨x, y, rfl, rfl, hxy⟩
  · rcases hbc with ⟨n', k, hn, rfl, hnk⟩ | ⟨y, z, hn, -⟩
    · cases hn
      exact .inl ⟨m, k, rfl, rfl, by omega⟩
    · cases hn
  · rcases hbc with ⟨n, k, hy, -⟩ | ⟨y', z, hy, rfl, hyz⟩
    · cases hy
    · cases hy
      exact .inr ⟨x, z, rfl, rfl, String.lt_trans hxy hyz⟩

theorem count_true_of_comparable (h : a.Comparable b) : ∃ l e g,
    apply .less a b = .ok (.bool l) ∧ apply .equal a b = .ok (.bool e) ∧
      apply .greater a b = .ok (.bool g) ∧ [l, e, g].count true = 1 := by
  cases h with
  | ints m n => exact ⟨_, _, _, rfl, rfl, rfl, count_lt_eq_gt m n⟩
  | symbols x y => exact ⟨_, _, _, rfl, rfl, rfl, count_lt_eq_gt x y⟩

end Operator

/-- **Order.** Less and greater give a truth value for two integers and for two symbols, and fail
with a fault of typing on all other values. Integers are compared by size, whatever that is, and
symbols by the code points of their names. Of two integers or two symbols exactly one is less,
equal or greater, greater is less with the operands exchanged, and less is transitive. -/
theorem order_law :
    (∀ a b : Value, ¬ a.Comparable b → ∀ o : Operator, o = .less ∨ o = .greater →
      ∃ f, o.apply a b = .error f ∧ f.kind.label = "MlspTypeError") ∧
    (∀ a b : Value, a.Comparable b → ∃ l e g,
      Operator.apply .less a b = .ok (.bool l) ∧ Operator.apply .equal a b = .ok (.bool e) ∧
        Operator.apply .greater a b = .ok (.bool g) ∧ [l, e, g].count true = 1) ∧
    (∀ a b : Value, a.Comparable b → Operator.apply .greater a b = Operator.apply .less b a) ∧
    (∀ a b c : Value, Operator.apply .less a b = .ok (.bool true) →
      Operator.apply .less b c = .ok (.bool true) → Operator.apply .less a c = .ok (.bool true)) ∧
    (∀ m n, Operator.apply .less (.int m) (.int n) = .ok (.bool true) ↔ m < n) ∧
    ∀ x y, Operator.apply .less (.symbol x) (.symbol y) = .ok (.bool true) ↔ Precedes x y := by
  refine ⟨?_, fun a b h => Operator.count_true_of_comparable h, fun a b h => ?_,
    fun a b c hab hbc => Operator.apply_less_trans hab hbc, fun m n => ?_, fun x y => ?_⟩
  · rintro a b h o (rfl | rfl)
    · exact ⟨_, Operator.compared_of_not_comparable h _ _ _, rfl⟩
    · exact ⟨_, Operator.compared_of_not_comparable h _ _ _, rfl⟩
  · cases h with
    | ints m n => rfl
    | symbols x y => rfl
  · rw [Operator.apply_less_eq_true]
    simp
  · rw [Operator.apply_less_eq_true, ← lt_iff_precedes]
    simp

/-- A name before its continuation, and that before a name with a greater code point at its end,
though the first unit of that code point in sixteen bits is smaller. Integers may be of any size. -/
theorem order_law_names :
    (¬ (Value.int 1).Comparable (.symbol "a") ∧
      ∃ f, Operator.apply .less (.int 1) (.symbol "a") = .error f ∧
        f.kind.label = "MlspTypeError") ∧
    Operator.apply .less (.symbol "z") (.symbol "z\uffff") = .ok (.bool true) ∧
    Operator.apply .less (.symbol "z\uffff") (.symbol "z😀") = .ok (.bool true) ∧
    Operator.apply .less (.symbol "z") (.symbol "z😀") = .ok (.bool true) ∧
    Operator.apply .greater (.int 18446744073709551616) (.int (-18446744073709551616)) =
      Operator.apply .less (.int (-18446744073709551616)) (.int 18446744073709551616) := by
  obtain ⟨hfails, -, hgreater, htrans, -, hnames⟩ := order_law
  have hkinds : ¬ (Value.int 1).Comparable (.symbol "a") := by
    intro h
    cases h
  have hlonger := (hnames "z" "z\uffff").2 (.inl ⟨'\uffff', [], by decide⟩)
  have hlast := (hnames "z\uffff" "z😀").2
    (.inr ⟨['z'], '\uffff', '😀', [], [], by decide, by decide, by decide⟩)
  exact ⟨⟨hkinds, hfails _ _ hkinds .less (.inl rfl)⟩, hlonger, hlast, htrans _ _ _ hlonger hlast,
    hgreater _ _ (.ints _ _)⟩

end PocketLisp
