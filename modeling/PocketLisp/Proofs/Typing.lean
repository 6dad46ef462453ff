import PocketLisp.Proofs.WellFormed

/-!
# Types

A type discipline for expressions, in which names have fixed types. An expression that has a type
can fail in one way only: an arithmetic result may not fit.

* `Ty`, `Ty.Holds`: integers, truth values, and all values that programs work with.
* `Typing`, `Typing.Fits`: types for names, and the environments that bind them accordingly.
* `HasType Γ e T`: the rules. Surplus operands are ignored by evaluation and not looked at here.
* `eval_keeps_of_hasType`: evaluation keeps an environment within the types of its names and gives a
  value of the type of the expression.
* `eval_hasType`: type soundness, whether or not the evaluation overflows.
-/

namespace PocketLisp

/-- The types of expressions. -/
inductive Ty where
  /-- Integers that fit. -/
  | int
  /-- Truth values. -/
  | bool
  /-- Values whose integers fit and that have no parenthesis and no foreign object in them. -/
  | any
  deriving DecidableEq

/-- The value is of the type. -/
def Ty.Holds : Ty → Value → Prop
  | .int, v => ∃ n, v = .int n ∧ Value.inRange n = true
  | .bool, v => ∃ b, v = .bool b
  | .any, v => v.WellFormed Set.univ

/-- Types for some of the names. -/
def Typing := String → Option Ty

/-- Every name with a type is bound to a value of that type. -/
def Typing.Fits (Γ : Typing) (env : Env) : Prop :=
  ∀ x T, Γ x = some T → ∃ v, env.get? x = some v ∧ T.Holds v

/-- Under the types `Γ` of names, the expression has the type `T`. -/
inductive HasType (Γ : Typing) : Value → Ty → Prop where
  | int {n : Int} (h : Value.inRange n = true) : HasType Γ (.int n) .int
  | symbol {x : String} {T : Ty} (h : Γ x = some T) : HasType Γ (.symbol x) T
  | ordinary {x : String} {T : Ty} (operands : List Value) (hx : Head.ofName x = .ordinary)
      (h : Γ x = some T) : HasType Γ (.list (.symbol x :: operands)) T
  | arithmetic {o : Operator} {l r : Value} (extra : List Value)
      (ho : o ∈ [.add, .subtract, .multiply]) (hl : HasType Γ l .int) (hr : HasType Γ r .int) :
      HasType Γ (.list (.symbol o.name :: l :: r :: extra)) .int
  | order {o : Operator} {l r : Value} (extra : List Value) (ho : o ∈ [.greater, .less])
      (hl : HasType Γ l .int) (hr : HasType Γ r .int) :
      HasType Γ (.list (.symbol o.name :: l :: r :: extra)) .bool
  | equal {l r : Value} {T U : Ty} (extra : List Value) (hl : HasType Γ l T) (hr : HasType Γ r U) :
      HasType Γ (.list (.symbol (Operator.name .equal) :: l :: r :: extra)) .bool
  | conditional {c y n : Value} {T : Ty} (extra : List Value) (hc : HasType Γ c .bool)
      (hy : HasType Γ y T) (hn : HasType Γ n T) :
      HasType Γ (.list (.symbol "if" :: c :: y :: n :: extra)) T
  | loop {c b : Value} {T : Ty} (extra : List Value) (hc : HasType Γ c .bool)
      (hb : HasType Γ b T) : HasType Γ (.list (.symbol "while" :: c :: b :: extra)) .any
  -- The value before the first round is a truth value too.
  | loopBool {c b : Value} (extra : List Value) (hc : HasType Γ c .bool)
      (hb : HasType Γ b .bool) : HasType Γ (.list (.symbol "while" :: c :: b :: extra)) .bool
  | sequence {es : List Value} (h : ∀ e ∈ es, HasType Γ e .any) :
      HasType Γ (.list (.symbol "do" :: es)) .any
  | assign {x : String} {e : Value} {T : Ty} (extra : List Value) (hx : Γ x = some T)
      (he : HasType Γ e T) : HasType Γ (.list (.symbol "set" :: .symbol x :: e :: extra)) T
  | print {e : Value} {T : Ty} (extra : List Value) (he : HasType Γ e T) :
      HasType Γ (.list (.symbol "print" :: e :: extra)) T
  | any {e : Value} {T : Ty} (h : HasType Γ e T) : HasType Γ e .any

/-! ## Values of a type -/

theorem Ty.Holds.wellFormed {T : Ty} {v : Value} (h : T.Holds v) : v.WellFormed Set.univ := by
  cases T with
  | int =>
    obtain ⟨n, rfl, hn⟩ := h
    exact .leaf (Value.inRange_iff.1 hn)
  | bool =>
    obtain ⟨b, rfl⟩ := h
    exact .leaf trivial
  | any => exact h

namespace Typing.Fits

variable {Γ : Typing} {env : Env} {x : String} {T : Ty} {v : Value}

theorem holds (h : Γ.Fits env) (hx : Γ x = some T) (hv : env.get? x = some v) : T.Holds v := by
  obtain ⟨w, hw, hT⟩ := h x T hx
  rw [hv] at hw
  cases hw
  exact hT

theorem get?_ne_none (h : Γ.Fits env) (hx : Γ x = some T) : env.get? x ≠ none := by
  obtain ⟨w, hw, -⟩ := h x T hx
  rw [hw]
  exact Option.some_ne_none w

theorem insert (h : Γ.Fits env) (hx : Γ x = some T) (hv : T.Holds v) :
    Γ.Fits (env.insert x v) := by
  intro y U hy
  by_cases hyx : y = x
  · subst hyx
    obtain rfl : T = U := Option.some.inj (hx.symm.trans hy)
    exact ⟨v, Env.get?_insert_self env y v, hv⟩
  · rw [Env.get?_insert_ne env v hyx]
    exact h y U hy

end Typing.Fits

/-! ## Soundness -/

section Soundness

variable {Γ : Typing}

/-- On integers, an arithmetic operator gives an integer or overflows. -/
theorem Operator.keeps_of_arithmetic {I : State → Prop} {o : Operator} {l r : Value}
    (ho : o ∈ [.add, .subtract, .multiply]) (hl : Ty.int.Holds l) (hr : Ty.int.Holds r) :
    Run.Keeps I Ty.int.Holds (·.kind = .overflow) (.ofExcept (o.apply l r)) := by
  obtain ⟨m, rfl, -⟩ := hl
  obtain ⟨n, rfl, -⟩ := hr
  obtain ⟨k, hk⟩ : ∃ k, o.exactResult? m n = some k := by
    simp only [List.mem_cons, List.not_mem_nil, or_false] at ho
    rcases ho with rfl | rfl | rfl
    · exact ⟨m + n, rfl⟩
    · exact ⟨m - n, rfl⟩
    · exact ⟨m * n, rfl⟩
  rw [apply_int hk, checked]
  split
  · next hfits => exact .pure ⟨k, rfl, hfits⟩
  · exact .fail rfl

theorem Operator.keeps_of_order {I : State → Prop} {o : Operator} {l r : Value}
    (ho : o ∈ [.greater, .less]) (hl : Ty.int.Holds l) (hr : Ty.int.Holds r) :
    Run.Keeps I Ty.bool.Holds (·.kind = .overflow) (.ofExcept (o.apply l r)) := by
  obtain ⟨m, rfl, -⟩ := hl
  obtain ⟨n, rfl, -⟩ := hr
  simp only [List.mem_cons, List.not_mem_nil, or_false] at ho
  rcases ho with rfl | rfl
  · exact .pure ⟨decide (n < m), rfl⟩
  · exact .pure ⟨decide (m < n), rfl⟩

/-- Evaluating an expression of a type keeps an environment that fits, and gives a value of the type
or overflows. The induction is on the derivation: there is no rule for an expression that fails in
another way. -/
theorem eval_keeps_of_hasType (fuel : Nat) {e : Value} {T : Ty} (h : HasType Γ e T) :
    Run.Keeps (Γ.Fits ·.env) T.Holds (·.kind = .overflow) (eval fuel e) := by
  have dispatch {head : String} {i : Nat} {m : Run Value} {T : Ty}
      (h : Run.Keeps (Γ.Fits ·.env) T.Holds (·.kind = .overflow) m) :
      Run.Keeps (Γ.Fits ·.env) T.Holds (·.kind = .overflow) (.dispatch head i m) :=
    .dispatch (fun _ hs => hs) h
  induction h with
  | int h => exact .deeper _ (.pure ⟨_, rfl, h⟩)
  | symbol hx =>
    refine .deeper _ (.symbolValue (fun s v hs hv => hs.holds hx hv) fun s hs hnone => ?_)
    exact absurd hnone (hs.get?_ne_none hx)
  | ordinary operands hhead hx =>
    rw [eval_ordinary fuel _ hhead]
    refine dispatch (.headValue (fun s v hs hv => hs.holds hx hv) fun s hs hnone => ?_)
    exact absurd hnone (hs.get?_ne_none hx)
  | arithmetic extra ho _ _ hl hr =>
    rw [eval_binary]
    refine dispatch (.bind hl fun a ha => .bind hr fun b hb => ?_)
    exact Operator.keeps_of_arithmetic ho ha hb
  | order extra ho _ _ hl hr =>
    rw [eval_binary]
    refine dispatch (.bind hl fun a ha => .bind hr fun b hb => ?_)
    exact Operator.keeps_of_order ho ha hb
  | equal extra _ _ hl hr =>
    rw [eval_binary]
    refine dispatch (.bind hl fun a _ => .bind hr fun b _ => ?_)
    exact .pure ⟨a.same b, rfl⟩
  | conditional extra _ _ _ hc hy hn =>
    rw [eval_conditional]
    exact dispatch (.deeper _ (.choose hc hy hn))
  | loop extra _ _ hc hb =>
    have hfalse : Ty.any.Holds (.bool false) := .leaf trivial
    rw [eval_loop]
    exact dispatch (.deeper _ (.loop hc (hb.imp fun v hv => hv.wellFormed) fuel hfalse))
  | loopBool extra _ _ hc hb =>
    rw [eval_loop]
    exact dispatch (.deeper _ (.loop hc hb fuel ⟨false, rfl⟩))
  | sequence _ ih =>
    rw [eval_sequence]
    refine dispatch (.deeper _ (.bind (.collect ih) fun vs hvs => ?_))
    exact .pure (.list hvs)
  | assign extra hx _ he =>
    rw [eval_assign]
    exact dispatch (.deeper _ (.assignFrom (fun s v hs hv => hs.insert hx hv) he))
  | print extra _ he =>
    rw [eval_print]
    refine dispatch (.deeper _ (.printFrom (fun v y hv hy => ?_) (fun s v hs _ => hs) he))
    rw [hv.wellFormed.foreign?_eq_none] at hy
    cases hy
  | any _ ih => exact ih.imp fun v hv => hv.wellFormed

/-- **Type soundness.** In an environment that binds every name to a value of its type, an
expression of type `T` that ends gives a value of type `T` or overflows, and fails in no other way;
only where depth is bounded there may be no room for it. However it ends, the environment still
binds every name to a value of its type. -/
theorem eval_hasType (Γ : Typing) (e : Value) (T : Ty) (he : HasType Γ e T) (fuel : Nat)
    (room : Room) (s t : State) (r : Except Fault Value) (hs : Γ.Fits s.env)
    (h : eval fuel e room s = .ended r t) :
    Γ.Fits t.env ∧
    match r with
    | .ok v => T.Holds v
    | .error f => f.kind = .overflow ∨ (room ≠ none ∧ f = .eval .tooDeep) := by
  obtain ⟨hfits, hr⟩ := (eval_keeps_of_hasType fuel he).of_ended hs h
  refine ⟨hfits, ?_⟩
  cases r with
  | ok v => exact hr
  | error f => exact hr.symm

/-- A loop squares `i` as long as it is less than `j`. The second square does not fit; what the
first round bound and printed stays, and every name is still of its type. -/
theorem eval_hasType_overflow :
    let Γ : Typing := fun x =>
      if x = "b" then some .bool else if x = "i" ∨ x = "j" then some .int else none
    let e : Value := .list [.symbol "while", .list [.symbol "<", .symbol "i", .symbol "j"],
      .list [.symbol "do",
        .list [.symbol "print", .list [.symbol "set", .symbol "i",
          .list [.symbol "*", .symbol "i", .symbol "i"]]],
        .list [.symbol "set", .symbol "b", .list [.symbol "=", .symbol "i", .symbol "j"]]]]
    let env := ((Env.empty.insert "b" (.bool true)).insert "i" (.int 46340)).insert "j"
      (.int 2147483647)
    HasType Γ e .any ∧ Γ.Fits env ∧
    ∃ t, eval 2 e none { env := env } =
        .ended (.error (.eval (.overflow .multiply 2147395600 2147395600))) t ∧
      Event.outputText t.events = "Int(2147395600)\n" ∧ Γ.Fits t.env := by
  intro Γ e env
  have hi : HasType Γ (.symbol "i") .int := .symbol rfl
  have hj : HasType Γ (.symbol "j") .int := .symbol rfl
  have hsquare : HasType Γ (.list [.symbol "*", .symbol "i", .symbol "i"]) .int :=
    .arithmetic (o := .multiply) [] (by decide) hi hi
  have hequal : HasType Γ (.list [.symbol "=", .symbol "i", .symbol "j"]) .bool := .equal [] hi hj
  have he : HasType Γ e .any := by
    refine .loop [] (.order (o := .less) [] (by decide) hi hj) (.sequence ?_)
    simp only [List.forall_mem_cons, List.not_mem_nil, false_imp_iff, implies_true, and_true]
    exact ⟨.any (.print [] (.assign [] rfl hsquare)), .any (.assign [] rfl hequal)⟩
  have henv : Γ.Fits env := by
    intro x T hx
    simp only [Γ] at hx
    split at hx
    · next hb => cases hx; subst hb; exact ⟨.bool true, rfl, true, rfl⟩
    · split at hx
      · next hij =>
        cases hx
        rcases hij with rfl | rfl
        · exact ⟨.int 46340, rfl, 46340, rfl, by decide⟩
        · exact ⟨.int 2147483647, rfl, 2147483647, rfl, by decide⟩
      · cases hx
  obtain ⟨t, ht, hprinted⟩ : ∃ t, eval 2 e none { env := env } =
        .ended (.error (.eval (.overflow .multiply 2147395600 2147395600))) t ∧
      Event.outputText t.events = "Int(2147395600)\n" := ⟨_, rfl, by decide +kernel⟩
  have hsound := eval_hasType Γ e .any he 2 none { env := env } t (.error _) henv ht
  exact ⟨he, henv, t, ht, hprinted, hsound.1⟩

end Soundness

end PocketLisp
