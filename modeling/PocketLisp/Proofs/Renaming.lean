import PocketLisp.Proofs.Observation
import PocketLisp.Proofs.WellFormed

/-!
# Renaming

A name is a variable, a datum that stands for itself, an operand of a comparison and, if it is
reserved, the head of a form or an operator. Evaluation uses nothing of its spelling but whether it
is reserved and how it compares to other names. So a renaming that keeps the order of the names and
fixes the reserved ones can be done before a run or after it.

* `Renaming`: a strictly increasing map of names that fixes the reserved ones.
* `Value.rename`, `Env.rename`, `Fault.rename`, `Event.rename`, `State.rename`: names replaced
  wherever they stand.
* `Env.insert_rename`, `Value.same_rename`, `Operator.apply_rename`: how bindings, equality and the
  operators take it.
* `eval_lockstep_rename`: an expression and its renaming go in lockstep.
* `eval_equivariant`: the same without fuel.
-/

namespace PocketLisp

/-- A map of names that keeps their order and fixes the reserved ones. -/
structure Renaming where
  map : String → String
  increasing : ∀ x y, x < y → map x < map y
  form : ∀ f : Form, map f.name = f.name
  operator : ∀ o : Operator, map o.name = o.name

namespace Renaming

variable (ρ : Renaming)

theorem map_lt_map {x y : String} : ρ.map x < ρ.map y ↔ x < y := by
  refine ⟨fun h => ?_, ρ.increasing x y⟩
  rcases Std.lt_trichotomy x y with hlt | heq | hgt
  · exact hlt
  · exact absurd (heq ▸ h) (String.lt_irrefl _)
  · exact absurd h (String.lt_asymm (ρ.increasing y x hgt))

theorem map_inj {x y : String} : ρ.map x = ρ.map y ↔ x = y := by
  refine ⟨fun h => ?_, congrArg ρ.map⟩
  rcases Std.lt_trichotomy x y with hlt | heq | hgt
  · exact absurd (h ▸ ρ.increasing x y hlt) (String.lt_irrefl _)
  · exact heq
  · exact absurd (h ▸ ρ.increasing y x hgt) (String.lt_irrefl _)

@[simp] theorem map_if : ρ.map "if" = "if" := ρ.form .conditional
@[simp] theorem map_while : ρ.map "while" = "while" := ρ.form .loop
@[simp] theorem map_do : ρ.map "do" = "do" := ρ.form .sequence
@[simp] theorem map_set : ρ.map "set" = "set" := ρ.form .assign
@[simp] theorem map_print : ρ.map "print" = "print" := ρ.form .print

/-- At the head of a list a name means the same as before. -/
theorem ofName_map (x : String) : Head.ofName (ρ.map x) = Head.ofName x := by
  cases hx : Head.ofName x with
  | form f =>
    obtain rfl := Head.eq_name_of_form hx
    rw [ρ.form, Head.ofName_form]
  | operator o =>
    obtain rfl := Head.eq_name_of_operator hx
    rw [ρ.operator, Head.ofName_operator]
  | ordinary =>
    obtain ⟨hform, hoperator⟩ := Head.ofName_eq_ordinary.1 hx
    refine Head.ofName_eq_ordinary.2 ⟨fun f hf => ?_, fun o ho => ?_⟩
    · exact hform f (ρ.map_inj.1 (hf.trans (ρ.form f).symm))
    · exact hoperator o (ρ.map_inj.1 (ho.trans (ρ.operator o).symm))

end Renaming

/-! ## Values -/

namespace Value

mutual

/-- The value with all its symbols renamed. A foreign text is no name and stays. -/
def rename (ρ : Renaming) : Value → Value
  | .int n => .int n
  | .symbol x => .symbol (ρ.map x)
  | .list items => .list (renameItems ρ items)
  | .bool b => .bool b
  | .marker p => .marker p
  | .foreign x => .foreign x

def renameItems (ρ : Renaming) : List Value → List Value
  | [] => []
  | v :: vs => rename ρ v :: renameItems ρ vs

end

variable (ρ : Renaming)

theorem renameItems_eq_map (items : List Value) : renameItems ρ items = items.map (rename ρ) := by
  induction items with
  | nil => rfl
  | cons v vs ih => simp [renameItems, ih]

@[simp] theorem rename_list (items : List Value) :
    rename ρ (.list items) = .list (items.map (rename ρ)) := by
  rw [rename, renameItems_eq_map]

@[simp] theorem rename_symbol (x : String) : rename ρ (.symbol x) = .symbol (ρ.map x) := rfl

theorem rename_injective : Function.Injective (rename ρ) := by
  intro v w h
  induction v generalizing w with
  | list vs ih =>
    cases w with
    | list ws =>
      simp only [rename_list, list.injEq] at h ⊢
      induction vs generalizing ws with
      | nil => cases ws with
        | nil => rfl
        | cons w ws => cases h
      | cons v vs ihvs =>
        cases ws with
        | nil => cases h
        | cons w ws =>
          obtain ⟨hv, hvs⟩ := List.cons.inj h
          rw [ih v List.mem_cons_self hv,
            ihvs (fun u hu => ih u (List.mem_cons_of_mem v hu)) ws hvs]
    | _ => simp [rename] at h
  | symbol x =>
    cases w with
    | symbol y =>
      simp only [rename, symbol.injEq] at h ⊢
      exact ρ.map_inj.1 h
    | _ => simp [rename] at h
  | _ => cases w <;> simp_all [rename]

@[simp] theorem foreign?_rename (v : Value) : (v.rename ρ).foreign? = v.foreign? := by
  induction v with
  | list items ih =>
    rw [rename_list, foreign?_list, foreign?_list]
    induction items with
    | nil => rfl
    | cons v vs ihvs =>
      rw [List.map_cons, foreignItem?, foreignItem?, ih v List.mem_cons_self,
        ihvs fun u hu => ih u (List.mem_cons_of_mem v hu)]
  | _ => rfl

/-- Programs see the renamed values as equal if they see the values as equal. -/
theorem same_rename (v w : Value) : (v.rename ρ).same (w.rename ρ) = v.same w := by
  induction v generalizing w with
  | list vs ih =>
    cases w with
    | list ws =>
      simp only [rename_list, same]
      induction vs generalizing ws with
      | nil => cases ws <;> rfl
      | cons v vs ihvs =>
        cases ws with
        | nil => rfl
        | cons w ws =>
          simp only [List.map_cons, sameItems]
          rw [ih v List.mem_cons_self, ihvs fun u hu => ih u (List.mem_cons_of_mem v hu)]
    | _ => rfl
  | symbol x =>
    cases w with
    | symbol y => simp [rename, same, ρ.map_inj]
    | _ => rfl
  | foreign x => cases x <;> cases w <;> rfl
  | _ => cases w <;> rfl

end Value

/-- The operators see of names only how they compare, and give none. -/
theorem Operator.apply_rename (ρ : Renaming) (o : Operator) (l r : Value) :
    o.apply (l.rename ρ) (r.rename ρ) = o.apply l r := by
  cases o with
  | equal => simp [Value.same_rename]
  | greater => cases l <;> cases r <;> simp [Value.rename, apply, compared, ρ.map_lt_map]
  | less => cases l <;> cases r <;> simp [Value.rename, apply, compared, ρ.map_lt_map]
  | _ => cases l <;> cases r <;> simp [Value.rename, apply, onInts]

/-! ## Environments, faults, events and states -/

/-- The environment with all names renamed, those that are bound and those in the values. -/
def Env.rename (ρ : Renaming) (env : Env) : Env where
  entries := env.entries.map fun b => (ρ.map b.1, b.2.rename ρ)
  sorted := List.pairwise_map.2 (env.sorted.imp (ρ.increasing _ _))

namespace Env

variable (ρ : Renaming) (env : Env)

theorem get?_rename (x : String) :
    (env.rename ρ).get? (ρ.map x) = (env.get? x).map (Value.rename ρ) := by
  have hfind (es : List (String × Value)) :
      find? (ρ.map x) (es.map fun b => (ρ.map b.1, b.2.rename ρ)) =
        (find? x es).map (Value.rename ρ) := by
    induction es with
    | nil => rfl
    | cons b es ih => by_cases hx : x = b.1 <;> simp [find?, ρ.map_inj, hx, ih]
  exact hfind env.entries

/-- Binding and renaming may be done in either order. -/
theorem insert_rename (x : String) (v : Value) :
    (env.insert x v).rename ρ = (env.rename ρ).insert (ρ.map x) (v.rename ρ) := by
  have hentry (es : List (String × Value)) :
      (insertEntry x v es).map (fun b => (ρ.map b.1, b.2.rename ρ)) =
        insertEntry (ρ.map x) (v.rename ρ) (es.map fun b => (ρ.map b.1, b.2.rename ρ)) := by
    induction es with
    | nil => rfl
    | cons b es ih =>
      simp only [insertEntry, List.map_cons, ρ.map_lt_map, ρ.map_inj]
      split
      · rfl
      split
      · rfl
      · rw [List.map_cons, ih]
  rw [rename, rename, insert, insert]
  congr 1
  exact hentry env.entries

end Env

/-- The fault with the names in it renamed. -/
def EvalFault.rename (ρ : Renaming) : EvalFault → EvalFault
  | .badHead head => .badHead (head.rename ρ)
  | .badTarget target => .badTarget (target.rename ρ)
  | .unbound x => .unbound (ρ.map x)
  | f => f

def Fault.rename (ρ : Renaming) : Fault → Fault
  | .eval f => .eval (f.rename ρ)
  | f => f

@[simp] theorem Fault.kind_rename (ρ : Renaming) (f : Fault) : (f.rename ρ).kind = f.kind := by
  cases f with
  | eval f => cases f <;> rfl
  | _ => rfl

def Event.rename (ρ : Renaming) : Event → Event
  | .dispatched head operands => .dispatched (ρ.map head) operands
  | .bound x v => .bound (ρ.map x) (v.rename ρ)
  | .printed v => .printed (v.rename ρ)
  | e => e

def State.rename (ρ : Renaming) (s : State) : State where
  env := s.env.rename ρ
  log := s.log.map (Event.rename ρ)

theorem State.prints_rename (ρ : Renaming) (s : State) :
    (s.rename ρ).prints = s.prints.map (Value.rename ρ) := by
  have hprinted (e : Event) : (e.rename ρ).printed? = e.printed?.map (Value.rename ρ) := by
    cases e <;> rfl
  rw [prints, prints, events, events, rename, ← List.map_reverse, List.filterMap_map,
    List.map_filterMap]
  simp only [Function.comp_def, hprinted]

/-- What a run ended with, renamed. -/
def renameResult (ρ : Renaming) : Except Fault Value → Except Fault Value
  | .ok v => .ok (v.rename ρ)
  | .error f => .error (f.rename ρ)

/-! ## Evaluation -/

/-- `n` does what `m` does, with all names renamed. -/
abbrev Run.Renames (ρ : Renaming) (m n : Run Value) : Prop :=
  Run.Lockstep (fun s t => t = s.rename ρ) (fun v w => w = v.rename ρ) (fun f g => g = f.rename ρ)
    m n

/-- An expression and its renaming go in lockstep from a state and its renaming. -/
theorem eval_lockstep_rename (ρ : Renaming) (fuel : Nat) (e : Value) :
    Run.Renames ρ (eval fuel e) (eval fuel (e.rename ρ)) := by
  have dispatch {head head' : String} {i : Nat} {m n : Run Value} (hhead : head' = ρ.map head)
      (h : Run.Renames ρ m n) : Run.Renames ρ (.dispatch head i m) (.dispatch head' i n) := by
    refine .dispatch ?_ h
    rintro s _ rfl
    rw [hhead]
    rfl
  -- True is no symbol, so a renamed condition holds if the condition does.
  have htrue (v w : Value) (h : w = v.rename ρ) : v = .bool true ↔ w = .bool true := by
    subst h
    cases v <;> simp [Value.rename]
  induction e using Value.exprInduct with
  | int n => exact .deeper _ _ (.pure rfl)
  | bool b => exact .deeper _ _ (.pure rfl)
  | foreign x => exact .deeper _ _ (.pure rfl)
  | marker p => exact .deeper _ _ (.fail rfl)
  | empty => exact .deeper _ _ (.fail rfl)
  | symbol x =>
    refine .deeper _ _ (.symbolValue ?_)
    rintro s _ rfl
    show ((s.env.rename ρ).get? (ρ.map x)).getD _ = _
    rw [Env.get?_rename]
    cases s.env.get? x <;> rfl
  | badHead head operands h =>
    have h' : ∀ x, head.rename ρ ≠ .symbol x := by
      intro x hx
      cases head <;> simp [Value.rename] at hx
      exact h _ rfl
    rw [Value.rename_list, List.map_cons, eval_badHead fuel _ h, eval_badHead fuel _ h']
    exact .deeper _ _ (.deeper _ _ (.fail rfl))
  | ordinary x operands h =>
    have h' : Head.ofName (ρ.map x) = .ordinary := (ρ.ofName_map x).trans h
    rw [Value.rename_list, List.map_cons, Value.rename_symbol, eval_ordinary fuel _ h,
      eval_ordinary fuel _ h', List.length_map]
    refine dispatch rfl (.headValue rfl ?_)
    rintro s _ rfl
    show Option.Rel _ _ ((s.env.rename ρ).get? (ρ.map x))
    rw [Env.get?_rename]
    cases s.env.get? x with
    | none => exact .none
    | some v => exact .some rfl
  | shortForm f operands h =>
    have h' : (operands.map (Value.rename ρ)).length < f.minOperands := by simpa using h
    rw [Value.rename_list, List.map_cons, Value.rename_symbol, ρ.form, eval_shortForm fuel h,
      eval_shortForm fuel h', List.length_map]
    exact dispatch (ρ.form f).symm (.fail rfl)
  | shortOperator o operands h =>
    have h' : (operands.map (Value.rename ρ)).length < Operator.minOperands := by simpa using h
    rw [Value.rename_list, List.map_cons, Value.rename_symbol, ρ.operator,
      eval_shortOperator fuel h, eval_shortOperator fuel h', List.length_map]
    exact dispatch (ρ.operator o).symm (.fail rfl)
  | conditional c y n extra hc hy hn =>
    simp only [Value.rename_list, List.map_cons, Value.rename_symbol, ρ.map_if, eval_conditional,
      List.length_map]
    exact dispatch ρ.map_if.symm (.deeper _ _ (.choose htrue hc hy hn))
  | loop c b extra hc hb =>
    simp only [Value.rename_list, List.map_cons, Value.rename_symbol, ρ.map_while, eval_loop,
      List.length_map]
    exact dispatch ρ.map_while.symm (.deeper _ _ (.loop htrue hc hb fuel rfl))
  | sequence es ih =>
    simp only [Value.rename_list, List.map_cons, Value.rename_symbol, ρ.map_do, eval_sequence,
      List.length_map, List.map_map]
    refine dispatch ρ.map_do.symm (.deeper _ _ (.bind (.collect ih) fun vs ws hvw => .pure ?_))
    rw [Value.rename_list]
    congr 1
    induction hvw with
    | nil => rfl
    | cons hv _ ihvw => rw [List.map_cons, hv, ihvw]
  | assign x e extra he =>
    simp only [Value.rename_list, List.map_cons, Value.rename_symbol, ρ.map_set, eval_assign,
      List.length_map]
    refine dispatch ρ.map_set.symm (.deeper _ _ (.assignFrom ?_ he))
    rintro s _ v _ rfl rfl
    simp only [State.assign, State.rename, Env.insert_rename, List.map_cons, Event.rename]
  | badTarget t e extra h =>
    have h' : ∀ x, t.rename ρ ≠ .symbol x := by
      intro x hx
      cases t <;> simp [Value.rename] at hx
      exact h _ rfl
    simp only [Value.rename_list, List.map_cons, Value.rename_symbol, ρ.map_set, eval_assign,
      List.length_map]
    rw [Run.assignFrom_badTarget _ h, Run.assignFrom_badTarget _ h']
    exact dispatch ρ.map_set.symm (.deeper _ _ (.deeper _ _ (.fail rfl)))
  | print e extra he =>
    simp only [Value.rename_list, List.map_cons, Value.rename_symbol, ρ.map_print, eval_print,
      List.length_map]
    refine dispatch ρ.map_print.symm (.deeper _ _ (.printFrom ?_ (fun _ => rfl) ?_ he))
    · rintro v _ rfl
      rw [Value.foreign?_rename]
    · rintro s _ v _ rfl rfl
      rfl
  | binary o l r extra hl hr =>
    simp only [Value.rename_list, List.map_cons, Value.rename_symbol, ρ.operator, eval_binary,
      List.length_map]
    refine dispatch (ρ.operator o).symm (.bind hl ?_)
    rintro v _ rfl
    refine .bind hr ?_
    rintro w _ rfl
    rw [Operator.apply_rename]
    refine .ofExcept (fun u hu => ⟨u, hu, ?_⟩) fun f hf => ⟨f, hf, ?_⟩
    · rcases Operator.eq_of_apply hu with ⟨n, rfl, -⟩ | ⟨b, rfl⟩ <;> rfl
    · rcases Operator.fault_of_apply hf with rfl | ⟨m, n, rfl⟩ <;> rfl

/-- An expression and its renaming both diverge, or both end: the renaming with what the expression
ends with and leaves, renamed. -/
theorem eval_diverges_or_ends_rename (ρ : Renaming) (e : Value) (s : State) :
    (Diverges (eval · e) s ∧ Diverges (eval · (e.rename ρ)) (s.rename ρ)) ∨
    ∃ r t, Ends (eval · e) s r t ∧
      Ends (eval · (e.rename ρ)) (s.rename ρ) (renameResult ρ r) (t.rename ρ) := by
  have hmono (e : Value) (i j : Nat) (hij : i ≤ j) := eval_below hij e
  have hlock (fuel : Nat) := eval_lockstep_rename ρ fuel e
  rcases Run.Lockstep.diverge_or_end (hmono _) (hmono _) hlock rfl with hdiv | hend
  · exact .inl hdiv
  · obtain ⟨r, r', t, t', ht, ht', hmatch⟩ := hend
    refine .inr ⟨r, t, ht, ?_⟩
    cases r <;> cases r' <;> cases hmatch
    · next hf hs => subst hf hs; exact ht'
    · next hv hs => subst hv hs; exact ht'

/-- **Equivariance.** Let all names be renamed in an expression and in an environment, in an order
preserving way that fixes the reserved names. The renamed expression diverges if the expression
does, gives the renamed value if the expression gives the value, and fails with a fault of the same
kind if it fails. It leaves the renamed environment and prints the renamed values, in order. -/
theorem eval_equivariant (ρ : Renaming) (e : Value) (env : Env) :
    (Diverges (eval · (e.rename ρ)) { env := env.rename ρ } ↔
      Diverges (eval · e) { env := env }) ∧
    (∀ v, (∃ t, Ends (eval · (e.rename ρ)) { env := env.rename ρ } (.ok (v.rename ρ)) t) ↔
      ∃ s, Ends (eval · e) { env := env } (.ok v) s) ∧
    (∀ k : Kind,
      (∃ f t, Ends (eval · (e.rename ρ)) { env := env.rename ρ } (.error f) t ∧ f.kind = k) ↔
        ∃ f s, Ends (eval · e) { env := env } (.error f) s ∧ f.kind = k) ∧
    ∀ r s, Ends (eval · e) { env := env } r s →
      ∃ t, Ends (eval · (e.rename ρ)) { env := env.rename ρ } (renameResult ρ r) t ∧
        t.env = s.env.rename ρ ∧ t.prints = s.prints.map (Value.rename ρ) ∧
        Event.outputText t.events =
          String.join (s.prints.map fun v => Event.line (v.rename ρ)) := by
  rcases eval_diverges_or_ends_rename ρ e { env := env } with ⟨hdiv, hdiv'⟩ | ⟨r, s, hs, ht⟩
  · refine ⟨iff_of_true hdiv' hdiv, fun v => ?_, fun k => ?_, fun r s hs => ?_⟩
    · exact iff_of_false (fun ⟨_, h⟩ => hdiv'.not_ends h) fun ⟨_, h⟩ => hdiv.not_ends h
    · exact iff_of_false (fun ⟨_, _, h, _⟩ => hdiv'.not_ends h) fun ⟨_, _, h, _⟩ => hdiv.not_ends h
    · exact absurd hs hdiv.not_ends
  · refine ⟨iff_of_false (·.not_ends ht) (·.not_ends hs), fun v => ⟨?_, ?_⟩, fun k => ⟨?_, ?_⟩,
      fun r' s' hs' => ?_⟩
    · rintro ⟨t, h⟩
      obtain ⟨hr, -⟩ := ht.unique h
      cases r with
      | error f => cases hr
      | ok w =>
        rw [renameResult, Except.ok.injEq] at hr
        exact ⟨s, Value.rename_injective ρ hr ▸ hs⟩
    · rintro ⟨s', h⟩
      obtain ⟨rfl, -⟩ := hs.unique h
      exact ⟨_, ht⟩
    · rintro ⟨f, t, h, rfl⟩
      obtain ⟨hr, -⟩ := ht.unique h
      cases r with
      | ok w => cases hr
      | error g => cases hr; exact ⟨g, s, hs, (Fault.kind_rename ρ g).symm⟩
    · rintro ⟨f, s', h, rfl⟩
      obtain ⟨rfl, -⟩ := hs.unique h
      exact ⟨_, _, ht, Fault.kind_rename ρ f⟩
    · obtain ⟨rfl, rfl⟩ := hs.unique hs'
      refine ⟨_, ht, rfl, State.prints_rename ρ s, ?_⟩
      rw [State.outputText_eq_prints, State.prints_rename, List.map_map]
      rfl

theorem lt_append_of_lt_x {a : String} (h : a < "x") (b : String) : a < "x" ++ b := by
  rw [String.lt_iff, String.toList_append]
  rw [String.lt_iff] at h
  cases ha : a.toList with
  | nil => exact List.nil_lt_cons _ _
  | cons c cs =>
    rw [ha] at h
    rcases List.cons_lt_cons_iff.1 h with hc | ⟨-, hcs⟩
    · exact List.cons_lt_cons_iff.2 (.inl hc)
    · exact absurd hcs (List.not_lt_nil cs)

/-- Names from `x` on get an `x` in front. The reserved names all stand before `x`. -/
def Renaming.crowded : Renaming where
  map a := if a < "x" then a else "x" ++ a
  increasing a b h := by
    split
    · next ha =>
      split
      · exact h
      · exact lt_append_of_lt_x ha b
    · next ha =>
      split
      · next hb => exact absurd (String.lt_trans h hb) ha
      · rw [String.lt_iff] at h ⊢
        rw [String.toList_append, String.toList_append]
        exact List.append_left_lt h
  form f := by cases f <;> decide
  operator o := by cases o <;> decide

/-- A program that compares two names, keeps the answer in a third one and prints all of them. -/
theorem eval_equivariant_crowded :
    let program (x y z : String) : Value := .list [.symbol "do",
      .list [.symbol "set", .symbol x, .list [.symbol "<", .symbol y, .symbol z]],
      .list [.symbol "print", .list [.symbol "do", .symbol x, .symbol y, .symbol "i"]]]
    let env (z : String) : Env := Env.empty.insert z (.symbol z)
    (program "x" "y" "z").rename .crowded = program "xx" "xy" "xz" ∧
    (env "z").rename .crowded = env "xz" ∧
    (∃ s, Ends (eval · (program "x" "y" "z")) { env := env "z" }
      (.ok (.list [.bool true, .list [.bool true, .symbol "y", .symbol "i"]])) s) ∧
    ∃ t, Ends (eval · (program "xx" "xy" "xz")) { env := env "xz" }
        (.ok (.list [.bool true, .list [.bool true, .symbol "xy", .symbol "i"]])) t ∧
      Event.outputText t.events = "List([True, Symbol(\"xy\"), Symbol(\"i\")])\n" := by
  intro program env
  have hprogram : (program "x" "y" "z").rename .crowded = program "xx" "xy" "xz" := rfl
  have henv : (env "z").rename .crowded = env "xz" := Env.insert_rename _ Env.empty "z" _
  obtain ⟨s, hs, hprints⟩ : ∃ s, (∀ fuel, eval fuel (program "x" "y" "z") none { env := env "z" } =
      .done (.list [.bool true, .list [.bool true, .symbol "y", .symbol "i"]]) s) ∧
      s.prints = [.list [.bool true, .symbol "y", .symbol "i"]] := ⟨_, fun _ => rfl, rfl⟩
  have hend : Ends (eval · (program "x" "y" "z")) { env := env "z" }
      (.ok (.list [.bool true, .list [.bool true, .symbol "y", .symbol "i"]])) s :=
    ⟨0, fun fuel _ => hs fuel⟩
  obtain ⟨t, ht, -, -, hprinted⟩ := (eval_equivariant .crowded _ _).2.2.2 _ _ hend
  rw [hprogram, henv] at ht
  refine ⟨hprogram, henv, ⟨s, hend⟩, t, ht, ?_⟩
  rw [hprinted, hprints]
  rfl

end PocketLisp
