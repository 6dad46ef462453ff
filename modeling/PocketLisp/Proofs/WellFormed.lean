import Mathlib.Data.Set.Basic
import PocketLisp.Proofs.Invariant
import PocketLisp.Proofs.TextFault
import PocketLisp.Session

/-!
# Well-formed sessions

In a session that is driven by source texts, every value that is bound, returned or printed is well
formed at every depth: its integers are in range, no parenthesis and no foreign object is in it, and
every name was spelled in one of the texts so far.

* `Value.WellFormed names`, `Env.WellFormed`, `State.WellFormed`: the invariant. `names` are the
  names that may occur.
* `Fault.WellFormed names`: a fault of a text, with well-formed data.
* `mentioned`: the names that the symbol tokens of texts spell.
* `eval_keeps`: evaluation keeps the invariant, also where it fails, and fails with faults of texts
  only.
* `evalText_keeps`, `Session.wellFormed_step`: so does a text, for the names that it mentions.
* `session_wellFormed`: every session of texts, call by call.
-/

namespace PocketLisp

/-- A leaf of a well-formed value. -/
def Value.WellFormedLeaf (names : Set String) : Value → Prop
  | .int n => minInt ≤ n ∧ n ≤ maxInt
  | .symbol x => x ∈ names
  | .bool _ => True
  | .list _ | .marker _ | .foreign _ => False

/-- A tree of lists over integers in range, symbols among `names` and truth values. -/
def Value.WellFormed (names : Set String) (v : Value) : Prop := v.Tree (WellFormedLeaf names)

/-- All bound names are among `names`, and what they are bound to is well formed. -/
def Env.WellFormed (names : Set String) (env : Env) : Prop :=
  ∀ x v, env.get? x = some v → x ∈ names ∧ v.WellFormed names

/-- All that is bound and all that was printed is well formed. -/
structure State.WellFormed (names : Set String) (s : State) : Prop where
  env : s.env.WellFormed names
  printed : ∀ v, .printed v ∈ s.log → v.WellFormed names

/-- A fault of a text. A literal out of range is spelled as an integer, and an unbound name is among
`names`. -/
structure Fault.WellFormed (names : Set String) (f : Fault) : Prop where
  ofText : f.OfText
  literal : ∀ g, f = .lex g → g.Genuine
  unbound : ∀ x, f = .eval (.unbound x) → x ∈ names

section Invariant

variable {names more : Set String}

theorem Fault.WellFormed.of_eval {f : EvalFault} (h : (Fault.eval f).OfText)
    (hf : ∀ x, f ≠ .unbound x) : (Fault.eval f).WellFormed names := by
  refine ⟨h, by simp, fun x hx => ?_⟩
  cases hx
  exact absurd rfl (hf x)

theorem Value.WellFormed.mono (hsub : ∀ x ∈ names, x ∈ more) {v : Value}
    (h : v.WellFormed names) : v.WellFormed more := by
  refine Tree.mono (fun w hw => ?_) h
  cases w with
  | symbol x => exact hsub x hw
  | _ => exact hw

theorem Value.WellFormed.items {items : List Value} (h : (Value.list items).WellFormed names) :
    ∀ v ∈ items, v.WellFormed names :=
  Tree.items (fun _ hleaf => hleaf) h

theorem Value.WellFormed.foreign?_eq_none {v : Value} (h : v.WellFormed names) :
    v.foreign? = none := by
  induction h with
  | @leaf v h =>
    cases v with
    | foreign x => exact h.elim
    | list items => exact h.elim
    | _ => rfl
  | list _ ih =>
    rw [foreign?_list]
    exact foreignItem?_eq_none.2 ih

theorem Env.WellFormed.mono (hsub : ∀ x ∈ names, x ∈ more) {env : Env}
    (h : env.WellFormed names) : env.WellFormed more := by
  intro x v hx
  obtain ⟨hname, hv⟩ := h x v hx
  exact ⟨hsub x hname, hv.mono hsub⟩

theorem Env.wellFormed_empty : Env.empty.WellFormed names := by
  intro x v hx
  rw [Env.get?_empty] at hx
  cases hx

theorem Env.WellFormed.insert {env : Env} (h : env.WellFormed names) {x : String} {v : Value}
    (hx : x ∈ names) (hv : v.WellFormed names) : (env.insert x v).WellFormed names := by
  intro y w hy
  rw [Env.get?_insert] at hy
  split at hy
  · next hyx => cases hy; exact ⟨hyx ▸ hx, hv⟩
  · exact h y w hy

theorem State.WellFormed.note {s : State} (h : s.WellFormed names) {e : Event}
    (he : ∀ v, e = .printed v → v.WellFormed names) : (s.note e).WellFormed names := by
  refine ⟨h.env, fun v hv => ?_⟩
  rcases List.mem_cons.1 hv with hv | hv
  · exact he v hv.symm
  · exact h.printed v hv

theorem State.WellFormed.assign {s : State} (h : s.WellFormed names) {x : String} {v : Value}
    (hx : x ∈ names) (hv : v.WellFormed names) : (s.assign x v).WellFormed names := by
  refine ⟨h.env.insert hx hv, fun w hw => ?_⟩
  rcases List.mem_cons.1 hw with hw | hw
  · cases hw
  · exact h.printed w hw

end Invariant

/-! ## Evaluation -/

namespace Operator

variable {o : Operator} {l r v : Value}

/-- An arithmetic result is in range, because it was checked. -/
theorem eq_int_of_onInts {f : Int → Int → Int}
    (h : onInts o (fun m n => checked o m n (f m n)) l r = .ok v) :
    ∃ n, v = .int n ∧ Value.inRange n = true := by
  unfold onInts at h
  split at h
  · dsimp only [checked] at h
    split at h
    · next hrange => cases h; exact ⟨_, rfl, hrange⟩
    · cases h
  · cases h

theorem eq_bool_of_compared {ints : Int → Int → Bool} {texts : String → String → Bool}
    (h : compared o ints texts l r = .ok v) : ∃ b, v = .bool b := by
  unfold compared at h
  split at h
  · cases h; exact ⟨_, rfl⟩
  · cases h; exact ⟨_, rfl⟩
  · cases h

theorem eq_of_apply (h : o.apply l r = .ok v) :
    (∃ n, v = .int n ∧ Value.inRange n = true) ∨ ∃ b, v = .bool b := by
  cases o with
  | add => exact .inl (eq_int_of_onInts h)
  | subtract => exact .inl (eq_int_of_onInts h)
  | multiply => exact .inl (eq_int_of_onInts h)
  | greater => exact .inr (eq_bool_of_compared h)
  | less => exact .inr (eq_bool_of_compared h)
  | equal => cases h; exact .inr ⟨_, rfl⟩

end Operator

section Evaluation

variable {names : Set String}

theorem Operator.wellFormed_fault_of_apply {o : Operator} {l r : Value} {f : EvalFault}
    (h : o.apply l r = .error f) : (Fault.eval f).WellFormed names := by
  rcases Operator.fault_of_apply h with rfl | ⟨m, n, rfl⟩
  · exact .of_eval (.mismatch o) (by simp)
  · exact .of_eval (.overflow o m n) (by simp)

theorem Operator.wellFormed_of_apply {o : Operator} {l r v : Value} (h : o.apply l r = .ok v) :
    v.WellFormed names := by
  rcases Operator.eq_of_apply h with ⟨n, rfl, hn⟩ | ⟨b, rfl⟩
  · exact .leaf (Value.inRange_iff.1 hn)
  · exact .leaf trivial

/-- Evaluating a well-formed expression keeps the invariant, and gives a well-formed value or fails
with a fault of a text. -/
theorem eval_keeps (fuel : Nat) {e : Value} (he : e.WellFormed names) :
    Run.Keeps (State.WellFormed names) (Value.WellFormed names) (Fault.WellFormed names)
      (eval fuel e) := by
  have dispatch {head : String} {i : Nat} {m : Run Value}
      (h : Run.Keeps (State.WellFormed names) (Value.WellFormed names) (Fault.WellFormed names) m) :
      Run.Keeps (State.WellFormed names) (Value.WellFormed names) (Fault.WellFormed names)
        (.dispatch head i m) :=
    .dispatch (fun s hs => hs.note (by simp)) h
  have hbound (x : String) (s : State) (v : Value) (hs : s.WellFormed names)
      (hx : s.env.get? x = some v) : v.WellFormed names := (hs.env x v hx).2
  induction e using Value.exprInduct with
  | int n => exact .deeper _ (.pure he)
  | bool b => exact .deeper _ (.pure he)
  | foreign x => exact .deeper _ (.pure he)
  | marker p => exact (he.of_atom rfl).elim
  | empty => exact .deeper _ (.fail (.of_eval .emptyList (by simp)))
  | symbol x => exact .deeper _ (.symbolValue (hbound x) fun _ _ _ => he)
  | badHead head operands h =>
    rw [eval_badHead fuel _ h]
    exact .deeper _ (.deeper _ (.fail (.of_eval (.badHead h) (by simp))))
  | ordinary x operands h =>
    rw [eval_ordinary fuel _ h]
    have hx : x ∈ names := (he.items (.symbol x) (by simp)).of_atom rfl
    refine dispatch (.headValue (hbound x) fun _ _ _ => ⟨.unbound h, by simp, fun y hy => ?_⟩)
    cases hy
    exact hx
  | shortForm f operands h =>
    rw [eval_shortForm fuel h]
    exact dispatch (.fail (.of_eval (.formOperands f) (by simp)))
  | shortOperator o operands h =>
    rw [eval_shortOperator fuel h]
    exact dispatch (.fail (.of_eval (.operatorOperands o) (by simp)))
  | conditional c y n extra hc hy hn =>
    have hitems := he.items
    rw [eval_conditional]
    exact dispatch (.deeper _ (.choose (hc (hitems c (by simp))) (hy (hitems y (by simp)))
      (hn (hitems n (by simp)))))
  | loop c b extra hc hb =>
    have hitems := he.items
    rw [eval_loop]
    exact dispatch (.deeper _ (.loop (hc (hitems c (by simp))) (hb (hitems b (by simp))) fuel
      (.leaf trivial)))
  | sequence es ih =>
    have hitems := he.items
    rw [eval_sequence]
    refine dispatch (.deeper _ (.bind (.collect fun e he => ih e he (hitems e (by simp [he]))) ?_))
    exact fun vs hvs => .pure (.list hvs)
  | assign x e extra ih =>
    have hitems := he.items
    have hx : x ∈ names := (hitems (.symbol x) (by simp)).of_atom rfl
    rw [eval_assign]
    refine dispatch (.deeper _ (.assignFrom (fun s v hs hv => ?_) (ih (hitems e (by simp)))))
    exact hs.assign hx hv
  | badTarget t e extra h =>
    rw [eval_assign, Run.assignFrom_badTarget _ h]
    exact dispatch (.deeper _ (.deeper _ (.fail (.of_eval (.badTarget h) (by simp)))))
  | print e extra ih =>
    have hitems := he.items
    rw [eval_print]
    refine dispatch (.deeper _ (.printFrom (fun v y hv hy => ?_) (fun s v hs hv => ?_)
      (ih (hitems e (by simp)))))
    · rw [hv.foreign?_eq_none] at hy
      cases hy
    · exact hs.note fun w hw => by cases hw; exact hv
  | binary o l r extra hl hr =>
    have hitems := he.items
    rw [eval_binary]
    refine dispatch (.bind (hl (hitems l (by simp))) fun v _ => ?_)
    refine .bind (hr (hitems r (by simp))) fun w _ => ?_
    exact .ofExcept (fun u hu => Operator.wellFormed_of_apply hu) fun f hf =>
      Operator.wellFormed_fault_of_apply hf

end Evaluation

/-! ## Source texts -/

/-- `x` is spelled by a symbol token of `text`. -/
def Mentions (text x : String) : Prop :=
  ∃ t ∈ (Cursor.ofText text).tokens, t.token = .symbol x ∧
    x.toList <+: text.toList.drop t.pos

/-- The names that the symbol tokens of the texts spell. -/
def mentioned (texts : List String) : Set String := { x | ∃ text ∈ texts, Mentions text x }

theorem mentioned_mono {texts more : List String} (h : ∀ text ∈ texts, text ∈ more) :
    ∀ x ∈ mentioned texts, x ∈ mentioned more := by
  rintro x ⟨text, htext, hx⟩
  exact ⟨text, h text htext, hx⟩

/-- A symbol token is spelled where it stands. -/
theorem mentions_of_mem_tokens {text x : String} {t : Located}
    (ht : t ∈ (Cursor.ofText text).tokens) (hx : t.token = .symbol x) : Mentions text x := by
  refine ⟨t, ht, hx, ?_⟩
  obtain ⟨pre, y, post, hstands⟩ := Cursor.stands_of_mem_tokens ht
  have htok := hstands.token
  rw [hx] at htok
  have htext : text.toList = pre ++ (y.spelling ++ post) := hstands.rest
  have hdrop : t.pos = pre.length := by simpa [Cursor.ofText] using hstands.pos
  rcases Lexeme.token_cases htok with ⟨p, -, hp⟩ | ⟨cs, rfl, hcs⟩ | ⟨cs, -, -, -, hcs⟩
  · cases hp
  · cases hcs
    rw [String.toList_ofList, htext, hdrop, List.drop_left]
    exact List.prefix_append cs post
  · cases hcs

theorem wellFormed_of_readText {names : Set String} {text : String} {forest : Forest}
    (hnames : ∀ x, Mentions text x → x ∈ names) (h : (readText text).result = .ok forest) :
    ∀ v ∈ forest, v.WellFormed names := by
  refine tree_of_readText h fun v hv hatom => ?_
  obtain ⟨t, ht, rfl⟩ := List.mem_map.1 hv
  obtain ⟨pre, x, post, hstands⟩ := Cursor.stands_of_mem_tokens ht
  rcases Lexeme.token_cases hstands.token with ⟨p, -, hp⟩ | ⟨cs, -, hcs⟩ | ⟨cs, -, -, hrange, hcs⟩
  · rw [hp] at hatom; cases hatom
  · rw [hcs]; exact hnames _ (mentions_of_mem_tokens ht hcs)
  · rw [hcs]; exact Value.inRange_iff.1 hrange

theorem wellFormed_fault_of_readText {names : Set String} {text : String} {f : Fault}
    (h : (readText text).result = .error f) : f.WellFormed names := by
  rcases fault_of_readText h with ⟨g, hg, rfl⟩ | rfl | ⟨count, hcount, rfl⟩
  · have hgenuine := Cursor.genuine_of_fault? hg
    exact ⟨hgenuine.ofText, fun g' hg' => by cases hg'; exact hgenuine, by simp⟩
  · exact ⟨.surplusClose, by simp, by simp⟩
  · exact ⟨.leftOpen hcount, by simp, by simp⟩

/-- A text keeps the invariant for the names that it mentions, whether or not it can be read, and
fails with faults of texts only. -/
theorem evalText_keeps (fuel : Nat) {names : Set String} {text : String}
    (hnames : ∀ x, Mentions text x → x ∈ names) :
    Run.Keeps (State.WellFormed names) (fun vs => ∀ v ∈ vs, Value.WellFormed names v)
      (Fault.WellFormed names) (evalText fuel text) := by
  unfold evalText
  refine .bind (.notes fun e he s hs => hs.note fun v hv => ?_) fun _ _ => ?_
  · obtain ⟨t, -, rfl⟩ := List.mem_map.1 he
    cases hv
  · split
    · next f hread => exact .fail (wellFormed_fault_of_readText hread)
    · next forest hread =>
      have hforest := wellFormed_of_readText hnames hread
      refine .bind (.note fun s hs => hs.note (by simp)) fun _ _ => ?_
      refine .bind (.note fun s hs => hs.note (by simp)) fun _ _ => ?_
      rw [evalForest, evalItems_eq_map]
      exact .collect fun e he => eval_keeps fuel (hforest e he)

/-! ## Sessions -/

/-- All that a call returned, printed and left bound is well formed. -/
structure WellFormedCall (names : Set String) (reply : Reply) (session : Session) : Prop where
  env : session.env.WellFormed names
  values : ∀ a, reply.answer = .ok a → ∃ vs, a = .values vs ∧ ∀ v ∈ vs, v.WellFormed names
  printed : ∀ v, .printed v ∈ reply.events → v.WellFormed names

/-- A step that runs something tells how the run ended and keeps what it left bound. -/
theorem Session.eq_of_perform {α : Type} {session after : Session} {m : Run α}
    {answer : α → Answer} {reply : Reply}
    (h : session.perform m answer = some (reply, after)) :
    ∃ r s, m none { env := session.env } = .ended r s ∧
      reply = { answer := r.map answer, events := s.events, channel := session.channel } ∧
      after = { session with env := s.env } := by
  unfold Session.perform at h
  split at h
  · next a s hr => cases h; exact ⟨.ok a, s, hr, rfl, rfl⟩
  · next f s hr => cases h; exact ⟨.error f, s, hr, rfl, rfl⟩
  · cases h

theorem Session.run_cons_eq_some {fuel : Nat} {session : Session} {x : Step} {xs : List Step}
    {calls : List (Reply × Session)} (h : session.run fuel (x :: xs) = some calls) :
    ∃ reply after rest, session.step fuel x = some (reply, after) ∧
      after.run fuel xs = some rest ∧ calls = (reply, after) :: rest := by
  rw [Session.run] at h
  split at h
  · cases h
  · next r hstep =>
    obtain ⟨rest, hrest, rfl⟩ := Option.map_eq_some_iff.1 h
    exact ⟨r.1, r.2, rest, hstep, hrest, rfl⟩

/-- The step: one call with a text. -/
theorem Session.wellFormed_step {fuel : Nat} {names : Set String} {session after : Session}
    {text : String} {reply : Reply} (hnames : ∀ x, Mentions text x → x ∈ names)
    (henv : session.env.WellFormed names)
    (h : session.step fuel (.eval text) = some (reply, after)) :
    WellFormedCall names reply after := by
  obtain ⟨r, s, hr, rfl, rfl⟩ := eq_of_perform h
  obtain ⟨hs, hvalues⟩ := (evalText_keeps fuel hnames).of_ended ⟨henv, by simp⟩ hr
  refine ⟨hs.env, fun a ha => ?_, fun v hv => hs.printed v (List.mem_reverse.1 hv)⟩
  cases r with
  | ok vs => cases ha; exact ⟨vs, rfl, hvalues⟩
  | error f => cases ha

/-- The run: call after call, with the texts `earlier` before. -/
theorem Session.wellFormed_run {fuel : Nat} {earlier texts : List String} {session : Session}
    {calls : List (Reply × Session)} (henv : session.env.WellFormed (mentioned earlier))
    (h : session.run fuel (texts.map .eval) = some calls) :
    calls.length = texts.length ∧
    ∀ i reply after, calls[i]? = some (reply, after) →
      WellFormedCall (mentioned (earlier ++ texts.take (i + 1))) reply after := by
  induction texts generalizing session earlier calls with
  | nil => cases h; simp
  | cons text texts ih =>
    obtain ⟨reply, after, rest, hstep, hrest, rfl⟩ := Session.run_cons_eq_some h
    have hcall : WellFormedCall (mentioned (earlier ++ [text])) reply after := by
      refine wellFormed_step (fun x hx => ⟨text, by simp, hx⟩) (henv.mono ?_) hstep
      exact mentioned_mono fun t ht => List.mem_append_left _ ht
    obtain ⟨hlength, hcalls⟩ := ih hcall.env hrest
    refine ⟨by simp [hlength], fun i reply' after' hi => ?_⟩
    cases i with
    | zero => cases hi; simpa using hcall
    | succ i =>
      have h' := hcalls i reply' after' hi
      rwa [List.append_assoc, List.singleton_append] at h'

/-- **Well-formedness.** In a session that starts with nothing bound and evaluates texts, whether
they fail or not, all that is bound after a call and all that the call returned or printed is well
formed, with names from the texts up to that call. -/
theorem session_wellFormed (fuel : Nat) (channel : Option String) (texts : List String)
    (calls : List (Reply × Session))
    (h : Session.run fuel { channel := channel } (texts.map .eval) = some calls) :
    calls.length = texts.length ∧
    ∀ i reply after, calls[i]? = some (reply, after) →
      WellFormedCall (mentioned (texts.take (i + 1))) reply after := by
  have henv : Env.empty.WellFormed (mentioned []) := Env.wellFormed_empty
  exact Session.wellFormed_run henv h

/-- One call that succeeds, one that overflows after a binding, and one that cannot be read. -/
theorem session_wellFormed_failing :
    let texts := ["(set x (+ 2147483646 1)) (print (do x y))", "(set z (do x)) (+ x 1)",
      "(set w 1))"]
    ∃ calls, Session.run 1 {} (texts.map .eval) = some calls ∧
      calls.map (fun call => call.2.env.entries.map (·.1)) = [["x"], ["x", "z"], ["x", "z"]] ∧
      calls.map (fun call => call.1.printed) =
        ["List([Int(2147483647), Symbol(\"y\")])\n", "", ""] ∧
      ∀ i reply after, calls[i]? = some (reply, after) →
        WellFormedCall (mentioned (texts.take (i + 1))) reply after := by
  intro texts
  have hrun : (Session.run 1 {} (texts.map .eval)).map (fun calls => calls.map fun call =>
      (call.2.env.entries.map (·.1), call.1.printed)) =
      some [(["x"], "List([Int(2147483647), Symbol(\"y\")])\n"), (["x", "z"], ""),
        (["x", "z"], "")] := by
    decide +kernel
  obtain ⟨calls, h, hcalls⟩ := Option.map_eq_some_iff.1 hrun
  have hnames := congrArg (List.map Prod.fst) hcalls
  have hprinted := congrArg (List.map Prod.snd) hcalls
  rw [List.map_map] at hnames hprinted
  exact ⟨calls, h, hnames, hprinted, (session_wellFormed 1 none texts calls h).2⟩

end PocketLisp
