import PocketLisp.Proofs.WellFormed

/-!
# Where printed text goes

A session has one channel for printed text, and steps that choose it. What any other step gives,
what it leaves bound and what it prints does not depend on the channel; and its text goes to the
channel chosen last, whole and to no other. A failure or a fresh start leaves the choice as it is.

* `Step.directed?`, `Session.selected`: the channel that a step chooses, and the one chosen last.
* `Told`: what is told about a call, apart from the channel. `Session.told`: that, for the steps
  that choose no channel.
* `Session.received`: the text that arrived on a channel.
* `Session.told_step`, `Session.told_run`: one step, and many, on whatever channels.
* `Session.channel_step`, `Session.channel_run`: the channel of one step, and of many.
* `session_routing`: two sessions that differ in the choice of channels.
-/

namespace PocketLisp

/-- The channel that a step chooses. -/
def Step.directed? : Step → Option (Option String)
  | .direct channel => some channel
  | _ => none

/-- The step computes something: it is not one that chooses a channel. -/
def Step.computes (x : Step) : Bool := x.directed?.isNone

/-- What is told about a call, apart from the channel. -/
structure Told where
  /-- The results, or the fault. -/
  answer : Except Fault Answer
  events : List Event
  /-- The bindings afterwards. -/
  env : Env

/-- What is told about a call. -/
def Told.of (call : Reply × Session) : Told := ⟨call.1.answer, call.1.events, call.2.env⟩

namespace Session

/-- The channel after some steps: the one chosen last, or `start` if none was chosen. -/
def selected (start : Option String) (steps : List Step) : Option String :=
  (steps.filterMap Step.directed?).getLast?.getD start

/-- What is told about the steps that compute something. -/
def told (steps : List Step) (calls : List (Reply × Session)) : List Told :=
  ((steps.zip calls).filter (·.1.computes)).map fun p => .of p.2

/-- The text that arrived on a channel. -/
def received (channel : Option String) (calls : List (Reply × Session)) : String :=
  String.join ((calls.filter (·.1.channel == channel)).map (·.1.printed))

variable {fuel : Nat} {s t : Session}

/-! ## What is computed -/

theorem told_perform {α : Type} (h : s.env = t.env) (m : Run α) (answer : α → Answer) :
    (s.perform m answer).map Told.of = (t.perform m answer).map Told.of := by
  unfold perform
  rw [h]
  cases m none { env := t.env } <;> rfl

/-- The step: what a step computes depends on the bindings only. -/
theorem told_step (fuel : Nat) (h : s.env = t.env) {x : Step} (hx : x.computes = true) :
    (s.step fuel x).map Told.of = (t.step fuel x).map Told.of := by
  cases x with
  | eval text => exact told_perform h _ _
  | evaluate expr => exact told_perform h _ _
  | set name v =>
    simp only [step, h]
    cases t.env.bind name v with
    | ok env => rfl
    | error f => simp [Told.of, reply, h]
  | get name default => simp [step, Told.of, reply, h]
  | lookup name => simp [step, Told.of, reply, h]
  | contains name => simp [step, Told.of, reply, h]
  | direct channel => cases hx
  | reset => rfl

theorem run_cons (x : Step) (xs : List Step) :
    s.run fuel (x :: xs) =
      (s.step fuel x).bind fun call => (call.2.run fuel xs).map (call :: ·) := by
  rw [run]
  cases s.step fuel x <;> rfl

theorem told_cons_of_computes {x : Step} (hx : x.computes = true) (xs : List Step)
    (call : Reply × Session) (calls : List (Reply × Session)) :
    told (x :: xs) (call :: calls) = .of call :: told xs calls := by
  simp [told, hx]

theorem told_cons_of_directs {x : Step} (hx : x.computes = false) (xs : List Step)
    (call : Reply × Session) (calls : List (Reply × Session)) :
    told (x :: xs) (call :: calls) = told xs calls := by
  simp [told, hx]

theorem step_of_directs (s : Session) (fuel : Nat) {x : Step} (hx : x.computes = false) :
    ∃ channel, x = .direct channel ∧
      s.step fuel x = some (({ s with channel := channel } : Session).reply (.ok .nothing),
        { s with channel := channel }) := by
  cases x with
  | direct channel => exact ⟨channel, rfl, rfl⟩
  | _ => cases hx

/-- The run: what is told about the steps that compute something is the same without the others. -/
theorem told_run (h : s.env = t.env) (xs : List Step) :
    (s.run fuel xs).map (told xs) =
      (t.run fuel (xs.filter Step.computes)).map (told (xs.filter Step.computes)) := by
  induction xs generalizing s t with
  | nil => rfl
  | cons x xs ih =>
    rw [run_cons]
    cases hx : x.computes with
    | false =>
      obtain ⟨channel, -, hstep⟩ := step_of_directs s fuel hx
      have hfilter : (x :: xs).filter Step.computes = xs.filter Step.computes := by simp [hx]
      rw [hstep, hfilter, Option.bind_some, Option.map_map]
      simp only [Function.comp_def, told_cons_of_directs hx]
      exact ih h
    | true =>
      have hfilter : (x :: xs).filter Step.computes = x :: xs.filter Step.computes := by simp [hx]
      have hstep := told_step fuel h hx
      rw [hfilter, run_cons]
      cases hs : s.step fuel x with
      | none =>
        rw [hs, Option.map_none] at hstep
        rw [Option.map_eq_none_iff.1 hstep.symm]
        rfl
      | some call =>
        rw [hs, Option.map_some] at hstep
        obtain ⟨call', ht, hcall⟩ := Option.map_eq_some_iff.1 hstep.symm
        rw [ht, Option.bind_some, Option.bind_some, Option.map_map, Option.map_map]
        simp only [Function.comp_def, told_cons_of_computes hx, hcall]
        have htail := ih (s := call.2) (t := call'.2) (congrArg Told.env hcall.symm)
        simpa [Function.comp_def] using congrArg (Option.map (Told.of call :: ·)) htail

/-! ## Where it goes -/

theorem selected_cons (start : Option String) (x : Step) (xs : List Step) :
    selected start (x :: xs) = selected (x.directed?.getD start) xs := by
  rw [selected, selected, List.filterMap_cons]
  cases x.directed? with
  | none => rfl
  | some channel => rw [List.getLast?_cons]; rfl

theorem channel_perform {α : Type} {m : Run α} {answer : α → Answer} {call : Reply × Session}
    (h : s.perform m answer = some call) :
    call.1.channel = s.channel ∧ call.2.channel = s.channel := by
  obtain ⟨r, u, -, hreply, hafter⟩ := eq_of_perform h
  rw [hreply, hafter]
  exact ⟨rfl, rfl⟩

/-- The step: the text of a step goes to the channel that it chooses, or else to that of the
session, which stays selected however the step ends. -/
theorem channel_step {x : Step} {call : Reply × Session} (h : s.step fuel x = some call) :
    call.1.channel = x.directed?.getD s.channel ∧
      call.2.channel = x.directed?.getD s.channel := by
  cases x with
  | eval text => exact channel_perform h
  | evaluate expr => exact channel_perform h
  | set name v =>
    simp only [step] at h
    split at h
    · cases h; exact ⟨rfl, rfl⟩
    · cases h; exact ⟨rfl, rfl⟩
  | get name default => cases h; exact ⟨rfl, rfl⟩
  | lookup name => cases h; exact ⟨rfl, rfl⟩
  | contains name => cases h; exact ⟨rfl, rfl⟩
  | direct channel => cases h; exact ⟨rfl, rfl⟩
  | reset => cases h; exact ⟨rfl, rfl⟩

/-- The run: every step is made in a session with the channel that was chosen last. -/
theorem channel_run {xs : List Step} {calls : List (Reply × Session)}
    (h : s.run fuel xs = some calls) :
    calls.length = xs.length ∧
    ∀ i x call, xs[i]? = some x → calls[i]? = some call →
      ∃ before : Session, before.channel = selected s.channel (xs.take i) ∧
        before.step fuel x = some call := by
  induction xs generalizing s calls with
  | nil => cases h; simp
  | cons y xs ih =>
    obtain ⟨reply, after, rest, hstep, hrest, rfl⟩ := run_cons_eq_some h
    obtain ⟨hlength, hcalls⟩ := ih hrest
    refine ⟨by simp [hlength], fun i x call hx hi => ?_⟩
    cases i with
    | zero =>
      cases hx
      cases hi
      exact ⟨s, rfl, hstep⟩
    | succ i =>
      rw [List.take_succ_cons, selected_cons, ← (channel_step hstep).2]
      exact hcalls i x call hx hi

theorem received_take_succ (channel : Option String) {calls : List (Reply × Session)} {i : Nat}
    {call : Reply × Session} (hi : calls[i]? = some call) :
    received channel (calls.take (i + 1)) =
      received channel (calls.take i) ++
        if channel = call.1.channel then call.1.printed else "" := by
  rw [received, received, List.take_add_one, hi, Option.toList_some, List.filter_append,
    List.map_append, String.join_append]
  congr 1
  by_cases hc : channel = call.1.channel
  · simp [hc]
  · have hc' : ¬ call.1.channel = channel := fun h => hc h.symm
    simp [hc, hc']

/-- The text of a step arrives whole on the channel chosen last before it, and nothing arrives
anywhere else. -/
theorem received_run {xs : List Step} {calls : List (Reply × Session)}
    (h : s.run fuel xs = some calls) {i : Nat} {x : Step} {call : Reply × Session}
    (hx : xs[i]? = some x) (hi : calls[i]? = some call) (channel : Option String) :
    received channel (calls.take (i + 1)) =
      received channel (calls.take i) ++
        if x.computes = true ∧ channel = selected s.channel (xs.take i) then call.1.printed
        else "" := by
  obtain ⟨before, hbefore, hstep⟩ := (channel_run h).2 i x call hx hi
  rw [received_take_succ channel hi, ← hbefore]
  cases hcomputes : x.computes with
  | true =>
    have hnone : x.directed? = none := Option.isNone_iff_eq_none.1 hcomputes
    have hchannel : call.1.channel = before.channel := by
      rw [(channel_step hstep).1, hnone, Option.getD_none]
    simp only [hchannel, true_and]
  | false =>
    obtain ⟨chosen, -, hdirect⟩ := step_of_directs before fuel hcomputes
    have hprinted : call.1.printed = "" := by
      cases hstep.symm.trans hdirect
      rfl
    simp [hprinted]

end Session

/-- **Routing.** Two sessions with the same bindings make the same steps, apart from those that
choose a channel, which may differ in number, place and choice. Then both are cut off, or about
every other step both are told the same: results or fault, events, and with them the text printed,
and bindings afterwards. In each of them, the text of a step arrives whole, behind what arrived
before, on the channel chosen last before the step, and nothing of it on any other channel. -/
theorem session_routing (fuel : Nat) (s t : Session) (xs ys : List Step) (henv : s.env = t.env)
    (hsteps : xs.filter Step.computes = ys.filter Step.computes) :
    (s.run fuel xs).map (Session.told xs) = (t.run fuel ys).map (Session.told ys) ∧
    ∀ calls, s.run fuel xs = some calls →
      calls.length = xs.length ∧
      ∀ i x call, xs[i]? = some x → calls[i]? = some call → ∀ channel,
        Session.received channel (calls.take (i + 1)) =
          Session.received channel (calls.take i) ++
            if x.computes = true ∧ channel = Session.selected s.channel (xs.take i)
            then call.1.printed else "" := by
  refine ⟨?_, fun calls hcalls => ⟨(Session.channel_run hcalls).1, ?_⟩⟩
  · rw [Session.told_run henv xs, hsteps, ← Session.told_run (s := t) rfl ys]
  · exact fun i x call hx hi channel => Session.received_run hcalls hx hi channel

/-- A loop that prints and fails, a fresh start and another print, once on one channel and once with
the channel chosen earlier and again in between. -/
theorem session_routing_redirected :
    let loop := "(while (> i 0) (do (print i) (set i (- i 1)) (if (= i 1) 0 (y))))"
    let xs : List Step := [.eval "(set i 2)", .direct (some "log"), .eval loop, .reset,
      .eval "(print 3)", .direct none, .contains (.symbol "i")]
    let ys : List Step := [.direct (some "early"), .eval "(set i 2)", .eval loop,
      .direct (some "late"), .reset, .eval "(print 3)", .contains (.symbol "i")]
    xs.filter Step.computes = ys.filter Step.computes ∧
    ∃ calls calls', Session.run 5 {} xs = some calls ∧ Session.run 5 {} ys = some calls' ∧
      Session.told xs calls = Session.told ys calls' ∧
      Session.received (some "log") calls = "Int(2)\nInt(1)\nInt(3)\n" ∧
      Session.received (some "early") calls' = "Int(2)\nInt(1)\n" ∧
      Session.received (some "late") calls' = "Int(3)\n" := by
  intro loop xs ys
  have hsteps : xs.filter Step.computes = ys.filter Step.computes := rfl
  have hxs : (Session.run 5 {} xs).map (Session.received (some "log")) =
      some "Int(2)\nInt(1)\nInt(3)\n" := by decide +kernel
  have hys : (Session.run 5 {} ys).map (fun calls =>
      (Session.received (some "early") calls, Session.received (some "late") calls)) =
      some ("Int(2)\nInt(1)\n", "Int(3)\n") := by decide +kernel
  obtain ⟨calls, hcalls, hlog⟩ := Option.map_eq_some_iff.1 hxs
  obtain ⟨calls', hcalls', hboth⟩ := Option.map_eq_some_iff.1 hys
  obtain ⟨hearly, hlate⟩ := Prod.mk.inj hboth
  have htold := (session_routing 5 {} {} xs ys rfl hsteps).1
  rw [hcalls, hcalls', Option.map_some, Option.map_some, Option.some.injEq] at htold
  exact ⟨hsteps, calls, calls', hcalls, hcalls', htold, hlog, hearly, hlate⟩

end PocketLisp
