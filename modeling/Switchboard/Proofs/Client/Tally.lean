import Switchboard.Proofs.Client.Dispatch
import Switchboard.Proofs.Client.Series

/-! The metrics of a client against the attempts of its calls. -/
namespace Switchboard.Client

open Discovery (Node)
open Rpc

variable {σ : Type} {c c' : Client σ} {m : Client.Moment} {call : Call} {loop : Retry Outcome}
  {n : Node} {info : AttemptInfo} {e : CallEvent} {stage : Stage} {s : σ} {now : Instant}

/-- The attempt that a call is in the middle of. -/
def Stage.info? : Stage → Option AttemptInfo
  | .dialling _ a => some a.info
  | .exchanging _ a _ _ => some a.info
  | .judging _ info _ => some info
  | _ => none

/-- A stage of a call that is not to open a stream. -/
def Stage.Unary : Stage → Prop
  | .dialling _ a => a.outgoing.isLeft = true
  | .judging _ _ r => ∀ ch, r ≠ .ok (.channel ch)
  | _ => True

/-- What the hooks of an attempt are told first that begins when it is the turn of the call. -/
def Call.told? (call : Call) (m : Client.Moment) : Option AttemptInfo :=
  match call.stage with
  | .looping loop =>
    match loop.phase, (loop.start call.rules (Client.check m call)).phase with
    | .ready, .trying n =>
      some (call.info m.now n (loop.start call.rules (Client.check m call)).attempt)
    | _, _ => none
  | _ => none

theorem unary_failed (loop : Retry Outcome) (info : AttemptInfo) (e : CallError) :
    Stage.Unary (.judging loop info (.error e)) := by
  intro ch h
  cases h

theorem told?_eq_none (h : ∀ loop, call.stage ≠ .looping loop) : call.told? m = none := by
  unfold Call.told?
  split
  · rename_i hs
    exact absurd hs (h _)
  · rfl

/-- All that a step of a call can do to the hooks, and to the attempt that it is in. -/
inductive Handles (c : Client σ) (m : Client.Moment) (call : Call) :
    CallEvent → Client σ → Call → Prop
  | rests (e : CallEvent) (c' : Client σ) (stage : Stage) (next : Next) (hu : stage.Unary)
    (ht : e = .proceed → call.told? m = none) (hh : c'.hooks = c.hooks)
    (hi : stage.info? = call.stage.info?) : Handles c m call e c' { call with stage, next }
  | begins (c' : Client σ) (stage : Stage) (info left : AttemptInfo) (r : Except CallError Unit)
    (hu : stage.Unary) (ht : call.told? m = some info)
    (hx : c.wrappers.onRequest m.now info c.hooks = (c'.hooks, left, r))
    (hi : stage.info? = some left) : Handles c m call .proceed c' { call with stage }
  | ends (c' : Client σ) (stage : Stage) (info : AttemptInfo) (result : Except CallError Outcome)
    (hu : stage.Unary) (hs : call.stage.info? = some info)
    (hr : ∀ ch, result ≠ .ok (.channel ch)) (hi : stage.info? = none)
    (ht : call.told? m = none) (hh : c'.hooks = (c.report m info result).hooks) :
    Handles c m call .proceed c' { call with stage }

/-- Sending touches no hook, and the call remembers the attempt it makes. -/
theorem transmit_keeps (c : Client σ) (m : Client.Moment) (call : Call) (loop : Retry Outcome)
    (n : Node) (info : AttemptInfo) : (c.transmit m call loop n info).1.hooks = c.hooks ∧
      ∃ stage, (c.transmit m call loop n info).2.1 = { call with stage } ∧ stage.Unary ∧
        stage.info? = some info := by
  unfold Client.transmit
  dsimp only
  split
  · exact ⟨rfl, _, rfl, unary_failed _ _ _, rfl⟩
  · unfold Client.connect
    dsimp only
    split
    · exact ⟨rfl, _, rfl, trivial, rfl⟩
    · exact ⟨rfl, _, rfl, rfl, rfl⟩

/-- Going on after an attempt touches none either, and the call forgets it. -/
theorem resume_keeps (c : Client σ) (m : Client.Moment) (call : Call) (loop : Retry Outcome) :
    (c.resume m call loop).1.hooks = c.hooks ∧
      ∃ stage, (c.resume m call loop).2 = { call with stage } ∧ stage.Unary ∧
        stage.info? = none := by
  unfold Client.resume
  split
  · unfold Client.settle
    dsimp only
    split <;> exact ⟨rfl, _, rfl, trivial, rfl⟩
  · exact ⟨rfl, _, rfl, trivial, rfl⟩

theorem handles_start (hs : call.stage = .fresh) :
    Handles c m call .proceed (c.start m call).1 (c.start m call).2.1 := by
  have ht : call.told? m = none := told?_eq_none (by simp [hs])
  have hc : (c.cached? m call).1.hooks = c.hooks := by
    unfold Client.cached?
    split <;> rfl
  have rests (c' : Client σ) (hh : c'.hooks = c.hooks) (stage : Stage) (next : Next)
      (hu : stage.Unary) (hi : stage.info? = none) :
      Handles c m call .proceed c' { call with stage, next } :=
    .rests _ c' stage next hu (fun _ => ht) hh (by rw [hi, hs]; rfl)
  unfold Client.start
  split
  · exact rests c rfl _ call.next trivial rfl
  · split
    · rename_i c' r hx
      rw [hx] at hc
      exact rests c' hc _ call.next trivial rfl
    · rename_i c' hx
      rw [hx] at hc
      split
      · exact rests c' hc _ call.next trivial rfl
      · exact rests c' hc _ _ trivial rfl

theorem handles_attempt (ho : call.opens = false) (hs : call.stage = .looping loop)
    (hr : loop.phase = .ready)
    (hn : (loop.start call.rules (Client.check m call)).phase = .trying n) :
    Handles c m call .proceed
      (c.attempt m call (loop.start call.rules (Client.check m call)) n).1
      (c.attempt m call (loop.start call.rules (Client.check m call)) n).2.1 := by
  have ht : call.told? m =
      some (call.info m.now n (loop.start call.rules (Client.check m call)).attempt) := by
    simp only [Call.told?, hs, hr, hn]
  obtain ⟨hooks, left, r, hx⟩ : ∃ hooks left r, c.wrappers.onRequest m.now
      (call.info m.now n (loop.start call.rules (Client.check m call)).attempt) c.hooks =
        (hooks, left, r) := ⟨_, _, _, rfl⟩
  simp only [Client.attempt, hx, ho]
  cases r with
  | error e => exact .begins _ _ _ left _ (unary_failed _ _ e) ht hx rfl
  | ok _ =>
    obtain ⟨hh, stage, hcall, hu, hi⟩ := transmit_keeps { c with hooks } m call
      (loop.start call.rules (Client.check m call)) n left
    simp only [Bool.false_eq_true, if_false]
    rw [hcall]
    exact .begins _ stage _ left _ hu ht (by rw [hx, hh]) hi

/-- What a call does next, in terms of what the hooks are told. -/
theorem handles_proceed (c : Client σ) (m : Client.Moment) (ho : call.opens = false)
    (hu : call.stage.Unary) :
    Handles c m call .proceed (c.proceed m call).1 (c.proceed m call).2.1 := by
  have idle (hs : ∀ loop, call.stage ≠ .looping loop) : Handles c m call .proceed c call :=
    .rests _ c call.stage call.next hu (fun _ => told?_eq_none hs) rfl rfl
  unfold Client.proceed
  cases hs : call.stage with
  | fresh => exact handles_start hs
  | looping loop =>
    have resumed (loop' : Retry Outcome) (ht : call.told? m = none) :
        Handles c m call .proceed (c.resume m call loop').1 (c.resume m call loop').2 := by
      obtain ⟨hh, stage, hcall, hu', hi⟩ := resume_keeps c m call loop'
      rw [hcall]
      exact .rests _ _ stage call.next hu' (fun _ => ht) hh (by rw [hi, hs]; rfl)
    dsimp only
    split
    · rename_i hr
      split
      · rename_i n hn
        exact handles_attempt ho hs hr hn
      · rename_i hn
        refine resumed _ ?_
        simp only [Call.told?, hs]
        split
        · rename_i n _ hn'
          exact absurd hn' (hn n)
        · rfl
    · rename_i hr
      refine resumed _ ?_
      simp only [Call.told?, hs]
      split
      · rename_i hr' _
        exact absurd hr' hr
      · rfl
  | judging loop info r =>
    obtain ⟨hh, stage, hcall, hu', hi⟩ := resume_keeps (c.report m info r) m call
      (loop.finish call.rules m.now r).1
    dsimp only
    rw [hcall]
    have hr : ∀ ch, r ≠ .ok (.channel ch) := by
      rw [hs] at hu
      exact hu
    exact .ends _ stage info r hu' (by rw [hs]; rfl) hr hi (told?_eq_none (by simp [hs])) hh
  | selecting | dialling | exchanging | done => exact idle (by simp [hs])

/-- What any event does, in the same terms. -/
theorem handles_step (c : Client σ) (m : Client.Moment) (e : CallEvent) (ho : call.opens = false)
    (hu : call.stage.Unary) : Handles c m call e (c.step m call e).1 (c.step m call e).2.1 := by
  unfold Client.step
  split
  · exact handles_proceed c m ho hu
  · rename_i hs
    exact .rests _ c _ _ trivial nofun rfl (by rw [hs]; rfl)
  · rename_i hs
    exact .rests _ c _ call.next trivial nofun rfl (by rw [hs]; rfl)
  · rename_i loop a hs
    rw [hs] at hu
    unfold Client.dialled
    split
    · exact .rests _ c _ call.next (unary_failed _ _ _) nofun rfl (by rw [hs]; rfl)
    · split
      · exact .rests _ c _ call.next trivial nofun rfl (by rw [hs]; rfl)
      · rename_i hout
        simp [Stage.Unary, hout] at hu
  · rename_i arrival loop a out conn hs
    refine .rests _ _ _ call.next ?_ nofun rfl (by rw [hs]; rfl)
    intro ch
    cases (Exchange.decode out arrival).bind Exchange.accept <;> exact nofun
  · rename_i hp _ _ _ _
    exact .rests _ c call.stage call.next hu (fun he => absurd he hp) rfl rfl

/-- A wrapper that leaves the metrics alone. -/
structure Wrapper.Spares (get : σ → Metrics) (w : Wrapper σ) : Prop where
  request : ∀ now info s, get (w.onRequest now info s).1 = get s
  response : ∀ now info r s, get (w.onResponse now info r s).1 = get s
  error : ∀ now info e s, get (w.onError now info e s).1 = get s

/-- A wrapper that does not give an attempt the name of another service, as far as it matters. -/
def Wrapper.Keeps (named : String → String → Prop) (mine : String → Bool) (w : Wrapper σ) : Prop :=
  ∀ now info s, named info.service info.endpoint →
    named (w.onRequest now info s).2.1.service (w.onRequest now info s).2.1.endpoint ∧
      mine (w.onRequest now info s).2.1.service = mine info.service

/-- The metrics are a part of the state that the hooks share, which one wrapper alone changes. -/
structure Metered (get : σ → Metrics) (put : Metrics → σ → σ) (named : String → String → Prop)
    (mine : String → Bool) (before after : Chain σ) : Prop where
  get_put : ∀ x s, get (put x s) = x
  spares : ∀ w ∈ before ++ after, w.Spares get
  keeps : ∀ w ∈ before ++ after, w.Keeps named mine
  apart : Metrics.Apart named mine

/-- Of all services together it does not matter what the wrappers call an attempt. -/
theorem metered_all {get : σ → Metrics} {put : Metrics → σ → σ} {before after : Chain σ}
    (hp : ∀ x s, get (put x s) = x) (hs : ∀ w ∈ before ++ after, w.Spares get) :
    Metered get put (fun _ _ => True) (fun _ => true) before after where
  get_put := hp
  spares := hs
  keeps _ _ _ _ _ _ := ⟨trivial, rfl⟩
  apart := ⟨fun _ _ _ _ _ _ _ => rfl, fun _ _ _ _ _ _ _ _ _ => rfl⟩

/-- The wrappers refuse an attempt. -/
def Chain.refuses (ws : Chain σ) (now : Instant) (info : AttemptInfo) (s : σ) : Bool :=
  !(ws.onRequest now info s).2.2.isOk

variable {get : σ → Metrics} {put : Metrics → σ → σ} {named : String → String → Prop}
  {mine : String → Bool} {before after ws vs : Chain σ}

/-- The wrappers in front decide whether those behind are asked. -/
theorem onRequest_append : Chain.onRequest (ws ++ vs) now info s =
    if ws.refuses now info s then ws.onRequest now info s
    else vs.onRequest now (ws.onRequest now info s).2.1 (ws.onRequest now info s).1 := by
  induction ws generalizing info s with
  | nil => rfl
  | cons w ws ih =>
    obtain ⟨s', left, r, hx⟩ : ∃ s' left r, w.onRequest now info s = (s', left, r) :=
      ⟨_, _, _, rfl⟩
    cases r with
    | error e => simp [Chain.refuses, Chain.onRequest, hx, Except.isOk, Except.toBool]
    | ok _ =>
      have hih := @ih left s'
      simp only [Chain.refuses] at hih
      simp only [List.cons_append, Chain.refuses, Chain.onRequest, hx]
      exact hih

/-- Other wrappers leave the counts, and the service that counts, as they are. -/
theorem onRequest_others (now : Instant) (s : σ) (hs : ∀ w ∈ ws, w.Spares get)
    (hk : ∀ w ∈ ws, w.Keeps named mine) (hn : named info.service info.endpoint) :
    get (ws.onRequest now info s).1 = get s ∧
      named (ws.onRequest now info s).2.1.service (ws.onRequest now info s).2.1.endpoint ∧
      mine (ws.onRequest now info s).2.1.service = mine info.service := by
  induction ws generalizing info s with
  | nil => exact ⟨rfl, hn, rfl⟩
  | cons w ws ih =>
    have hspare := (hs w List.mem_cons_self).request now info s
    obtain ⟨hnamed, hmine⟩ := hk w List.mem_cons_self now info s hn
    unfold Chain.onRequest
    split
    · rename_i s' left hx
      rw [hx] at hspare hnamed hmine
      obtain ⟨hget, hnamed', hmine'⟩ := ih s' (fun v hv => hs v (List.mem_cons_of_mem _ hv))
        (fun v hv => hk v (List.mem_cons_of_mem _ hv)) hnamed
      exact ⟨hget.trans hspare, hnamed', hmine'.trans hmine⟩
    · rename_i s' left e hx
      rw [hx] at hspare hnamed hmine
      exact ⟨hspare, hnamed, hmine⟩

theorem onResponse_others (hs : ∀ w ∈ ws, w.Spares get) (r : Response) :
    get (ws.onResponse now info r s) = get s := by
  induction ws with
  | nil => rfl
  | cons w ws ih =>
    have hspare := (hs w List.mem_cons_self).response now info r (Chain.onResponse ws now info r s)
    exact hspare.trans (ih fun v hv => hs v (List.mem_cons_of_mem _ hv))

theorem onError_others (hs : ∀ w ∈ ws, w.Spares get) (e : CallError) :
    get (ws.onError now info e s) = get s := by
  induction ws generalizing s with
  | nil => rfl
  | cons w ws ih =>
    have hspare := (hs w List.mem_cons_self).error now info e s
    exact (ih fun v hv => hs v (List.mem_cons_of_mem _ hv)).trans hspare

namespace Metered

variable (h : Metered get put named mine before after)
include h

/-- What the metrics are told of an attempt that begins, unless it was refused before. -/
theorem onRequest (now : Instant) (s : σ) (hn : named info.service info.endpoint) :
    let x := Chain.onRequest (before ++ .metrics get put :: after) now info s
    named x.2.1.service x.2.1.endpoint ∧ mine x.2.1.service = mine info.service ∧
      (before.refuses now info s = true → get x.1 = get s) ∧
      (before.refuses now info s = false → ∃ told, mine told.service = mine info.service ∧
        get x.1 = (get s).requested told) := by
  have hsb : ∀ w ∈ before, w.Spares get := fun w hw => h.spares w (List.mem_append_left _ hw)
  have hsa : ∀ w ∈ after, w.Spares get := fun w hw => h.spares w (List.mem_append_right _ hw)
  have hka : ∀ w ∈ after, w.Keeps named mine := fun w hw => h.keeps w (List.mem_append_right _ hw)
  obtain ⟨hget, hnamed, hmine⟩ := onRequest_others now s hsb
    (fun w hw => h.keeps w (List.mem_append_left _ hw)) hn
  rw [onRequest_append]
  cases hr : before.refuses now info s with
  | true =>
    simp only [if_true]
    exact ⟨hnamed, hmine, fun _ => hget, by simp⟩
  | false =>
    simp only [if_false, Bool.false_eq_true, Chain.onRequest, Wrapper.metrics]
    obtain ⟨hget', hnamed', hmine'⟩ := onRequest_others now
      (put ((get (before.onRequest now info s).1).requested (before.onRequest now info s).2.1)
        (before.onRequest now info s).1) hsa hka hnamed
    refine ⟨hnamed', hmine'.trans hmine, by simp, fun _ => ⟨_, hmine, ?_⟩⟩
    rw [hget', h.get_put, hget]

/-- An answer reaches the metrics wherever they stand in the chain. -/
theorem onResponse (r : Response) :
    get (Chain.onResponse (before ++ .metrics get put :: after) now info r s) =
      (get s).succeeded info now := by
  have hsb : ∀ w ∈ before, w.Spares get := fun w hw => h.spares w (List.mem_append_left _ hw)
  have hsa : ∀ w ∈ after, w.Spares get := fun w hw => h.spares w (List.mem_append_right _ hw)
  have happend : Chain.onResponse (before ++ .metrics get put :: after) now info r s =
      before.onResponse now info r
        ((Wrapper.metrics get put).onResponse now info r (after.onResponse now info r s)).1 := by
    simp only [Chain.onResponse, List.foldr_append, List.foldr_cons]
  rw [happend, onResponse_others hsb]
  simp only [Wrapper.metrics, h.get_put, onResponse_others hsa]

theorem onError (e : CallError) :
    get (Chain.onError (before ++ .metrics get put :: after) now info e s) =
      (get s).failed info e now := by
  have hsb : ∀ w ∈ before, w.Spares get := fun w hw => h.spares w (List.mem_append_left _ hw)
  have hsa : ∀ w ∈ after, w.Spares get := fun w hw => h.spares w (List.mem_append_right _ hw)
  have happend : Chain.onError (before ++ .metrics get put :: after) now info e s =
      after.onError now info e
        ((Wrapper.metrics get put).onError now info e (before.onError now info e s)).1 := by
    simp only [Chain.onError, List.foldl_append, List.foldl_cons]
  rw [happend, onError_others hsa]
  simp only [Wrapper.metrics, h.get_put, onError_others hsb]

end Metered

namespace Traffic

variable {t t' : Traffic σ} {mv : Move} {ms : List Move} {i k : Nat}

/-- How many calls are in the middle of an attempt for one of the services. -/
def underway (mine : String → Bool) (t : Traffic σ) : Nat :=
  t.calls.countP fun call => call.stage.info?.any fun info => mine info.service

/-- An attempt for one of the services begins by this move, and is refused by these wrappers. -/
def refuses (before : Chain σ) (mine : String → Bool) (t : Traffic σ) (mv : Move) : Bool :=
  (t.turn? mv).any fun (_, m, call) => (call.told? m).any fun info =>
    mine info.service && before.refuses m.now info t.client.hooks

/-- How many attempts for the services are refused. -/
def refusals (before : Chain σ) (mine : String → Bool) : Traffic σ → List Move → Nat
  | _, [] => 0
  | t, mv :: ms => (t.refuses before mine mv).toNat + refusals before mine (t.step mv) ms

/-- The calls open no streams and have such names. -/
def Calls (named : String → String → Prop) (t : Traffic σ) : Prop :=
  ∀ call ∈ t.calls, call.opens = false ∧ call.stage.Unary ∧
    named call.request.service call.request.endpoint ∧
    ∀ info, call.stage.info? = some info → named info.service info.endpoint

/-- What the metrics have counted, of attempts of which so many were refused before they came to
them. -/
structure Tallied (get : σ → Metrics) (named : String → String → Prop) (mine : String → Bool)
    (refused : Nat) (t : Traffic σ) : Prop where
  calls : t.Calls named
  filed : (get t.client.hooks).Filed named
  balance : ((get t.client.hooks).counts mine).attempts + refused =
    ((get t.client.hooks).counts mine).calls + ((get t.client.hooks).counts mine).errors +
      t.underway mine
  timed : ((get t.client.hooks).counts mine).timed =
    ((get t.client.hooks).counts mine).calls + ((get t.client.hooks).counts mine).errors

theorem countP_set_add {α : Type} {p : α → Bool} {xs : List α} {x y : α} (h : xs[i]? = some x) :
    (xs.set i y).countP p + (p x).toNat = xs.countP p + (p y).toNat := by
  obtain ⟨hi, rfl⟩ := List.getElem?_eq_some_iff.1 h
  have hle := List.boole_getElem_le_countP (p := p) hi
  rw [List.countP_set hi]
  cases hx : p xs[i] <;> cases p y <;>
    simp only [hx, if_true, if_false, Bool.false_eq_true, Bool.toNat_true, Bool.toNat_false]
      at hle ⊢ <;> omega

theorem Calls.set {stage : Stage} {next : Next} (h : t.Calls named) (hi : t.calls[i]? = some call)
    (hc : t'.calls = t.calls.set i { call with stage, next }) (hu : stage.Unary)
    (hn : ∀ info, stage.info? = some info → named info.service info.endpoint) :
    t'.Calls named := by
  intro d hd
  rw [hc] at hd
  rcases List.mem_or_eq_of_mem_set hd with hd | rfl
  · exact h d hd
  · obtain ⟨ho, -, hr, -⟩ := h call (List.mem_of_getElem? hi)
    exact ⟨ho, hu, hr, hn⟩

theorem told?_names {info : AttemptInfo} (h : call.told? m = some info) :
    info.service = call.request.service ∧ info.endpoint = call.request.endpoint ∧
      call.stage.info? = none := by
  unfold Call.told? at h
  split at h
  · rename_i hs
    split at h
    · cases h
      exact ⟨rfl, rfl, by rw [hs]; rfl⟩
    · cases h
  · cases h

theorem underway_set (mine : String → Bool) {stage : Stage} {next : Next}
    (hi : t.calls[i]? = some call) (hc : t'.calls = t.calls.set i { call with stage, next }) :
    t'.underway mine + (call.stage.info?.any fun info => mine info.service).toNat =
      t.underway mine + (stage.info?.any fun info => mine info.service).toNat := by
  rw [underway, hc]
  exact countP_set_add hi

theorem refuses_of_turn? (h : t.turn? mv = some (i, m, call)) : t.refuses before mine mv =
    (call.told? m).any fun info =>
      mine info.service && before.refuses m.now info t.client.hooks := by
  simp only [refuses, h, Option.any_some]

theorem refuses_of_none (h : t.turn? mv = none) : t.refuses before mine mv = false := by
  simp only [refuses, h, Option.any_none]

/-- The hooks and the attempts under way are as before. -/
theorem Tallied.rests (ht : t.Tallied get named mine k) (hh : t'.client.hooks = t.client.hooks)
    (hc : t'.Calls named) (hu : t'.underway mine = t.underway mine) :
    t'.Tallied get named mine k :=
  ⟨hc, hh ▸ ht.filed, by rw [hh, hu]; exact ht.balance, by rw [hh]; exact ht.timed⟩

/-- Of so many attempts the metrics are told that they begin, that they succeeded and that they
failed, and so many are refused. -/
theorem Tallied.counts (ht : t.Tallied get named mine k) (asked won lost refused : Nat)
    (hc : t'.Calls named) (hf : (get t'.client.hooks).Filed named)
    (hn : (get t'.client.hooks).counts mine =
      { attempts := ((get t.client.hooks).counts mine).attempts + asked
        calls := ((get t.client.hooks).counts mine).calls + won
        errors := ((get t.client.hooks).counts mine).errors + lost
        timed := ((get t.client.hooks).counts mine).timed + (won + lost) })
    (hu : t'.underway mine + (won + lost) = t.underway mine + (asked + refused)) :
    t'.Tallied get named mine (k + refused) := by
  have hbalance := ht.balance
  have htimed := ht.timed
  refine ⟨hc, hf, ?_, ?_⟩
  · rw [hn]
    dsimp only
    omega
  · rw [hn]
    dsimp only
    omega

/-- An attempt begins, of which the metrics are told unless it is refused. -/
theorem Tallied.begins (h : Metered get put named mine before after)
    (hw : t.client.wrappers = before ++ .metrics get put :: after)
    (ht : t.Tallied get named mine k) (hi : t.calls[i]? = some call) {stage : Stage}
    {info left : AttemptInfo} {r : Except CallError Unit} (hu : stage.Unary)
    (hc : t'.calls = t.calls.set i { call with stage }) (htold : call.told? m = some info)
    (hx : t.client.wrappers.onRequest m.now info t.client.hooks = (t'.client.hooks, left, r))
    (hs : stage.info? = some left) :
    t'.Tallied get named mine
      (k + (mine info.service && before.refuses m.now info t.client.hooks).toNat) := by
  obtain ⟨hservice, hendpoint, hnone⟩ := told?_names htold
  obtain ⟨-, -, hnamed, -⟩ := ht.calls call (List.mem_of_getElem? hi)
  rw [← hservice, ← hendpoint] at hnamed
  have hreq := h.onRequest m.now t.client.hooks hnamed
  rw [← hw, hx] at hreq
  obtain ⟨hleft, hmine, hrefused, hasked⟩ := hreq
  have hunder := underway_set mine hi hc
  rw [hnone, hs, Option.any_none, Option.any_some, Bool.toNat_false, Nat.add_zero] at hunder
  dsimp only at hleft hmine
  rw [hmine] at hunder
  have hcalls : t'.Calls named := ht.calls.set hi hc hu fun info' hi' => by
    rw [hs] at hi'
    cases hi'
    exact hleft
  cases hr : before.refuses m.now info t.client.hooks with
  | true =>
    have hget := hrefused hr
    rw [Bool.and_true]
    refine ht.counts 0 0 0 _ hcalls ?_ ?_ ?_
    · rw [hget]
      exact ht.filed
    · rw [hget]
      rfl
    · omega
  | false =>
    obtain ⟨told, hmine', hget⟩ := hasked hr
    obtain ⟨hfiled, hcounts⟩ := Metrics.requested_spec mine ht.filed told
    rw [hmine'] at hcounts
    rw [Bool.and_false]
    refine ht.counts _ 0 0 0 hcalls ?_ ?_ hunder
    · rw [hget]
      exact hfiled
    · rw [hget]
      exact hcounts

/-- An attempt ends, and the metrics are told how. -/
theorem Tallied.ends (h : Metered get put named mine before after)
    (hw : t.client.wrappers = before ++ .metrics get put :: after)
    (ht : t.Tallied get named mine k) (hi : t.calls[i]? = some call) {stage : Stage}
    {info : AttemptInfo} {result : Except CallError Outcome} (hu : stage.Unary)
    (hc : t'.calls = t.calls.set i { call with stage }) (hs : call.stage.info? = some info)
    (hr : ∀ ch, result ≠ .ok (.channel ch)) (hn : stage.info? = none)
    (hh : t'.client.hooks = (t.client.report m info result).hooks) :
    t'.Tallied get named mine k := by
  obtain ⟨-, -, -, hnames⟩ := ht.calls call (List.mem_of_getElem? hi)
  have hnamed := hnames info hs
  have hunder := underway_set mine hi hc
  rw [hn, hs, Option.any_none, Option.any_some, Bool.toNat_false, Nat.add_zero] at hunder
  have hcalls : t'.Calls named := ht.calls.set hi hc hu fun info' hi' => by
    rw [hn] at hi'
    cases hi'
  cases result with
  | error e =>
    have hget : get t'.client.hooks = (get t.client.hooks).failed info e m.now := by
      rw [hh, Client.report, hw]
      exact h.onError e
    obtain ⟨hfiled, hcounts⟩ := Metrics.failed_spec h.apart ht.filed hnamed e m.now
    refine ht.counts 0 0 (mine info.service).toNat 0 hcalls ?_ ?_ ?_
    · rw [hget]
      exact hfiled
    · rw [hget, Nat.zero_add]
      exact hcounts
    · rw [Nat.zero_add]
      exact hunder
  | ok o =>
    cases o with
    | channel ch => exact absurd rfl (hr ch)
    | response r =>
      have hget : get t'.client.hooks = (get t.client.hooks).succeeded info m.now := by
        rw [hh, Client.report, hw]
        exact h.onResponse r
      obtain ⟨hfiled, hcounts⟩ := Metrics.succeeded_spec h.apart ht.filed hnamed m.now
      refine ht.counts 0 (mine info.service).toNat 0 0 hcalls ?_ ?_ hunder
      · rw [hget]
        exact hfiled
      · rw [hget]
        exact hcounts

/-- One move keeps the balance, when what it refuses is added to the refused. -/
theorem Tallied.step (h : Metered get put named mine before after)
    (hw : t.client.wrappers = before ++ .metrics get put :: after)
    (ht : t.Tallied get named mine k)
    (hmv : ∀ context r o opens, mv = .call context r o opens →
      opens = false ∧ named r.service r.endpoint) :
    (t.step mv).Tallied get named mine (k + (t.refuses before mine mv).toNat) := by
  have hacts := acts_step t mv
  generalize t.step mv = t' at hacts
  cases hacts with
  | rests mv t' pool hturn hc hs =>
    rw [refuses_of_none hturn]
    exact ht.rests (by rw [hc]) (fun call hcall => ht.calls call (hs ▸ hcall))
      (by rw [underway, hs, underway])
  | comes context r o opens t' hc hs =>
    obtain ⟨rfl, hr⟩ := hmv context r o opens rfl
    rw [refuses_of_none rfl]
    refine ht.rests (by rw [hc]) ?_ ?_
    · intro call hcall
      rw [hs] at hcall
      rcases List.mem_append.1 hcall with hcall | hcall
      · exact ht.calls call hcall
      · rw [List.mem_singleton.1 hcall]
        exact ⟨rfl, trivial, hr, nofun⟩
    · rw [underway, hs, List.countP_append]
      rfl
  | steps mv i m call e t' hi hturn hc hs =>
    obtain ⟨ho, hu, -, -⟩ := ht.calls call (List.mem_of_getElem? hi)
    have hhandles := handles_step t.client m e ho hu
    rw [← hc] at hhandles
    generalize (t.client.step m call e).2.1 = call' at hhandles hs
    generalize hc' : t'.client = c' at hhandles
    cases hhandles with
    | rests e c' stage next hu' htold hh hinfo =>
      -- The hooks were told nothing, so nothing was refused.
      have hnone : t.refuses before mine mv = false := by
        rcases hturn with ⟨he, hturn⟩ | ⟨-, hturn⟩
        · rw [refuses_of_turn? hturn, htold he, Option.any_none]
        · exact refuses_of_none hturn
      rw [hnone]
      refine ht.rests (hc' ▸ hh) (ht.calls.set hi hs hu' ?_) ?_
      · intro info hi'
        rw [hinfo] at hi'
        exact (ht.calls call (List.mem_of_getElem? hi)).2.2.2 info hi'
      · have hunder := underway_set mine hi hs
        rw [hinfo] at hunder
        omega
    | begins c' stage info left r hu' htold hx hinfo =>
      rcases hturn with ⟨-, hturn⟩ | ⟨he, -⟩
      · rw [refuses_of_turn? hturn, htold, Option.any_some]
        rw [← hc'] at hx
        exact ht.begins h hw hi hu' hs htold hx hinfo
      · exact absurd rfl he
    | ends c' stage info result hu' hs' hr hinfo htold hh =>
      rcases hturn with ⟨-, hturn⟩ | ⟨he, -⟩
      · rw [refuses_of_turn? hturn, htold, Option.any_none]
        exact ht.ends h hw hi hu' hs hs' hr hinfo (hc' ▸ hh)
      · exact absurd rfl he

theorem Tallied.run (h : Metered get put named mine before after)
    (hw : t.client.wrappers = before ++ .metrics get put :: after)
    (ht : t.Tallied get named mine k)
    (hms : ∀ context r o opens, Move.call context r o opens ∈ ms →
      opens = false ∧ named r.service r.endpoint) :
    (t.run ms).Tallied get named mine (k + t.refusals before mine ms) := by
  induction ms generalizing t k with
  | nil => exact ht
  | cons mv ms ih =>
    have hstep := ht.step h hw fun context r o opens he =>
      hms context r o opens (he ▸ List.mem_cons_self)
    have hrun := ih ((wrappers_step t mv).trans hw) hstep fun context r o opens hm =>
      hms context r o opens (List.mem_cons_of_mem _ hm)
    rw [Nat.add_assoc] at hrun
    exact hrun

end Traffic

end Switchboard.Client
