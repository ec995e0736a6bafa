import Switchboard.Proofs.Client.Transmission

/-! The hooks around an attempt: what the wrappers of a chain are told of it and in which order, and
that what they say at its end changes nothing. -/
namespace Switchboard.Client

open Discovery (Node)
open Rpc

/-- What a wrapper is told. Of a request it also says what it leaves to the next one. -/
inductive Told
  | request (info left : AttemptInfo)
  | response (info : AttemptInfo) (r : Response)
  | error (info : AttemptInfo) (e : CallError)

/-- A hook that ran, of the wrapper at a place in the chain, and what it returned. -/
structure Heard where
  place : Nat
  told : Told
  returned : Except CallError Unit

/-- Who was told what. -/
def Heard.said (h : Heard) : Nat × Told := (h.place, h.told)

variable {σ τ : Type} {w : Wrapper σ} {ws : Chain σ} {c : Client σ} {m u : Client.Moment}
  {call : Call} {loop : Retry Outcome} {n : Node} {info left : AttemptInfo} {s s' : σ}
  {now : Instant} {i : Nat} {e : CallError} {log : List Heard}
  {x : σ × AttemptInfo × Except CallError Unit}

/-- A wrapper that does what another does, and writes down each of its hooks that runs. -/
def Wrapper.watched (w : Wrapper σ) (i : Nat) : Wrapper (σ × List Heard) where
  name := w.name
  onRequest := fun now info s =>
    let x := w.onRequest now info s.1
    ((x.1, s.2 ++ [⟨i, .request info x.2.1, x.2.2⟩]), x.2)
  onResponse := fun now info r s =>
    let x := w.onResponse now info r s.1
    ((x.1, s.2 ++ [⟨i, .response info r, x.2⟩]), x.2)
  onError := fun now info e s =>
    let x := w.onError now info e s.1
    ((x.1, s.2 ++ [⟨i, .error info e, x.2⟩]), x.2)

def Chain.watched (ws : Chain σ) (i : Nat) : Chain (σ × List Heard) :=
  (ws.zipIdx i).map fun x => x.1.watched x.2

theorem Chain.watched_cons : Chain.watched (w :: ws) i = w.watched i :: Chain.watched ws (i + 1) :=
  rfl

/-- The pass of a request along a chain: each wrapper is told what the one before it left, and the
first failure is the end of it. -/
inductive Asks (now : Instant) : Chain σ → Nat → AttemptInfo → σ → List Heard →
    σ × AttemptInfo × Except CallError Unit → Prop
  | passed (i : Nat) (info : AttemptInfo) (s : σ) : Asks now [] i info s [] (s, info, .ok ())
  | failed (w : Wrapper σ) (ws : Chain σ) (i : Nat) (info left : AttemptInfo) (s s' : σ)
    (e : CallError) (hw : w.onRequest now info s = (s', left, .error e)) :
    Asks now (w :: ws) i info s [⟨i, .request info left, .error e⟩] (s', left, .error e)
  | went (w : Wrapper σ) (ws : Chain σ) (i : Nat) (info left : AttemptInfo) (s s' : σ)
    (heard : List Heard) (x : σ × AttemptInfo × Except CallError Unit)
    (hw : w.onRequest now info s = (s', left, .ok ()))
    (hws : Asks now ws (i + 1) left s' heard x) :
    Asks now (w :: ws) i info s (⟨i, .request info left, .ok ()⟩ :: heard) x

/-- The pass at the end of an attempt: over every wrapper once, the last one first for a response,
whatever the others returned. An open stream has not ended. -/
def Ends (ws : Chain σ) (info : AttemptInfo) (heard : List Heard) :
    Except CallError Outcome → Prop
  | .ok (.response r) => heard.map Heard.said =
      (List.range ws.length).reverse.map fun i => (i, .response info r)
  | .ok (.channel _) => heard = []
  | .error e => heard.map Heard.said =
      (List.range ws.length).map fun i => (i, .error info e)

/-- Watched wrappers do what they do unwatched; the log tells how far the pass went. -/
theorem onRequest_watched (now : Instant) (ws : Chain σ) (i : Nat) (info : AttemptInfo) (s : σ) :
    ∃ heard, Asks now ws i info s heard (ws.onRequest now info s) ∧
      ∀ log, Chain.onRequest (Chain.watched ws i) now info (s, log) =
        (((ws.onRequest now info s).1, log ++ heard), (ws.onRequest now info s).2) := by
  induction ws generalizing i info s with
  | nil => exact ⟨[], .passed i info s, fun log => by rw [List.append_nil]; rfl⟩
  | cons w ws ih =>
    obtain ⟨s', left, r, hw⟩ : ∃ s' left r, w.onRequest now info s = (s', left, r) :=
      ⟨_, _, _, rfl⟩
    cases r with
    | error e =>
      refine ⟨[⟨i, .request info left, .error e⟩], ?_, ?_⟩
      · simpa only [Chain.onRequest, hw] using Asks.failed w ws i info left s s' e hw
      · intro log
        simp only [Chain.watched_cons, Chain.onRequest, Wrapper.watched, hw]
    | ok _ =>
      obtain ⟨heard, hasks, hlog⟩ := ih (i + 1) left s'
      refine ⟨⟨i, .request info left, .ok ()⟩ :: heard, ?_, ?_⟩
      · simpa only [Chain.onRequest, hw] using Asks.went w ws i info left s s' heard _ hw hasks
      · intro log
        simp only [Chain.watched_cons, Chain.onRequest, Wrapper.watched, hw, hlog,
          List.append_assoc, List.singleton_append]

/-- A response is told to all wrappers, from the last to the first. -/
theorem onResponse_watched (now : Instant) (ws : Chain σ) (i : Nat) (info : AttemptInfo)
    (r : Response) (s : σ) : ∃ heard : List Heard, heard.map Heard.said =
        (List.range' i ws.length).reverse.map (fun j => (j, .response info r)) ∧
      ∀ log, Chain.onResponse (Chain.watched ws i) now info r (s, log) =
        (ws.onResponse now info r s, log ++ heard) := by
  induction ws generalizing i with
  | nil => exact ⟨[], rfl, fun log => by rw [List.append_nil]; rfl⟩
  | cons w ws ih =>
    obtain ⟨heard, htold, hlog⟩ := ih (i + 1)
    refine ⟨heard ++ [⟨i, .response info r,
      (w.onResponse now info r (Chain.onResponse ws now info r s)).2⟩], ?_, ?_⟩
    · simp [List.range'_succ, htold, Heard.said]
    · intro log
      have hws := hlog log
      unfold Chain.onResponse at hws ⊢
      simp only [Chain.watched_cons, List.foldr_cons, hws, Wrapper.watched, List.append_assoc]

/-- A failure is told to all wrappers, from the first to the last. -/
theorem onError_watched (now : Instant) (ws : Chain σ) (i : Nat) (info : AttemptInfo)
    (e : CallError) (s : σ) : ∃ heard : List Heard, heard.map Heard.said =
        (List.range' i ws.length).map (fun j => (j, .error info e)) ∧
      ∀ log, Chain.onError (Chain.watched ws i) now info e (s, log) =
        (ws.onError now info e s, log ++ heard) := by
  induction ws generalizing i s with
  | nil => exact ⟨[], rfl, fun log => by rw [List.append_nil]; rfl⟩
  | cons w ws ih =>
    obtain ⟨heard, htold, hlog⟩ := ih (i + 1) (w.onError now info e s).1
    refine ⟨⟨i, .error info e, (w.onError now info e s).2⟩ :: heard, ?_, ?_⟩
    · simp [List.range'_succ, htold, Heard.said]
    · intro log
      have hws := hlog (log ++ [⟨i, .error info e, (w.onError now info e s).2⟩])
      unfold Chain.onError at hws ⊢
      simp only [Chain.watched_cons, List.foldl_cons, Wrapper.watched, hws, List.append_assoc,
        List.singleton_append]

/-- The same client, with its hooks written down. -/
def watching (c : Client σ) (log : List Heard) : Client (σ × List Heard) where
  contentType := c.contentType
  options := c.options
  codecs := c.codecs
  pool := c.pool
  cache := c.cache
  wrappers := Chain.watched c.wrappers 0
  hooks := (c.hooks, log)
  seq := c.seq

/-- What is watched comes to the same, with this written down in the end. -/
def Quiet {α : Type} (log : List Heard) (x : Client σ × α) (y : Client (σ × List Heard) × α) :
    Prop := y = (x.1.watching log, x.2)

theorem quiet_connect {out : Outgoing} : Quiet log (c.connect m call loop n info out)
    ((c.watching log).connect m call loop n info out) := by
  unfold Client.connect
  dsimp only [watching]
  split <;> rfl

theorem quiet_transmit : Quiet log (c.transmit m call loop n info)
    ((c.watching log).transmit m call loop n info) := by
  unfold Client.transmit
  dsimp only [watching]
  split
  · rfl
  · exact quiet_connect

theorem quiet_openChannel : Quiet log (c.openChannel call loop n info)
    ((c.watching log).openChannel call loop n info) := by
  unfold Client.openChannel
  dsimp only [watching]
  split <;> rfl

theorem quiet_resume : Quiet log (c.resume m call loop) ((c.watching log).resume m call loop) := by
  unfold Client.resume Client.settle
  dsimp only [watching]
  split
  · split <;> rfl
  · rfl

theorem quiet_cached : Quiet log (c.cached? m call) ((c.watching log).cached? m call) := by
  unfold Client.cached?
  dsimp only [watching]
  split <;> rfl

/-- Before the first attempt no wrapper is asked. -/
theorem quiet_start : Quiet log (c.start m call) ((c.watching log).start m call) := by
  have hc : (c.watching log).cached? m call = _ := quiet_cached
  obtain ⟨c', r, hx⟩ : ∃ c' r, c.cached? m call = (c', r) := ⟨_, _, rfl⟩
  simp only [hx] at hc
  unfold Client.start
  split
  · rfl
  · rw [hc, hx]
    cases r with
    | some r => rfl
    | none =>
      dsimp only
      split <;> rfl

theorem quiet_dialled {a : Attempt} {r : Except Transport.Error Nat} :
    Quiet log (c.dialled m call loop a r) ((c.watching log).dialled m call loop a r) := by
  unfold Client.dialled
  split
  · rfl
  · split <;> rfl

/-- The wrappers hear of a reply only when it is judged. -/
theorem quiet_arrived {a : Attempt} {out : Outgoing} {conn : Connection} {arrival : Arrival} :
    Quiet log (c.arrived call loop a out conn arrival)
      ((c.watching log).arrived call loop a out conn arrival) := rfl

/-- An attempt begins with one pass of the request, and goes on the same with or without a log. -/
theorem attempt_watching (c : Client σ) (m : Client.Moment) (call : Call) (loop : Retry Outcome)
    (n : Node) : ∃ heard,
      Asks m.now c.wrappers 0 (call.info m.now n loop.attempt) c.hooks heard
        (c.wrappers.onRequest m.now (call.info m.now n loop.attempt) c.hooks) ∧
      ∀ log, Quiet (log ++ heard) (c.attempt m call loop n)
        ((c.watching log).attempt m call loop n) := by
  obtain ⟨heard, hasks, hlog⟩ :=
    onRequest_watched m.now c.wrappers 0 (call.info m.now n loop.attempt) c.hooks
  refine ⟨heard, hasks, ?_⟩
  intro log
  obtain ⟨s, left, r, hx⟩ : ∃ s left r,
      c.wrappers.onRequest m.now (call.info m.now n loop.attempt) c.hooks = (s, left, r) :=
    ⟨_, _, _, rfl⟩
  have hw := hlog log
  rw [hx] at hw
  simp only [Client.attempt, hx, watching, hw]
  cases r with
  | error e => rfl
  | ok _ =>
    dsimp only
    split
    · exact quiet_openChannel
    · exact quiet_transmit

/-- The end of an attempt is one pass: of the response, of the failure, or of none. -/
theorem report_watching (c : Client σ) (m : Client.Moment) (info : AttemptInfo)
    (r : Except CallError Outcome) : ∃ heard, Ends c.wrappers info heard r ∧
      ∀ log, (c.watching log).report m info r = (c.report m info r).watching (log ++ heard) := by
  cases r with
  | error e =>
    obtain ⟨heard, htold, hlog⟩ := onError_watched m.now c.wrappers 0 info e c.hooks
    refine ⟨heard, ?_, ?_⟩
    · rw [Ends, htold, List.range_eq_range']
    · intro log
      simp only [Client.report, watching, hlog]
  | ok o =>
    cases o with
    | channel ch => exact ⟨[], rfl, fun log => by rw [List.append_nil]; rfl⟩
    | response r =>
      obtain ⟨heard, htold, hlog⟩ := onResponse_watched m.now c.wrappers 0 info r c.hooks
      refine ⟨heard, ?_, ?_⟩
      · rw [Ends, htold, List.range_eq_range']
      · intro log
        simp only [Client.report, watching, hlog]

theorem Quiet.append_nil {α : Type} {x : Client σ × α} {y : Client (σ × List Heard) × α}
    (h : Quiet log x y) : Quiet (log ++ []) x y := by
  rwa [List.append_nil]

/-- A call that is judged tells its wrappers once. -/
theorem judged_watching (c : Client σ) (m : Client.Moment) (call : Call) (loop : Retry Outcome)
    (info : AttemptInfo) (r : Except CallError Outcome) : ∃ heard, Ends c.wrappers info heard r ∧
      ∀ log, Quiet (log ++ heard) (c.proceed m { call with stage := .judging loop info r })
        ((c.watching log).proceed m { call with stage := .judging loop info r }) := by
  obtain ⟨heard, hends, hlog⟩ := report_watching c m info r
  refine ⟨heard, hends, ?_⟩
  intro log
  have hr : ((c.report m info r).watching (log ++ heard)).resume m
    { call with stage := .judging loop info r } (loop.finish call.rules m.now r).1 = _ :=
    quiet_resume
  unfold Client.proceed
  dsimp only
  rw [hlog]
  rw [show Call.rules { call with stage := .judging loop info r } = call.rules from rfl, hr]
  rfl

/-- Whatever a call proceeds with, a log changes nothing else. -/
theorem proceed_watching (c : Client σ) (m : Client.Moment) (call : Call) :
    ∃ heard, ∀ log, Quiet (log ++ heard) (c.proceed m call) ((c.watching log).proceed m call) := by
  have resumed (loop : Retry Outcome) (log : List Heard) :
      (c.watching log).resume m call loop = _ := quiet_resume
  cases hs : call.stage with
  | judging loop info r =>
    obtain ⟨heard, -, hlog⟩ := judged_watching c m call loop info r
    rw [← hs] at hlog
    exact ⟨heard, hlog⟩
  | fresh =>
    simp only [Client.proceed, hs]
    exact ⟨[], fun log => quiet_start.append_nil⟩
  | looping loop =>
    simp only [Client.proceed, hs]
    split
    · split
      · rename_i n _
        obtain ⟨heard, -, hlog⟩ := attempt_watching c m call _ n
        exact ⟨heard, hlog⟩
      · exact ⟨[], fun log => by rw [resumed, List.append_nil]; rfl⟩
    · exact ⟨[], fun log => by rw [resumed, List.append_nil]; rfl⟩
  | selecting | dialling | exchanging | done =>
    simp only [Client.proceed, hs]
    exact ⟨[], fun log => by rw [List.append_nil]; rfl⟩

/-- Nothing but the writing distinguishes a client whose hooks are written down. -/
theorem step_watching (c : Client σ) (m : Client.Moment) (call : Call) (ev : CallEvent) :
    ∃ heard, ∀ log, Quiet (log ++ heard) (c.step m call ev) ((c.watching log).step m call ev) := by
  unfold Client.step
  split
  · exact proceed_watching c m call
  · exact ⟨[], fun log => by rw [List.append_nil]; rfl⟩
  · exact ⟨[], fun log => by rw [List.append_nil]; rfl⟩
  · exact ⟨[], fun log => quiet_dialled.append_nil⟩
  · exact ⟨[], fun log => quiet_arrived.append_nil⟩
  · exact ⟨[], fun log => by rw [List.append_nil]; rfl⟩

/-- While an attempt waits, nothing that happens reaches the wrappers. -/
theorem quiet_step {ev : CallEvent} (hw : call.stage.wait? ≠ none) :
    Quiet log (c.step m call ev) ((c.watching log).step m call ev) := by
  unfold Client.step
  split
  · unfold Client.proceed
    cases hs : call.stage with
    | selecting | dialling | exchanging => rfl
    | fresh | looping | judging | done => exact absurd (by rw [hs]; rfl) hw
  · rfl
  · rfl
  · exact quiet_dialled
  · exact quiet_arrived
  · rfl

/-- The hooks that run in a step, in their order. -/
def heard (c : Client σ) (m : Client.Moment) (call : Call) (ev : CallEvent) : List Heard :=
  ((c.watching []).step m call ev).1.hooks.2

/-- The hooks that run when an attempt begins. -/
def asked (c : Client σ) (m : Client.Moment) (call : Call) (loop : Retry Outcome) (n : Node) :
    List Heard :=
  ((c.watching []).attempt m call loop n).1.hooks.2

/-- What the hooks of the request leave. -/
def passed (c : Client σ) (m : Client.Moment) (call : Call) (loop : Retry Outcome) (n : Node) :
    σ × AttemptInfo × Except CallError Unit :=
  c.wrappers.onRequest m.now (call.info m.now n loop.attempt) c.hooks

/-- Where a call goes on after an attempt, and what it lets others know. No hook has a say in it. -/
def verdict (call : Call) (loop : Retry Outcome) (now : Instant)
    (result : Except CallError Outcome) : Call × List Action :=
  let x := loop.finish call.rules now result
  ({ call with stage := match x.1.phase with
      | .done r => .done r
      | _ => .looping x.1 }, x.2.map .note)

theorem step_judging (d : Client τ) (result : Except CallError Outcome) :
    (d.step u { call with stage := .judging loop info result } .proceed).2 =
      verdict call loop u.now result := by
  simp only [Client.step, Client.proceed, Client.resume, verdict]
  rw [show Call.rules { call with stage := .judging loop info result } = call.rules from rfl]
  cases (loop.finish call.rules u.now result).1.phase with
  | done r =>
    simp only [Client.settle]
    split <;> rfl
  | ready | trying | pausing => rfl

/-- What the log of an attempt's beginning has is the pass that was asked for. -/
theorem attempt_watching_asked (c : Client σ) (m : Client.Moment) (call : Call)
    (loop : Retry Outcome) (n : Node) :
    Asks m.now c.wrappers 0 (call.info m.now n loop.attempt) c.hooks (c.asked m call loop n)
        (c.passed m call loop n) ∧
      Quiet (c.asked m call loop n) (c.attempt m call loop n)
        ((c.watching []).attempt m call loop n) := by
  obtain ⟨heard, hasks, hlog⟩ := attempt_watching c m call loop n
  rw [asked, hlog []]
  exact ⟨hasks, rfl⟩

/-- The log of one event is what the event says it is, whatever was logged before. -/
theorem step_watching_heard (c : Client σ) (m : Client.Moment) (call : Call) (ev : CallEvent) :
    Quiet (c.heard m call ev) (c.step m call ev) ((c.watching []).step m call ev) := by
  obtain ⟨heard, hlog⟩ := step_watching c m call ev
  rw [Client.heard, hlog []]
  rfl

theorem heard_of_wait {ev : CallEvent} (hw : call.stage.wait? ≠ none) : c.heard m call ev = [] := by
  have hquiet : (c.watching []).step m call ev = _ := quiet_step hw
  rw [heard, hquiet]
  rfl

/-- When an attempt is judged, the log has the pass of its end. -/
theorem ends_heard (c : Client σ) (m : Client.Moment) (call : Call) (loop : Retry Outcome)
    (info : AttemptInfo) (r : Except CallError Outcome) :
    Ends c.wrappers info (c.heard m { call with stage := .judging loop info r } .proceed) r := by
  obtain ⟨heard, hends, hlog⟩ := judged_watching c m call loop info r
  have hstep : (c.watching []).step m { call with stage := .judging loop info r } .proceed = _ :=
    hlog []
  rw [Client.heard, hstep]
  exact hends

namespace AttemptRun

/-- An attempt with its hooks. -/
def attempt (c : Client σ) (m : Client.Moment) (call : Call) (loop : Retry Outcome) (n : Node) :
    AttemptRun σ :=
  let x := c.attempt m call loop n
  ⟨x.1, x.2.1, [⟨none, c.pool, x.1.pool, x.2.2⟩]⟩

/-- All that an attempt does, and what it comes to: nothing after a hook has failed, and otherwise
what becomes of the frame with the headers that the hooks left. -/
inductive Comes (c : Client σ) (m : Client.Moment) (call : Call) (n : Node) :
    σ × AttemptInfo × Except CallError Unit → List Deed → AttemptInfo →
    Except CallError Outcome → Prop
  | refused (s : σ) (info : AttemptInfo) (e : CallError) :
    Comes c m call n (s, info, .error e) [⟨none, c.pool, c.pool, []⟩] info (.error e)
  | sent (s : σ) (info : AttemptInfo) (ds : List Deed) (f : Fate)
    (hc : Course { c with hooks := s } m call n info ds f) :
    Comes c m call n (s, info, .ok ()) ds info f.result

variable {t : AttemptRun σ} {hs : List (Happening σ)}

theorem attempt_of_error (hx : c.passed m call loop n = (s, info, .error e)) :
    c.attempt m call loop n =
      ({ c with hooks := s }, { call with stage := .judging loop info (.error e) }, []) := by
  unfold Client.passed at hx
  simp only [Client.attempt, hx]
  rfl

theorem attempt_of_ok (hu : call.opens = false)
    (hx : c.passed m call loop n = (s, info, .ok ())) :
    c.attempt m call loop n = { c with hooks := s }.transmit m call loop n info := by
  unfold Client.passed at hx
  simp only [Client.attempt, hx, hu]
  rfl

/-- An attempt that waits for nothing is left alone by all that happens. -/
theorem run_of_wait_none (hw : t.call.stage.wait? = none) :
    (t.run hs).call = t.call ∧ (t.run hs).deeds = t.deeds := by
  induction hs generalizing t with
  | nil => exact ⟨rfl, rfl⟩
  | cons h hs ih =>
    cases h with
    | others client => exact ih (t := { t with client }) hw
    | event u ev =>
      have hstep : t.step (.event u ev) = t := if_pos hw
      rw [run, List.foldl_cons, hstep]
      exact ih hw

theorem attempt_eq_begin (hu : call.opens = false)
    (hx : c.passed m call loop n = (s, info, .ok ())) :
    attempt c m call loop n = begin { c with hooks := s } m call loop n info := by
  unfold attempt begin
  rw [attempt_of_ok hu hx]

/-- An attempt that was refused comes to the refusal, whatever happens to it. -/
theorem run_refused (hx : c.passed m call loop n = (s, info, .error e)) (hs : List (Happening σ)) :
    ((attempt c m call loop n).run hs).call =
        { call with stage := .judging loop info (.error e) } ∧
      ((attempt c m call loop n).run hs).deeds = [⟨none, c.pool, c.pool, []⟩] := by
  unfold attempt
  rw [attempt_of_error hx]
  exact run_of_wait_none rfl

/-- A dial and a reply settle any attempt. -/
theorem wait?_settled (hu : call.opens = false) (hs : List (Happening σ)) (u : Client.Moment)
    (r : Except Transport.Error Nat) (v : Client.Moment) (a : Arrival) :
    ((attempt c m call loop n).run
      (hs ++ [.event u (.dialled r), .event v (.arrived a)])).call.stage.wait? = none := by
  obtain ⟨s, info, x, hx⟩ : ∃ s info x, c.passed m call loop n = (s, info, x) := ⟨_, _, _, rfl⟩
  cases x with
  | error e =>
    rw [(run_refused hx _).1]
    rfl
  | ok _ =>
    rw [attempt_eq_begin hu hx]
    obtain ⟨f, -, hcall⟩ := (transmits { c with hooks := s } m call loop n info).ends hs u r v a
    rw [hcall]
    rfl

/-- An attempt that waits for nothing any more has come to one result, after one pass of requests.
-/
theorem comes_run (hu : call.opens = false) (hs : List (Happening σ))
    (hw : ((attempt c m call loop n).run hs).call.stage.wait? = none) : ∃ info result,
      Comes c m call n (c.passed m call loop n) ((attempt c m call loop n).run hs).deeds info
        result ∧
      ((attempt c m call loop n).run hs).call =
        { call with stage := .judging loop info result } := by
  obtain ⟨s, info, x, hx⟩ : ∃ s info x, c.passed m call loop n = (s, info, x) := ⟨_, _, _, rfl⟩
  cases x with
  | error e =>
    obtain ⟨hcall, hdeeds⟩ := run_refused hx hs
    rw [hx, hdeeds]
    exact ⟨info, _, .refused s info e, hcall⟩
  | ok _ =>
    rw [attempt_eq_begin hu hx] at hw ⊢
    obtain ⟨stage, hcall, hstands⟩ := stands_run { c with hooks := s } m call loop n info hs
    rw [hcall] at hw
    obtain ⟨f, hc, rfl⟩ := hstands.exists_result hw
    rw [hx]
    exact ⟨info, _, .sent s info _ f hc, hcall⟩

/-- What holds of the hooks of every attempt, whatever they do and however they fail, and whatever
else becomes of the client meanwhile. -/
structure Hooked (c : Client σ) (m : Client.Moment) (call : Call) (loop : Retry Outcome)
    (n : Node) : Prop where
  begun : (c.watching []).attempt m call loop n =
    ((c.attempt m call loop n).1.watching (c.asked m call loop n), (c.attempt m call loop n).2)
  stepped : ∀ (d : Client σ) u call' ev, (d.watching []).step u call' ev =
    ((d.step u call' ev).1.watching (d.heard u call' ev), (d.step u call' ev).2)
  asks : Asks m.now c.wrappers 0 (call.info m.now n loop.attempt) c.hooks (c.asked m call loop n)
    (c.passed m call loop n)
  refused : ∀ s info e, c.passed m call loop n = (s, info, .error e) →
    c.attempt m call loop n =
      ({ c with hooks := s }, { call with stage := .judging loop info (.error e) }, [])
  sends : ∀ s info, c.passed m call loop n = (s, info, .ok ()) →
    c.attempt m call loop n = { c with hooks := s }.transmit m call loop n info
  quiet : ∀ hs u ev (d : Client σ),
    ((attempt c m call loop n).run hs).call.stage.wait? ≠ none →
    d.heard u ((attempt c m call loop n).run hs).call ev = []
  settles : ∀ hs u r v a, ((attempt c m call loop n).run
    (hs ++ [.event u (.dialled r), .event v (.arrived a)])).call.stage.wait? = none
  ends : ∀ hs, ((attempt c m call loop n).run hs).call.stage.wait? = none → ∃ info result,
    Comes c m call n (c.passed m call loop n) ((attempt c m call loop n).run hs).deeds info
      result ∧
    ((attempt c m call loop n).run hs).call = { call with stage := .judging loop info result } ∧
    (∀ u (d : Client σ), Ends d.wrappers info
      (d.heard u ((attempt c m call loop n).run hs).call .proceed) result) ∧
    ∀ u (τ : Type) (d : Client τ),
      (d.step u ((attempt c m call loop n).run hs).call .proceed).2 =
        verdict call loop u.now result

/-- Every attempt is hooked, whatever its wrappers do and whatever happens on the way. -/
theorem hooked (c : Client σ) (m : Client.Moment) (call : Call) (loop : Retry Outcome) (n : Node)
    (hu : call.opens = false) : Hooked c m call loop n where
  begun := (attempt_watching_asked c m call loop n).2
  stepped := step_watching_heard
  asks := (attempt_watching_asked c m call loop n).1
  refused _ _ _ hx := attempt_of_error hx
  sends _ _ hx := attempt_of_ok hu hx
  quiet _ _ _ _ hw := heard_of_wait hw
  settles := wait?_settled hu
  ends hs hw := by
    obtain ⟨info, result, hcomes, hcall⟩ := comes_run hu hs hw
    refine ⟨info, result, hcomes, hcall, ?_, ?_⟩
    · intro u d
      rw [hcall]
      exact ends_heard d u call loop info result
    · intro u τ d
      rw [hcall]
      exact step_judging d result

/-- The second of three wrappers refuses a request, and the first fails at the error as well. -/
theorem hooked_refused :
    let ws : Chain Unit := [{ onError := fun _ _ _ s => (s, .error .deadlineExceeded) },
      { onRequest := fun _ info s => (s, info, .error .cancelled) }, {}]
    let c : Client Unit := .ofConfig {} {} ws ()
    let m : Client.Moment := ⟨0, {}, fun _ => 0⟩
    let r : Request := { service := "s", endpoint := "e", body := [] }
    let call : Call := .new { token := ⟨0, []⟩ } r {} false
    let loop : Retry Outcome := ⟨0, .trying ⟨"n", "n:1", .empty⟩⟩
    let t := attempt c m call loop ⟨"n", "n:1", .empty⟩
    call.opens = false ∧ Hooked c m call loop ⟨"n", "n:1", .empty⟩ ∧
      (c.asked m call loop ⟨"n", "n:1", .empty⟩).map (fun h => (h.place, h.returned)) =
        [(0, .ok ()), (1, .error .cancelled)] ∧
      (t.client.heard m t.call .proceed).map (fun h => (h.place, h.returned)) =
        [(0, .error .deadlineExceeded), (1, .ok ()), (2, .ok ())] := by
  intro ws c m r call loop t
  exact ⟨rfl, hooked c m call loop ⟨"n", "n:1", .empty⟩ rfl, rfl, rfl⟩

end AttemptRun
end Switchboard.Client
