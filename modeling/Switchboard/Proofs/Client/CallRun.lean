import Switchboard.Client
import Switchboard.Proofs.Client.CallLoop

/-! Whatever happens around a call of a client, its loop goes through a session. -/
namespace Switchboard.Client

open Discovery (Node)
open Rpc (Request Response CallError)

variable {σ : Type} {c : Client σ} {m : Client.Moment} {call : Call} {loop : Retry Outcome}
  {n : Node} {info : AttemptInfo}

/-- The loop of a call, once it has one and while it goes on. -/
def Stage.loop? : Stage → Option (Retry Outcome)
  | .looping loop => some loop
  | .dialling loop _ => some loop
  | .exchanging loop _ _ _ => some loop
  | .judging loop _ _ => some loop
  | _ => none

def Action.note? : Action → Option RetryNote
  | .note n => some n
  | _ => none

/-- The call has come to another stage of the same loop, with nothing to note. -/
structure Stays (call : Call) (loop : Retry Outcome)
    (x : Client σ × Call × List Action) : Prop where
  call : ∃ stage, x.2.1 = { call with stage } ∧ stage.loop? = some loop
  notes : x.2.2.filterMap Action.note? = []

theorem stays_judge {r : Except CallError Outcome} : Stays call loop (c.judge call loop info r) :=
  ⟨⟨_, rfl, rfl⟩, rfl⟩

theorem note?_closes (xs : List Connection) :
    (xs.map Action.close).filterMap Action.note? = [] := by
  induction xs with
  | nil => rfl
  | cons x xs ih => exact ih

theorem stays_connect {out : Outgoing} : Stays call loop (c.connect m call loop n info out) := by
  unfold Client.connect
  dsimp only
  split
  · refine ⟨⟨_, rfl, rfl⟩, ?_⟩
    rw [List.filterMap_append, note?_closes]
    rfl
  · refine ⟨⟨_, rfl, rfl⟩, ?_⟩
    rw [List.filterMap_append, note?_closes]
    rfl

theorem stays_transmit : Stays call loop (c.transmit m call loop n info) := by
  unfold Client.transmit
  dsimp only
  split
  · exact stays_judge
  · exact stays_connect

theorem stays_openChannel : Stays call loop (c.openChannel call loop n info) := by
  unfold Client.openChannel
  split
  · exact stays_judge
  · exact ⟨⟨_, rfl, rfl⟩, rfl⟩

/-- An attempt goes on as far as it can without touching its loop. -/
theorem stays_attempt (c : Client σ) (m : Client.Moment) (call : Call) (loop : Retry Outcome)
    (n : Node) :
    Stays call loop (c.attempt m call loop n) := by
  unfold Client.attempt
  dsimp only
  split
  · exact stays_judge
  · split
    · exact stays_openChannel
    · exact stays_transmit

theorem stays_dialled {a : Attempt} {r : Except Transport.Error Nat} :
    Stays call loop (c.dialled m call loop a r) := by
  unfold Client.dialled
  split
  · exact stays_judge
  · split
    · exact ⟨⟨_, rfl, rfl⟩, rfl⟩
    · exact stays_judge

theorem stays_arrived {a : Attempt} {out : Outgoing} {conn : Connection} {x : Arrival} :
    Stays call loop (c.arrived call loop a out conn x) := by
  unfold Client.arrived
  dsimp only
  exact ⟨⟨_, rfl, rfl⟩, note?_closes _⟩

/-- The call goes on with the loop, or is done with what the loop came to. -/
def Stage.Holds (stage : Stage) (loop : Retry Outcome) : Prop :=
  stage.loop? = some loop ∨ ∃ r, stage = .done r ∧ loop.phase = .done r

theorem holds_resume (c : Client σ) (m : Client.Moment) (call : Call) (loop : Retry Outcome) :
    ∃ stage, (c.resume m call loop).2 = { call with stage } ∧ stage.Holds loop := by
  unfold Client.resume
  split
  · rename_i hp
    unfold Client.settle
    dsimp only
    split <;> exact ⟨_, rfl, .inr ⟨_, rfl, hp⟩⟩
  · exact ⟨_, rfl, .inl rfl⟩

/-- What one event makes of a loop. -/
inductive Drives (rules : RetryRules) (check : Except CallError Unit) (now : Instant)
    (loop : Retry Outcome) :
    Retry Outcome → List RetryNote → Prop
  | idle : Drives rules check now loop loop []
  | start (hp : loop.phase = .ready) : Drives rules check now loop (loop.start rules check) []
  | wake : Drives rules check now loop (loop.wake check now) []
  | finish (r : Except CallError Outcome) :
    Drives rules check now loop (loop.finish rules now r).1 (loop.finish rules now r).2

/-- The call has come to a stage of the loop that its event made of the one before. -/
def Moved (m : Client.Moment) (call : Call) (loop : Retry Outcome)
    (x : Client σ × Call × List Action) : Prop :=
  ∃ stage loop', x.2.1 = { call with stage } ∧ stage.Holds loop' ∧
    Drives call.rules (Client.check m call) m.now loop loop' (x.2.2.filterMap Action.note?)

theorem Stays.moved {x : Client σ × Call × List Action} (h : Stays call loop x) :
    Moved m call loop x := by
  obtain ⟨⟨stage, hcall, hstage⟩, hnotes⟩ := h
  exact ⟨stage, loop, hcall, .inl hstage, hnotes ▸ .idle⟩

theorem moved_proceed_looping (hs : call.stage = .looping loop) :
    Moved m call loop (c.proceed m call) := by
  unfold Client.proceed
  rw [hs]
  dsimp only
  split
  · rename_i hp
    split
    · rename_i n hn
      obtain ⟨⟨stage, hcall, hstage⟩, hnotes⟩ :=
        stays_attempt c m call (loop.start call.rules (Client.check m call)) n
      exact ⟨stage, _, hcall, .inl hstage, hnotes ▸ .start hp⟩
    · obtain ⟨stage, hcall, hstage⟩ := holds_resume c m call
        (loop.start call.rules (Client.check m call))
      exact ⟨stage, _, hcall, hstage, .start hp⟩
  · obtain ⟨stage, hcall, hstage⟩ := holds_resume c m call (loop.wake (Client.check m call) m.now)
    exact ⟨stage, _, hcall, hstage, .wake⟩

theorem moved_proceed_judging {r : Except CallError Outcome}
    (hs : call.stage = .judging loop info r) :
    Moved m call loop (c.proceed m call) := by
  unfold Client.proceed
  rw [hs]
  dsimp only
  obtain ⟨stage, hcall, hstage⟩ := holds_resume (c.report m info r) m call
    (loop.finish call.rules m.now r).1
  have hnotes : ((loop.finish call.rules m.now r).2.map Action.note).filterMap Action.note? =
      (loop.finish call.rules m.now r).2 := by
    rw [List.filterMap_map]
    exact List.filterMap_some
  exact ⟨stage, _, hcall, hstage, hnotes.symm ▸ .finish r⟩

theorem moved_none (hs : call.stage.loop? = some loop) : Moved m call loop (c, call, []) :=
  ⟨call.stage, loop, rfl, .inl hs, .idle⟩

/-- Whatever happens to a call that has a loop, the loop is driven by it or left as it is. -/
theorem moved_step (hs : call.stage.loop? = some loop) (e : CallEvent) :
    Moved m call loop (c.step m call e) := by
  have hnone := moved_none (c := c) (m := m) hs
  unfold Client.step
  cases hst : call.stage with
  | fresh => simp [hst, Stage.loop?] at hs
  | selecting => simp [hst, Stage.loop?] at hs
  | done r => simp [hst, Stage.loop?] at hs
  | looping l =>
    obtain rfl : l = loop := by simpa [hst, Stage.loop?] using hs
    cases e with
    | proceed => exact moved_proceed_looping hst
    | _ => first | exact hnone | (rename_i r; cases r <;> exact hnone)
  | dialling l a =>
    obtain rfl : l = loop := by simpa [hst, Stage.loop?] using hs
    cases e with
    | proceed =>
      unfold Client.proceed
      rw [hst]
      exact hnone
    | dialled r => exact stays_dialled.moved
    | _ => first | exact hnone | (rename_i r; cases r <;> exact hnone)
  | exchanging l a out conn =>
    obtain rfl : l = loop := by simpa [hst, Stage.loop?] using hs
    cases e with
    | proceed =>
      unfold Client.proceed
      rw [hst]
      exact hnone
    | arrived x => exact stays_arrived.moved
    | _ => first | exact hnone | (rename_i r; cases r <;> exact hnone)
  | judging l info r =>
    obtain rfl : l = loop := by simpa [hst, Stage.loop?] using hs
    cases e with
    | proceed => exact moved_proceed_judging hst
    | _ => first | exact hnone | (rename_i r; cases r <;> exact hnone)

/-- A call that is done takes no notice of events. -/
theorem step_done {r : Except CallError Outcome} (hs : call.stage = .done r) (e : CallEvent) :
    c.step m call e = (c, call, []) := by
  unfold Client.step
  rw [hs]
  cases e with
  | proceed =>
    unfold Client.proceed
    rw [hs]
  | selected r => cases r <;> rfl
  | dialled r => rfl
  | arrived x => rfl

/-- What can come of a call before its loop. -/
structure Before (call : Call) (x : Client σ × Call × List Action) : Prop where
  context : x.2.1.context = call.context
  notes : x.2.2.filterMap Action.note? = []
  stage : x.2.1.stage.loop? = none ∨ x.2.1.stage.loop? = some {}

theorem before_start : Before call (c.start m call) := by
  unfold Client.start
  split
  · exact ⟨rfl, rfl, .inl rfl⟩
  · split
    · exact ⟨rfl, rfl, .inl rfl⟩
    · split
      · exact ⟨rfl, rfl, .inl rfl⟩
      · exact ⟨rfl, rfl, .inr rfl⟩

/-- A call without a loop comes to one that is new, if to any. -/
theorem before_step (hs : call.stage.loop? = none) (e : CallEvent) :
    Before call (c.step m call e) := by
  have hnone : Before call (c, call, []) := ⟨rfl, rfl, .inl hs⟩
  cases hst : call.stage with
  | fresh =>
    unfold Client.step
    rw [hst]
    cases e with
    | proceed =>
      unfold Client.proceed
      rw [hst]
      exact before_start
    | selected r => cases r <;> exact hnone
    | dialled r => exact hnone
    | arrived x => exact hnone
  | selecting =>
    unfold Client.step
    rw [hst]
    cases e with
    | proceed =>
      unfold Client.proceed
      rw [hst]
      exact hnone
    | selected r =>
      cases r with
      | ok next => exact ⟨rfl, rfl, .inr rfl⟩
      | error e => exact ⟨rfl, rfl, .inl rfl⟩
    | dialled r => exact hnone
    | arrived x => exact hnone
  | done r =>
    rw [step_done hst]
    exact hnone
  | looping l | dialling l a | exchanging l a out conn | judging l info r =>
    simp [hst, Stage.loop?] at hs

/-! A call with the clock and the tokens around it. -/

/-- The client is one that other calls use too; the actions are those that the call wanted done. -/
structure CallRun (σ : Type) where
  client : Client σ
  call : Call
  now : Instant := 0
  cancellation : Cancellation := {}
  actions : List Action := []

namespace CallRun

/-- Time passes, a token is cancelled, other calls use the client, or something happens to the call.
-/
inductive Happening (σ : Type)
  | tick (d : Duration)
  | cancel (t : Token)
  | others (client : Client σ)
  | event (choose : Nat → Nat) (e : CallEvent)

def step (p : CallRun σ) : Happening σ → CallRun σ
  | .tick d => { p with now := p.now + d }
  | .cancel t => { p with cancellation := p.cancellation.cancel t }
  | .others client => { p with client }
  | .event choose e =>
    let x := p.client.step ⟨p.now, p.cancellation, choose⟩ p.call e
    { p with client := x.1, call := x.2.1, actions := p.actions ++ x.2.2 }

def run (p : CallRun σ) (hs : List (Happening σ)) : CallRun σ := hs.foldl step p

/-- A session that runs of the loop lead to. -/
def Reached (rules : RetryRules) (ctx : Context) (s : Session Outcome) : Prop :=
  ∃ ms, s = Session.run rules ctx {} ms

/-- The session is where the call's loop is: not begun, under way, or done. -/
def Follows (p : CallRun σ) (s : Session Outcome) : Prop :=
  s.now = p.now ∧ s.cancellation = p.cancellation ∧ s.notes = p.actions.filterMap Action.note? ∧
    ((p.call.stage.loop? = none ∧ s.loop = {} ∧ ∀ rules, Reached rules p.call.context s) ∨
      (p.call.stage.Holds s.loop ∧ Reached p.call.rules p.call.context s))

variable {p : CallRun σ} {s : Session Outcome} {rules : RetryRules} {ctx : Context}

theorem Reached.step (h : Reached rules ctx s) (m : Session.Move Outcome) :
    Reached rules ctx (s.step rules ctx m) := by
  obtain ⟨ms, rfl⟩ := h
  exact ⟨ms ++ [m], by rw [Session.run, Session.run, List.foldl_append]; rfl⟩

theorem Reached.obeys (h : Reached rules ctx s) : Session.Obeys rules ctx s := by
  obtain ⟨ms, rfl⟩ := h
  obtain ⟨hs, hn⟩ := @Session.stands_run Outcome rules ctx {} Session.stands_new rfl ms
  exact hs.obeys hn

/-- Whatever drives a loop is a move of its session. -/
theorem exists_move {now : Instant} {loop : Retry Outcome} {notes : List RetryNote}
    (hn : s.now = now) (h : Drives rules (s.check ctx) now s.loop loop notes)
    (hr : Reached rules ctx s) :
    ∃ s', Reached rules ctx s' ∧ s'.now = s.now ∧ s'.cancellation = s.cancellation ∧
      s'.loop = loop ∧
      s'.notes = s.notes ++ notes := by
  subst hn
  cases h with
  | idle => exact ⟨s, hr, rfl, rfl, rfl, (List.append_nil _).symm⟩
  | start hp =>
    refine ⟨_, hr.step .start, ?_⟩
    simp only [Session.step, hp, Session.start, List.append_nil]
    split <;> exact ⟨rfl, rfl, rfl, rfl⟩
  | wake =>
    cases hc : s.check ctx with
    | ok u => exact ⟨_, hr.step .wake, rfl, rfl, rfl, (List.append_nil _).symm⟩
    | error e =>
      refine ⟨_, hr.step (.interrupt e), ?_⟩
      rw [Session.step, if_pos (Context.mem_endings_of_check hc)]
      exact ⟨rfl, rfl, rfl, (List.append_nil _).symm⟩
  | finish r =>
    by_cases hp : ∃ n, s.loop.phase = .trying n
    · obtain ⟨n, hp⟩ := hp
      refine ⟨_, hr.step (.finish r), ?_⟩
      simp [Session.step, hp]
    · have hf : s.loop.finish rules s.now r = (s.loop, []) := by
        unfold Retry.finish
        split
        · rename_i n hn
          exact absurd ⟨n, hn⟩ hp
        · rfl
      exact ⟨s, hr, rfl, rfl, by rw [hf], by rw [hf, List.append_nil]⟩

/-- What happens to the call happens to the session, or is nothing to it. -/
theorem Follows.event (h : p.Follows s) (choose : Nat → Nat) (e : CallEvent) :
    ∃ s', (p.step (.event choose e)).Follows s' := by
  obtain ⟨hnow, hcan, hnotes, hstage⟩ := h
  rcases hstage with ⟨hnone, hloop, hreach⟩ | ⟨hholds | ⟨r, hdone, hphase⟩, hreach⟩
  · obtain ⟨hctx, hn, hstage⟩ := before_step (c := p.client)
      (m := ⟨p.now, p.cancellation, choose⟩) hnone e
    refine ⟨s, hnow, hcan, ?_, ?_⟩
    · show s.notes = (p.actions ++ _).filterMap _
      rw [List.filterMap_append, hn, List.append_nil, hnotes]
    · rcases hstage with hstage | hstage
      · exact .inl ⟨hstage, hloop, fun rules => hctx.symm ▸ hreach rules⟩
      · exact .inr ⟨.inl (hloop.symm ▸ hstage), hctx.symm ▸ hreach _⟩
  · obtain ⟨stage, loop, hcall, hstage, hdrives⟩ :=
      moved_step (c := p.client) (m := ⟨p.now, p.cancellation, choose⟩) hholds e
    have hcheck : Client.check ⟨p.now, p.cancellation, choose⟩ p.call = s.check p.call.context := by
      rw [Session.check, hnow, hcan]
      rfl
    rw [hcheck] at hdrives
    obtain ⟨s', hreach', hnow', hcan', hloop', hnotes'⟩ := exists_move hnow hdrives hreach
    refine ⟨s', hnow'.trans hnow, hcan'.trans hcan, ?_, .inr ?_⟩
    · show s'.notes = (p.actions ++ _).filterMap _
      rw [List.filterMap_append, hnotes', hnotes]
    · show (p.client.step _ p.call e).2.1.stage.Holds _ ∧
        Reached (p.client.step _ p.call e).2.1.rules (p.client.step _ p.call e).2.1.context _
      rw [hcall, hloop']
      exact ⟨hstage, hreach'⟩
  · refine ⟨s, ?_⟩
    have hp : p.step (.event choose e) = p := by
      rw [step, step_done hdone]
      simp
    rw [hp]
    exact ⟨hnow, hcan, hnotes, .inr ⟨.inr ⟨r, hdone, hphase⟩, hreach⟩⟩

theorem Follows.step (h : p.Follows s) (x : Happening σ) : ∃ s', (p.step x).Follows s' := by
  cases x with
  | tick d =>
    obtain ⟨hnow, hcan, hnotes, hcall⟩ := h
    refine ⟨{ s with now := s.now + d }, by rw [CallRun.step, hnow], hcan, hnotes, ?_⟩
    rcases hcall with ⟨hnone, hloop, hr⟩ | ⟨hholds, hr⟩
    · exact .inl ⟨hnone, hloop, fun rules => (hr rules).step (.tick d)⟩
    · exact .inr ⟨hholds, hr.step (.tick d)⟩
  | cancel t =>
    obtain ⟨hnow, hcan, hnotes, hcall⟩ := h
    refine ⟨{ s with cancellation := s.cancellation.cancel t }, hnow,
      by rw [CallRun.step, hcan], hnotes, ?_⟩
    rcases hcall with ⟨hnone, hloop, hr⟩ | ⟨hholds, hr⟩
    · exact .inl ⟨hnone, hloop, fun rules => (hr rules).step (.cancel t)⟩
    · exact .inr ⟨hholds, hr.step (.cancel t)⟩
  | others client => exact ⟨s, h⟩
  | event choose e => exact h.event choose e

theorem Follows.run (h : p.Follows s) (xs : List (Happening σ)) : ∃ s', (p.run xs).Follows s' := by
  induction xs generalizing p s with
  | nil => exact ⟨s, h⟩
  | cons x xs ih =>
    obtain ⟨s', h'⟩ := h.step x
    exact ih h'

theorem Follows.obeys (h : p.Follows s) : Session.Obeys p.call.rules p.call.context s := by
  obtain ⟨-, -, -, hstage⟩ := h
  rcases hstage with ⟨-, -, hr⟩ | ⟨-, hr⟩
  · exact (hr _).obeys
  · exact hr.obeys

/-- Whatever happens to a new call and around it, its loop goes through a session, which obeys the
call's rules. -/
theorem exists_session (client : Client σ) (ctx : Context) (r : Request) (o : Options)
    (opens : Bool) (xs : List (Happening σ)) :
    ∃ s, (run ⟨client, Call.new ctx r o opens, 0, {}, []⟩ xs).Follows s ∧
      Session.Obeys (run ⟨client, Call.new ctx r o opens, 0, {}, []⟩ xs).call.rules
        (run ⟨client, Call.new ctx r o opens, 0, {}, []⟩ xs).call.context s := by
  have hnew : Follows ⟨client, Call.new ctx r o opens, 0, {}, []⟩ {} :=
    ⟨rfl, rfl, rfl, .inl ⟨rfl, rfl, fun rules => ⟨[], rfl⟩⟩⟩
  obtain ⟨s, hs⟩ := hnew.run xs
  exact ⟨s, hs, hs.obeys⟩

end CallRun
end Switchboard.Client
