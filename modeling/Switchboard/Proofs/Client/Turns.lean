import Switchboard.Client

/-! What a call asks for as it goes on, and what becomes of the pool. -/
namespace Switchboard.Client

open Discovery (Node)
open Rpc

/-- What a call waits for. -/
inductive Wait
  | nodes
  | dial (address : String) (stream : Bool)
  | exchange (conn : Connection) (frame : Frame)
deriving DecidableEq

def Action.wait? : Action → Option Wait
  | .select _ _ => some .nodes
  | .dial address stream _ => some (.dial address stream)
  | .exchange conn frame _ => some (.exchange conn frame)
  | _ => none

/-- A stream is what a call dials for that has nothing to send yet. -/
def Stage.wait? : Stage → Option Wait
  | .selecting => some .nodes
  | .dialling _ a => some (.dial a.node.address a.outgoing.isRight)
  | .exchanging _ _ out conn => some (.exchange conn out.frame)
  | _ => none

/-- How the pool may change as a call goes on that waits for nothing. -/
inductive Turn (p : Pool) : Pool → Option Wait → Prop
  | rests : Turn p p none
  | selects : Turn p p (some .nodes)
  | opens (address : String) : Turn p p (some (.dial address true))
  | dials (now : Instant) (address : String) :
    Turn p (p.acquire now address).1 (some (.dial address false))
  | reuses (now : Instant) (address : String) (conn : Connection) (frame : Frame)
    (hf : (p.acquire now address).2.found = some conn) :
    Turn p (p.acquire now address).1 (some (.exchange conn frame))

variable {σ : Type} {c : Client σ} {p : Pool} {m : Client.Moment} {call : Call}
  {loop : Retry Outcome} {n : Node} {info : AttemptInfo} {x : Client σ × Call × List Action}

/-- A call asks for what it comes to wait for. -/
structure Turns (p : Pool) (x : Client σ × Call × List Action) : Prop where
  asks : x.2.2.findSome? Action.wait? = x.2.1.stage.wait?
  turn : Turn p x.1.pool x.2.1.stage.wait?

theorem wait?_closes (xs : List Connection) :
    (xs.map Action.close).findSome? Action.wait? = none := by
  induction xs with
  | nil => rfl
  | cons x xs ih => exact ih

theorem turns_judge {r : Except CallError Outcome} : Turns c.pool (c.judge call loop info r) :=
  ⟨rfl, .rests⟩

/-- An attempt goes on with an idle connection, or asks for a new one. -/
theorem turns_connect (c : Client σ) (m : Client.Moment) (call : Call) (loop : Retry Outcome)
    (n : Node) (info : AttemptInfo) (out : Outgoing) :
    Turns c.pool (c.connect m call loop n info out) := by
  unfold Client.connect
  dsimp only
  split
  · rename_i conn hf
    refine ⟨?_, .reuses _ _ _ _ hf⟩
    rw [List.findSome?_append, wait?_closes]
    rfl
  · refine ⟨?_, .dials _ _⟩
    rw [List.findSome?_append, wait?_closes]
    rfl

theorem turns_transmit (hp : c.pool = p) : Turns p (c.transmit m call loop n info) := by
  subst hp
  unfold Client.transmit
  dsimp only
  split
  · exact ⟨rfl, .rests⟩
  · rename_i seq out _
    exact turns_connect { c with seq } m call loop n info out

theorem turns_openChannel (hp : c.pool = p) : Turns p (c.openChannel call loop n info) := by
  subst hp
  unfold Client.openChannel
  split
  · exact turns_judge
  · exact ⟨rfl, .opens _⟩

/-- An attempt asks for one connection, or comes to nothing before. -/
theorem turns_attempt (c : Client σ) (m : Client.Moment) (call : Call) (loop : Retry Outcome)
    (n : Node) : Turns c.pool (c.attempt m call loop n) := by
  unfold Client.attempt
  dsimp only
  split
  · exact ⟨rfl, .rests⟩
  · split
    · exact turns_openChannel rfl
    · exact turns_transmit rfl

theorem turns_resume (c : Client σ) (m : Client.Moment) (call : Call) (loop : Retry Outcome) :
    (c.resume m call loop).1.pool = c.pool ∧ (c.resume m call loop).2.stage.wait? = none := by
  unfold Client.resume
  split
  · unfold Client.settle
    dsimp only
    split <;> exact ⟨rfl, rfl⟩
  · exact ⟨rfl, rfl⟩

theorem pool_report (c : Client σ) (m : Client.Moment) (info : AttemptInfo)
    (r : Except CallError Outcome) : (c.report m info r).pool = c.pool := by
  unfold Client.report
  split <;> rfl

theorem pool_cached? (c : Client σ) (m : Client.Moment) (call : Call) :
    (c.cached? m call).1.pool = c.pool := by
  unfold Client.cached?
  split <;> rfl

/-- A call starts with what it has been given, or asks for nodes. -/
theorem turns_start : Turns c.pool (c.start m call) := by
  unfold Client.start
  have hpool := pool_cached? c m call
  split
  · exact ⟨rfl, .rests⟩
  · split
    · rename_i c' r hc
      rw [hc] at hpool
      exact ⟨rfl, hpool ▸ .rests⟩
    · rename_i c' hc
      rw [hc] at hpool
      split
      · exact ⟨rfl, hpool ▸ .selects⟩
      · exact ⟨rfl, hpool ▸ .rests⟩

/-- Whatever a call does next, it asks for what it comes to wait for. -/
theorem turns_proceed (c : Client σ) (m : Client.Moment) (call : Call)
    (hw : call.stage.wait? = none) : Turns c.pool (c.proceed m call) := by
  have resumed (c' : Client σ) (loop : Retry Outcome) (as : List Action)
      (hp : c'.pool = c.pool) (ha : as.findSome? Action.wait? = none) :
      Turns c.pool ((c'.resume m call loop).1, (c'.resume m call loop).2, as) := by
    obtain ⟨hpool, hwait⟩ := turns_resume c' m call loop
    refine ⟨ha.trans hwait.symm, ?_⟩
    show Turn c.pool (c'.resume m call loop).1.pool (c'.resume m call loop).2.stage.wait?
    rw [hpool, hwait, hp]
    exact .rests
  unfold Client.proceed
  cases hs : call.stage with
  | fresh => exact turns_start
  | looping loop =>
    dsimp only
    split
    · split
      · exact turns_attempt c m call _ _
      · exact resumed c _ [] rfl rfl
    · exact resumed c _ [] rfl rfl
  | judging loop info r =>
    refine resumed (c.report m info r) _ _ (pool_report c m info r) ?_
    exact List.findSome?_eq_none_iff.2 (by simp [Action.wait?])
  | done r => exact ⟨by rw [hs]; rfl, by rw [hs]; exact .rests⟩
  | selecting => simp [hs, Stage.wait?] at hw
  | dialling loop a => simp [hs, Stage.wait?] at hw
  | exchanging loop a out conn => simp [hs, Stage.wait?] at hw

/-- Being given nodes, or none, leaves nothing to wait for. -/
theorem turns_selected (hw : call.stage.wait? = some .nodes) (r : Except CallError Next) :
    (c.step m call (.selected r)).1.pool = c.pool ∧
      (c.step m call (.selected r)).2.1.stage.wait? = none ∧
      (c.step m call (.selected r)).2.2 = [] := by
  cases hs : call.stage with
  | selecting => cases r <;> simp [Client.step, hs, Stage.wait?]
  | fresh | looping | dialling | exchanging | judging | done => simp [hs, Stage.wait?] at hw

theorem turns_undialled {address : String} {stream : Bool}
    (hw : call.stage.wait? = some (.dial address stream)) (e : Transport.Error) :
    (c.step m call (.dialled (.error e))).1 = c ∧
      (c.step m call (.dialled (.error e))).2.1.stage.wait? = none ∧
      (c.step m call (.dialled (.error e))).2.2 = [] := by
  cases hs : call.stage with
  | dialling loop a => simp [Client.step, hs, Client.dialled, Client.judge, Stage.wait?]
  | fresh | looping | selecting | exchanging | judging | done => simp [hs, Stage.wait?] at hw

/-- A connection that was dialled for a stream is the stream's, any other one is for a frame. -/
theorem turns_dialled {address : String} {stream : Bool}
    (hw : call.stage.wait? = some (.dial address stream)) (id : Nat) :
    (c.step m call (.dialled (.ok id))).1 = c ∧
      (c.step m call (.dialled (.ok id))).2.2.findSome? Action.wait? =
        (c.step m call (.dialled (.ok id))).2.1.stage.wait? ∧
      (stream = true → (c.step m call (.dialled (.ok id))).2.1.stage.wait? = none) ∧
      (stream = false → ∃ frame, (c.step m call (.dialled (.ok id))).2.1.stage.wait? =
        some (.exchange ⟨id, address, m.now⟩ frame)) := by
  cases hs : call.stage with
  | dialling loop a =>
    obtain ⟨node, info, outgoing⟩ := a
    simp only [hs, Stage.wait?, Option.some.injEq, Wait.dial.injEq] at hw
    obtain ⟨rfl, rfl⟩ := hw
    cases outgoing with
    | inl out => simp [Client.step, hs, Client.dialled, Stage.wait?, Action.wait?]
    | inr agreement => simp [Client.step, hs, Client.dialled, Client.judge, Stage.wait?]
  | fresh | looping | selecting | exchanging | judging | done => simp [hs, Stage.wait?] at hw

/-- The connection goes back to the pool, as failed when no answer could be read. -/
theorem step_arrived {a : Attempt} {out : Outgoing} {conn : Connection}
    (hs : call.stage = .exchanging loop a out conn) (x : Arrival) :
    c.step m call (.arrived x) =
      ({ c with pool := (c.pool.release conn (!(Exchange.decode out x).isOk)).1 },
        { call with
          stage := .judging loop a.info
            (((Exchange.decode out x).bind Exchange.accept).map Outcome.response) },
        (c.pool.release conn (!(Exchange.decode out x).isOk)).2.toList.map .close) := by
  simp only [Client.step, hs, Client.arrived]

end Switchboard.Client
