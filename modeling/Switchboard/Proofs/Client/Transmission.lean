import Mathlib.Data.List.Induction
import Switchboard.Proofs.Client.Turns

/-! An attempt of a call, whatever else becomes of the client meanwhile: what it does with its
connection, and what it comes to. -/
namespace Switchboard.Client

open Discovery (Node)
open Rpc

/-! Failures that no remote node reported have a code exactly when the transport is to blame. -/

theorem code?_connectionError (e : Transport.Error) : (connectionError e).code? = some 500 := by
  have h : ∀ id detail, (CallError.rpc (.internalServerError id detail)).code? = some 500 :=
    fun _ _ => rfl
  exact h _ _

theorem code?_requestTimeoutError (d : Duration) : (requestTimeoutError d).code? = some 408 := by
  have h : ∀ id detail, (CallError.rpc (.timeout id detail)).code? = some 408 := fun _ _ => rfl
  exact h _ _

variable {e : CallError} {codec : Codec} {h : Dict String} {msg : Message}

theorem code?_of_codecFor {s : CodecSet} {t : String} (he : s.codecFor t = .error e) :
    e.code? = none := by
  unfold CodecSet.codecFor at he
  split at he
  · cases he
  · split at he
    · cases he
    · cases he
      rfl

theorem code?_of_mapError {α : Type} {x : Except Malformed α} (he : x.mapError .codec = .error e) :
    e.code? = none := by
  cases x with
  | error f =>
    cases he
    rfl
  | ok a => cases he

theorem code?_of_marshal (he : codec.marshal msg = .error e) : e.code? = none := by
  cases codec with
  | jsonRpc => exact code?_of_mapError he
  | json | protoRpc | grpc | proto | bytes => cases he

theorem code?_of_unmarshal {b : Bytes} (he : (codec.unmarshal b msg).2 = some e) :
    e.code? = none := by
  cases codec with
  | jsonRpc =>
    simp only [Codec.unmarshal] at he
    split at he
    · cases he
    · cases he
      rfl
  | protoRpc =>
    obtain ⟨f, -, rfl⟩ := Option.map_eq_some_iff.1 he
    rfl
  | grpc =>
    simp only [Codec.unmarshal] at he
    split at he
    · cases he
    · cases he
      rfl
  | json | proto | bytes => cases he

theorem code?_of_read {envelope : Envelope} {f : Frame} {kind : MessageKind}
    (he : envelope.read f kind = .error e) : e.code? = none := by
  unfold Envelope.read at he
  split at he
  · rename_i fault hf
    cases he
    exact code?_of_unmarshal (by rw [hf])
  · cases he

/-- A codec that cannot be agreed on has no code to retry by. -/
theorem code?_of_agree {codecs : CodecSet} {r : Request} {n : Node} {timeout : Duration}
    (he : Exchange.agree codecs r n h timeout = .error e) : e.code? = none := by
  simp only [Exchange.agree, CodecSet.negotiate, bind, Except.bind, pure, Except.pure] at he
  split at he
  · rename_i hneg
    split at hneg
    · rename_i hc
      cases he
      cases hneg
      exact code?_of_codecFor hc
    · split at hneg <;> cases hneg
  · cases he

/-- Nor has a frame that cannot be made. -/
theorem code?_of_outgoing {codecs : CodecSet} {id seq : UInt64} {r : Request} {n : Node}
    {timeout : Duration} (he : Exchange.outgoing codecs id r n h timeout = (seq, .error e)) :
    e.code? = none := by
  unfold Exchange.outgoing at he
  split at he
  · rename_i hag
    cases he
    exact code?_of_agree hag
  · rename_i a hag
    obtain ⟨-, he⟩ := Prod.mk.inj he
    cases hm : a.envelope.codec.marshal (Exchange.message id r a.header) with
    | error f =>
      simp only [Envelope.write, hm] at he
      cases he
      exact code?_of_marshal hm
    | ok body =>
      simp only [Envelope.write, hm] at he
      cases he

/-- What an attempt comes to. -/
inductive Fate
  | unsent (e : CallError)
  | undialled (e : Transport.Error)
  | lost (e : Transport.Error)
  | late (after : Duration)
  | unread (e : CallError)
  | refused (s : Status)
  | answered (r : Response)

namespace Fate

def result : Fate → Except CallError Outcome
  | unsent e | unread e => .error e
  | undialled e | lost e => .error (connectionError e)
  | late after => .error (requestTimeoutError after)
  | refused s => .error (.rpc s)
  | answered r => .ok (.response r)

/-- The connection is not fit for another exchange. -/
def spoils : Fate → Bool
  | lost _ | late _ | unread _ => true
  | unsent _ | undialled _ | refused _ | answered _ => false

def code? : Fate → Option Int32
  | undialled _ | lost _ => some 500
  | late _ => some 408
  | refused s => if s.code = 0 then none else some s.code
  | unsent _ | unread _ | answered _ => none

/-- Worth another attempt, when a call does not say otherwise. -/
def IsRetried : Fate → Prop
  | undialled _ | lost _ | late _ => True
  | refused s => s.code = 408 ∨ s.code = 500
  | unsent _ | unread _ | answered _ => False

end Fate

/-- What the end of an exchange makes of an attempt. -/
inductive Meets (out : Outgoing) : Arrival → Fate → Prop
  | lost (e : Transport.Error) : Meets out (.failed e) (.lost e)
  | late : Meets out .timedOut (.late out.timeout)
  | unread (f : Frame) (e : CallError) (hr : out.envelope.read f .response = .error e)
    (hc : e.code? = none) : Meets out (.frame f) (.unread e)
  | refused (f : Frame) (reply : Message) (hr : out.envelope.read f .response = .ok reply)
    (he : reply.error ≠ "") : Meets out (.frame f) (.refused (.parse reply.error))
  | answered (f : Frame) (reply : Message) (hr : out.envelope.read f .response = .ok reply)
    (he : reply.error = "") : Meets out (.frame f) (.answered ⟨reply.header, reply.body⟩)

/-- Every arrival ends the exchange, in one of these ways. -/
theorem exists_meets (out : Outgoing) (a : Arrival) : ∃ f, Meets out a f ∧
    ((Exchange.decode out a).bind Exchange.accept).map Outcome.response = f.result ∧
    (!(Exchange.decode out a).isOk) = f.spoils := by
  cases a with
  | failed e => exact ⟨_, .lost e, rfl, rfl⟩
  | timedOut => exact ⟨_, .late, rfl, rfl⟩
  | frame f =>
    cases hr : out.envelope.read f .response with
    | error e =>
      refine ⟨_, .unread f e hr (code?_of_read hr), ?_⟩
      simp [Exchange.decode, hr, Except.bind, Except.map, Except.isOk, Except.toBool, Fate.result,
        Fate.spoils]
    | ok reply =>
      by_cases he : reply.error = ""
      · refine ⟨_, .answered f reply hr he, ?_⟩
        simp [Exchange.decode, Exchange.accept, hr, he, Except.bind, Except.map, Except.isOk,
          Except.toBool, Fate.result, Fate.spoils]
      · refine ⟨_, .refused f reply hr he, ?_⟩
        simp [Exchange.decode, Exchange.accept, hr, he, Except.bind, Except.map, Except.isOk,
          Except.toBool, Fate.result, Fate.spoils]

/-- One thing that an attempt did, when it began or when what it waited for came: what it made of the
pool, and what it asked for. -/
structure AttemptRun.Deed where
  event : Option CallEvent
  before : Pool
  after : Pool
  actions : List Action

/-- A call in one of its attempts, with all that it did in it. -/
structure AttemptRun (σ : Type) where
  client : Client σ
  call : Call
  deeds : List AttemptRun.Deed := []

namespace AttemptRun

variable {σ : Type} {c : Client σ} {m u v : Client.Moment} {call : Call} {loop : Retry Outcome}
  {n : Node} {info : AttemptInfo} {t : AttemptRun σ} {ds : List Deed} {f : Fate} {out : Outgoing}
  {conn : Connection} {ev : CallEvent}

/-- Other calls use the client, or something happens to this one. -/
inductive Happening (σ : Type)
  | others (client : Client σ)
  | event (m : Client.Moment) (e : CallEvent)

def begin (c : Client σ) (m : Client.Moment) (call : Call) (loop : Retry Outcome) (n : Node)
    (info : AttemptInfo) : AttemptRun σ :=
  let x := c.transmit m call loop n info
  ⟨x.1, x.2.1, [⟨none, c.pool, x.1.pool, x.2.2⟩]⟩

/-- What an attempt waits for. -/
def fits : Stage → CallEvent → Bool
  | .dialling _ _, .dialled _ => true
  | .exchanging _ _ _ _, .arrived _ => true
  | _, _ => false

/-- An attempt that has come to something stays at that. -/
def step (t : AttemptRun σ) : Happening σ → AttemptRun σ
  | .others client => { t with client }
  | .event m e =>
    if t.call.stage.wait? = none then t
    else
      let x := t.client.step m t.call e
      ⟨x.1, x.2.1, t.deeds ++
        if fits t.call.stage e then [⟨some e, t.client.pool, x.1.pool, x.2.2⟩] else []⟩

def run (t : AttemptRun σ) (hs : List (Happening σ)) : AttemptRun σ := hs.foldl step t

/-- What there is to send, if anything. -/
def draft (c : Client σ) (m : Client.Moment) (call : Call) (n : Node) (info : AttemptInfo) :
    Except CallError Outgoing :=
  (Exchange.outgoing c.codecs c.seq call.request n info.headers
    (Exchange.timeout call.context m.now call.options)).2

/-- A connection is looked for in the pool, the old ones are closed, and then it goes on. -/
def Deed.looks (p : Pool) (now : Instant) (address : String) (next : Action) : Deed :=
  ⟨none, p, (p.acquire now address).1,
    (p.acquire now address).2.expired.map Action.close ++ [next]⟩

/-- The connection goes back to the pool, which may not keep it. -/
def Deed.returns (q : Pool) (conn : Connection) (failed : Bool) (a : Arrival) : Deed :=
  ⟨some (.arrived a), q, (q.release conn failed).1,
    (q.release conn failed).2.toList.map Action.close⟩

/-- How an attempt comes by the connection on which it sends. -/
inductive Connects (p : Pool) (now : Instant) (address : String) (dial : Duration)
    (out : Outgoing) : Connection → List Deed → Prop
  | reused (conn : Connection) (hf : (p.acquire now address).2.found = some conn) :
    Connects p now address dial out conn
      [.looks p now address (.exchange conn out.frame out.timeout)]
  | dialled (hf : (p.acquire now address).2.found = none) (q : Pool) (id : Nat) (made : Instant) :
    Connects p now address dial out ⟨id, address, made⟩
      [.looks p now address (.dial address false dial),
        ⟨some (.dialled (.ok id)), q, q,
          [.exchange ⟨id, address, made⟩ out.frame out.timeout]⟩]

/-- All that an attempt does until it has come to something. -/
inductive Course (c : Client σ) (m : Client.Moment) (call : Call) (n : Node) (info : AttemptInfo) :
    List Deed → Fate → Prop
  | unsent (e : CallError) (hd : draft c m call n info = .error e) (hc : e.code? = none) :
    Course c m call n info [⟨none, c.pool, c.pool, []⟩] (.unsent e)
  | undialled (out : Outgoing) (hd : draft c m call n info = .ok out)
    (hf : (c.pool.acquire m.now n.address).2.found = none) (q : Pool) (e : Transport.Error) :
    Course c m call n info
      [.looks c.pool m.now n.address (.dial n.address false call.options.dialTimeout),
        ⟨some (.dialled (.error e)), q, q, []⟩]
      (.undialled e)
  | exchanged (out : Outgoing) (hd : draft c m call n info = .ok out) (conn : Connection)
    (ds : List Deed)
    (hc : Connects c.pool m.now n.address call.options.dialTimeout out conn ds) (q : Pool)
    (a : Arrival) (f : Fate) (hf : Meets out a f) :
    Course c m call n info (ds ++ [.returns q conn f.spoils a]) f

/-- Where an attempt is after what it has done. -/
inductive Stands (c : Client σ) (m : Client.Moment) (call : Call) (loop : Retry Outcome) (n : Node)
    (info : AttemptInfo) : List Deed → Stage → Prop
  | dialling (out : Outgoing) (hd : draft c m call n info = .ok out)
    (hf : (c.pool.acquire m.now n.address).2.found = none) :
    Stands c m call loop n info
      [.looks c.pool m.now n.address (.dial n.address false call.options.dialTimeout)]
      (.dialling loop ⟨n, info, .inl out⟩)
  | exchanging (out : Outgoing) (hd : draft c m call n info = .ok out) (conn : Connection)
    (ds : List Deed)
    (hc : Connects c.pool m.now n.address call.options.dialTimeout out conn ds) :
    Stands c m call loop n info ds (.exchanging loop ⟨n, info, .inl out⟩ out conn)
  | ended (ds : List Deed) (f : Fate) (hc : Course c m call n info ds f) :
    Stands c m call loop n info ds (.judging loop info f.result)

/-- Where an attempt stands when it begins. -/
theorem stands_begin : ∃ stage, (begin c m call loop n info).call = { call with stage } ∧
    Stands c m call loop n info (begin c m call loop n info).deeds stage := by
  unfold begin Client.transmit
  dsimp only
  split
  · rename_i seq e ho
    exact ⟨_, rfl, .ended _ (.unsent e) (.unsent e (congrArg Prod.snd ho) (code?_of_outgoing ho))⟩
  · rename_i seq out ho
    unfold Client.connect
    dsimp only
    split
    · rename_i conn hf
      exact ⟨_, rfl, .exchanging out (congrArg Prod.snd ho) conn _ (.reused conn hf)⟩
    · rename_i hf
      exact ⟨_, rfl, .dialling out (congrArg Prod.snd ho) hf⟩

variable {stage : Stage}

/-- Nothing else happens to an attempt than what it waits for. -/
theorem Stands.rests (h : Stands c m call loop n info ds stage) (hw : stage.wait? ≠ none)
    (hf : fits stage ev = false) (c' : Client σ) :
    c'.step u { call with stage } ev = (c', { call with stage }, []) := by
  cases h with
  | dialling out =>
    cases ev with
    | dialled => cases hf
    | selected r => cases r <;> rfl
    | proceed | arrived => rfl
  | exchanging out hd conn =>
    cases ev with
    | arrived => cases hf
    | selected r => cases r <;> rfl
    | proceed | dialled => rfl
  | ended ds f => exact absurd rfl hw

/-- What an attempt waits for brings it on. -/
theorem Stands.meets (h : Stands c m call loop n info ds stage) (hf : fits stage ev = true)
    (c' : Client σ) : ∃ stage',
    (c'.step u { call with stage } ev).2.1 = { call with stage := stage' } ∧
      Stands c m call loop n info (ds ++ [⟨some ev, c'.pool, (c'.step u { call with stage } ev).1.pool,
        (c'.step u { call with stage } ev).2.2⟩]) stage' := by
  cases h with
  | dialling out hd hfound =>
    cases ev with
    | dialled r =>
      cases r with
      | error e => exact ⟨_, rfl, .ended _ (.undialled e) (.undialled out hd hfound c'.pool e)⟩
      | ok id => exact ⟨_, rfl, .exchanging out hd _ _ (.dialled hfound c'.pool id u.now)⟩
    | proceed | selected | arrived => cases hf
  | exchanging out hd conn ds hc =>
    cases ev with
    | arrived a =>
      obtain ⟨f, hm, hresult, hspoils⟩ := exists_meets out a
      rw [step_arrived rfl, hresult, hspoils]
      exact ⟨_, rfl, .ended _ f (.exchanged out hd conn ds hc c'.pool a f hm)⟩
    | proceed | selected | dialled => cases hf
  | ended ds f => cases hf

/-- Each thing that happens moves it on, or leaves it where it is. -/
theorem stands_step (h : ∃ stage, t.call = { call with stage } ∧
      Stands c m call loop n info t.deeds stage) (x : Happening σ) :
    ∃ stage, (t.step x).call = { call with stage } ∧
      Stands c m call loop n info (t.step x).deeds stage := by
  obtain ⟨stage, hcall, hs⟩ := h
  cases x with
  | others client => exact ⟨stage, hcall, hs⟩
  | event u e =>
    unfold step
    dsimp only
    split
    · exact ⟨stage, hcall, hs⟩
    · rename_i hw
      rw [hcall] at hw ⊢
      cases hf : fits stage e with
      | true =>
        obtain ⟨stage', hcall', hs'⟩ := hs.meets (u := u) hf t.client
        exact ⟨stage', hcall', by simpa using hs'⟩
      | false =>
        rw [hs.rests hw hf]
        exact ⟨stage, rfl, by simpa using hs⟩

theorem stands_run (c : Client σ) (m : Client.Moment) (call : Call) (loop : Retry Outcome) (n : Node)
    (info : AttemptInfo) (hs : List (Happening σ)) :
    ∃ stage, ((begin c m call loop n info).run hs).call = { call with stage } ∧
      Stands c m call loop n info ((begin c m call loop n info).run hs).deeds stage := by
  induction hs using List.reverseRecOn with
  | nil => exact stands_begin
  | append_singleton hs x ih =>
    rw [run, List.foldl_append]
    exact stands_step ih x

/-- An attempt that waits for nothing has taken one of the courses. -/
theorem Stands.exists_result (h : Stands c m call loop n info ds stage) (hw : stage.wait? = none) :
    ∃ f, Course c m call n info ds f ∧ stage = .judging loop info f.result := by
  cases h with
  | dialling | exchanging => cases hw
  | ended ds f hc => exact ⟨f, hc, rfl⟩

/-- A result of dialling and the end of an exchange are enough for any attempt. -/
theorem wait?_dialled_arrived (hcall : t.call = { call with stage })
    (h : Stands c m call loop n info ds stage) (r : Except Transport.Error Nat) (a : Arrival) :
    ((t.step (.event u (.dialled r))).step (.event v (.arrived a))).call.stage.wait? = none := by
  cases h with
  | dialling out hd hf =>
    cases r <;>
      simp [step, hcall, Stage.wait?, Client.step, Client.dialled, Client.judge, Client.arrived]
  | exchanging out hd conn ds hc =>
    simp [step, hcall, Stage.wait?, Client.step, Client.arrived]
  | ended ds f hc => simp [step, hcall, Stage.wait?]

/-- The course tells the code of the error it ends with. -/
theorem code?_result (hc : Course c m call n info ds f) (he : f.result = .error e) :
    e.code? = f.code? := by
  cases hc with
  | unsent e' hd hnone =>
    cases he
    exact hnone
  | undialled out hd hf q e' =>
    cases he
    exact code?_connectionError e'
  | exchanged out hd conn ds hc q a f hf =>
    cases hf with
    | lost e' =>
      cases he
      exact code?_connectionError e'
    | late =>
      cases he
      exact code?_requestTimeoutError _
    | unread frame e' hr hnone =>
      cases he
      exact hnone
    | refused =>
      cases he
      rfl
    | answered => cases he

/-- So the course tells whether another attempt is made. -/
theorem retryOnError_iff (ctx : Context) (r : Request) (k : UInt32) (hc : e.code? = f.code?) :
    retryOnError ctx r k e = .ok true ↔ f.IsRetried := by
  have hcode : retryOnError ctx r k e = .ok true ↔ f.code? = some 408 ∨ f.code? = some 500 := by
    simp [retryOnError, hc]
  rw [hcode]
  cases f with
  | refused s =>
    by_cases hs : s.code = 0
    · simp [Fate.code?, Fate.IsRetried, hs]
    · simp [Fate.code?, Fate.IsRetried, hs]
  | unsent | undialled | lost | late | unread | answered => simp [Fate.code?, Fate.IsRetried]

/-- What holds of every attempt, from whatever state of the client it begins. -/
structure Transmits (c : Client σ) (m : Client.Moment) (call : Call) (loop : Retry Outcome)
    (n : Node) (info : AttemptInfo) : Prop where
  stands : ∀ hs, ∃ stage, ((begin c m call loop n info).run hs).call = { call with stage } ∧
    Stands c m call loop n info ((begin c m call loop n info).run hs).deeds stage
  rests : ∀ hs u e, ((begin c m call loop n info).run hs).call.stage.wait? ≠ none →
    fits ((begin c m call loop n info).run hs).call.stage e = false → ∀ c' : Client σ,
      c'.step u ((begin c m call loop n info).run hs).call e =
        (c', ((begin c m call loop n info).run hs).call, [])
  ends : ∀ hs u r v a, ∃ f, Course c m call n info
      ((begin c m call loop n info).run
        (hs ++ [.event u (.dialled r), .event v (.arrived a)])).deeds f ∧
    ((begin c m call loop n info).run
        (hs ++ [.event u (.dialled r), .event v (.arrived a)])).call =
      { call with stage := .judging loop info f.result }
  codes : ∀ ds f e, Course c m call n info ds f → f.result = .error e → e.code? = f.code?
  retries : ∀ ds f e, Course c m call n info ds f → f.result = .error e → ∀ ctx r k,
    ({} : Options).retry ctx r k e = .ok true ↔ f.IsRetried

/-- Whatever happens during an attempt, it takes one of the courses, and those are all. -/
theorem transmits (c : Client σ) (m : Client.Moment) (call : Call) (loop : Retry Outcome)
    (n : Node) (info : AttemptInfo) : Transmits c m call loop n info where
  stands := stands_run c m call loop n info
  rests hs u e hw hf c' := by
    obtain ⟨stage, hcall, hstands⟩ := stands_run c m call loop n info hs
    rw [hcall] at hw hf ⊢
    exact hstands.rests hw hf c'
  ends hs u r v a := by
    obtain ⟨stage, hcall, hstands⟩ := stands_run c m call loop n info hs
    obtain ⟨stage', hcall', hstands'⟩ := stands_run c m call loop n info
      (hs ++ [.event u (.dialled r), .event v (.arrived a)])
    have hrun : (begin c m call loop n info).run
        (hs ++ [.event u (.dialled r), .event v (.arrived a)]) =
        (((begin c m call loop n info).run hs).step (.event u (.dialled r))).step
          (.event v (.arrived a)) := by
      rw [run, List.foldl_append]
      rfl
    have hw := wait?_dialled_arrived (u := u) (v := v) hcall hstands r a
    rw [← hrun, hcall'] at hw
    obtain ⟨f, hc, rfl⟩ := hstands'.exists_result hw
    exact ⟨f, hc, hcall'⟩
  codes _ _ _ hc he := code?_result hc he
  retries _ _ _ hc he ctx r k := retryOnError_iff ctx r k (code?_result hc he)

end AttemptRun
end Switchboard.Client
