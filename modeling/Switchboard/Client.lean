import Switchboard.Client.Call
import Switchboard.Client.Config

/-! The client: what all its calls share, and how a call moves on. -/
namespace Switchboard

open Client Rpc
open Discovery (Node)

/-- `hooks` is the state that the wrappers share. -/
structure Client (σ : Type) where
  contentType : String := defaultContentType
  options : Options := {}
  codecs : CodecSet := {}
  pool : Pool
  cache : ResponseCache
  wrappers : Chain σ := []
  hooks : σ
  /-- The number of the next message. -/
  seq : UInt64 := 0

namespace Client
variable {σ : Type}

/-- The surroundings of a step. -/
structure Moment where
  now : Instant
  cancellation : Cancellation
  /-- Random numbers for the choice of nodes. -/
  choose : Nat → Nat

/-- Why no client can be made without a registry and without a selector. -/
def noSelector : CallError := .invalidConfiguration "a registry or a selector is required"

def ofConfig (config : Config) (codecs : CodecSet) (wrappers : Chain σ) (hooks : σ) : Client σ where
  contentType := config.contentType
  options := config.callOptions
  codecs
  pool := config.pool
  cache := config.responseCache
  wrappers
  hooks

def check (m : Moment) (call : Call) : Except CallError Unit := call.context.check m.cancellation m.now

def cached? (c : Client σ) (m : Moment) (call : Call) : Client σ × Option Response :=
  if call.opens || call.options.cacheFor.isNone then (c, none)
  else
    let (cache, r) := c.cache.get m.now call.request
    ({ c with cache }, r)

/-- Answers from the cache, or asks for nodes. -/
def start (c : Client σ) (m : Moment) (call : Call) : Client σ × Call × List Action :=
  if call.opens && !call.request.stream then
    (c, { call with stage := .done (.error (Call.notStreaming call.request)) }, [])
  else match c.cached? m call with
    | (c, some r) => (c, { call with stage := .done (.ok (.response r)) }, [])
    | (c, none) =>
      match call.options.addresses with
      | [] => (c, { call with stage := .selecting },
          [.select call.request.service call.options.selection])
      | as =>
        let next := Strategy.random.select m.choose [Call.fixedService call.request.service as]
        (c, { call with next, stage := .looping {} }, [])

/-- A successful call that asked for it leaves its response in the cache. -/
def settle (c : Client σ) (m : Moment) (call : Call) (result : Except CallError Outcome) : Client σ × Call :=
  let call' := { call with stage := .done result }
  match result, call.options.cacheFor with
  | .ok (.response r), some ttl => ({ c with cache := c.cache.set m.now call.request r ttl }, call')
  | _, _ => (c, call')

/-- Goes on with the loop where it stands. -/
def resume (c : Client σ) (m : Moment) (call : Call) (loop : Retry Outcome) : Client σ × Call :=
  match loop.phase with
  | .done r => c.settle m call r
  | _ => (c, { call with stage := .looping loop })

def judge (c : Client σ) (call : Call) (loop : Retry Outcome) (info : AttemptInfo)
    (result : Except CallError Outcome) : Client σ × Call × List Action :=
  (c, { call with stage := .judging loop info result }, [])

/-- Takes a connection from the pool, or dials one. -/
def connect (c : Client σ) (m : Moment) (call : Call) (loop : Retry Outcome) (n : Node) (info : AttemptInfo)
    (out : Outgoing) : Client σ × Call × List Action :=
  let (pool, got) := c.pool.acquire m.now n.address
  let c := { c with pool }
  let closes := got.expired.map Action.close
  match got.found with
  | some conn =>
    (c, { call with stage := .exchanging loop ⟨n, info, .inl out⟩ out conn },
      closes ++ [.exchange conn out.frame out.timeout])
  | none =>
    (c, { call with stage := .dialling loop ⟨n, info, .inl out⟩ },
      closes ++ [.dial n.address false call.options.dialTimeout])

def transmit (c : Client σ) (m : Moment) (call : Call) (loop : Retry Outcome) (n : Node) (info : AttemptInfo) :
    Client σ × Call × List Action :=
  let timeout := Exchange.timeout call.context m.now call.options
  match Exchange.outgoing c.codecs c.seq call.request n info.headers timeout with
  | (seq, .error e) => judge { c with seq } call loop info (.error e)
  | (seq, .ok out) => connect { c with seq } m call loop n info out

def openChannel (c : Client σ) (call : Call) (loop : Retry Outcome) (n : Node) (info : AttemptInfo) :
    Client σ × Call × List Action :=
  match Exchange.agree c.codecs call.request n info.headers call.options.streamTimeout with
  | .error e => judge c call loop info (.error e)
  | .ok a => (c, { call with stage := .dialling loop ⟨n, info, .inr a⟩ },
      [.dial n.address true call.options.dialTimeout])

/-- An attempt begins with the hooks of the request. -/
def attempt (c : Client σ) (m : Moment) (call : Call) (loop : Retry Outcome) (n : Node) :
    Client σ × Call × List Action :=
  let (hooks, info, r) := c.wrappers.onRequest m.now (call.info m.now n loop.attempt) c.hooks
  let c := { c with hooks }
  match r with
  | .error e => judge c call loop info (.error e)
  | .ok () => if call.opens then c.openChannel call loop n info else c.transmit m call loop n info

/-- The hooks of an attempt's end. An open stream has none: it has not ended. -/
def report (c : Client σ) (m : Moment) (info : AttemptInfo) (result : Except CallError Outcome) : Client σ :=
  match result with
  | .ok (.response r) => { c with hooks := c.wrappers.onResponse m.now info r c.hooks }
  | .ok (.channel _) => c
  | .error e => { c with hooks := c.wrappers.onError m.now info e c.hooks }

def proceed (c : Client σ) (m : Moment) (call : Call) : Client σ × Call × List Action :=
  match call.stage with
  | .fresh => c.start m call
  | .looping loop =>
    match loop.phase with
    | .ready =>
      let loop := loop.start call.rules (check m call)
      match loop.phase with
      | .trying n => c.attempt m call loop n
      | _ =>
        let (c, call) := c.resume m call loop
        (c, call, [])
    | _ =>
      let (c, call) := c.resume m call (loop.wake (check m call) m.now)
      (c, call, [])
  | .judging loop info result =>
    let c := c.report m info result
    let (loop, notes) := loop.finish call.rules m.now result
    let (c, call) := c.resume m call loop
    (c, call, notes.map .note)
  | _ => (c, call, [])

def dialled (c : Client σ) (m : Moment) (call : Call) (loop : Retry Outcome) (a : Attempt)
    (result : Except Transport.Error Nat) : Client σ × Call × List Action :=
  match result with
  | .error e => judge c call loop a.info (.error (connectionError e))
  | .ok id =>
    match a.outgoing with
    | .inl out =>
      let conn : Connection := ⟨id, a.node.address, m.now⟩
      (c, { call with stage := .exchanging loop a out conn }, [.exchange conn out.frame out.timeout])
    | .inr agreement =>
      judge c call loop a.info (.ok (.channel ⟨agreement, id, a.node.address, call.options.streamTimeout⟩))

/-- The connection goes back to the pool with the answer decoded, and is given up without one. -/
def arrived (c : Client σ) (call : Call) (loop : Retry Outcome) (a : Attempt) (out : Outgoing)
    (conn : Connection) (arrival : Arrival) : Client σ × Call × List Action :=
  let reply := Exchange.decode out arrival
  let (pool, discarded) := c.pool.release conn !reply.isOk
  let result := (reply.bind Exchange.accept).map Outcome.response
  ({ c with pool }, { call with stage := .judging loop a.info result }, discarded.toList.map .close)

/-- An event that does not fit the stage of the call changes nothing. -/
def step (c : Client σ) (m : Moment) (call : Call) (event : CallEvent) : Client σ × Call × List Action :=
  match event, call.stage with
  | .proceed, _ => c.proceed m call
  | .selected (.ok next), .selecting => (c, { call with next, stage := .looping {} }, [])
  | .selected (.error e), .selecting => (c, { call with stage := .done (.error e) }, [])
  | .dialled r, .dialling loop a => c.dialled m call loop a r
  | .arrived arrival, .exchanging loop a out conn => c.arrived call loop a out conn arrival
  | _, _ => (c, call, [])

/-- Idle connections are given up, to be closed. -/
def close (c : Client σ) : Client σ × List Connection :=
  let (pool, conns) := c.pool.drain
  ({ c with pool }, conns)

end Client
end Switchboard
