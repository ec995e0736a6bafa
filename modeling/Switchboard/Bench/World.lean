import Switchboard.Bench.Contexts
import Switchboard.Bench.Directory
import Switchboard.Bench.Hooks
import Switchboard.Bench.Network
import Switchboard.Client

/-! A client among scripted peers, with a log of what it does to them. Calls run in their order until each
of them waits; then the background runs, and only then does time move. -/
namespace Switchboard.Bench

open Client Rpc
open Discovery (Node)

/-- Nodes that a caller's own selector gives in turn, up to a number of them for a call. -/
structure Roster where
  nodes : List Node
  limit : Option Nat := none

namespace Roster

def next (r : Roster) (service : String) : Next := fun k =>
  match r.nodes[k % r.nodes.length]? with
  | some n => if r.limit.any (· ≤ k) then .error (.noneAvailable service) else .ok n
  | none => .error (.noneAvailable service)

end Roster

inductive Entry
  | line (text : String)
  | dial (time : Instant) (address : String) (stream : Bool) (timeout : Duration)
  | send (time : Instant) (address : String) (frame : Frame)
  | close (time : Instant) (address : String)
  | select (time : Instant) (service : String) (filters : Nat)
  | mark (time : Instant) (service : String) (node : Node) (failure : Option CallError)
  | selectorClosed (time : Instant)
  | backoff (time : Instant) (attempt : UInt32)
  | retry (time : Instant) (attempt : UInt32) (service : String) (failure : CallError)

/-- The address of a dial. -/
def Entry.dialled? : Entry → Option String
  | dial _ address _ _ => some address
  | _ => none

structure World where
  client : Client Hooks
  directory : Directory
  network : Network
  strategy : Strategy
  roster : Option Roster := none
  cancellation : Cancellation := {}
  coming : List (Instant × Token) := []
  streams : List Stream := []
  log : List Entry := []

inductive Wait
  | ready
  | event (time : Instant) (e : CallEvent)
  | fetch (ticket : Nat)
  | pause
  | finished

/-- A call that goes on, and which of its policies write to the log. -/
structure Task where
  call : Call
  logsRetry : Bool := false
  logsBackoff : Bool := false
  wait : Wait := .ready

namespace World

def now (w : World) : Instant := w.directory.now

def contexts (w : World) : Contexts := ⟨w.now, w.cancellation, w.coming⟩

def withContexts (w : World) (c : Contexts) : World :=
  { w with cancellation := c.cancellation, coming := c.coming }

def write (w : World) (e : Entry) : World := { w with log := w.log ++ [e] }

def moment (w : World) : Moment := ⟨w.now, w.cancellation, id⟩

/-- Moves what the hooks wrote to the log. -/
def collect (w : World) : World :=
  let lines := w.client.hooks.lines
  { w with
    log := w.log ++ lines.map Entry.line
    client := { w.client with hooks := { w.client.hooks with lines := [] } } }

def select (w : World) (service : String) (o : SelectOptions) : World × Wait :=
  match w.roster with
  | some r => (w.write (.select w.now service o.filters.length), .event w.now (.selected (.ok (r.next service))))
  | none =>
    match w.directory.call service with
    | (directory, .inl r) =>
      ({ w with directory }, .event w.now (.selected (Selector.select w.strategy id service o r)))
    | (directory, .inr t) => ({ w with directory }, .fetch t)

/-- When a frame comes back on a connection, or no longer is waited for. -/
def arrival (w : World) (conn : Nat) (timeout : Duration) : World × Instant × Arrival :=
  let (network, p) := w.network.receive conn
  let w := { w with network }
  match p with
  | some (d, r) =>
    if d ≤ timeout then
      (w, w.now + d, match r with
        | .ok f => .frame f
        | .error e => .failed e)
    else (w, w.now + timeout, .timedOut)
  | none => (w, w.now + timeout, .timedOut)

def send (w : World) (address : String) (conn : Nat) (f : Frame) : World × Except Transport.Error Unit :=
  let w := w.write (.send w.now address f)
  let (network, r) := w.network.send conn f
  ({ w with network }, r)

def exchange (w : World) (c : Connection) (f : Frame) (timeout : Duration) : World × Wait :=
  match w.send c.address c.id f with
  | (w, .error e) => (w, .event w.now (.arrived (.failed e)))
  | (w, .ok ()) =>
    let (w, t, a) := w.arrival c.id timeout
    (w, .event t (.arrived a))

def note (w : World) (t : Task) (n : RetryNote) : World :=
  let service := t.call.request.service
  match n with
  | .marked node e => if w.roster.isSome then w.write (.mark w.now service node e) else w
  | .asked k e => if t.logsRetry then w.write (.retry w.now k service e) else w
  | .backedOff k => if t.logsBackoff then w.write (.backoff w.now k) else w

def act (w : World) (t : Task) (a : Action) : World × Task :=
  let waits := fun (r : World × Wait) => (r.1, { t with wait := r.2 })
  match a with
  | .select service o => waits (w.select service o)
  | .close c => (w.write (.close w.now c.address), t)
  | .dial address stream timeout =>
    let w := w.write (.dial w.now address stream timeout)
    let (network, number, d, r) := w.network.dial address timeout
    ({ w with network }, { t with wait := .event (w.now + d) (.dialled (r.map fun _ => number)) })
  | .exchange c f timeout => waits (w.exchange c f timeout)
  | .note n => (w.note t n, t)

/-- What a call waits for of itself. -/
def ownWait (c : Call) : Wait :=
  if c.result?.isSome then .finished else if c.pauseEnd?.isSome then .pause else .ready

def stepTask (w : World) (t : Task) (e : CallEvent) : World × Task :=
  let (client, call, actions) := w.client.step w.moment t.call e
  let w := { w with client }.collect
  actions.foldl (fun (w, t) a => w.act t a) (w, { t with call, wait := ownWait call })

def hasEnded (w : World) (t : Task) : Bool := !(t.call.context.endings w.cancellation w.now).isEmpty

/-- Moves a call once, unless it waits. -/
def moveTask? (w : World) (t : Task) : Option (World × Task) :=
  match t.wait with
  | .ready => some (w.stepTask t .proceed)
  | .event time e => if time ≤ w.now then some (w.stepTask t e) else none
  | .fetch ticket =>
    match w.directory.poll ticket with
    | (directory, some r) =>
      let next := Selector.select w.strategy id t.call.request.service t.call.options.selection r
      some ({ w with directory }.stepTask t (.selected next))
    | (_, none) => none
  | .pause =>
    if t.call.pauseEnd?.any (· ≤ w.now) || w.hasEnded t then some (w.stepTask t .proceed) else none
  | .finished => none

def runTask : Nat → World → Task → World × Task
  | 0, w, t => (w, t)
  | n + 1, w, t =>
    match w.moveTask? t with
    | some (w, t) => runTask n w t
    | none => (w, t)

def runTasks (w : World) : List Task → World × List Task
  | [] => (w, [])
  | t :: ts =>
    let (w, t) := runTask patience w t
    let (w, ts) := runTasks w ts
    (w, t :: ts)

/-- Lets the background run: cancellations that are due, and watch loops. -/
def settle (w : World) : World := { w.withContexts w.contexts.settle with directory := w.directory.settle }

def moveTo (w : World) (t : Instant) : World := { w with directory := w.directory.moveTo t }

/-- When the background next moves of itself. -/
def wakes (w : World) : List Instant := w.directory.wake?.toList ++ w.coming.map (·.1)

/-- When a call next moves of itself. -/
def taskWakes (w : World) (t : Task) : List Instant :=
  match t.wait with
  | .ready => [w.now]
  | .event time _ => [time]
  | .fetch ticket => [w.directory.dueAt ticket]
  | .pause => if w.hasEnded t then [w.now] else t.call.pauseEnd?.toList ++ t.call.context.deadline.toList
  | .finished => []

def isFinished (t : Task) : Bool := t.call.result?.isSome

/-- Runs calls side by side until all of them have ended. -/
def run : Nat → World → List Task → World × List Task
  | 0, w, ts => (w, ts)
  | n + 1, w, ts =>
    let (w, ts) := w.runTasks ts
    if ts.all isFinished then (w, ts)
    else
      let w := w.settle
      match (w.wakes ++ ts.flatMap w.taskWakes).min? with
      | some t => run n (w.moveTo t) ts
      | none => (w, ts)

def passFor : Nat → Instant → World → World
  | 0, t, w => w.moveTo t
  | n + 1, t, w =>
    match w.wakes.min? with
    | some u => if u < t then passFor n t (w.moveTo u).settle else w.moveTo t
    | none => w.moveTo t

/-- Lets time pass up to an instant, at which nothing has moved yet. -/
def pass (w : World) (t : Instant) : World := passFor patience t w.settle

def advance (w : World) (d : Duration) : World := w.pass (w.now + d)

/-- Keeps the streams that calls have opened. -/
def keepStream (w : World) (call : Call) (ch : Channel) : World × Nat :=
  let k := w.streams.length
  let (cancellation, context) := call.context.child w.cancellation
  let s := Stream.new ("<stream " ++ toString k ++ ">") context call.request ch
  ({ w with cancellation, streams := w.streams ++ [s] }, k)

def setStream (w : World) (k : Nat) (s : Stream) : World := { w with streams := w.streams.set k s }

def streamSend (w : World) (k : Nat) (s : Stream) (body : Bytes) : World × Except CallError Unit :=
  match s.outgoing (s.context.check w.cancellation w.now) body with
  | (s, .error e) => (w.setStream k s, .error e)
  | (s, .ok f) =>
    let (w, r) := w.send s.address s.connection f
    let (s, r) := s.delivered r
    (w.setStream k s, r)

/-- Waits for a message of a stream, as long as its context lets it. -/
def streamArrival (w : World) (s : Stream) : World × StreamArrival :=
  match s.context.endings w.cancellation w.now with
  | e :: _ => (w, .ended e)
  | [] =>
    let (w, t, a) := w.arrival s.connection s.timeout
    let ends := (s.context.deadline.toList ++ (w.contexts.cancelTime? s.context.token).toList).min?
    match ends with
    | some u =>
      if u < t then
        let w := (w.pass u).settle
        (w, .ended ((s.context.endings w.cancellation w.now).headD .cancelled))
      else (w.pass t, .arrived a)
    | none => (w.pass t, .arrived a)

def streamReceive (w : World) (k : Nat) (s : Stream) : World × Except CallError Response :=
  match s.failure with
  | some e => (w, .error e)
  | none =>
    let (w, a) := w.streamArrival s
    let (s, r) := s.received a
    (w.setStream k s, r)

def closing (w : World) : Except CallError Unit := w.network.close.mapError connectionError

def streamClose (w : World) (k : Nat) (s : Stream) : World × Except CallError Unit :=
  let w := w.write (.close w.now s.address)
  let (cancellation, s) := s.close w.cancellation
  ({ w with cancellation }.setStream k s, w.closing)

def closeSelector (w : World) : World :=
  match w.roster with
  | some _ => w.write (.selectorClosed w.now)
  | none => { w with directory := w.directory.step .stop }

/-- Closes the client; a connection that fails to close does not keep the others from it. -/
def close (w : World) : World × Except CallError Unit :=
  let w := w.closeSelector
  let (client, conns) := w.client.close
  let w := { w with client }
  (conns.foldl (fun w c => w.write (.close w.now c.address)) w,
    (Pool.outcome (conns.map fun _ => w.network.close)).mapError connectionError)

end World
end Switchboard.Bench
