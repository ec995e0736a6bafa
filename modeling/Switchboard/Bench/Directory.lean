import Switchboard.Discovery.Hub
import Switchboard.Discovery.Registry

/-! A cache over a registry that can be told to fail, to answer late and to give set answers, on a clock
that moves only when everything waits. -/
namespace Switchboard.Bench

open Discovery

/-- Steps that a run may take before it is given up. -/
def patience : Nat := 1000000

/-- The pause of every watch loop before it opens a watch. -/
def jitter : Duration := 50

/-- Changes and failures that wait for the watch loop of a hand-fed watch. -/
structure Feeder where
  loop : Nat
  waiting : List (Except Error Change) := []

structure Directory where
  registry : Registry := {}
  hub : Hub
  handFed : Bool := false
  failure : Option Error := none
  watchFailure : Option Error := none
  delay : Duration := 0
  results : List (Except Error (List Service)) := []
  /-- When the registry answers a fetch, by ticket. -/
  due : List (Nat × Instant) := []
  watchers : List (Nat × Watcher) := []
  feeders : List Feeder := []
  fetches : Nat := 0
  watchOpens : Nat := 0
  watchStops : Nat := 0

namespace Directory

def now (d : Directory) : Instant := d.hub.now

def moveTo (d : Directory) (t : Instant) : Directory := { d with hub := d.hub.step (.tick (t - d.now)) }

def register (d : Directory) (s : Service) (ttl : Option Duration) : Directory × Except Error Unit :=
  match d.registry.register d.now s ttl with
  | .ok registry => ({ d with registry }, .ok ())
  | .error e => (d, .error e)

def deregister (d : Directory) (s : Service) : Directory := { d with registry := d.registry.deregister s }

/-- Queues a change or a failure on every open hand-fed watch. -/
def emit (d : Directory) (item : Except Error Change) : Directory :=
  { d with feeders := d.feeders.map fun f => { f with waiting := f.waiting ++ [item] } }

def step (d : Directory) (e : HubEvent) : Directory := { d with hub := d.hub.step e }

/-- Gives up the watch of a loop. -/
def dropWatch (d : Directory) (loop : Nat) : Directory := { d with
  watchers := d.watchers.filter (·.1 != loop)
  feeders := d.feeders.filter (·.loop != loop) }

def openWatch (d : Directory) (l : Loop) : Directory :=
  let d := { d with watchOpens := d.watchOpens + 1 }
  match d.watchFailure with
  | some e => d.step (.opened l.id (.error e))
  | none =>
    let d := if d.handFed then { d with feeders := d.feeders ++ [{ loop := l.id }] }
      else { d with watchers := d.watchers ++ [(l.id, d.registry.watch (some l.name))] }
    d.step (.opened l.id (.ok ()))

def stopWatch (d : Directory) (l : Loop) : Directory :=
  let stops := (d.feeders.filter (·.loop == l.id)).length
  { d with watchStops := d.watchStops + stops }.dropWatch l.id |>.step (.notice l.id)

def take (d : Directory) (l : Loop) (item : Except Error Change) : Directory :=
  match item with
  | .ok c => d.step (.received l.id c)
  | .error e => (d.dropWatch l.id).step (.broke l.id e)

/-- The next item of a loop's watch, if there is one. -/
def next? (d : Directory) (l : Loop) : Option (Directory × Except Error Change) :=
  match d.feeders.find? (·.loop == l.id), d.watchers.lookup l.id with
  | some f, _ =>
    match f.waiting with
    | item :: rest =>
      some ({ d with feeders := d.feeders.map fun g => if g.loop = l.id then { g with waiting := rest } else g }, item)
    | [] => none
  | none, some w =>
    let (w, r) := w.poll d.registry.feed
    let d := { d with watchers := d.watchers.map fun x => if x.1 = l.id then (l.id, w) else x }
    match r with
    | .change c => some (d, .ok c)
    | .stopped => some (d, .error .watcherStopped)
    | .pending => none
  | none, none => none

/-- The next move of a watch loop, unless it waits. -/
def move? (d : Directory) (l : Loop) : Option Directory :=
  let stopped := d.hub.cache.stopped
  match l.phase with
  | .fresh => some (d.step (.pause l.id jitter))
  | .opening => some (d.openWatch l)
  | .pausing t =>
    if stopped then some (d.step (.notice l.id)) else if t ≤ d.now then some (d.step (.wake l.id)) else none
  | .resting t =>
    if stopped then some (d.step (.notice l.id)) else if t ≤ d.now then some (d.step (.wake l.id)) else none
  | .watching => if stopped then some (d.stopWatch l) else (d.next? l).map fun (d, item) => d.take l item

def settleFor : Nat → Directory → Directory
  | 0, d => d
  | n + 1, d =>
    match d.hub.loops.findSome? d.move? with
    | some d => settleFor n d
    | none => d

/-- Lets every watch loop run until it waits. -/
def settle (d : Directory) : Directory := settleFor patience d

/-- When the next watch loop stops waiting of itself. -/
def wake? (d : Directory) : Option Instant :=
  (d.hub.loops.filterMap fun l => match l.phase with
    | .pausing t => some t
    | .resting t => some t
    | _ => none).min?

def runToFor : Nat → Instant → Directory → Directory
  | 0, t, d => d.moveTo t
  | n + 1, t, d =>
    match d.wake? with
    | some w => if w < t then runToFor n t (d.moveTo w).settle else d.moveTo t
    | none => d.moveTo t

/-- Lets time pass; the loops that wake before the end move on the way. -/
def runTo (d : Directory) (t : Instant) : Directory := runToFor patience t d.settle

def advance (d : Directory) (ms : Duration) : Directory := (d.runTo (d.now + ms)).settle

/-- Looks a name up. A new fetch asks the registry at once. -/
def ask (d : Directory) (name : String) : Directory × Lookup :=
  match d.hub.look name with
  | (hub, .start t) =>
    ({ d with hub, fetches := d.fetches + 1, due := (t, d.now + d.delay) :: d.due }, .start t)
  | (hub, l) => ({ d with hub }, l)

def dueAt (d : Directory) (ticket : Nat) : Instant := (d.due.lookup ticket).getD d.now

/-- What the registry has to say to a fetch now. -/
def answer (d : Directory) (name : String) : Directory × Except Error (List Service) :=
  match d.results with
  | r :: rest => ({ d with results := rest }, r)
  | [] =>
    match d.failure with
    | some e => (d, .error e)
    | none => (d, d.registry.lookup d.now name)

/-- Goes on with a fetch, as far as its answer is due. -/
def poll (d : Directory) (ticket : Nat) : Directory × Option (Except Error (List Service)) :=
  match d.hub.fetch? ticket with
  | none => (d, none)
  | some f =>
    match f.answer with
    | some r => (d, some r)
    | none =>
      if d.dueAt ticket ≤ d.now then
        let (d, r) := d.answer f.name
        let d := d.step (.answer ticket r)
        (d, d.hub.answer? ticket)
      else (d, none)

/-- A caller's lookup: an answer at once, or the ticket to wait with. -/
def call (d : Directory) (name : String) : Directory × (Except Error (List Service) ⊕ Nat) :=
  let started := fun (d : Directory) (t : Nat) =>
    match d.poll t with
    | (d, some r) => (d, .inl r)
    | (d, none) => (d, .inr t)
  match d.ask name with
  | (d, .hit ss) => (d, .inl (.ok ss))
  | (d, .join t) => started d t
  | (d, .start t) => started d t

/-- Waits for an answer, up to a limit if there is one. -/
def get (d : Directory) (name : String) (limit : Option Duration) :
    Directory × Option (Except Error (List Service)) :=
  match d.call name with
  | (d, .inl r) => (d, some r)
  | (d, .inr t) =>
    let due := d.dueAt t
    if limit.all fun ms => due ≤ d.now + ms then (d.runTo due).poll t
    else (d.runTo (d.now + limit.getD 0), none)

def calls (name : String) : Nat → Directory → Directory × List (Except Error (List Service) ⊕ Nat)
  | 0, d => (d, [])
  | n + 1, d =>
    let (d, r) := d.call name
    let (d, rs) := calls name n d
    (d, r :: rs)

/-- The answers of callers that ask at the same time. -/
def getMany (d : Directory) (name : String) (n : Nat) : Directory × List (Except Error (List Service)) :=
  let (d, rs) := calls name n d
  let d := match rs.findSome? Sum.getRight? with
    | some t => ((d.runTo (d.dueAt t)).poll t).1
    | none => d
  (d, rs.filterMap fun r => match r with
    | .inl r => some r
    | .inr t => d.hub.answer? t)

/-- Opens a watch, registers a service, and reads what the watch then has. -/
def watchRegister (d : Directory) (service : Option String) (s : Service) : Directory × Except Error Reading :=
  let d := { d with watchOpens := d.watchOpens + 1 }
  match d.watchFailure with
  | some e => (d, .error e)
  | none =>
    let w := d.registry.watch service
    let (d, _) := d.register s none
    (d, .ok (if d.handFed then .pending else (w.poll d.registry.feed).2))

end Directory
end Switchboard.Bench
