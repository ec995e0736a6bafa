import Switchboard.Discovery.Cache
import Switchboard.Discovery.Restart

/-! A cache at work: the fetches it has started, the loops that watch a name each, and what may happen to
them in any order. -/
namespace Switchboard.Discovery

/-- A request to the registry; every caller that joined it reads the answer here. -/
structure Fetch where
  ticket : Nat
  name : String
  answer : Option (Except Error (List Service)) := none

/-- Where a watch loop stands. It pauses for a random while before it opens a watch, and rests after a
failure. -/
inductive LoopPhase
  | fresh
  | pausing (ends : Instant)
  | opening
  | watching
  | resting (ends : Instant)
deriving DecidableEq

structure Loop where
  id : Nat
  name : String
  phase : LoopPhase := .fresh
  restart : Restart := {}

structure Hub where
  cache : Cache
  now : Instant := 0
  fetches : List Fetch := []
  loops : List Loop := []
  nextLoop : Nat := 0

/-- What happens to a hub: a caller asks, the registry answers, a loop moves, time passes. -/
inductive HubEvent
  | look (name : String)
  | answer (ticket : Nat) (result : Except Error (List Service))
  | pause (loop : Nat) (jitter : Duration)
  | wake (loop : Nat)
  | opened (loop : Nat) (result : Except Error Unit)
  | received (loop : Nat) (change : Change)
  | broke (loop : Nat) (e : Error)
  | notice (loop : Nat)
  | stop
  | tick (d : Duration)

namespace Hub

def new (ttl : Duration) : Hub := { cache := { ttl } }

def loop? (h : Hub) (id : Nat) : Option Loop := h.loops.find? (·.id == id)

def fetch? (h : Hub) (ticket : Nat) : Option Fetch := h.fetches.find? (·.ticket == ticket)

/-- What the callers of a fetch get, once there is an answer. -/
def answer? (h : Hub) (ticket : Nat) : Option (Except Error (List Service)) :=
  (h.fetch? ticket).bind (·.answer)

def setLoop (h : Hub) (l : Loop) : Hub :=
  { h with loops := h.loops.map fun m => if m.id = l.id then l else m }

def endLoop (h : Hub) (l : Loop) : Hub :=
  { h with loops := h.loops.filter (·.id != l.id), cache := h.cache.unwatch l.name }

/-- Asks for a name: from memory, or with the ticket of a fetch. -/
def look (h : Hub) (name : String) : Hub × Lookup :=
  match h.cache.look h.now name with
  | (c, .start t) => ({ h with cache := c, fetches := h.fetches ++ [⟨t, name, none⟩] }, .start t)
  | (c, l) => ({ h with cache := c }, l)

def settle (h : Hub) (f : Fetch) (result : Except Error (List Service)) : Hub :=
  let starts := result.isOk && h.cache.wantsWatcher f.name
  let (c, r) := h.cache.settle h.now f.name result
  let h := { h with
    cache := c
    fetches := h.fetches.map fun g => if g.ticket = f.ticket then { g with answer := some r } else g }
  if starts then
    { h with loops := h.loops ++ [{ id := h.nextLoop, name := f.name }], nextLoop := h.nextLoop + 1 }
  else h

/-- Rests after a failure, or ends when the cache was stopped. -/
def rest (h : Hub) (l : Loop) : Hub :=
  if h.cache.stopped then h.endLoop l
  else
    let (d, r) := l.restart.failed
    h.setLoop { l with restart := r, phase := if d = 0 then .fresh else .resting (h.now + d) }

def pause (h : Hub) (l : Loop) (jitter : Duration) : Hub :=
  if h.cache.stopped then h.endLoop l
  else h.setLoop { l with phase := if jitter = 0 then .opening else .pausing (h.now + jitter) }

def wake (h : Hub) (l : Loop) : Hub :=
  match l.phase with
  | .pausing t => if t ≤ h.now then h.setLoop { l with phase := .opening } else h
  | .resting t => if t ≤ h.now then h.setLoop { l with phase := .fresh } else h
  | _ => h

def opened (h : Hub) (l : Loop) : Except Error Unit → Hub
  | .ok _ => h.setLoop { l with phase := .watching, restart := l.restart.opened }
  | .error e => { h with cache := h.cache.fail e }.rest l

def isWaiting : LoopPhase → Bool
  | .pausing _ => true
  | .resting _ => true
  | .watching => true
  | _ => false

/-- An event that does not fit the state changes nothing. -/
def step (h : Hub) : HubEvent → Hub
  | .look name => (h.look name).1
  | .answer t result =>
    match h.fetch? t with
    | some f => if f.answer.isNone then h.settle f result else h
    | none => h
  | .pause id jitter =>
    match h.loop? id with
    | some l => if l.phase = .fresh then h.pause l jitter else h
    | none => h
  | .wake id =>
    match h.loop? id with
    | some l => h.wake l
    | none => h
  | .opened id result =>
    match h.loop? id with
    | some l => if l.phase = .opening then h.opened l result else h
    | none => h
  | .received id change =>
    match h.loop? id with
    | some l =>
      if l.phase = .watching then { h with cache := h.cache.receive h.now change } else h
    | none => h
  | .broke id e =>
    match h.loop? id with
    | some l => if l.phase = .watching then { h with cache := h.cache.fail e }.rest l else h
    | none => h
  | .notice id =>
    match h.loop? id with
    | some l => if h.cache.stopped && isWaiting l.phase then h.endLoop l else h
    | none => h
  | .stop => { h with cache := h.cache.stop }
  | .tick d => { h with now := h.now + d }

end Hub
end Switchboard.Discovery
