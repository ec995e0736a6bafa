import Switchboard.Discovery.Registry
import Switchboard.Proofs.Discovery.Feed
import Switchboard.Proofs.Discovery.Fetches
import Switchboard.Proofs.Discovery.Records

/-! A cache beside the registry that it asks and follows, and their moves in any order. -/
namespace Switchboard.Discovery

/-- What a watch loop reads from, and the change that it has read but not folded in. -/
structure Reader where
  watcher : Watcher
  hand : Option Change := none

/-- Where the changes begin that have not reached the cache. -/
def Reader.place (r : Reader) : Nat :=
  match r.hand with
  | some _ => r.watcher.next - 1
  | none => r.watcher.next

/-- What the registry said to a fetch, and how many changes it had published by then. -/
structure Answer where
  ticket : Nat
  name : String
  place : Nat
  result : Except Error (List Service)

/-- The readers are known by their loops, and the log has every change that was published. -/
structure CachedRegistry where
  registry : Registry := {}
  hub : Hub
  readers : Nat → Option Reader := fun _ => none
  answers : List Answer := []
  log : List Change := []

inductive Move
  | register (s : Service) (ttl : Option Duration)
  | deregister (s : Service)
  | look (name : String)
  | ask (ticket : Nat)
  | store (ticket : Nat)
  | pause (loop : Nat) (jitter : Duration)
  | wake (loop : Nat)
  | subscribe (loop : Nat)
  | poll (loop : Nat)
  | fold (loop : Nat)
  | notice (loop : Nat)
  | stop
  | tick (d : Duration)

namespace CachedRegistry

variable {s s' : CachedRegistry} {m : Move} {b : Board} {c : Catalog} {ch : Change} {name : String}
  {i k t : Nat}

def new (ttl : Duration) : CachedRegistry := { hub := Hub.new ttl }

def setReader (s : CachedRegistry) (k : Nat) (r : Reader) : CachedRegistry :=
  { s with readers := fun j => if k = j then some r else s.readers j }

/-- Takes over what a registry has become, with what it published on the way. -/
def advance (s : CachedRegistry) (r : Registry) : CachedRegistry :=
  { s with registry := r, log := s.log ++ r.feed.since s.registry.feed.published }

def ask (s : CachedRegistry) (t : Nat) : CachedRegistry :=
  match s.hub.fetch? t with
  | some f =>
    if f.answer.isNone && !s.answers.any (·.ticket == t) then
      { s with
        answers := s.answers ++ [⟨t, f.name, s.log.length, s.registry.lookup s.hub.now f.name⟩] }
    else s
  | none => s

def store (s : CachedRegistry) (t : Nat) : CachedRegistry :=
  match s.answers.find? (·.ticket == t) with
  | some a => { s with
      hub := s.hub.step (.answer t a.result)
      answers := s.answers.filter (·.ticket != t) }
  | none => s

def subscribe (s : CachedRegistry) (k : Nat) : CachedRegistry :=
  match s.hub.loop? k with
  | some l =>
    if l.phase = .opening then
      { s with hub := s.hub.step (.opened k (.ok ())) }.setReader k
        { watcher := s.registry.watch (some l.name) }
    else s
  | none => s

def read (s : CachedRegistry) (k : Nat) (r : Reader) : CachedRegistry :=
  match r.watcher.poll s.registry.feed with
  | (watcher, .change c) => s.setReader k { watcher, hand := some c }
  | (watcher, .pending) => s.setReader k { watcher }
  | (_, .stopped) => { s with hub := s.hub.step (.broke k .watcherStopped) }

/-- A loop reads on when it has folded in what it read before. -/
def poll (s : CachedRegistry) (k : Nat) : CachedRegistry :=
  match s.readers k with
  | some r => if r.hand.isNone then s.read k r else s
  | none => s

def fold (s : CachedRegistry) (k : Nat) : CachedRegistry :=
  match s.readers k with
  | some r =>
    match r.hand with
    | some c => { s with hub := s.hub.step (.received k c) }.setReader k { watcher := r.watcher }
    | none => s
  | none => s

def step (s : CachedRegistry) : Move → CachedRegistry
  | .register sv ttl =>
    match s.registry.register s.hub.now sv ttl with
    | .ok r => s.advance r
    | .error _ => s
  | .deregister sv => s.advance (s.registry.deregister sv)
  | .look name => { s with hub := s.hub.step (.look name) }
  | .ask t => s.ask t
  | .store t => s.store t
  | .pause k jitter => { s with hub := s.hub.step (.pause k jitter) }
  | .wake k => { s with hub := s.hub.step (.wake k) }
  | .subscribe k => s.subscribe k
  | .poll k => s.poll k
  | .fold k => s.fold k
  | .notice k => { s with hub := s.hub.step (.notice k) }
  | .stop => { s with hub := s.hub.step .stop }
  | .tick d => { s with hub := s.hub.step (.tick d) }

def run (s : CachedRegistry) (ms : List Move) : CachedRegistry := ms.foldl step s

/-- What a registry becomes that has published one more change. -/
def publish (s : CachedRegistry) (c : Catalog) (ch : Change) : CachedRegistry :=
  { s with registry := ⟨c, s.registry.feed.publish ch⟩, log := s.log ++ [ch] }

theorem advance_publish : s.advance ⟨c, s.registry.feed.publish ch⟩ = s.publish c ch := by
  simp [advance, publish, Feed.since_publish]

theorem advance_feed :
    s.advance ⟨c, s.registry.feed⟩ = { s with registry := ⟨c, s.registry.feed⟩ } := by
  simp [advance, Feed.since_published]

/-- The events of a hub that the registry and its readers have no part in. -/
def Quiet : HubEvent → Prop
  | .answer _ _ | .opened _ _ | .received _ _ | .broke _ _ => False
  | _ => True

/-- All that a move can do to a registry and its cache. -/
inductive Trans (s : CachedRegistry) : Move → CachedRegistry → Prop
  | idle (m : Move) : Trans s m s
  | registered (sv : Service) (ttl : Option Duration) (c : Catalog) (ch : Change)
    (h : s.registry.catalog.register s.hub.now sv ttl = .ok (c, ch)) :
    Trans s (.register sv ttl) (s.publish c ch)
  | deregistered (sv : Service) (vs : Dict Record)
    (h : s.registry.catalog.versions.get? sv.name = some vs) :
    Trans s (.deregister sv)
      (s.publish (s.registry.catalog.deregister sv).1 ⟨.delete, s.registry.catalog.withdrawn sv⟩)
  | quiet (m : Move) (e : HubEvent) (he : Quiet e) (hs : m ≠ .stop → e ≠ .stop) :
    Trans s m { s with hub := s.hub.step e }
  | asked (t : Nat) (f : Fetch) (hf : s.hub.fetch? t = some f) : Trans s (.ask t)
    { s with
      answers := s.answers ++ [⟨t, f.name, s.log.length, s.registry.lookup s.hub.now f.name⟩] }
  | stored (a : Answer) (ha : a ∈ s.answers) : Trans s (.store a.ticket) { s with
      hub := s.hub.step (.answer a.ticket a.result)
      answers := s.answers.filter (·.ticket != a.ticket) }
  | subscribed (k : Nat) (l : Loop) (hl : s.hub.loop? k = some l) (hp : l.phase = .opening) :
    Trans s (.subscribe k) ({ s with hub := s.hub.step (.opened k (.ok ())) }.setReader k
      { watcher := s.registry.watch (some l.name) })
  | found (k : Nat) (r : Reader) (w : Watcher) (ch : Change) (hr : s.readers k = some r)
    (hh : r.hand = none)
    (hw : r.watcher.poll s.registry.feed = (w, .change ch)) :
    Trans s (.poll k) (s.setReader k { watcher := w, hand := some ch })
  | waited (k : Nat) (r : Reader) (w : Watcher) (hr : s.readers k = some r) (hh : r.hand = none)
    (hw : r.watcher.poll s.registry.feed = (w, .pending)) :
    Trans s (.poll k) (s.setReader k { watcher := w })
  | broken (k : Nat) (r : Reader) (hr : s.readers k = some r) (hh : r.hand = none)
    (hw : (r.watcher.poll s.registry.feed).2 = .stopped) :
    Trans s (.poll k) { s with hub := s.hub.step (.broke k .watcherStopped) }
  | folded (k : Nat) (r : Reader) (ch : Change) (hr : s.readers k = some r)
    (hh : r.hand = some ch) :
    Trans s (.fold k) ({ s with hub := s.hub.step (.received k ch) }.setReader k
      { watcher := r.watcher })

theorem step_trans (s : CachedRegistry) (m : Move) : Trans s m (s.step m) := by
  cases m with
  | register sv ttl =>
    simp only [step, Registry.register]
    cases h : s.registry.catalog.register s.hub.now sv ttl with
    | error e => exact .idle _
    | ok p =>
      change Trans s _ (s.advance ⟨p.1, s.registry.feed.publish p.2⟩)
      rw [advance_publish]
      exact .registered sv ttl p.1 p.2 h
  | deregister sv =>
    simp only [step]
    cases h : s.registry.catalog.versions.get? sv.name with
    | none =>
      have hkept : s.advance s.registry = s := advance_feed
      rw [Registry.deregister_unknown h, hkept]
      exact .idle _
    | some vs =>
      rw [Registry.deregister_known h, advance_publish]
      exact .deregistered sv vs h
  | look name => exact .quiet _ _ trivial nofun
  | ask t =>
    simp only [step, ask]
    split
    · rename_i f hf
      split
      · exact .asked t f hf
      · exact .idle _
    · exact .idle _
  | store t =>
    simp only [step, store]
    split
    · rename_i a ha
      have ht : a.ticket = t := by simpa using List.find?_some ha
      subst ht
      exact .stored a (List.mem_of_find?_eq_some ha)
    · exact .idle _
  | subscribe k =>
    simp only [step, subscribe]
    split
    · rename_i l hl
      split
      · rename_i hp
        exact .subscribed k l hl hp
      · exact .idle _
    · exact .idle _
  | poll k =>
    simp only [step, poll]
    split
    · rename_i r hr
      split
      · rename_i hh
        have hh := Option.isNone_iff_eq_none.1 hh
        unfold read
        split
        · rename_i w ch hw
          exact .found k r w ch hr hh hw
        · rename_i w hw
          exact .waited k r w hr hh hw
        · rename_i w hw
          exact .broken k r hr hh (by rw [hw])
      · exact .idle _
    · exact .idle _
  | fold k =>
    simp only [step, fold]
    split
    · rename_i r hr
      split
      · rename_i ch hh
        exact .folded k r ch hr hh
      · exact .idle _
    · exact .idle _
  | pause k j => exact .quiet _ _ trivial nofun
  | wake k => exact .quiet _ _ trivial nofun
  | notice k => exact .quiet _ _ trivial nofun
  | stop => exact .quiet _ _ trivial fun h => absurd rfl h
  | tick d => exact .quiet _ _ trivial nofun

end CachedRegistry
end Switchboard.Discovery
