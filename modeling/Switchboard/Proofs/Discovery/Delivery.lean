import Mathlib.Data.List.Basic
import Mathlib.Data.List.Induction
import Switchboard.Discovery.Registry
import Switchboard.Proofs.Discovery.Feed

/-! Readers of what a registry publishes, who read whenever they like: what they are given, what is
lost to them, and how they end. -/
namespace Switchboard.Discovery

def Reading.change? : Reading → Option Change
  | .change c => some c
  | _ => none

variable {f : Feed} {w : Watcher} {c : Change} {log : List Change} {service : Option String}
  {i k n p : Nat}

theorem Feed.Tails.first_eq (h : f.Tails log) (hf : f.WellFormed) :
    f.first = log.length - Feed.capacity := by
  have hb := hf.bounded
  have hfull := hf.full
  have hlen := h.length
  unfold Feed.published at hlen
  omega

namespace Watcher

/-- A turn of the loop in which a reader does not return yet: it goes on with the oldest change
kept, passes a change that it does not want, or sees that there will be no more. -/
def pass (w : Watcher) (f : Feed) : Watcher :=
  if w.stopped then w
  else if w.next < f.first then { w with next := f.first }
  else match f.kept[w.next - f.first]? with
    | some c => if wants w.service c.service.name then w else { w with next := w.next + 1 }
    | none => if f.ended then { w with stopped := true } else w

/-- The changes that are still kept for a reader. -/
def ahead (w : Watcher) (f : Feed) : List Change := wanted w.service (f.since (w.start f))

/-- A scan finds the first change wanted, and passes what stands before it. -/
theorem scan_eq (service : Option String) (cs : List Change) : ∃ n,
    scan service cs = ((wanted service cs).head?, n) ∧ n ≤ cs.length ∧
      wanted service (cs.take n) = (wanted service cs).head?.toList ∧
      wanted service (cs.drop n) = (wanted service cs).tail := by
  induction cs with
  | nil => exact ⟨0, rfl, Nat.le_refl 0, rfl, rfl⟩
  | cons c cs ih =>
    by_cases hc : wants service c.service.name = true
    · have hscan : scan service (c :: cs) = (some c, 1) := by simp [scan, hc]
      exact ⟨1, by simp [hscan, wanted_cons, hc], by simp, by simp [wanted, hc],
        by simp [wanted, hc]⟩
    · obtain ⟨n, hs, hn, htake, hdrop⟩ := ih
      refine ⟨n + 1, ?_, Nat.succ_le_succ hn, ?_, ?_⟩
      · simp [scan, wanted_cons, hc, hs]
      · simpa [wanted_cons, hc] using htake
      · simpa [wanted_cons, hc] using hdrop

/-- What a reader finds. -/
def finds (f : Feed) : List Change → Reading
  | c :: _ => .change c
  | [] => if f.ended then .stopped else .pending

/-- A reader is given the first of the changes that are kept for it, and has passed no other. -/
theorem poll_spec (hw : w.stopped = false) (f : Feed) : ∃ n stopped,
    w.poll f = ({ w with next := w.start f + n, stopped }, finds f (w.ahead f)) ∧
      (stopped = true ↔ finds f (w.ahead f) = .stopped) ∧
      n ≤ (f.since (w.start f)).length ∧
      wanted w.service ((f.since (w.start f)).take n) = (finds f (w.ahead f)).change?.toList ∧
      wanted w.service ((f.since (w.start f)).drop n) = (w.ahead f).tail := by
  obtain ⟨n, hs, hn, htake, hdrop⟩ := scan_eq w.service (f.since (w.start f))
  have hpoll : w.poll f = match (w.ahead f).head? with
      | some c => ({ w with next := w.start f + n }, .change c)
      | none =>
        if f.ended then ({ w with next := w.start f + n, stopped := true }, .stopped)
        else ({ w with next := w.start f + n }, .pending) := by
    unfold poll
    unfold Feed.since start at hs
    simp only [hw, hs, if_false, Bool.false_eq_true]
    rfl
  unfold ahead at hpoll ⊢
  cases hrest : wanted w.service (f.since (w.start f)) with
  | cons c cs =>
    rw [hrest] at hpoll htake hdrop
    exact ⟨n, false, by rw [hpoll, ← hw]; rfl, by simp [finds], hn, htake, hdrop⟩
  | nil =>
    rw [hrest] at hpoll htake hdrop
    cases he : f.ended with
    | true =>
      refine ⟨n, true, ?_, ?_, hn, ?_, hdrop⟩
      · simp [hpoll, finds, he]
      · simp [finds, he]
      · simpa [finds, he, Reading.change?] using htake
    | false =>
      refine ⟨n, false, ?_, ?_, hn, ?_, hdrop⟩
      · simp [hpoll, finds, he, hw]
      · simp [finds, he]
      · simpa [finds, he, Reading.change?] using htake

theorem drop_of_getElem? {cs : List Change} (h : cs[i]? = some c) :
    cs.drop i = c :: cs.drop (i + 1) := by
  obtain ⟨hlt, rfl⟩ := List.getElem?_eq_some_iff.1 h
  exact List.drop_eq_getElem_cons hlt

/-- A reader passes only what it does not want. -/
theorem pass_spec (hw : w.stopped = false) (f : Feed) : ∃ n,
    (w.pass f).next = w.start f + n ∧ (w.pass f).service = w.service ∧
      n ≤ (f.since (w.start f)).length ∧
      wanted w.service ((f.since (w.start f)).take n) = [] := by
  unfold pass start
  simp only [hw, if_false, Bool.false_eq_true]
  split
  · rename_i hlt
    exact ⟨0, (Nat.max_eq_right (Nat.le_of_lt hlt)).symm, rfl, Nat.zero_le _, rfl⟩
  · rename_i hle
    rw [Nat.max_eq_left (Nat.le_of_not_lt hle)]
    split
    · rename_i c hc
      split
      · exact ⟨0, rfl, rfl, Nat.zero_le _, rfl⟩
      · rename_i hwant
        refine ⟨1, rfl, rfl, ?_, ?_⟩
        · rw [Feed.since, drop_of_getElem? hc]
          exact Nat.succ_le_succ (Nat.zero_le _)
        · simp [Feed.since, drop_of_getElem? hc, wanted, hwant]
    · split <;> exact ⟨0, rfl, rfl, Nat.zero_le _, rfl⟩

/-- What a reader comes to is found from wherever its loop stands. -/
theorem poll_pass (w : Watcher) (f : Feed) : (w.pass f).poll f = w.poll f := by
  cases hw : w.stopped with
  | true => simp [pass, hw]
  | false =>
    unfold pass
    simp only [hw, if_false, Bool.false_eq_true]
    split
    · rename_i hlt
      simp [poll, hw, Nat.max_eq_right (Nat.le_of_lt hlt)]
    · rename_i hle
      have hle := Nat.le_of_not_lt hle
      split
      · rename_i c hc
        split
        · rfl
        · rename_i hwant
          have hdrop := drop_of_getElem? hc
          have hnext : w.next + 1 - f.first = w.next - f.first + 1 := by omega
          have hmax : max (w.next + 1) f.first = w.next + 1 :=
            Nat.max_eq_left (Nat.le_succ_of_le hle)
          simp only [poll, hw, Nat.max_eq_left hle, hmax, hnext, hdrop, scan, hwant, if_false,
            Bool.false_eq_true, Nat.add_assoc, Nat.add_comm 1]
      · rename_i hnone
        have hdrop : f.kept.drop (w.next - f.first) = [] :=
          List.drop_eq_nil_of_le (List.getElem?_eq_none_iff.1 hnone)
        split
        · rename_i he
          simp [poll, hw, Nat.max_eq_left hle, hdrop, scan, he]
        · rfl

theorem service_pass (w : Watcher) (f : Feed) : (w.pass f).service = w.service := by
  unfold pass
  repeat' split
  all_goals rfl

theorem service_poll (w : Watcher) (f : Feed) : (w.poll f).1.service = w.service := by
  cases hw : w.stopped with
  | true => simp [poll, hw]
  | false =>
    obtain ⟨n, stopped, hpoll, -⟩ := poll_spec hw f
    rw [hpoll]

/-- What a reader comes to, so many times in a row. -/
def polls (f : Feed) : Nat → Watcher → List Reading
  | 0, _ => []
  | n + 1, w => (w.poll f).2 :: polls f n (w.poll f).1

theorem polls_pass (n : Nat) (w : Watcher) (f : Feed) : polls f n (w.pass f) = polls f n w := by
  cases n with
  | zero => rfl
  | succ n => simp only [polls, poll_pass]

theorem polls_of_stopped (n : Nat) (hw : w.stopped = true) :
    polls f n w = List.replicate n .stopped := by
  have hpoll : w.poll f = (w, .stopped) := by simp [poll, hw]
  induction n with
  | zero => rfl
  | succ n ih => rw [polls, hpoll, ih, List.replicate_succ]

/-- When nothing more is published, a reader is given what is ahead of it, and nothing more. -/
theorem polls_of_ended (n : Nat) (hw : w.stopped = false) (he : f.ended = true) :
    polls f n w = ((w.ahead f).map Reading.change ++ List.replicate n Reading.stopped).take n := by
  induction n generalizing w with
  | zero => rw [List.take_zero, polls]
  | succ n ih =>
    obtain ⟨k, stopped, hpoll, hstopped, -, -, hdrop⟩ := poll_spec hw f
    have hahead : (w.poll f).1.ahead f = (w.ahead f).tail := by
      have hge : f.first ≤ w.start f := Nat.le_max_right _ _
      have hstart : (w.poll f).1.start f = w.start f + k := by
        rw [hpoll]
        exact Nat.max_eq_left (Nat.le_add_right_of_le hge)
      rw [← hdrop, ahead, hstart, hpoll, Feed.since, Feed.since, List.drop_drop]
      rw [show w.start f + k - f.first = w.start f - f.first + k by omega]
    rw [polls]
    cases hrest : w.ahead f with
    | nil =>
      rw [hrest] at hpoll hstopped
      simp only [finds, he, if_true] at hpoll hstopped
      have hon : (w.poll f).1.stopped = true := by
        rw [hpoll]
        exact hstopped.2 trivial
      rw [polls_of_stopped n hon, hpoll, List.map_nil, List.nil_append, ← List.replicate_succ,
        List.take_replicate, Nat.min_self]
    | cons c cs =>
      rw [hrest] at hpoll hstopped hahead
      have hoff : (w.poll f).1.stopped = false := by
        rw [hpoll]
        exact Bool.eq_false_iff.2 fun h => by simpa [finds] using hstopped.1 h
      rw [ih hoff, hahead, hpoll]
      have hmore : (cs.map Reading.change ++ List.replicate (n + 1) Reading.stopped).take n =
          (cs.map Reading.change ++ List.replicate n Reading.stopped).take n := by
        rw [List.replicate_succ', ← List.append_assoc, List.take_append_of_le_length (by simp)]
      simp only [finds, List.tail_cons, List.map_cons, List.cons_append, List.take_succ_cons, hmore]

end Watcher

/-- The change at a place was overwritten before it was read: with the reader at that place or
before it, more changes were published after it than are kept. -/
def Lost (reads : List (Nat × Nat)) (p : Nat) : Prop :=
  ∃ x ∈ reads, x.1 ≤ p ∧ p + Feed.capacity < x.2

instance (reads : List (Nat × Nat)) (p : Nat) : Decidable (Lost reads p) :=
  inferInstanceAs (Decidable (∃ x ∈ reads, _))

/-- The changes at places of a stretch that a reader wants and that were not lost to it. -/
def delivered (log : List Change) (service : Option String) (reads : List (Nat × Nat))
    (first count : Nat) : List Change :=
  (List.range' first count).filterMap fun p =>
    if Lost reads p then none
    else log[p]?.filter fun c => Watcher.wants service c.service.name

/-- A reader since it was opened, after so many changes: all that it came to, and for every look at
the feed where it was and how many changes were published by then. -/
structure Subscriber where
  watcher : Watcher
  opened : Nat
  readings : List Reading := []
  reads : List (Nat × Nat) := []

namespace Subscriber

/-- The changes that it was given. -/
def changes (r : Subscriber) : List Change := r.readings.filterMap Reading.change?

/-- A reader that was stopped does not look at the feed. -/
def look (r : Subscriber) (f : Feed) (watcher : Watcher) : Subscriber := { r with
  watcher
  reads := if r.watcher.stopped then r.reads else r.reads ++ [(r.watcher.next, f.published)] }

def pass (r : Subscriber) (f : Feed) : Subscriber := r.look f (r.watcher.pass f)

def next (r : Subscriber) (f : Feed) : Subscriber :=
  { r.look f (r.watcher.poll f).1 with readings := r.readings ++ [(r.watcher.poll f).2] }

def stop (r : Subscriber) : Subscriber := { r with watcher := r.watcher.stop }

/-- A reader was given all that it wants of what it has passed, but for what was lost. -/
structure Sound (log : List Change) (r : Subscriber) : Prop where
  opened : r.opened ≤ r.watcher.next
  next : r.watcher.next ≤ log.length
  reads : ∀ x ∈ r.reads, x.2 ≤ r.watcher.next + Feed.capacity
  changes : r.changes =
    delivered log r.watcher.service r.reads r.opened (r.watcher.next - r.opened)

end Subscriber

variable {reads : List (Nat × Nat)} {x : Nat × Nat} {r r' : Subscriber}

theorem lost_snoc : Lost (reads ++ [x]) p ↔
    Lost reads p ∨ x.1 ≤ p ∧ p + Feed.capacity < x.2 := by
  simp only [Lost, List.mem_append, List.mem_singleton, or_and_right, exists_or,
    exists_eq_left]

theorem delivered_append {a b : Nat} : delivered log service reads i (a + b) =
    delivered log service reads i a ++ delivered log service reads (i + a) b := by
  simp only [delivered, ← List.filterMap_append, List.range'_append_1]

/-- What is delivered of a stretch depends on the stretch, and on what was lost of it. -/
theorem delivered_congr {log' : List Change} {reads' : List (Nat × Nat)}
    (h : ∀ p, i ≤ p → p < i + n → (Lost reads p ↔ Lost reads' p) ∧ log[p]? = log'[p]?) :
    delivered log service reads i n = delivered log' service reads' i n := by
  refine List.filterMap_congr fun p hp => ?_
  obtain ⟨hi, hlt⟩ := List.mem_range'_1.1 hp
  obtain ⟨hlost, hget⟩ := h p hi hlt
  simp only [hlost, hget]

/-- Nothing of a stretch that was lost. -/
theorem delivered_lost (h : ∀ p, i ≤ p → p < i + n → Lost reads p) :
    delivered log service reads i n = [] := by
  refine List.filterMap_eq_nil_iff.2 fun p hp => ?_
  obtain ⟨hi, hlt⟩ := List.mem_range'_1.1 hp
  exact if_pos (h p hi hlt)

/-- All that the reader wants of a stretch that was not lost. -/
theorem delivered_kept (h : ∀ p, i ≤ p → p < i + n → ¬ Lost reads p) :
    delivered log service reads i n = Watcher.wanted service ((log.drop i).take n) := by
  induction n generalizing i with
  | zero => rfl
  | succ n ih =>
    have hrest := ih (i := i + 1) fun p hi hlt => h p (by omega) (by omega)
    have hhead := h i (Nat.le_refl i) (by omega)
    rw [Nat.add_comm n 1, delivered_append, hrest]
    cases hget : log[i]? with
    | none =>
      have hle := List.getElem?_eq_none_iff.1 hget
      simp [delivered, hhead, hget, List.drop_eq_nil_of_le hle,
        List.drop_eq_nil_of_le (Nat.le_succ_of_le hle), Watcher.wanted]
    | some c =>
      rw [Watcher.drop_of_getElem? hget, Nat.add_comm 1 n, List.take_succ_cons,
        Watcher.wanted_cons]
      by_cases hc : Watcher.wants service c.service.name = true <;>
        simp [delivered, hhead, hget, hc, Option.filter]

namespace Subscriber

/-- A look at the feed in which the reader moves on: what was overwritten it has lost, and what it
passes after that was not. -/
theorem Sound.delivered_look (h : r.Sound log) (hwf : f.WellFormed) (hf : f.Tails log) :
    delivered log r.watcher.service (r.reads ++ [(r.watcher.next, f.published)]) r.opened
        (r.watcher.start f + n - r.opened) =
      r.changes ++ Watcher.wanted r.watcher.service ((f.since (r.watcher.start f)).take n) := by
  have hfirst := hf.first_eq hwf
  have hlen := hf.length
  have hopened := h.opened
  have hle : r.watcher.next ≤ r.watcher.start f := Nat.le_max_left _ _
  have hge : f.first ≤ r.watcher.start f := Nat.le_max_right _ _
  -- Three stretches: what was passed before, what was lost in between, and what is passed now.
  have hsum : r.watcher.start f + n - r.opened = r.watcher.next - r.opened +
      (r.watcher.start f - r.watcher.next + n) := by omega
  have hplace : r.opened + (r.watcher.next - r.opened) = r.watcher.next := by omega
  have hplace' : r.watcher.next + (r.watcher.start f - r.watcher.next) = r.watcher.start f := by
    omega
  rw [hsum, delivered_append, delivered_append, hplace, hplace', h.changes]
  have hold : ∀ p, r.opened ≤ p → p < r.opened + (r.watcher.next - r.opened) →
      (Lost (r.reads ++ [(r.watcher.next, f.published)]) p ↔ Lost r.reads p) ∧
        log[p]? = log[p]? := by
    intro p _ hp
    refine ⟨?_, rfl⟩
    rw [lost_snoc]
    exact or_iff_left (by omega)
  have hlost : ∀ p, r.watcher.next ≤ p →
      p < r.watcher.next + (r.watcher.start f - r.watcher.next) →
      Lost (r.reads ++ [(r.watcher.next, f.published)]) p := by
    intro p hp hlt
    have hmax : r.watcher.start f = max r.watcher.next f.first := rfl
    refine lost_snoc.2 (.inr ⟨hp, ?_⟩)
    dsimp only
    omega
  have hkept : ∀ p, r.watcher.start f ≤ p → p < r.watcher.start f + n →
      ¬ Lost (r.reads ++ [(r.watcher.next, f.published)]) p := by
    intro p hp _ hlost
    rcases lost_snoc.1 hlost with ⟨x, hx, -, hlt⟩ | ⟨-, hlt⟩
    · have hx := h.reads x hx
      omega
    · dsimp only at hlt
      omega
  rw [delivered_congr hold, delivered_lost hlost, delivered_kept hkept, List.nil_append,
    hf.since hge]

/-- A reader that moves on is given what it wants of what it passes. -/
theorem Sound.moves {w' : Watcher} {readings : List Reading} (h : r.Sound log)
    (hwf : f.WellFormed) (hf : f.Tails log) (hw : r.watcher.stopped = false)
    (hnext : w'.next = r.watcher.start f + n) (hservice : w'.service = r.watcher.service)
    (hn : n ≤ (f.since (r.watcher.start f)).length)
    (hr : readings.filterMap Reading.change? =
      r.changes ++ Watcher.wanted r.watcher.service ((f.since (r.watcher.start f)).take n)) :
    Sound log { r.look f w' with readings } := by
  have hlen := hf.length
  have hle : r.watcher.next ≤ r.watcher.start f := Nat.le_max_left _ _
  have hge : f.first ≤ r.watcher.start f := Nat.le_max_right _ _
  have hreads : (r.look f w').reads = r.reads ++ [(r.watcher.next, f.published)] := by
    simp only [Subscriber.look, hw, Bool.false_eq_true, if_false]
  refine ⟨?_, ?_, ?_, ?_⟩
  · show r.opened ≤ w'.next
    have hopened := h.opened
    omega
  · show w'.next ≤ log.length
    have hstart := Watcher.start_le hf h.next
    rw [hf.since hge, List.length_drop] at hn
    omega
  · show ∀ x ∈ (r.look f w').reads, x.2 ≤ w'.next + Feed.capacity
    rw [hreads]
    intro x hx
    rcases List.mem_append.1 hx with hx | hx
    · have hx := h.reads x hx
      omega
    · rw [List.mem_singleton.1 hx]
      have hfirst := hf.first_eq hwf
      dsimp only
      omega
  · show readings.filterMap Reading.change? = delivered log w'.service (r.look f w').reads r.opened
      (w'.next - r.opened)
    rw [hr, hreads, hnext, hservice, h.delivered_look hwf hf]

/-- In passing, a reader loses nothing unnoticed. -/
theorem Sound.pass (h : r.Sound log) (hwf : f.WellFormed) (hf : f.Tails log) :
    (r.pass f).Sound log := by
  cases hw : r.watcher.stopped with
  | true =>
    have hpass : r.pass f = r := by simp [Subscriber.pass, Subscriber.look, Watcher.pass, hw]
    rwa [hpass]
  | false =>
    obtain ⟨n, hnext, hservice, hn, htake⟩ := Watcher.pass_spec hw f
    refine h.moves hwf hf hw hnext hservice hn ?_
    rw [htake, List.append_nil]
    rfl

/-- Nor in reading. -/
theorem Sound.read (h : r.Sound log) (hwf : f.WellFormed) (hf : f.Tails log) :
    (r.next f).Sound log := by
  cases hw : r.watcher.stopped with
  | true =>
    have hpoll : r.watcher.poll f = (r.watcher, .stopped) := by simp [Watcher.poll, hw]
    refine ⟨?_, ?_, ?_, ?_⟩ <;> simp only [Subscriber.next, Subscriber.look, hpoll, hw, if_true]
    · exact h.opened
    · exact h.next
    · exact h.reads
    · rw [← h.changes]
      simp [Subscriber.changes, Reading.change?]
  | false =>
    obtain ⟨n, stopped, hpoll, -, hn, htake, -⟩ := Watcher.poll_spec hw f
    refine h.moves hwf hf hw (by rw [hpoll]) (by rw [hpoll]) hn ?_
    rw [htake, hpoll, List.filterMap_append]
    rfl

/-- Nor by what is published meanwhile. -/
theorem Sound.published (h : r.Sound log) : r.Sound (log ++ [c]) where
  opened := h.opened
  next := by
    rw [List.length_append]
    exact Nat.le_add_right_of_le h.next
  reads := h.reads
  changes := by
    have hopened := h.opened
    have hnext := h.next
    rw [h.changes]
    refine delivered_congr fun p _ hp => ⟨Iff.rfl, ?_⟩
    rw [List.getElem?_append_left (by omega)]

end Subscriber

/-- A registry and all that read its feed. A change is published some time after it was made. -/
structure WatchedRegistry where
  registry : Registry := {}
  due : List Change := []
  log : List Change := []
  readers : List Subscriber := []

namespace WatchedRegistry

/-- Services come and go, readers are opened, read and are stopped, and the registry is dropped, in
any order. The loop of a reader may be interrupted after any turn. -/
inductive Move
  | register (now : Instant) (s : Service) (ttl : Option Duration)
  | deregister (s : Service)
  | publish (i : Nat)
  | watch (service : Option String)
  | pass (k : Nat)
  | next (k : Nat)
  | stop (k : Nat)
  | drop

/-- The registry may be dropped once it has nothing left to publish, and is not used after that. -/
def step (s : WatchedRegistry) : Move → WatchedRegistry
  | .register now x ttl =>
    if s.registry.feed.ended then s
    else match s.registry.catalog.register now x ttl with
      | .ok (catalog, c) => { s with registry := { s.registry with catalog }, due := s.due ++ [c] }
      | .error _ => s
  | .deregister x =>
    if s.registry.feed.ended then s
    else
      let (catalog, change) := s.registry.catalog.deregister x
      { s with registry := { s.registry with catalog }, due := s.due ++ change.toList }
  | .publish i =>
    match s.due[i]? with
    | some c => { s with
        registry := { s.registry with feed := s.registry.feed.publish c }
        due := s.due.eraseIdx i
        log := s.log ++ [c] }
    | none => s
  | .watch service =>
    if s.registry.feed.ended then s
    else { s with readers := s.readers ++ [{
      watcher := s.registry.watch service
      opened := s.log.length }] }
  | .pass k => { s with readers := s.readers.modify k (·.pass s.registry.feed) }
  | .next k => { s with readers := s.readers.modify k (·.next s.registry.feed) }
  | .stop k => { s with readers := s.readers.modify k Subscriber.stop }
  | .drop =>
    if s.due.isEmpty then
      { s with registry := { s.registry with feed := s.registry.feed.finish } }
    else s

def run (s : WatchedRegistry) (ms : List Move) : WatchedRegistry := ms.foldl step s

variable {s : WatchedRegistry} {ms : List Move} {mv : Move}

/-- A registration is made and published at once when nothing is done in between. -/
theorem registry_register {now : Instant} {x : Service} {ttl : Option Duration}
    {registry : Registry} (he : s.registry.feed.ended = false) (hd : s.due = [])
    (h : s.registry.register now x ttl = .ok registry) :
    ((s.step (.register now x ttl)).step (.publish 0)).registry = registry := by
  unfold Registry.register at h
  cases hc : s.registry.catalog.register now x ttl with
  | error e =>
    rw [hc] at h
    cases h
  | ok a =>
    rw [hc] at h
    cases h
    simp [step, he, hd, hc]

theorem registry_deregister {x : Service} (he : s.registry.feed.ended = false) (hd : s.due = []) :
    ((s.step (.deregister x)).step (.publish 0)).registry = s.registry.deregister x := by
  unfold Registry.deregister
  obtain ⟨catalog, change, hc⟩ : ∃ catalog change,
      s.registry.catalog.deregister x = (catalog, change) := ⟨_, _, rfl⟩
  cases change <;> simp [step, he, hd, hc]

/-- What a move makes of the reader at a place. -/
def after (f : Feed) (k : Nat) (r : Subscriber) : Move → Subscriber
  | .pass j => if j = k then r.pass f else r
  | .next j => if j = k then r.next f else r
  | .stop j => if j = k then r.stop else r
  | _ => r

theorem getElem?_step (h : s.readers[k]? = some r) (mv : Move) :
    (s.step mv).readers[k]? = some (after s.registry.feed k r mv) := by
  cases mv with
  | register now x ttl =>
    simp only [step, after]
    split
    · exact h
    · split <;> exact h
  | deregister x =>
    simp only [step, after]
    split <;> exact h
  | publish i =>
    simp only [step, after]
    split <;> exact h
  | watch service =>
    simp only [step, after]
    split
    · exact h
    · rw [List.getElem?_append_left (List.getElem?_eq_some_iff.1 h).1, h]
  | pass j | next j | stop j =>
    simp only [step, after, List.getElem?_modify, h, Option.map_eq_map, Option.map_some]
  | drop =>
    simp only [step, after]
    split <;> exact h

/-- What a registry and the readers of its feed keep. -/
structure Sound (s : WatchedRegistry) : Prop where
  wellFormed : s.registry.feed.WellFormed
  tails : s.registry.feed.Tails s.log
  ended : s.registry.feed.ended = true → s.due = []
  readers : ∀ r ∈ s.readers, r.Sound s.log

theorem Sound.modify (h : s.Sound) (g : Subscriber → Subscriber)
    (hg : ∀ r : Subscriber, r.Sound s.log → (g r).Sound s.log) :
    Sound { s with readers := s.readers.modify k g } where
  wellFormed := h.wellFormed
  tails := h.tails
  ended := h.ended
  readers r' hr' := by
    obtain ⟨j, hj⟩ := List.getElem?_of_mem hr'
    rw [List.getElem?_modify] at hj
    obtain ⟨r, hr, rfl⟩ := Option.map_eq_some_iff.1 hj
    have hr := h.readers r (List.mem_of_getElem? hr)
    split
    · exact hg r hr
    · exact hr

theorem Sound.step (h : s.Sound) (mv : Move) : (s.step mv).Sound := by
  cases mv with
  | register now x ttl =>
    simp only [WatchedRegistry.step]
    split
    · exact h
    · rename_i he
      split
      · exact ⟨h.wellFormed, h.tails, fun h' => absurd h' he, h.readers⟩
      · exact h
  | deregister x =>
    simp only [WatchedRegistry.step]
    split
    · exact h
    · rename_i he
      exact ⟨h.wellFormed, h.tails, fun h' => absurd h' he, h.readers⟩
  | publish i =>
    simp only [WatchedRegistry.step]
    split
    · rename_i c hc
      refine ⟨Feed.wellFormed_publish h.wellFormed, Feed.tails_publish h.tails h.tails.first_le,
        fun he => ?_, fun r hr => (h.readers r hr).published⟩
      rw [Feed.ended_publish] at he
      rw [h.ended he] at hc
      cases hc
    · exact h
  | watch service =>
    simp only [WatchedRegistry.step]
    split
    · exact h
    · refine ⟨h.wellFormed, h.tails, h.ended, ?_⟩
      intro r hr
      rcases List.mem_append.1 hr with hr | hr
      · exact h.readers r hr
      · rw [List.mem_singleton.1 hr]
        have hnext : (s.registry.watch service).next = s.log.length := h.tails.length
        refine ⟨Nat.le_of_eq hnext.symm, Nat.le_of_eq hnext, nofun, ?_⟩
        simp [Subscriber.changes, hnext, delivered]
  | pass k => exact h.modify _ fun r hr => hr.pass h.wellFormed h.tails
  | next k => exact h.modify _ fun r hr => hr.read h.wellFormed h.tails
  | stop k => exact h.modify _ fun r hr => ⟨hr.opened, hr.next, hr.reads, hr.changes⟩
  | drop =>
    simp only [WatchedRegistry.step]
    split
    · rename_i hd
      exact ⟨⟨h.wellFormed.bounded, h.wellFormed.full⟩, ⟨h.tails.length, h.tails.kept⟩,
        fun _ => List.isEmpty_iff.1 hd, h.readers⟩
    · exact h

theorem sound_run (ms : List Move) : (run {} ms).Sound := by
  induction ms using List.reverseRecOn with
  | nil => exact ⟨Feed.wellFormed_new, ⟨rfl, rfl⟩, nofun, nofun⟩
  | append_singleton ms mv ih =>
    rw [run, List.foldl_append]
    exact ih.step mv

def Move.isNext (k : Nat) : Move → Bool
  | .next j => j == k
  | _ => false

/-- How often a reader is asked for its next change. -/
def nexts (k : Nat) (ms : List Move) : Nat := ms.countP (Move.isNext k)

theorem nexts_cons (k : Nat) (mv : Move) (ms : List Move) :
    nexts k (mv :: ms) = nexts k [mv] + nexts k ms := by
  simp [nexts, List.countP_cons, Nat.add_comm]

/-- A reader that stopped is told so every time it is asked. -/
theorem stopped_after (f : Feed) (k : Nat) (mv : Move) (h : r.watcher.stopped = true) :
    (after f k r mv).watcher.stopped = true ∧ (after f k r mv).readings =
      r.readings ++ List.replicate (nexts k [mv]) .stopped := by
  have hpoll : r.watcher.poll f = (r.watcher, .stopped) := by simp [Watcher.poll, h]
  have hpass : r.watcher.pass f = r.watcher := by simp [Watcher.pass, h]
  cases mv with
  | next j =>
    by_cases hj : j = k <;>
      simp [after, nexts, Move.isNext, hj, Subscriber.next, Subscriber.look, hpoll, h]
  | pass j =>
    by_cases hj : j = k <;>
      simp [after, nexts, Move.isNext, hj, Subscriber.pass, Subscriber.look, hpass, h]
  | stop j =>
    by_cases hj : j = k <;>
      simp [after, nexts, Move.isNext, hj, Subscriber.stop, Watcher.stop, h]
  | register | deregister | publish | watch | drop =>
    simp [after, nexts, Move.isNext, h]

/-- A reader that has been stopped finds just that, whatever is ahead of it. -/
theorem readings_of_stopped (ms : List Move) (hr : s.readers[k]? = some r)
    (h : r.watcher.stopped = true) : ∃ r', (s.run ms).readers[k]? = some r' ∧
      r'.readings = r.readings ++ List.replicate (nexts k ms) .stopped := by
  induction ms generalizing s r with
  | nil => exact ⟨r, hr, by simp [nexts]⟩
  | cons mv ms ih =>
    obtain ⟨hstopped, hreadings⟩ := stopped_after s.registry.feed k mv h
    obtain ⟨r', hr', hlater⟩ := ih (getElem?_step hr mv) hstopped
    refine ⟨r', hr', ?_⟩
    rw [hlater, hreadings, List.append_assoc, ← List.replicate_add]
    rw [nexts_cons k mv ms]

theorem ended_step (hs : s.Sound) (he : s.registry.feed.ended = true) (mv : Move) :
    (s.step mv).registry.feed = s.registry.feed := by
  have hd := hs.ended he
  cases mv with
  | drop =>
    simp only [step, hd, List.isEmpty_nil, if_true, Feed.finish]
    rw [← he]
  | register | deregister | publish | watch => simp [step, he, hd]
  | pass | next | stop => rfl

/-- What is to come of a reader is the same whatever move is next, but for stopping it. -/
theorem polls_after (h : Move.stop k ≠ mv) :
    (after f k r mv).readings ++ Watcher.polls f n (after f k r mv).watcher =
      r.readings ++ Watcher.polls f (nexts k [mv] + n) r.watcher := by
  cases mv with
  | next j =>
    by_cases hj : j = k
    · simp [after, nexts, Move.isNext, hj, Subscriber.next, Subscriber.look, Nat.add_comm 1,
        Watcher.polls]
    · simp [after, nexts, Move.isNext, hj]
  | pass j =>
    by_cases hj : j = k <;>
      simp [after, nexts, Move.isNext, hj, Subscriber.pass, Subscriber.look, Watcher.polls_pass]
  | stop j =>
    have hj : j ≠ k := fun hj => h (by rw [hj])
    simp [after, nexts, Move.isNext, hj]
  | register | deregister | publish | watch | drop => simp [after, nexts, Move.isNext]

/-- So its readers come to what is kept for them, and then to the end. -/
theorem readings_of_ended (ms : List Move) (hs : s.Sound) (he : s.registry.feed.ended = true)
    (hr : s.readers[k]? = some r) (hms : Move.stop k ∉ ms) :
    ∃ r', (s.run ms).readers[k]? = some r' ∧
      r'.readings = r.readings ++ Watcher.polls s.registry.feed (nexts k ms) r.watcher := by
  induction ms generalizing s r with
  | nil => exact ⟨r, hr, by simp [nexts, Watcher.polls]⟩
  | cons mv ms ih =>
    have hfeed := ended_step hs he mv
    rw [List.mem_cons, not_or] at hms
    obtain ⟨hmv, hms⟩ := hms
    obtain ⟨r', hr', hlater⟩ := ih (hs.step mv) (hfeed ▸ he) (getElem?_step hr mv) hms
    refine ⟨r', hr', ?_⟩
    rw [hlater, hfeed, polls_after hmv, ← nexts_cons]

/-- A reader keeps what it was opened with, and everything that it came to. -/
theorem kept_after (f : Feed) (k : Nat) (r : Subscriber) (mv : Move) :
    (after f k r mv).watcher.service = r.watcher.service ∧ (after f k r mv).opened = r.opened ∧
      r.readings <+: (after f k r mv).readings := by
  have idle : r.watcher.service = r.watcher.service ∧ r.opened = r.opened ∧
      r.readings <+: r.readings := ⟨rfl, rfl, List.prefix_refl _⟩
  cases mv with
  | pass j =>
    simp only [after]
    split
    · exact ⟨r.watcher.service_pass f, rfl, List.prefix_refl _⟩
    · exact idle
  | next j =>
    simp only [after]
    split
    · exact ⟨r.watcher.service_poll f, rfl, List.prefix_append _ _⟩
    · exact idle
  | stop j =>
    simp only [after]
    split <;> exact idle
  | register | deregister | publish | watch | drop => exact idle

/-- A reader keeps its service, its place of opening and all that it came to. -/
theorem kept_run (ms : List Move) (hr : s.readers[k]? = some r) :
    ∃ r', (s.run ms).readers[k]? = some r' ∧ r'.watcher.service = r.watcher.service ∧
      r'.opened = r.opened ∧ r.readings <+: r'.readings := by
  induction ms generalizing s r with
  | nil => exact ⟨r, hr, rfl, rfl, List.prefix_refl _⟩
  | cons mv ms ih =>
    obtain ⟨hservice, hopened, hreadings⟩ := kept_after s.registry.feed k r mv
    obtain ⟨r', hr', hservice', hopened', hreadings'⟩ := ih (getElem?_step hr mv)
    exact ⟨r', hr', hservice'.trans hservice, hopened'.trans hopened,
      hreadings.trans hreadings'⟩

/-- What holds of a reader of a registry's changes at any time. -/
structure Delivers (s : WatchedRegistry) (k : Nat) (r : Subscriber) : Prop where
  changes : r.changes = delivered s.log r.watcher.service r.reads r.opened
    (r.watcher.next - r.opened)
  finds : (r.watcher.poll s.registry.feed).2 =
    if r.watcher.stopped then .stopped
    else Watcher.finds s.registry.feed (Watcher.wanted r.watcher.service
      (s.log.drop (max r.watcher.next (s.log.length - Feed.capacity))))
  stops : ∀ ms, ∃ r', ((s.step (.stop k)).run ms).readers[k]? = some r' ∧
    r'.readings = r.readings ++ List.replicate (nexts k ms) .stopped
  drains : s.registry.feed.ended = true → r.watcher.stopped = false → ∀ ms, Move.stop k ∉ ms →
    ∃ r', (s.run ms).readers[k]? = some r' ∧
      r'.readings = r.readings ++ ((Watcher.wanted r.watcher.service
        (s.log.drop (max r.watcher.next (s.log.length - Feed.capacity)))).map Reading.change ++
          List.replicate (nexts k ms) Reading.stopped).take (nexts k ms)

/-- What is still ahead of a reader, as a part of the log. -/
theorem Sound.ahead_eq (hs : s.Sound) (w : Watcher) : w.ahead s.registry.feed =
    Watcher.wanted w.service (s.log.drop (max w.next (s.log.length - Feed.capacity))) := by
  have hge : s.registry.feed.first ≤ w.start s.registry.feed := Nat.le_max_right _ _
  rw [Watcher.ahead, hs.tails.since hge, Watcher.start, hs.tails.first_eq hs.wellFormed]

/-- All that holds of one reader. -/
theorem Sound.delivers (hs : s.Sound) (hr : s.readers[k]? = some r) : Delivers s k r where
  changes := (hs.readers r (List.mem_of_getElem? hr)).changes
  finds := by
    cases hw : r.watcher.stopped with
    | true => simp [Watcher.poll, hw]
    | false =>
      obtain ⟨n, stopped, hpoll, -⟩ := Watcher.poll_spec hw s.registry.feed
      rw [hpoll, hs.ahead_eq]
      rfl
  stops ms := by
    have hstep := getElem?_step hr (.stop k)
    rw [after, if_pos rfl] at hstep
    exact readings_of_stopped (r := r.stop) ms hstep rfl
  drains he hw ms hms := by
    obtain ⟨r', hr', hlater⟩ := readings_of_ended ms hs he hr hms
    rw [Watcher.polls_of_ended _ hw he, hs.ahead_eq] at hlater
    exact ⟨r', hr', hlater⟩

/-- Every reader that was ever opened, in any run from an empty registry on. -/
structure Delivering (s : WatchedRegistry) : Prop where
  opens : ∀ service, s.registry.feed.ended = false → ∀ ms, ∃ r : Subscriber,
    ((s.step (.watch service)).run ms).readers[s.readers.length]? = some r ∧
      r.watcher.service = service ∧ r.opened = s.log.length
  keeps : ∀ (k : Nat) (r : Subscriber), s.readers[k]? = some r → ∀ ms, ∃ r' : Subscriber,
    (s.run ms).readers[k]? = some r' ∧ r'.watcher.service = r.watcher.service ∧
      r'.opened = r.opened ∧ r.readings <+: r'.readings
  delivers : ∀ (k : Nat) (r : Subscriber), s.readers[k]? = some r → Delivers s k r

/-- In every run, every reader is given all it wants but for what it was too slow for. -/
theorem delivering_run (ms : List Move) : Delivering (run {} ms) where
  opens service he ns := by
    generalize run {} ms = s at he ⊢
    have hr : (s.step (.watch service)).readers[s.readers.length]? =
        some { watcher := s.registry.watch service, opened := s.log.length } := by
      simp [step, he]
    obtain ⟨r, hr', hservice, hopened, -⟩ := kept_run ns hr
    exact ⟨r, hr', hservice, hopened⟩
  keeps _ _ hr ns := kept_run ns hr
  delivers _ _ hr := (sound_run ms).delivers hr

end WatchedRegistry

end Switchboard.Discovery
