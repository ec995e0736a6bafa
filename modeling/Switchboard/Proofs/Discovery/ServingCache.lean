import Switchboard.Proofs.Discovery.SingleFlight
import Switchboard.Proofs.Discovery.WatchLoops

/-! A cache with the callers that come to it and the watch loops behind it, in any order. -/
namespace Switchboard.Discovery

/-- The loops that are leaving have noticed that the cache was stopped. -/
structure ServingCache where
  lookups : SharedLookups
  leaving : List Nat := []

namespace ServingCache

inductive Move
  | caller (m : SharedLookups.Move)
  | aside (m : WatchLoops.Move)

def new (ttl : Duration) : ServingCache := { lookups := .new ttl }

abbrev hub (d : ServingCache) : Hub := d.lookups.hub

abbrev cache (d : ServingCache) : Cache := d.hub.cache

def watchLoops (d : ServingCache) : WatchLoops := { hub := d.hub, leaving := d.leaving }

/-- Takes over what has become of the loops. -/
def watch (d : ServingCache) (m : WatchLoops.Move) : ServingCache :=
  let v := d.watchLoops.step m
  { lookups := { d.lookups with hub := v.hub }, leaving := v.leaving }

/-- Lookups and replies are the callers' to make, all else is not. -/
def step (d : ServingCache) : Move → ServingCache
  | .caller m =>
    match m with
    | .other _ => d
    | m => { d with lookups := d.lookups.step m }
  | .aside m =>
    match m with
    | .event (.look _) | .event (.answer _ _) => d
    | m => d.watch m

def run (d : ServingCache) (ms : List Move) : ServingCache := ms.foldl step d

/-- All that a move can do to a cache at work. -/
inductive Trans (d : ServingCache) : Move → ServingCache → Prop
  | idle (m : Move) : Trans d m d
  | called (m : SharedLookups.Move) (c : SharedLookups) (hm : ∀ e, m ≠ .other e)
    (hc : d.lookups.Trans m c) :
    Trans d (.caller m) { d with lookups := c }
  | watched (m : WatchLoops.Move) (v : WatchLoops) (he : ∀ e, m = .event e → SharedLookups.Aside e)
    (hv : d.watchLoops.Trans m v) :
    Trans d (.aside m) { lookups := { d.lookups with hub := v.hub }, leaving := v.leaving }

/-- What any move does to a cache at work. -/
theorem step_trans (d : ServingCache) (m : Move) : Trans d m (d.step m) := by
  cases m with
  | caller m =>
    simp only [step]
    split
    · exact .idle _
    · rename_i hm
      exact .called m _ hm (SharedLookups.step_trans d.lookups m)
  | aside m =>
    simp only [step]
    split
    · exact .idle _
    · exact .idle _
    · rename_i hl ha
      refine .watched m _ ?_ (WatchLoops.step_trans d.watchLoops m)
      rintro e rfl
      cases e <;> first | trivial | exact absurd rfl (hl _) | exact absurd rfl (ha _ _)

end ServingCache

/-- The loops and the status are nothing to the callers. -/
theorem SharedLookups.Sound.congr {s : SharedLookups} {h : Hub} (hs : s.Sound)
    (hf : h.fetches = s.hub.fetches) (hi : h.cache.inFlight = s.hub.cache.inFlight)
    (ht : h.cache.nextTicket = s.hub.cache.nextTicket) : SharedLookups.Sound { s with hub := h } := by
  have hfetch (t : Nat) : h.fetch? t = s.hub.fetch? t := by rw [Hub.fetch?, hf, Hub.fetch?]
  have hanswer (t : Nat) : h.answer? t = s.hub.answer? t := by
    rw [Hub.answer?, hfetch, Hub.answer?]
  constructor
  · constructor
    · intro t f hft
      rw [ht]
      exact hs.booked.known t f (hfetch t ▸ hft)
    · intro name t
      rw [hi, hfetch]
      exact hs.booked.inFlight name t
  · exact hs.once
  · exact hs.asked
  · intro t r hr
    exact hs.replied t r (hanswer t ▸ hr)
  · intro i name t hw
    rw [hfetch]
    exact hs.waiting i name t hw
  · intro i name t r hv
    rw [hanswer]
    exact hs.served i name t r hv

namespace ServingCache

variable {d d' : ServingCache} {m : Move} {name : String} {i j t : Nat}
  {r : Except Error (List Service)}

theorem sound_new (ttl : Duration) : (new ttl).lookups.Sound := SharedLookups.sound_new ttl

/-- Its lookups stay sound with every move. -/
theorem sound_step (hs : d.lookups.Sound) (ht : Trans d m d') : d'.lookups.Sound := by
  cases ht with
  | idle => exact hs
  | called m c hm hc => exact hs.step hc
  | watched m v he hv =>
    cases hv with
    | idle => exact hs
    | moved e os hl ho =>
      refine hs.hub (Hub.step_trans d.hub e) ?_
      rintro t r rfl
      exact (he _ rfl).elim
    | noticed e id l status _ _ _ _ => exact hs.congr rfl rfl rfl
    | left id l _ _ => exact hs.congr rfl rfl rfl

theorem sound_run (hs : d.lookups.Sound) (ms : List Move) : (d.run ms).lookups.Sound := by
  induction ms generalizing d with
  | nil => exact hs
  | cons m ms ih => exact ih (sound_step hs (step_trans d m))

theorem answer?_step (ht : Trans d m d') (ha : d.hub.answer? t = some r) :
    d'.hub.answer? t = some r := by
  cases ht with
  | idle => exact ha
  | called m c hm hc => exact SharedLookups.answer?_step hc ha
  | watched m v he hv =>
    cases hv with
    | moved e os hl ho => exact (Hub.step_trans d.hub e).answer? ha
    | idle | noticed | left => exact ha

theorem answer?_run (ms : List Move) (ha : d.hub.answer? t = some r) :
    (d.run ms).hub.answer? t = some r := by
  induction ms generalizing d with
  | nil => exact ha
  | cons m ms ih => exact ih (answer?_step (step_trans d m) ha)

/-- Whoever waits for a fetch, or has been served by it, gets this of it, now and later. -/
def Gives (d : ServingCache) (t : Nat) (r : Except Error (List Service)) : Prop :=
  ∀ ms j name,
    ((d.run ms).lookups.callers j = .waiting name t →
      ((d.run ms).step (.caller (.take j))).lookups.callers j = .served name (some t) r) ∧
    ∀ q, (d.run ms).lookups.callers j = .served name (some t) q → q = r

/-- All who wait for a fetch get the one answer of it. -/
theorem gives_of_answer (hs : d.lookups.Sound) (ha : d.hub.answer? t = some r) : d.Gives t r := by
  intro ms j name
  have hr := answer?_run ms ha
  generalize hd : d.run ms = d' at hr
  have hs' : d'.lookups.Sound := hd ▸ sound_run hs ms
  constructor
  · intro hw
    change d'.lookups.hub.answer? t = some r at hr
    simp [step, SharedLookups.step, hw, hr, SharedLookups.callers_setCaller]
  · intro q hq
    exact Option.some.inj ((hs'.served j name t q hq).symm.trans hr)

/-! Fetches that take their replies. -/

/-- A fetch has a reply from the registry, and a caller that waits for it drives it on. -/
structure Settling (d : ServingCache) (i : Nat) (name : String) (t : Nat)
    (r : Except Error (List Service)) : Prop where
  caller : d.lookups.callers i = .waiting name t
  reply : d.lookups.replies t = some r
  unanswered : d.hub.answer? t = none

theorem Settling.step (h : d.Settling i name t r) :
    d.step (.caller (.settle i)) =
      { d with lookups := { d.lookups with hub := d.hub.step (.answer t r) } } := by
  simp only [ServingCache.step, SharedLookups.step, h.caller, h.reply, hub]

/-- The fetch that a reply is for is the one in flight for its name. -/
theorem Settling.fetch (h : d.Settling i name t r) (hs : d.lookups.Sound) :
    ∃ f, d.hub.fetch? t = some f ∧ f.name = name ∧ f.answer = none ∧
      d.cache.inFlight.get? name = some t ∧ d.hub.step (.answer t r) = d.hub.settle f r := by
  obtain ⟨f, hf, hn⟩ := hs.waiting i name t h.caller
  have ha : f.answer = none := by
    cases ha : f.answer with
    | none => rfl
    | some q =>
      have := h.unanswered.symm.trans (Hub.answer?_eq_some_iff.2 ⟨f, hf, ha⟩)
      cases this
  refine ⟨f, hf, hn, ha, (hs.booked.inFlight name t).2 ⟨f, hf, hn, ha⟩, ?_⟩
  change d.hub.fetch? t = some f at hf
  simp only [Hub.step, hf, ha, Option.isNone_none, if_true]

/-- All who wait for a fetch get what the cache makes of the reply. -/
theorem Settling.gives (h : d.Settling i name t r) (hs : d.lookups.Sound) :
    (d.step (.caller (.settle i))).Gives t (d.cache.settle d.hub.now name r).2 := by
  obtain ⟨f, hf, rfl, -, -, hstep⟩ := h.fetch hs
  refine gives_of_answer (sound_step hs (step_trans d _)) ?_
  rw [h.step, hstep]
  change (d.hub.settle f r).answer? t = _
  rw [Hub.answer?, Hub.fetch?_settle hf, if_pos rfl]
  rfl

/-- Nobody who waits for a name without an answer waits for another fetch. -/
theorem Settling.joined {u : Nat} (h : d.Settling i name t r) (hs : d.lookups.Sound)
    (hj : d.lookups.callers j = .waiting name u) (hu : d.hub.answer? u = none) : u = t := by
  obtain ⟨f, hf, hn, hfa, -, -⟩ := h.fetch hs
  obtain ⟨g, hg, hm⟩ := hs.waiting j name u hj
  have hga : g.answer = none := by
    change d.hub.fetch? u = some g at hg
    rw [Hub.answer?, hg] at hu
    exact hu
  exact hs.booked.one hg hf (hm.trans hn.symm) hga hfa

/-- A caller that drives no reply on changes nothing. -/
theorem step_settle_of_not (h : ∀ name t r, ¬ d.Settling i name t r) :
    d.step (.caller (.settle i)) = d := by
  cases hc : d.lookups.callers i with
  | away | entering | missed | served => simp only [step, SharedLookups.step, hc]
  | waiting name t =>
    cases hr : d.lookups.replies t with
    | none => simp only [step, SharedLookups.step, hc, hr]
    | some r =>
      cases ha : d.hub.answer? t with
      | none => exact absurd ⟨hc, hr, ha⟩ (h name t r)
      | some q =>
        obtain ⟨f, hf, hfa⟩ := Hub.answer?_eq_some_iff.1 ha
        have hstep : d.lookups.hub.step (.answer t r) = d.lookups.hub := by
          change d.lookups.hub.fetch? t = some f at hf
          simp [Hub.step, hf, hfa]
        simp only [step, SharedLookups.step, hc, hr, hstep]

/-- A loop at work, at a phase. -/
def Working (d : ServingCache) (k : Nat) (p : LoopPhase) : Prop :=
  k ∉ d.leaving ∧ ∃ l, d.hub.loop? k = some l ∧ l.phase = p

end ServingCache
end Switchboard.Discovery
