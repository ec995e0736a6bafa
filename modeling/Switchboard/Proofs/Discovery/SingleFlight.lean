import Switchboard.Proofs.Discovery.Fetches

/-! Callers of a cache, in any number and order, and the calls to the registry that they share. -/
namespace Switchboard.Discovery

/-- A caller looks twice, under the read lock and under the write lock, before it waits for a fetch.
-/
inductive Caller
  | away
  | entering (name : String)
  | missed (name : String)
  | waiting (name : String) (ticket : Nat)
  | served (name : String) (ticket : Option Nat) (result : Except Error (List Service))

/-- The fetch that a caller waits for or was served by. -/
def Caller.ticket? : Caller → Option Nat
  | .waiting _ t => some t
  | .served _ t _ => t
  | _ => none

/-- The calls to the registry are known by the fetches that made them. One that was replied to is
over, though its fetch may wait for the lock yet. -/
structure SharedLookups where
  hub : Hub
  callers : Nat → Caller := fun _ => .away
  calls : List Nat := []
  replies : Nat → Option (Except Error (List Service)) := fun _ => none

namespace SharedLookups

/-- A fetch goes on only while some caller that waits for it drives it. -/
inductive Move
  | arrive (i : Nat) (name : String)
  | peek (i : Nat)
  | look (i : Nat)
  | call (i : Nat)
  | reply (i : Nat) (result : Except Error (List Service))
  | settle (i : Nat)
  | take (i : Nat)
  | leave (i : Nat)
  | other (e : HubEvent)

variable {s s' : SharedLookups} {m : Move} {ms : List Move} {h h' : Hub} {e : HubEvent} {f : Fetch}
  {name : String} {i j t u : Nat} {r q : Except Error (List Service)}

def new (ttl : Duration) : SharedLookups := { hub := Hub.new ttl }

def setCaller (s : SharedLookups) (i : Nat) (c : Caller) : SharedLookups :=
  { s with callers := fun j => if i = j then c else s.callers j }

def look (s : SharedLookups) (i : Nat) (name : String) : SharedLookups :=
  match s.hub.look name with
  | (hub, .hit ss) => { s with hub }.setCaller i (.served name none (.ok ss))
  | (hub, .join t) => { s with hub }.setCaller i (.waiting name t)
  | (hub, .start t) => { s with hub }.setCaller i (.waiting name t)

def step (s : SharedLookups) : Move → SharedLookups
  | .arrive i name =>
    match s.callers i with
    | .away | .served _ _ _ => s.setCaller i (.entering name)
    | _ => s
  | .peek i =>
    match s.callers i with
    | .entering name =>
      match s.hub.cache.valid? s.hub.now name with
      | some ss => s.setCaller i (.served name none (.ok ss))
      | none => s.setCaller i (.missed name)
    | _ => s
  | .look i =>
    match s.callers i with
    | .missed name => s.look i name
    | _ => s
  | .call i =>
    match s.callers i with
    | .waiting _ t => if t ∈ s.calls then s else { s with calls := s.calls ++ [t] }
    | _ => s
  | .reply i result =>
    match s.callers i with
    | .waiting _ t =>
      if t ∈ s.calls ∧ (s.replies t).isNone then
        { s with replies := fun u => if t = u then some result else s.replies u }
      else s
    | _ => s
  | .settle i =>
    match s.callers i with
    | .waiting _ t =>
      match s.replies t with
      | some result => { s with hub := s.hub.step (.answer t result) }
      | none => s
    | _ => s
  | .take i =>
    match s.callers i with
    | .waiting name t =>
      match s.hub.answer? t with
      | some result => s.setCaller i (.served name (some t) result)
      | none => s
    | _ => s
  | .leave i => s.setCaller i .away
  | .other e =>
    match e with
    | .look _ | .answer _ _ => s
    | e => { s with hub := s.hub.step e }

def run (s : SharedLookups) (ms : List Move) : SharedLookups := ms.foldl step s

/-- The calls for a name that were started and not replied to. -/
def openCalls (s : SharedLookups) (name : String) : List Nat :=
  s.calls.filter fun t => (s.hub.fetch? t).any (·.name == name) && (s.replies t).isNone

/-- The events that no caller has a part in. -/
def Aside : HubEvent → Prop
  | .look _ | .answer _ _ => False
  | _ => True

/-- All that a move can do to a lookups. -/
inductive Trans (s : SharedLookups) : Move → SharedLookups → Prop
  | idle (m : Move) : Trans s m s
  | arrived (i : Nat) (name : String) : Trans s (.arrive i name) (s.setCaller i (.entering name))
  | hit (m : Move) (i : Nat) (name : String) (ss : List Service)
    (hv : s.hub.cache.valid? s.hub.now name = some ss) :
    Trans s m (s.setCaller i (.served name none (.ok ss)))
  | missed (i : Nat) (name : String) (hc : s.callers i = .entering name)
    (hv : s.hub.cache.valid? s.hub.now name = none) :
    Trans s (.peek i) (s.setCaller i (.missed name))
  | joined (i : Nat) (name : String) (t : Nat) (hc : s.callers i = .missed name)
    (hf : s.hub.cache.inFlight.get? name = some t) :
    Trans s (.look i) (s.setCaller i (.waiting name t))
  | started (i : Nat) (name : String) (hc : s.callers i = .missed name)
    (hv : s.hub.cache.valid? s.hub.now name = none) (hf : s.hub.cache.inFlight.get? name = none) :
    Trans s (.look i)
      ({ s with hub := s.hub.step (.look name) }.setCaller i (.waiting name s.hub.cache.nextTicket))
  | called (i : Nat) (name : String) (t : Nat) (hc : s.callers i = .waiting name t)
    (ht : t ∉ s.calls) :
    Trans s (.call i) { s with calls := s.calls ++ [t] }
  | replied (i : Nat) (t : Nat) (result : Except Error (List Service)) (ht : t ∈ s.calls)
    (hn : s.replies t = none) :
    Trans s (.reply i result)
      { s with replies := fun u => if t = u then some result else s.replies u }
  | settled (i : Nat) (t : Nat) (result : Except Error (List Service))
    (hr : s.replies t = some result) :
    Trans s (.settle i) { s with hub := s.hub.step (.answer t result) }
  | took (i : Nat) (name : String) (t : Nat) (result : Except Error (List Service))
    (hc : s.callers i = .waiting name t) (ha : s.hub.answer? t = some result) :
    Trans s (.take i) (s.setCaller i (.served name (some t) result))
  | left (i : Nat) : Trans s (.leave i) (s.setCaller i .away)
  | aside (e : HubEvent) (he : Aside e) : Trans s (.other e) { s with hub := s.hub.step e }

/-- A caller that missed looks again, and joins or starts a fetch. -/
theorem step_look (hc : s.callers i = .missed name) : Trans s (.look i) (s.look i name) := by
  unfold look Hub.look
  rcases Cache.look_cases s.hub.cache s.hub.now name with
    ⟨ss, hv, he⟩ | ⟨-, t, hf, he⟩ | ⟨hv, hf, he⟩
  · rw [he]
    exact .hit _ i name ss hv
  · rw [he]
    exact .joined i name t hc hf
  · have hstep : s.hub.step (.look name) = (s.hub.look name).1 := rfl
    have ht := Trans.started i name hc hv hf
    rw [hstep, Hub.look, he] at ht
    rw [he]
    exact ht

/-- What any move does to the callers and their fetches. -/
theorem step_trans (s : SharedLookups) (m : Move) : Trans s m (s.step m) := by
  cases m with
  | arrive i name =>
    simp only [step]
    split
    · exact .arrived i name
    · exact .arrived i name
    · exact .idle _
  | peek i =>
    simp only [step]
    split
    · rename_i name hc
      split
      · rename_i ss hv
        exact .hit _ i name ss hv
      · rename_i hv
        exact .missed i name hc hv
    · exact .idle _
  | look i =>
    simp only [step]
    split
    · rename_i name hc
      exact step_look hc
    · exact .idle _
  | call i =>
    simp only [step]
    split
    · rename_i name t hc
      split
      · exact .idle _
      · rename_i ht
        exact .called i name t hc ht
    · exact .idle _
  | reply i result =>
    simp only [step]
    split
    · rename_i name t hc
      split
      · rename_i ht
        exact .replied i t result ht.1 (Option.isNone_iff_eq_none.1 ht.2)
      · exact .idle _
    · exact .idle _
  | settle i =>
    simp only [step]
    split
    · split
      · rename_i result hr
        exact .settled i _ result hr
      · exact .idle _
    · exact .idle _
  | take i =>
    simp only [step]
    split
    · rename_i name t hc
      split
      · rename_i result ha
        exact .took i name t result hc ha
      · exact .idle _
    · exact .idle _
  | leave i => exact .left i
  | other e =>
    simp only [step]
    split
    · exact .idle _
    · exact .idle _
    · rename_i hl ha
      refine .aside _ ?_
      cases e <;> first | trivial | exact absurd rfl (hl _) | exact absurd rfl (ha _ _)

/-- What shared lookups keep: a fetch that was answered had been called for, and callers hang on
fetches that are there. -/
structure Sound (s : SharedLookups) : Prop where
  booked : s.hub.Booked
  once : s.calls.Nodup
  asked : ∀ t, s.replies t ≠ none → t ∈ s.calls
  replied : ∀ t r, s.hub.answer? t = some r → s.replies t ≠ none
  waiting : ∀ i name t, s.callers i = .waiting name t → ∃ f, s.hub.fetch? t = some f ∧ f.name = name
  served : ∀ i name t r, s.callers i = .served name (some t) r → s.hub.answer? t = some r

theorem sound_new (ttl : Duration) : (new ttl).Sound where
  booked := Hub.booked_new ttl
  once := .nil
  asked _ h := absurd rfl h
  replied _ _ h := nomatch h
  waiting _ _ _ h := nomatch h
  served _ _ _ _ h := nomatch h

theorem callers_setCaller {c : Caller} :
    (s.setCaller i c).callers j = if i = j then c else s.callers j := rfl

/-- A caller that moves on keeps hanging on fetches that are there. -/
theorem Sound.setCaller {c : Caller} (hs : s.Sound)
    (hw : ∀ name t, c = .waiting name t → ∃ f, s.hub.fetch? t = some f ∧ f.name = name)
    (hv : ∀ name t r, c = .served name (some t) r → s.hub.answer? t = some r) :
    (s.setCaller i c).Sound where
  booked := hs.booked
  once := hs.once
  asked := hs.asked
  replied := hs.replied
  waiting j name t hj := by
    rw [callers_setCaller] at hj
    split at hj
    · exact hw name t hj
    · exact hs.waiting j name t hj
  served j name t r hj := by
    rw [callers_setCaller] at hj
    split at hj
    · exact hv name t r hj
    · exact hs.served j name t r hj

theorem Sound.hub (hs : s.Sound) (ht : Hub.Trans s.hub e h')
    (ha : ∀ t r, e = .answer t r → s.replies t ≠ none) :
    Sound { s with hub := h' } where
  booked := hs.booked.step ht
  once := hs.once
  asked := hs.asked
  replied t r hr := by
    rcases ht.answer?_inv hs.booked hr with hr | ⟨x, he⟩
    · exact hs.replied t r hr
    · exact ha t x he
  waiting i name t hi := by
    obtain ⟨f, hf, hn⟩ := hs.waiting i name t hi
    obtain ⟨g, hg, hgn, -⟩ := ht.fetch? hf
    exact ⟨g, hg, hgn.trans hn⟩
  served i name t r hi := ht.answer? (hs.served i name t r hi)

/-- A fetch that was just started is there to wait for. -/
theorem fetch?_look (hb : h.Booked) (hv : h.cache.valid? h.now name = none)
    (hf : h.cache.inFlight.get? name = none) :
    (h.step (.look name)).fetch? h.cache.nextTicket = some ⟨h.cache.nextTicket, name, none⟩ := by
  have hlook : h.cache.look h.now name = ({ h.cache with
      inFlight := h.cache.inFlight.insert name h.cache.nextTicket
      nextTicket := h.cache.nextTicket + 1 }, .start h.cache.nextTicket) := by
    simp [Cache.look, hv, hf]
  have hstep : h.step (.look name) = (h.look name).1 := rfl
  rw [hstep, Hub.look, hlook]
  dsimp only
  rw [Hub.fetch?_start hb.fresh, if_pos rfl]

theorem Sound.step (hs : s.Sound) (ht : Trans s m s') : s'.Sound := by
  cases ht with
  | idle => exact hs
  | arrived i name => exact hs.setCaller nofun nofun
  | hit m i name ss hv => exact hs.setCaller nofun nofun
  | missed i name hc hv => exact hs.setCaller nofun nofun
  | left i => exact hs.setCaller nofun nofun
  | joined i name t hc hf =>
    refine hs.setCaller ?_ nofun
    intro n u hu
    cases hu
    obtain ⟨f, hfetch, hn, -⟩ := (hs.booked.inFlight name t).1 hf
    exact ⟨f, hfetch, hn⟩
  | started i name hc hv hf =>
    refine (hs.hub (Hub.step_trans s.hub (.look name)) nofun).setCaller ?_ nofun
    intro n u hu
    cases hu
    exact ⟨_, fetch?_look hs.booked hv hf, rfl⟩
  | called i name t hc ht =>
    -- The fetch had not been called for yet, so each is still called for once.
    have honce : (s.calls ++ [t]).Nodup := by
      refine List.nodup_append.2 ⟨hs.once, by simp, ?_⟩
      intro a ha b hb he
      rw [List.mem_singleton.1 hb] at he
      exact ht (he ▸ ha)
    have hasked : ∀ u, s.replies u ≠ none → u ∈ s.calls ++ [t] := by
      intro u hu
      exact List.mem_append_left _ (hs.asked u hu)
    exact ⟨hs.booked, honce, hasked, hs.replied, hs.waiting, hs.served⟩
  | replied i t result hmem hn =>
    refine ⟨hs.booked, hs.once, ?_, ?_, hs.waiting, hs.served⟩
    · intro u hu
      by_cases htu : t = u
      · exact htu ▸ hmem
      · exact hs.asked u (by simpa [htu] using hu)
    · intro u r hu
      dsimp only
      split
      · exact nofun
      · exact hs.replied u r hu
  | settled i t result hr =>
    refine hs.hub (Hub.step_trans s.hub (.answer t result)) ?_
    intro u r hu
    cases hu
    rw [hr]
    exact nofun
  | took i name t result hc ha =>
    refine hs.setCaller nofun ?_
    intro n u r hu
    cases hu
    exact ha
  | aside e he =>
    refine hs.hub (Hub.step_trans s.hub e) ?_
    intro t r h
    rw [h] at he
    exact he.elim

theorem Sound.run (hs : s.Sound) (ms : List Move) : (s.run ms).Sound := by
  induction ms generalizing s with
  | nil => exact hs
  | cons m ms ih => exact ih (hs.step (step_trans s m))

theorem answer?_step (ht : Trans s m s') (ha : s.hub.answer? t = some r) :
    s'.hub.answer? t = some r := by
  cases ht with
  | started i name hc hv hf => exact (Hub.step_trans s.hub (.look name)).answer? ha
  | settled i t result hr => exact (Hub.step_trans s.hub (.answer t result)).answer? ha
  | aside e he => exact (Hub.step_trans s.hub e).answer? ha
  | idle | arrived | hit | missed | joined | called | replied | took | left => exact ha

theorem answer?_run (ms : List Move) (ha : s.hub.answer? t = some r) :
    (s.run ms).hub.answer? t = some r := by
  induction ms generalizing s with
  | nil => exact ha
  | cons m ms ih => exact ih (answer?_step (step_trans s m) ha)

/-- Nobody comes to hang on a fetch that has been answered. -/
theorem ticket?_step (hs : s.Sound) (ht : Trans s m s') (ha : s.hub.answer? t = some r)
    (hi : (s.callers i).ticket? ≠ some t) : (s'.callers i).ticket? ≠ some t := by
  obtain ⟨f, hf, hr⟩ := Hub.answer?_eq_some_iff.1 ha
  have set {c : Caller} {j : Nat} {h : Hub} (hc : c.ticket? ≠ some t) :
      (({ s with hub := h }.setCaller j c).callers i).ticket? ≠ some t := by
    rw [callers_setCaller]
    split
    · exact hc
    · exact hi
  cases ht with
  | idle | called | replied | settled | aside => exact hi
  | arrived | hit | missed | left => exact set nofun
  | joined j name u hc hu =>
    refine set ?_
    intro he
    cases he
    obtain ⟨g, hg, -, hga⟩ := (hs.booked.inFlight name t).1 hu
    rw [hf] at hg
    cases hg
    rw [hr] at hga
    cases hga
  | started j name hc hv hn =>
    refine set ?_
    intro he
    cases he
    exact absurd (hs.booked.known _ f hf) (Nat.lt_irrefl _)
  | took j name u result hc hu =>
    rw [callers_setCaller]
    split
    · rename_i hj
      rw [← hj, hc] at hi
      exact hi
    · exact hi

/-- Who comes after the answer is not served by that fetch. -/
theorem ticket?_run (hs : s.Sound) (ms : List Move) (ha : s.hub.answer? t = some r)
    (hi : (s.callers i).ticket? ≠ some t) : ((s.run ms).callers i).ticket? ≠ some t := by
  induction ms generalizing s with
  | nil => exact hi
  | cons m ms ih =>
    have ht := step_trans s m
    exact ih (hs.step ht) (answer?_step ht ha) (ticket?_step hs ht ha hi)

theorem length_le_one {ts : List Nat} (hn : ts.Nodup) (h : ∀ t ∈ ts, ∀ u ∈ ts, t = u) :
    ts.length ≤ 1 := by
  match ts with
  | [] | [_] => simp
  | t :: u :: ts =>
    have htu := h t List.mem_cons_self u (List.mem_cons_of_mem _ List.mem_cons_self)
    exact absurd (htu ▸ List.mem_cons_self) (List.nodup_cons.1 hn).1

/-- A name has one open call at most, since it has one fetch in flight. -/
theorem Sound.openCalls (hs : s.Sound) (name : String) : (s.openCalls name).length ≤ 1 := by
  have hopen {t : Nat} (ht : t ∈ s.openCalls name) :
      ∃ f, s.hub.fetch? t = some f ∧ f.name = name ∧ f.answer = none := by
    have hp := (List.mem_filter.1 ht).2
    simp only [Bool.and_eq_true, Option.any_eq_true, Option.isNone_iff_eq_none] at hp
    obtain ⟨⟨f, hf, hn⟩, hr⟩ := hp
    refine ⟨f, hf, by simpa using hn, ?_⟩
    cases ha : f.answer with
    | none => rfl
    | some r => exact absurd hr (hs.replied t r (Hub.answer?_eq_some_iff.2 ⟨f, hf, ha⟩))
  refine length_le_one (hs.once.filter _) ?_
  intro t ht u hu
  obtain ⟨f, hf, hfn, hfa⟩ := hopen ht
  obtain ⟨g, hg, hgn, hga⟩ := hopen hu
  exact hs.booked.one hf hg (hfn.trans hgn.symm) hfa hga

/-- A fetch begins by a caller that found neither a valid entry nor a fetch in flight. -/
theorem Sound.created (hs : s.Sound) (ht : Trans s m s') (hn : s.hub.fetch? t = none)
    (hf : s'.hub.fetch? t = some f) : (∃ i, m = .look i ∧ s.callers i = .missed f.name) ∧
      s.hub.cache.valid? s.hub.now f.name = none ∧ s.hub.cache.inFlight.get? f.name = none := by
  have new {e : HubEvent} (hf : (s.hub.step e).fetch? t = some f) : e = .look f.name ∧
      s.hub.cache.valid? s.hub.now f.name = none ∧ s.hub.cache.inFlight.get? f.name = none := by
    rcases (Hub.step_trans s.hub e).fetch?_inv hs.booked hf with ⟨g, hg, -⟩ | ⟨he, -, -, hv, hi, -⟩
    · rw [hn] at hg
      cases hg
    · exact ⟨he, hv, hi⟩
  cases ht with
  | started i name hc _ _ =>
    obtain ⟨he, hv, hi⟩ := new hf
    cases he
    exact ⟨⟨i, rfl, hc⟩, hv, hi⟩
  | settled i u result hr => cases (new hf).1
  | aside e he =>
    rw [(new hf).1] at he
    exact he.elim
  | idle | arrived | hit | missed | joined | called | replied | took | left =>
    exact absurd (hn.symm.trans hf) nofun

/-- The registry is called by a caller that waits for that fetch. -/
theorem Sound.called (hs : s.Sound) (ht : Trans s m s') (hn : t ∉ s.calls) (hc : t ∈ s'.calls) :
    ∃ i name, m = .call i ∧ s.callers i = .waiting name t ∧
      s.hub.cache.inFlight.get? name = some t := by
  cases ht with
  | called i name u hw hu =>
    rcases List.mem_append.1 hc with hc | hc
    · exact absurd hc hn
    · cases List.mem_singleton.1 hc
      obtain ⟨f, hf, hfn⟩ := hs.waiting i name t hw
      refine ⟨i, name, rfl, hw, (hs.booked.inFlight name t).2 ⟨f, hf, hfn, ?_⟩⟩
      cases ha : f.answer with
      | none => rfl
      | some r =>
        have hanswer : s.hub.answer? t = some r := Hub.answer?_eq_some_iff.2 ⟨f, hf, ha⟩
        exact absurd (hs.asked t (hs.replied t r hanswer)) hn
  | idle | arrived | hit | missed | joined | started | replied | settled | took | left | aside =>
    exact absurd hc hn

/-- While an entry is valid, callers are served from it. -/
theorem step_of_valid {ss : List Service} (hv : s.hub.cache.valid? s.hub.now name = some ss) :
    (s.callers i = .entering name → s.step (.peek i) = s.setCaller i (.served name none (.ok ss))) ∧
      (s.callers i = .missed name →
        s.step (.look i) = s.setCaller i (.served name none (.ok ss))) := by
  have hlook : s.hub.cache.look s.hub.now name = (s.hub.cache, .hit ss) := by simp [Cache.look, hv]
  constructor
  · intro hc
    simp only [step, hc, hv]
  · intro hc
    simp only [step, hc, look, Hub.look, hlook]

/-- One call a name at most; a fetch for none but a name without a valid entry and a fetch in
flight; one answer for all that share a fetch, and none of it for those who come after. -/
structure SingleFlight (s : SharedLookups) : Prop where
  one : ∀ name, (s.openCalls name).length ≤ 1
  inFlight : ∀ name t, s.hub.cache.inFlight.get? name = some t ↔
    ∃ f, s.hub.fetch? t = some f ∧ f.name = name ∧ f.answer = none
  created : ∀ m t f, s.hub.fetch? t = none → (s.step m).hub.fetch? t = some f →
    (∃ i, m = .look i ∧ s.callers i = .missed f.name) ∧
      s.hub.cache.valid? s.hub.now f.name = none ∧ s.hub.cache.inFlight.get? f.name = none
  called : ∀ m t, t ∉ s.calls → t ∈ (s.step m).calls →
    ∃ i name, m = .call i ∧ s.callers i = .waiting name t ∧ s.hub.cache.inFlight.get? name = some t
  hit : ∀ i name ss, s.hub.cache.valid? s.hub.now name = some ss →
    (s.callers i = .entering name → s.step (.peek i) = s.setCaller i (.served name none (.ok ss))) ∧
      (s.callers i = .missed name → s.step (.look i) = s.setCaller i (.served name none (.ok ss)))
  shared : ∀ ms i j n m t r q, s.callers i = .served n (some t) r →
    (s.run ms).callers j = .served m (some t) q → r = q
  late : ∀ ms i t r, s.hub.answer? t = some r → (s.callers i).ticket? ≠ some t →
    ((s.run ms).callers i).ticket? ≠ some t

/-- In every run, callers for a name share its fetches. -/
theorem single_flight (ttl : Duration) (ms : List Move) : SingleFlight ((new ttl).run ms) := by
  have hs : ((new ttl).run ms).Sound := (sound_new ttl).run ms
  exact {
    one := hs.openCalls
    inFlight := hs.booked.inFlight
    created := fun m t f hn hf => hs.created (step_trans _ m) hn hf
    called := fun m t hn hc => hs.called (step_trans _ m) hn hc
    hit := fun i name ss hv => step_of_valid hv
    shared := by
      intro ns i j n m t r q hi hj
      have hr := answer?_run ns (hs.served i n t r hi)
      have hq := (hs.run ns).served j m t q hj
      exact Option.some.inj (hr.symm.trans hq)
    late := fun ns i t r ha hi => ticket?_run hs ns ha hi }

end SharedLookups
end Switchboard.Discovery
