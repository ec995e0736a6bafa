import Switchboard.Proofs.Discovery.Bookkeeping

/-! A cache that follows a name mirrors the registry whenever it has caught up. -/
namespace Switchboard.Discovery

variable {c : Catalog} {ch : Change} {b : Board} {log : List Change} {d : Reader} {a : Answer}
  {h' : Hub} {e : HubEvent} {name : String} {i j k : Nat}

/-- The changes from a place on are those up to a later place and those from there on. -/
theorem changesOf_of_le (name : String) (hij : i ≤ j) (hj : j ≤ log.length) :
    changesOf name log i =
      Watcher.wanted (some name) ((log.take j).drop i) ++ changesOf name log j := by
  have hsplit : log.drop i = (log.take j).drop i ++ log.drop j := by
    have hlen : i ≤ (log.take j).length := by
      rw [List.length_take]
      omega
    rw [← List.drop_append_of_le_length hlen, List.take_append_drop]
  rw [changesOf, hsplit, Watcher.wanted_append]
  rfl

/-- What was read at one place serves at another, unless a change between them has been taken in. -/
theorem Board.Leads.carry (hb : b.Leads c log name j) (hx : ∃ x : Board, x.Leads c log name i)
    (hi : i ≤ log.length) (hj : j ≤ log.length) (hp : ∀ ch ∈ changesOf name log i, ch.Plain)
    (hq : Watcher.wanted (some name) ((log.take i).drop j) = []) : b.Leads c log name i := by
  intro _
  rcases Nat.le_total i j with hij | hji
  · have hsplit := changesOf_of_le name hij hj
    obtain ⟨x, hx⟩ := hx
    have hx := hx hp
    rw [hsplit] at hp hx ⊢
    exact (hb fun ch hch => hp ch (List.mem_append_right _ hch)).overtake hx
  · have hsame := changesOf_of_le name hji hi
    rw [hq, List.nil_append] at hsame
    rw [← hsame] at hp ⊢
    exact hb hp

/-- What leads from a place leads, with the next change on it, from the next. -/
theorem Board.Leads.next (hb : b.Leads c log name i)
    (hc : changesOf name log i = ch :: changesOf name log j) (hp : ch.Plain) :
    (b.apply ch).Leads c log name j := by
  intro hps
  rw [← replay_cons, ← hc]
  refine hb ?_
  rw [hc]
  intro x hx
  exact (List.mem_cons.1 hx).elim (fun he => he ▸ hp) (hps x)

theorem ne_nil_of_contentsOf_eq {ss ts : List Service} (h : contentsOf ss = contentsOf ts)
    (ht : ts ≠ []) :
    ss ≠ [] := by
  rintro rfl
  obtain ⟨t, ts, rfl⟩ := List.exists_cons_of_ne_nil ht
  have hv := congrFun h t.version
  simp [contentsOf, serviceOf] at hv

namespace CachedRegistry

variable {s s' : CachedRegistry} {m : Move} {ms : List Move}

/-- The entry of a name is missing or is, as a map, what the registry answers. -/
def Mirrors (s : CachedRegistry) (name : String) : Prop :=
  ∀ e, s.hub.cache.entries.get? name = some e → IsMap e.services ∧
    ∃ ss, s.registry.lookup s.hub.now name = .ok ss ∧ contentsOf e.services = contentsOf ss

/-- A loop watches the name, in a cache that was not stopped. -/
def Subscribed (s : CachedRegistry) (name : String) (k : Nat) : Prop := s.hub.cache.stopped = false ∧
  (∃ l, s.hub.loop? k = some l ∧ l.phase = .watching ∧ l.name = name) ∧ ∃ d, s.readers k = some d

/-- The changes of the name that have not reached the cache are ones that it can follow. -/
def Queued (s : CachedRegistry) (name : String) (k : Nat) : Prop :=
  ∀ d ∈ s.readers k, ∀ ch ∈ changesOf name s.log d.place, ch.Plain

/-- The loop has read and folded in every change. -/
def CaughtUp (s : CachedRegistry) (k : Nat) : Prop :=
  ∃ d, s.readers k = some d ∧ d.hand = none ∧ d.watcher.next = s.log.length

/-- The loop is no further behind than the registry keeps its changes. -/
def KeepsUp (s : CachedRegistry) (k : Nat) : Prop :=
  ∀ d ∈ s.readers k, s.log.length ≤ d.watcher.next + Feed.capacity

/-- The moves that a cache is meant to follow: nodes are registered each once and without an end,
and an answer is stored before the loop takes in a change of the name that came after the answer. -/
def Fits (s : CachedRegistry) (name : String) (k : Nat) : Move → Prop
  | .register sv ttl => sv.name = name → sv.nodes ≠ [] ∧ (sv.nodes.map (·.id)).Nodup ∧ ttl = none
  | .store t => ∀ a ∈ s.answers, a.ticket = t → a.name = name → ∀ d ∈ s.readers k,
      Watcher.wanted (some name) ((s.log.take d.place).drop a.place) = []
  | .stop => False
  | _ => True

/-- A run of such moves in which the loop keeps up. -/
def Fair (name : String) (k : Nat) : CachedRegistry → List Move → Prop
  | s, [] => s.KeepsUp k
  | s, m :: ms => s.KeepsUp k ∧ s.Fits name k m ∧ Fair name k (s.step m) ms

instance : Decidable (s.Queued name k) :=
  inferInstanceAs (Decidable (∀ d ∈ s.readers k, ∀ ch ∈ changesOf name s.log d.place, ch.Plain))

instance : Decidable (s.KeepsUp k) :=
  inferInstanceAs (Decidable (∀ d ∈ s.readers k, s.log.length ≤ d.watcher.next + Feed.capacity))

instance : Decidable (s.Fits name k m) :=
  match m with
  | .register sv ttl =>
    inferInstanceAs (Decidable (sv.name = name → sv.nodes ≠ [] ∧ (sv.nodes.map (·.id)).Nodup ∧
      ttl = none))
  | .store t =>
    inferInstanceAs (Decidable (∀ a ∈ s.answers, a.ticket = t → a.name = name → ∀ d ∈ s.readers k,
      Watcher.wanted (some name) ((s.log.take d.place).drop a.place) = []))
  | .stop => isFalse id
  | .deregister _ | .look _ | .ask _ | .pause _ _ | .wake _ | .subscribe _ | .poll _ | .fold _
  | .notice _ | .tick _ => isTrue trivial

instance Fair.decidable : ∀ (s : CachedRegistry) (ms : List Move), Decidable (Fair name k s ms)
  | s, [] => inferInstanceAs (Decidable (s.KeepsUp k))
  | s, m :: ms =>
    have := Fair.decidable (s.step m) ms
    inferInstanceAs (Decidable (s.KeepsUp k ∧ s.Fits name k m ∧ Fair name k (s.step m) ms))

/-- The entry shows a board that is led to the records by the changes still to come. -/
structure Follows (s : CachedRegistry) (name : String) (k : Nat) : Prop where
  subscribed : s.Subscribed name k
  untimed : s.registry.catalog.Untimed name
  queued : s.Queued name k
  shows : ∀ e d, s.hub.cache.entries.get? name = some e → s.readers k = some d → e.services ≠ [] ∧
    IsMap e.services ∧ ∃ b : Board, b.Shows e.services ∧
      b.Leads s.registry.catalog s.log name d.place

/-- An entry that mirrors the registry follows it from then on. -/
theorem follows_of_mirrors (hs : s.Sound) (hsub : s.Subscribed name k)
    (hu : s.registry.catalog.Untimed name) (hq : s.Queued name k) (hm : s.Mirrors name) :
    s.Follows name k := by
  refine ⟨hsub, hu, hq, ?_⟩
  intro e d he hd
  obtain ⟨hmap, ss, hss, hc⟩ := hm e he
  obtain ⟨rfl, hne⟩ := Catalog.lookup_eq_ok_iff.1 hss
  obtain ⟨-, hd', -⟩ := hs.readers k d hd
  obtain ⟨b, hb, hr⟩ := Board.exists_shows hs.kept.catalog s.hub.now name
  obtain ⟨x, hx⟩ := hs.kept.traced name d.place (Nat.le_trans d.place_le_next hd'.next)
  refine ⟨ne_nil_of_contentsOf_eq hc hne, hmap, b, Board.shows_of_contentsOf_eq hb hc.symm, ?_⟩
  intro hp
  have hx := hx hp
  rw [← List.append_nil (changesOf _ _ _)] at hx ⊢
  exact Board.Records.overtake hr hx

/-- An entry that follows mirrors the registry once the loop has caught up. -/
theorem mirrors_of_follows (hs : s.Sound) (hf : s.Follows name k) (hc : s.CaughtUp k) :
    s.Mirrors name := by
  intro e he
  obtain ⟨d, hd, hh, hn⟩ := hc
  obtain ⟨hne, hmap, b, hb, hl⟩ := hf.shows e d he hd
  have hplace : d.place = s.log.length := by
    rw [Reader.place, hh]
    exact hn
  have hnil : changesOf name s.log d.place = [] := by
    rw [hplace, changesOf, List.drop_length]
    rfl
  have hr : b.Records s.registry.catalog name := by simpa [hnil] using hl (by simp [hnil])
  have hcont := Board.contentsOf_eq_of_shows hb (hr.shows hs.kept.catalog hf.untimed s.hub.now)
  refine ⟨hmap, _, Catalog.lookup_eq_ok_iff.2 ⟨rfl, ?_⟩, hcont⟩
  exact ne_nil_of_contentsOf_eq hcont.symm hne

theorem Subscribed.hub (hsub : s.Subscribed name k) (he : e ≠ .stop) (hb : ∀ er, e ≠ .broke k er) :
    Subscribed { s with hub := s.hub.step e } name k := by
  obtain ⟨hs, ⟨l, hl, hp, hn⟩, hd⟩ := hsub
  exact ⟨((Hub.step_trans s.hub e).stopped he).trans hs,
    ⟨l, Hub.loop?_watching hl hp hs hb, hp, hn⟩, hd⟩

theorem Follows.hub (hf : s.Follows name k) (he : e ≠ .stop) (hb : ∀ er, e ≠ .broke k er)
    (hent : (s.hub.step e).cache.entries.get? name = s.hub.cache.entries.get? name) :
    Follows { s with hub := s.hub.step e } name k where
  subscribed := hf.subscribed.hub he hb
  untimed := hf.untimed
  queued := hf.queued
  shows x d hx hd := hf.shows x d (hent ▸ hx) hd

theorem readers_setReader :
    (s.setReader j d).readers k = if j = k then some d else s.readers k := rfl

theorem Follows.setReader_of_ne (hf : s.Follows name k) (hj : j ≠ k) :
    (s.setReader j d).Follows name k := by
  have hr : (s.setReader j d).readers k = s.readers k := by rw [readers_setReader, if_neg hj]
  obtain ⟨hs, hl, q, hq⟩ := hf.subscribed
  refine ⟨⟨hs, hl, q, hr.trans hq⟩, hf.untimed, ?_, ?_⟩
  · intro x hx
    exact hf.queued x (hr.symm.trans hx)
  · intro e x he hx
    exact hf.shows e x he (hr.symm.trans hx)

/-- The loop's reader may move on over changes of other names. -/
theorem Follows.setReader {d' : Reader} (hf : s.Follows name k) (hd : s.readers k = some d)
    (hsame : changesOf name s.log d.place = changesOf name s.log d'.place) :
    (s.setReader k d').Follows name k := by
  have hr : (s.setReader k d').readers k = some d' := by rw [readers_setReader, if_pos rfl]
  obtain ⟨hs, hl, -⟩ := hf.subscribed
  refine ⟨⟨hs, hl, d', hr⟩, hf.untimed, ?_, ?_⟩
  · intro x hx
    rw [hr] at hx
    cases hx
    have hq := hf.queued d hd
    rw [hsame] at hq
    exact hq
  · intro e x he hx
    rw [hr] at hx
    cases hx
    obtain ⟨hne, hmap, b, hb, hlead⟩ := hf.shows e d he hd
    unfold Board.Leads at hlead
    rw [hsame] at hlead
    exact ⟨hne, hmap, b, hb, hlead⟩

/-- The registry may go on, for its change is one more to come. -/
theorem Follows.publish (hs : s.Sound) (hf : s.Follows name k)
    (hr : s.registry.catalog.Reports c ch) (hu : c.Untimed name)
    (hp : ch.service.name = name → ch.Plain) :
    (s.publish c ch).Follows name k where
  subscribed := hf.subscribed
  untimed := hu
  queued d hd x hx := by
    obtain ⟨-, hd', -⟩ := hs.readers k d hd
    change x ∈ changesOf name (s.log ++ [ch]) d.place at hx
    rw [changesOf_append (Nat.le_trans d.place_le_next hd'.next)] at hx
    rcases List.mem_append.1 hx with hx | hx
    · exact hf.queued d hd x hx
    · split at hx
      · rename_i hn
        exact List.mem_singleton.1 hx ▸ hp hn
      · cases hx
  shows e d he hd := by
    obtain ⟨-, hd', -⟩ := hs.readers k d hd
    obtain ⟨hne, hmap, b, hb, hl⟩ := hf.shows e d he hd
    have hplace := Nat.le_trans d.place_le_next hd'.next
    exact ⟨hne, hmap, b, hb, Board.leads_publish hr hplace hl⟩

/-- An answer that no change has overtaken may be stored. -/
theorem Follows.store (hs : s.Sound) (hf : s.Follows name k) (ha : a ∈ s.answers)
    (hfit : s.Fits name k (.store a.ticket)) :
    Follows { s with hub := s.hub.step (.answer a.ticket a.result) } name k := by
  obtain ⟨hplace, ⟨f, hfetch, hname⟩, htold⟩ := hs.answers a ha
  have hsub := hf.subscribed.hub (e := .answer a.ticket a.result) nofun nofun
  refine ⟨hsub, hf.untimed, hf.queued, ?_⟩
  intro e d he hd
  have keep (he : s.hub.cache.entries.get? name = some e) := hf.shows e d he hd
  have ht := Hub.step_trans s.hub (.answer a.ticket a.result)
  simp only at he
  generalize s.hub.step (.answer a.ticket a.result) = h at ht he
  cases ht with
  | idle => exact keep he
  | settled t g result hg hga =>
    rw [hfetch] at hg
    cases hg
    rw [Hub.entries_settle] at he
    cases hres : a.result with
    | error er =>
      rw [hres, Cache.settle_error_entries] at he
      exact keep he
    | ok ss =>
      rw [hres, Cache.settle_ok_entries, Dict.get?_insert] at he
      split at he
      · rename_i hn
        cases he
        have hn : a.name = name := hname.symm.trans hn
        subst hn
        obtain ⟨hne, hmap, b, hb, hl⟩ := htold ss hres
        obtain ⟨-, hd', -⟩ := hs.readers k d hd
        have hpl := Nat.le_trans d.place_le_next hd'.next
        -- No change of the name lies between the answer and the reader, so it leads on from either.
        have hrec := hs.kept.traced a.name d.place hpl
        have hwant := hfit a ha rfl rfl d hd
        exact ⟨hne, hmap, b, hb, hl.carry hrec hpl hplace (hf.queued d hd) hwant⟩
      · exact keep he
  | moved _ _ _ _ _ hloop => cases hloop
  | ended _ _ _ _ hloop => cases hloop

/-- A change that is folded in is one less to come. -/
theorem Follows.fold (hs : s.Sound) (hf : s.Follows name k) (hd : s.readers k = some d)
    (hh : d.hand = some ch) :
    ({ s with hub := s.hub.step (.received k ch) }.setReader k
      { watcher := d.watcher }).Follows name k := by
  obtain ⟨hstop, ⟨l, hl, hp, rfl⟩, -⟩ := hf.subscribed
  obtain ⟨-, hd', hserv⟩ := hs.readers k d hd
  obtain ⟨-, hwant, hlog⟩ := hd'.hand ch hh
  have hn : ch.service.name = l.name := by
    rw [hserv l hl] at hwant
    exact (beq_iff_eq.1 hwant).symm
  -- The change in hand is the first of those still to come.
  have hchanges : changesOf l.name s.log d.place = ch :: changesOf l.name s.log d.watcher.next := by
    unfold changesOf
    rw [hlog, Watcher.wanted_cons, ← hserv l hl, if_pos hwant]
  have hq := hf.queued d hd
  rw [hchanges] at hq
  have hplain := hq ch List.mem_cons_self
  have hsub := hf.subscribed.hub (e := .received k ch) nofun nofun
  have hstep : s.hub.step (.received k ch) =
    { s.hub with cache := s.hub.cache.receive s.hub.now ch } := by
    simp [Hub.step, hl, hp]
  refine ⟨⟨hsub.1, hsub.2.1, _, if_pos rfl⟩, hf.untimed, ?_, ?_⟩
  · intro x hx
    rw [readers_setReader, if_pos rfl] at hx
    cases hx
    intro y hy
    exact hq y (List.mem_cons_of_mem _ hy)
  · intro e' x he' hx
    rw [readers_setReader, if_pos rfl] at hx
    cases hx
    change (s.hub.step (.received k ch)).cache.entries.get? l.name = some e' at he'
    rw [hstep] at he'
    simp only [Cache.receive, ← hn] at he'
    cases he : s.hub.cache.entries.get? ch.service.name with
    | none =>
      rw [Cache.fold_get?_none (c := { s.hub.cache with status := none }) he] at he'
      cases he.symm.trans he'
    | some e =>
      obtain ⟨hne, hmap, b, hb, hlead⟩ := hf.shows e d (hn ▸ he) hd
      have hw : s.hub.cache.watched.contains ch.service.name = true := by
        rw [hn]
        exact List.contains_iff_mem.2 (hs.tidy.watched k l hl)
      obtain ⟨hmap', hb'⟩ :=
        Cache.fold_shows (c := { s.hub.cache with status := none }) hw rfl he hmap hb hplain he'
      have hne' := Cache.fold_ne_nil (c := { s.hub.cache with status := none }) he hne rfl he'
      exact ⟨hne', hmap', b.apply ch, hb', hlead.next hchanges hplain⟩

/-- A change that another loop reads is not one of this name. -/
theorem Follows.fold_of_ne (hs : s.Sound) (hf : s.Follows name k) (hj : j ≠ k)
    (hd : s.readers j = some d) (hh : d.hand = some ch) :
    ({ s with hub := s.hub.step (.received j ch) }.setReader j
      { watcher := d.watcher }).Follows name k := by
  refine (hf.hub (e := .received j ch) nofun nofun ?_).setReader_of_ne hj
  obtain ⟨-, ⟨l, hl, -, hn⟩, -⟩ := hf.subscribed
  obtain ⟨-, hd', hserv⟩ := hs.readers j d hd
  obtain ⟨-, hwant, -⟩ := hd'.hand ch hh
  have ht := Hub.step_trans s.hub (.received j ch)
  generalize s.hub.step (.received j ch) = h at ht ⊢
  cases ht with
  | idle => rfl
  | received _ q _ hq hp =>
    refine Cache.receive_get?_of_ne fun hne => hj ?_
    rw [hserv q hq] at hwant
    have hqn : q.name = ch.service.name := beq_iff_eq.1 hwant
    exact hs.tidy.alone j k q l hq hl (hqn.trans (hne.trans hn.symm))
  | moved _ _ _ _ _ hloop => cases hloop
  | ended _ _ _ _ hloop => cases hloop

/-- A change that the loop reads is in its hand. -/
theorem Follows.found {w : Watcher} (hs : s.Sound) (hf : s.Follows name k) (hu : s.KeepsUp k)
    (hd : s.readers k = some d) (hh : d.hand = none)
    (hw : d.watcher.poll s.registry.feed = (w, .change ch)) :
    (s.setReader k { watcher := w, hand := some ch }).Follows name k := by
  obtain ⟨-, ⟨l, hl, -, rfl⟩, -⟩ := hf.subscribed
  obtain ⟨-, hd', hserv⟩ := hs.readers k d hd
  have hstart : d.watcher.start s.registry.feed = d.watcher.next :=
    Watcher.start_eq hs.kept.feed (hs.kept.tails.length ▸ hu d hd)
  obtain ⟨before, hlog, hb, hc, -⟩ := Watcher.poll_change hd'.running hs.kept.tails hw
  obtain ⟨-, -, hlog'⟩ := (hd'.found hs.kept.tails hw).hand ch rfl
  rw [hserv l hl] at hb
  rw [hstart] at hlog
  have hplace : d.place = d.watcher.next := by rw [Reader.place, hh]
  refine hf.setReader hd ?_
  rw [changesOf, changesOf, hplace, hlog, hlog', Watcher.wanted_append, hb, List.nil_append]

/-- A loop that finds nothing has passed nothing that it wanted. -/
theorem Follows.waited {w : Watcher} (hs : s.Sound) (hf : s.Follows name k) (hu : s.KeepsUp k)
    (hd : s.readers k = some d) (hh : d.hand = none)
    (hw : d.watcher.poll s.registry.feed = (w, .pending)) :
    (s.setReader k { watcher := w }).Follows name k := by
  obtain ⟨-, ⟨l, hl, -, rfl⟩, -⟩ := hf.subscribed
  obtain ⟨-, hd', hserv⟩ := hs.readers k d hd
  have hstart : d.watcher.start s.registry.feed = d.watcher.next :=
    Watcher.start_eq hs.kept.feed (hs.kept.tails.length ▸ hu d hd)
  obtain ⟨rfl, hnone⟩ := Watcher.poll_pending hd'.running hs.kept.tails hd'.next hw
  rw [hserv l hl, hstart] at hnone
  have hplace : d.place = d.watcher.next := by rw [Reader.place, hh]
  refine hf.setReader hd ?_
  rw [changesOf, changesOf, hplace, hnone]
  simp [Reader.place, Watcher.wanted]

theorem Follows.register {sv : Service} {ttl : Option Duration} (hs : s.Sound)
    (hf : s.Follows name k) (hfit : s.Fits name k (.register sv ttl))
    (h : s.registry.catalog.register s.hub.now sv ttl = .ok (c, ch)) :
    (s.publish c ch).Follows name k := by
  have hr := Catalog.reports_register hs.kept.catalog h
  obtain ⟨-, hch, -⟩ := Catalog.register_inv h
  have hserv : ch.service = sv := by rw [hch, Catalog.newsOf]
  refine hf.publish hs hr ?_ ?_
  · by_cases hn : sv.name = name
    · obtain ⟨-, -, rfl⟩ := hfit hn
      subst hn
      exact Catalog.untimed_register hf.untimed h
    · exact hf.untimed.congr fun v => hr.others name v (hserv ▸ hn)
  · intro hn
    obtain ⟨hne, hids, -⟩ := hfit (hserv ▸ hn)
    rw [Change.Plain, hserv]
    intro _
    exact ⟨hne, hids⟩

theorem Follows.step (hs : s.Sound) (hf : s.Follows name k) (hu : s.KeepsUp k)
    (hfit : s.Fits name k m) :
    (s.step m).Follows name k := by
  have ht := step_trans s m
  generalize s.step m = s' at ht ⊢
  cases ht with
  | idle => exact hf
  | registered sv ttl c ch h => exact hf.register hs hfit h
  | deregistered sv vs h =>
    refine hf.publish hs (Catalog.reports_deregister hs.kept.catalog h)
      (Catalog.untimed_deregister hf.untimed) ?_
    intro _ hk
    exact absurd rfl hk
  | quiet m e he hstop =>
    have hne : e ≠ .stop := by
      refine hstop ?_
      rintro rfl
      exact hfit
    have hanswer : ∀ t r, e ≠ .answer t r := by
      rintro t r rfl
      exact he
    have hreceived : ∀ j ch, e ≠ .received j ch := by
      rintro j ch rfl
      exact he
    have hbroke : ∀ er, e ≠ .broke k er := by
      rintro er rfl
      exact he
    have hent := (Hub.step_trans s.hub e).entries hanswer hreceived
    exact hf.hub hne hbroke (by rw [hent])
  | asked t f hfetch => exact ⟨hf.subscribed, hf.untimed, hf.queued, hf.shows⟩
  | stored a ha =>
    have hf' := hf.store hs ha hfit
    exact ⟨hf'.subscribed, hf'.untimed, hf'.queued, hf'.shows⟩
  | subscribed j l hl hp =>
    have hj : j ≠ k := by
      rintro rfl
      obtain ⟨-, ⟨q, hq, hqp, -⟩, -⟩ := hf.subscribed
      rw [hl] at hq
      cases hq
      rw [hp] at hqp
      cases hqp
    have hent := (Hub.step_trans s.hub (.opened j (.ok ()))).entries nofun nofun
    exact (hf.hub (e := .opened j (.ok ())) nofun nofun (by rw [hent])).setReader_of_ne hj
  | found j d w ch hd hh hw =>
    by_cases hj : j = k
    · subst hj
      exact hf.found hs hu hd hh hw
    · exact hf.setReader_of_ne hj
  | waited j d w hd hh hw =>
    by_cases hj : j = k
    · subst hj
      exact hf.waited hs hu hd hh hw
    · exact hf.setReader_of_ne hj
  | broken j d hd hh hw =>
    obtain ⟨-, hd', -⟩ := hs.readers j d hd
    exact absurd hw (Watcher.poll_ne_stopped hd'.running hs.kept.live)
  | folded j d ch hd hh =>
    by_cases hj : j = k
    · subst hj
      exact hf.fold hs hd hh
    · exact hf.fold_of_ne hs hj hd hh

theorem Follows.run (hs : s.Sound) (hf : s.Follows name k) (hm : Fair name k s ms) :
    (s.run ms).Follows name k := by
  induction ms generalizing s with
  | nil => exact hf
  | cons m ms ih =>
    obtain ⟨hu, hfit, hm⟩ := hm
    exact ih (hs.step (step_trans s m)) (hf.step hs hu hfit) hm

/-- From a moment on at which the entry mirrors the registry, no node of the name has an end and the
queued changes can be followed, the entry mirrors it whenever the loop has caught up, whatever was
registered, taken back, looked up and fetched, and however the moves fell. -/
theorem mirrors_run (hr : s.Reachable) (hsub : s.Subscribed name k)
    (hu : s.registry.catalog.Untimed name) (hq : s.Queued name k) (hm : s.Mirrors name)
    (hf : Fair name k s ms) (hc : (s.run ms).CaughtUp k) :
    (s.run ms).Mirrors name :=
  have hfollows := follows_of_mirrors hr.sound hsub hu hq hm
  mirrors_of_follows (hr.sound.run ms) (hfollows.run hr.sound hf) hc

/-- A version of a service with one node. -/
def lone (id : String) : Service := { name := "a", version := "1", nodes := [⟨id, id, .empty⟩] }

def opening : List Move :=
  [.register (lone "n") none, .look "a", .ask 0, .store 0, .pause 0 0, .subscribe 0]

/-- A fetch that overtakes a change with the outcome of it, while a later change is still to come.
-/
def overtaking : List Move :=
  [.register (lone "m") none, .tick 1, .look "a", .ask 1, .deregister (lone "n"), .store 1,
    .poll 0, .fold 0, .poll 0, .fold 0]

theorem mirrors_run_overtaking : (((new 1).run opening).run overtaking).Mirrors "a" := by
  have hsub : ((new 1).run opening).Subscribed "a" 0 := ⟨rfl, ⟨_, rfl, rfl, rfl⟩, _, rfl⟩
  have hu : ((new 1).run opening).registry.catalog.Untimed "a" :=
    Catalog.untimed_register (c := .empty) (s := lone "n") (fun _ _ h => nomatch h) rfl
  have hm : ((new 1).run opening).Mirrors "a" := by
    intro e he
    cases he
    exact ⟨⟨by decide, by decide⟩, _, rfl, rfl⟩
  have hc : (((new 1).run opening).run overtaking).CaughtUp 0 := ⟨_, rfl, rfl, rfl⟩
  exact mirrors_run ⟨1, opening, rfl⟩ hsub hu (by decide +kernel) hm (by decide +kernel) hc

/-- A run to where the loop has caught up, from where the entry mirrored the registry, which it does
no longer. -/
def Strays (s : CachedRegistry) (name : String) (k : Nat) (ms : List Move) : Prop :=
  s.Reachable ∧ s.Subscribed name k ∧ s.Mirrors name ∧ Fair name k s ms ∧
    (s.run ms).CaughtUp k ∧ ¬ (s.run ms).Mirrors name

/-- Two nodes with an end, of which one is over when the other is fetched. -/
def lapsing : List Move :=
  [.register (lone "m") (some 1), .register (lone "n") (some 3), .tick 2, .look "a", .ask 0,
    .store 0, .pause 0 0, .subscribe 0]

/-- A service that names one node twice. -/
def double : Service :=
  { name := "a", version := "1", nodes := [⟨"m", "x", .empty⟩, ⟨"m", "y", .empty⟩] }

/-- A fetch that overtakes news of such a service. -/
def doubling : List Move :=
  opening ++ [.register double none, .tick 1, .look "a", .ask 1, .store 1]

/-- Neither condition on what was registered before can be dropped. -/
theorem strays_lapsing_and_doubling :
    (((new 9).run lapsing).Strays "a" 0 [.tick 2] ∧ ((new 9).run lapsing).Queued "a" 0) ∧
      ((new 1).run doubling).Strays "a" 0 [.poll 0, .fold 0] ∧
      ((new 1).run doubling).registry.catalog.Untimed "a" := by
  have hempty : Catalog.empty.Untimed "a" := fun _ _ h => nomatch h
  refine ⟨⟨?_, ?_⟩, ?_, ?_⟩
  · have hsub : ((new 9).run lapsing).Subscribed "a" 0 := ⟨rfl, ⟨_, rfl, rfl, rfl⟩, _, rfl⟩
    refine ⟨⟨9, lapsing, rfl⟩, hsub, ?_, by decide +kernel, ⟨_, rfl, rfl, rfl⟩, ?_⟩
    · intro e he
      cases he
      exact ⟨⟨by decide, by decide⟩, _, rfl, rfl⟩
    · intro hm
      obtain ⟨-, ss, hss, -⟩ := hm _ rfl
      cases hss
  · decide +kernel
  · have hsub : ((new 1).run doubling).Subscribed "a" 0 := ⟨rfl, ⟨_, rfl, rfl, rfl⟩, _, rfl⟩
    refine ⟨⟨1, doubling, rfl⟩, hsub, ?_, by decide +kernel, ⟨_, rfl, rfl, rfl⟩, ?_⟩
    · intro e he
      cases he
      exact ⟨⟨by decide, by decide⟩, _, rfl, rfl⟩
    · intro hm
      obtain ⟨⟨-, hids⟩, -⟩ := hm _ rfl
      revert hids
      decide
  · have hu : ((new 1).run opening).registry.catalog.Untimed "a" :=
      Catalog.untimed_register (c := .empty) (s := lone "n") hempty rfl
    exact Catalog.untimed_register (s := double) hu rfl

end CachedRegistry
end Switchboard.Discovery
