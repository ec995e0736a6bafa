import Mathlib.Data.List.Induction
import Switchboard.Proofs.Client.ResponseCache
import Switchboard.Proofs.Runs

/-! A cache of responses over its history: what it holds, in which order, and what makes room. -/
namespace Switchboard.Client

open Rpc (Request Response)

/-- What is done with a cache of responses, and time that passes. -/
inductive Use
  | set (a : Request) (r : Response) (ttl : Duration)
  | get (a : Request)
  | list
  | wait (d : Duration)

structure TimedResponseCache where
  cache : ResponseCache
  now : Instant

namespace TimedResponseCache

variable {s s' s₀ : TimedResponseCache} {u : Use} {us : List Use} {P Q : Request → Prop}
  {a b : Request}
  {r : Response} {ends : Instant} {key k : String} {e : CachedResponse} {i j cap : Nat}

def new (capacity : Nat) (now : Instant) : TimedResponseCache := ⟨.new capacity, now⟩

/-- What a lookup gives now. -/
def got (s : TimedResponseCache) (a : Request) : Option Response := (s.cache.get s.now a).2

def step (s : TimedResponseCache) : Use → TimedResponseCache
  | .set a r ttl => { s with cache := s.cache.set s.now a r ttl }
  | .get a => { s with cache := (s.cache.get s.now a).1 }
  | .list => s
  | .wait d => { s with now := s.now + d }

def run (s : TimedResponseCache) (us : List Use) : TimedResponseCache := us.foldl step s

/-! Notions of a history. `P` says which requests are meant. -/

/-- A response is set that lasts until `ends`. -/
inductive Sets (P : Request → Prop) (r : Response) (ends : Instant) (s : TimedResponseCache) :
    Use → Prop
  | mk (a : Request) (ttl : Duration) (ha : P a) (he : ends = s.now + ttl) :
    Sets P r ends s (.set a r ttl)

/-- Something is set, or got with a hit. -/
inductive Touches (P : Request → Prop) (s : TimedResponseCache) : Use → Prop
  | set (a : Request) (r : Response) (ttl : Duration) (ha : P a) : Touches P s (.set a r ttl)
  | hit (a : Request) (ha : P a) (hr : s.got a ≠ none) : Touches P s (.get a)

def LatestSet (P : Request → Prop) (r : Response) (ends : Instant) (s₀ : TimedResponseCache)
    (us : List Use) (i : Nat) : Prop :=
  Runs.At step (Sets P r ends) s₀ us i ∧
    ∀ j, i < j → ∀ r' ends', ¬ Runs.At step (Sets P r' ends') s₀ us j

def LastTouch (P : Request → Prop) (s₀ : TimedResponseCache) (us : List Use) (i : Nat) : Prop :=
  Runs.Last step (Touches P) s₀ us i

/-- The one was touched after the other was for the last time. -/
def Later (s₀ : TimedResponseCache) (us : List Use) (P Q : Request → Prop) : Prop :=
  Runs.Later step (Touches P) (Touches Q) s₀ us

def Keyed (key : String) (a : Request) : Prop := a.fingerprint = key

theorem Sets.touches (h : Sets P r ends s u) : Touches P s u := by
  cases h with
  | mk a ttl ha _ => exact .set a r ttl ha

theorem run_snoc : s₀.run (us ++ [u]) = (s₀.run us).step u := by
  rw [run, List.foldl_append]
  rfl

theorem touches_set_iff {ttl : Duration} : Touches P s (.set a r ttl) ↔ P a :=
  ⟨fun | .set _ _ _ ha => ha, .set a r ttl⟩

theorem touches_get_iff (hr : s.got a ≠ none) : Touches P s (.get a) ↔ P a :=
  ⟨fun | .hit _ ha _ => ha, fun ha => .hit a ha hr⟩

theorem LatestSet.keep (h : LatestSet P r ends s₀ us i)
    (hu : ∀ r' ends', ¬ Sets P r' ends' (s₀.run us) u) : LatestSet P r ends s₀ (us ++ [u]) i := by
  refine ⟨Runs.at_snoc.2 (.inl h.1), ?_⟩
  intro j hj r' ends' hset
  rcases Runs.at_snoc.1 hset with hset | ⟨-, hset⟩
  · exact h.2 j hj r' ends' hset
  · exact hu r' ends' hset

theorem LatestSet.snoc (h : LatestSet P r ends s₀ us i) (hu : ¬ Touches P (s₀.run us) u) :
    LatestSet P r ends s₀ (us ++ [u]) i := h.keep fun _ _ hset => hu hset.touches

theorem latestSet_snoc (h : Sets P r ends (s₀.run us) u) :
    LatestSet P r ends s₀ (us ++ [u]) us.length := by
  refine ⟨Runs.at_snoc.2 (.inr ⟨rfl, h⟩), ?_⟩
  intro j hj r' ends' hset
  have hlt := hset.lt
  rw [List.length_append, List.length_singleton] at hlt
  omega

/-! What a use does. -/

/-- All that a use can do to the entries, with what it touches. -/
inductive Goes (s : TimedResponseCache) : Use → TimedResponseCache → Prop
  | rests (u : Use) (d : Duration) (ht : ∀ P, ¬ Touches P s u) :
    Goes s u { s with now := s.now + d }
  | drops (a : Request) (e : CachedResponse) (he : s.cache.entry? a.fingerprint = some e)
    (hx : e.expires ≤ s.now) (ht : ∀ P, ¬ Touches P s (.get a)) :
    Goes s (.get a)
      { s with cache := { s.cache with entries := s.cache.without a.fingerprint } }
  | hits (a : Request) (e : CachedResponse) (he : s.cache.entry? a.fingerprint = some e)
    (hx : s.now < e.expires) (hr : s.got a = some e.response) :
    Goes s (.get a)
      { s with cache := { s.cache with entries := e :: s.cache.without a.fingerprint } }
  | stores (a : Request) (r : Response) (ttl : Duration) :
    Goes s (.set a r ttl) { s with cache := s.cache.set s.now a r ttl }

theorem not_touches_get (h : s.got a = none) : ∀ P, ¬ Touches P s (.get a) := by
  rintro P ⟨⟩
  contradiction

/-- All that a use can do to the cache. -/
theorem step_goes (s : TimedResponseCache) (u : Use) : Goes s u (s.step u) := by
  cases u with
  | set a r ttl => exact .stores a r ttl
  | list => exact .rests .list 0 nofun
  | wait d => exact .rests (.wait d) d nofun
  | get a =>
    rw [step]
    rcases s.cache.get_cases s.now a with ⟨-, hg⟩ | ⟨e, he, hx, hg⟩ | ⟨e, he, hx, hg⟩
    · rw [hg]
      exact .rests (.get a) 0 (not_touches_get (by rw [got, hg]))
    · rw [hg]
      exact .drops a e he hx (not_touches_get (by rw [got, hg]))
    · rw [hg]
      exact .hits a e he hx (by rw [got, hg])

theorem Goes.now (h : Goes s u s') : s.now ≤ s'.now := by
  cases h with
  | rests _ d => exact Nat.le_add_right s.now d
  | drops => exact Nat.le_refl s.now
  | hits => exact Nat.le_refl s.now
  | stores => exact Nat.le_refl s.now

/-! What the entries are for keys. -/

/-- Entries with the latest response of their keys, in the order in which these were touched. -/
structure Ranked (s₀ : TimedResponseCache) (us : List Use) (es : List CachedResponse) : Prop where
  latest : ∀ e ∈ es, ∃ i, LatestSet (Keyed e.key) e.response e.expires s₀ us i
  order : es.Pairwise fun e f => Later s₀ us (Keyed e.key) (Keyed f.key)

variable {es es' : List CachedResponse} {f : CachedResponse}

theorem LatestSet.touched (h : LatestSet P r ends s₀ us i) : ∃ j, LastTouch P s₀ us j := by
  obtain ⟨u, hu, hset⟩ := h.1
  exact Runs.At.last ⟨u, hu, hset.touches⟩

theorem Later.ne (h : Later s₀ us (Keyed key) (Keyed k)) : key ≠ k := by
  rintro rfl
  exact Runs.Later.asymm h h

theorem Ranked.keys (h : Ranked s₀ us es) : (es.map (·.key)).Nodup :=
  List.pairwise_map.2 (h.order.imp Later.ne)

theorem Ranked.sublist (h : Ranked s₀ us es) (hs : es'.Sublist es) : Ranked s₀ us es' where
  latest := fun e he => h.latest e (hs.mem he)
  order := h.order.sublist hs

theorem Ranked.snoc (h : Ranked s₀ us es) (hu : ∀ e ∈ es, ¬ Touches (Keyed e.key) (s₀.run us) u) :
    Ranked s₀ (us ++ [u]) es where
  latest := by
    intro e he
    obtain ⟨i, hi⟩ := h.latest e he
    exact ⟨i, hi.snoc (hu e he)⟩
  order := Runs.pairwise_later_snoc h.order hu

/-- What is touched comes to the front. -/
theorem Ranked.cons (h : Ranked s₀ us es) (hu : ∀ f ∈ es, ¬ Touches (Keyed f.key) (s₀.run us) u)
    (he : Touches (Keyed e.key) (s₀.run us) u)
    (hi : ∃ i, LatestSet (Keyed e.key) e.response e.expires s₀ (us ++ [u]) i) :
    Ranked s₀ (us ++ [u]) (e :: es) where
  latest := List.forall_mem_cons.2 ⟨hi, (h.snoc hu).latest⟩
  order := by
    refine Runs.pairwise_later_cons h.order hu ?_ he
    intro f hf
    obtain ⟨i, hi⟩ := h.latest f hf
    exact hi.touched

/-- The response that was set last for a key has expired. -/
def Lapsed (s₀ : TimedResponseCache) (us : List Use) (key : String) : Prop :=
  ∃ r ends i, LatestSet (Keyed key) r ends s₀ us i ∧ ends ≤ (s₀.run us).now

/-- Others were touched after a place, as many as there is room for. -/
def Crowded (s₀ : TimedResponseCache) (us : List Use) (cap : Nat) (key : String) (i : Nat) : Prop :=
  ∃ ks : List String, ks.Nodup ∧ ks.length = cap ∧
    ∀ k ∈ ks, k ≠ key ∧ ∃ j, i < j ∧ Runs.At step (Touches (Keyed k)) s₀ us j

def Present (s : TimedResponseCache) (key : String) : Prop := ∃ e ∈ s.cache.entries, e.key = key

/-- What holds of a cache after any uses. -/
structure Kept (cap : Nat) (s₀ : TimedResponseCache) (us : List Use) : Prop where
  capacity : (s₀.run us).cache.capacity = cap
  bounded : (s₀.run us).cache.size ≤ cap
  ranked : Ranked s₀ us (s₀.run us).cache.entries
  lost : ∀ key i, LastTouch (Keyed key) s₀ us i →
    (s₀.run us).Present key ∨ Lapsed s₀ us key ∨ Crowded s₀ us cap key i

theorem Lapsed.snoc (h : Lapsed s₀ us key) (hu : ¬ Touches (Keyed key) (s₀.run us) u) :
    Lapsed s₀ (us ++ [u]) key := by
  obtain ⟨r, ends, i, hi, hends⟩ := h
  refine ⟨r, ends, i, hi.snoc hu, ?_⟩
  rw [run_snoc]
  exact Nat.le_trans hends (step_goes _ u).now

theorem Crowded.snoc (h : Crowded s₀ us cap key i) : Crowded s₀ (us ++ [u]) cap key i := by
  obtain ⟨ks, hnodup, hlength, hks⟩ := h
  refine ⟨ks, hnodup, hlength, ?_⟩
  intro k hk
  obtain ⟨hne, j, hj, hat⟩ := hks k hk
  exact ⟨hne, j, hj, Runs.at_snoc.2 (.inl hat)⟩

/-- A key is lost by one more use only if its entry is. -/
theorem Kept.lost_snoc (h : Kept cap s₀ us)
    (hin : ∀ key, Touches (Keyed key) (s₀.run us) u → (s₀.run (us ++ [u])).Present key)
    (hout : ∀ e ∈ (s₀.run us).cache.entries, ∀ i, LastTouch (Keyed e.key) s₀ us i →
      ¬ Touches (Keyed e.key) (s₀.run us) u → (s₀.run (us ++ [u])).Present e.key ∨
        Lapsed s₀ (us ++ [u]) e.key ∨ Crowded s₀ (us ++ [u]) cap e.key i) :
    ∀ key i, LastTouch (Keyed key) s₀ (us ++ [u]) i → (s₀.run (us ++ [u])).Present key ∨
      Lapsed s₀ (us ++ [u]) key ∨ Crowded s₀ (us ++ [u]) cap key i := by
  intro key i hi
  rcases Runs.last_snoc.1 hi with ⟨-, hu⟩ | ⟨hi, hu⟩
  · exact .inl (hin key hu)
  · rcases h.lost key i hi with ⟨e, he, rfl⟩ | hlapsed | hcrowded
    · exact hout e he i hi hu
    · exact .inr (.inl (hlapsed.snoc hu))
    · exact .inr (.inr hcrowded.snoc)

/-- Time that passes changes nothing about what is kept. -/
theorem Kept.rests (h : Kept cap s₀ us) {d : Duration}
    (hs : s₀.run (us ++ [u]) = { s₀.run us with now := (s₀.run us).now + d })
    (hu : ∀ P, ¬ Touches P (s₀.run us) u) : Kept cap s₀ (us ++ [u]) where
  capacity := by
    rw [hs]
    exact h.capacity
  bounded := by
    rw [hs]
    exact h.bounded
  ranked := by
    rw [hs]
    exact h.ranked.snoc fun e _ => hu (Keyed e.key)
  lost := by
    refine h.lost_snoc (fun key hk => absurd hk (hu (Keyed key))) ?_
    intro e he i _ _
    rw [hs]
    exact .inl ⟨e, he, rfl⟩

/-- To drop an entry that has expired leaves the others ranked. -/
theorem Kept.drops (h : Kept cap s₀ us) (he : e ∈ (s₀.run us).cache.entries)
    (hx : e.expires ≤ (s₀.run us).now) (hu : ∀ P, ¬ Touches P (s₀.run us) u)
    (hs : s₀.run (us ++ [u]) = { s₀.run us with
      cache := { (s₀.run us).cache with entries := (s₀.run us).cache.without e.key } }) :
    Kept cap s₀ (us ++ [u]) where
  capacity := by
    rw [hs]
    exact h.capacity
  bounded := by
    rw [hs]
    exact Nat.le_trans (List.length_filter_le _ _) h.bounded
  ranked := by
    rw [hs]
    exact (h.ranked.sublist List.filter_sublist).snoc fun f _ => hu (Keyed f.key)
  lost := by
    refine h.lost_snoc (fun key hk => absurd hk (hu (Keyed key))) ?_
    intro f hf i _ hfu
    by_cases hkey : f.key = e.key
    · obtain ⟨j, hj⟩ := h.ranked.latest f hf
      have hfe : f = e := List.inj_on_of_nodup_map h.ranked.keys hf he hkey
      refine .inr (.inl ⟨f.response, f.expires, j, hj.snoc hfu, ?_⟩)
      rw [hs, hfe]
      exact hx
    · rw [hs]
      exact .inl ⟨f, ResponseCache.mem_without.2 ⟨hf, hkey⟩, rfl⟩

/-- An entry comes to the front, and the last ones may go when there are as many as can be. -/
theorem Kept.fronts (h : Kept cap s₀ us) {gone : List CachedResponse}
    (hsplit : (s₀.run us).cache.without e.key = es ++ gone) (hlength : es.length < cap)
    (hgone : gone ≠ [] → es.length + 1 = cap)
    (hu : ∀ key, Touches (Keyed key) (s₀.run us) u ↔ e.key = key)
    (hi : ∃ i, LatestSet (Keyed e.key) e.response e.expires s₀ (us ++ [u]) i)
    (hs : s₀.run (us ++ [u]) = { s₀.run us with
      cache := { (s₀.run us).cache with entries := e :: es } }) :
    Kept cap s₀ (us ++ [u]) := by
  -- Without the entry that is used the others keep their order.
  have hothers : Ranked s₀ us (es ++ gone) := by
    rw [← hsplit]
    exact h.ranked.sublist List.filter_sublist
  have hranked : Ranked s₀ (us ++ [u]) (e :: es) := by
    refine (hothers.sublist (List.sublist_append_left es gone)).cons ?_ ((hu e.key).2 rfl) hi
    intro f hf hfu
    have hmem := List.mem_append_left gone hf
    rw [← hsplit] at hmem
    exact (ResponseCache.mem_without.1 hmem).2 ((hu f.key).1 hfu).symm
  refine ⟨?_, ?_, ?_, h.lost_snoc ?_ ?_⟩
  · rw [hs]
    exact h.capacity
  · rw [hs]
    exact hlength
  · rw [hs]
    exact hranked
  · intro key hk
    rw [hs]
    exact ⟨e, List.mem_cons_self, (hu key).1 hk⟩
  · intro f hf i hlast hfu
    have hne : e.key ≠ f.key := fun hk => hfu ((hu f.key).2 hk)
    have hmem := ResponseCache.mem_without.2 ⟨hf, hne.symm⟩
    rw [hsplit] at hmem
    rcases List.mem_append.1 hmem with hmem | hmem
    · rw [hs]
      exact .inl ⟨f, List.mem_cons_of_mem e hmem, rfl⟩
    · -- all that stays before it was touched after it, and what comes to the front is touched now
      refine .inr (.inr ⟨(e :: es).map (·.key), hranked.keys, ?_, ?_⟩)
      · rw [List.length_map, List.length_cons, hgone (List.ne_nil_of_mem hmem)]
      · intro k hk
        rcases List.mem_map.1 hk with ⟨x, hx, rfl⟩
        rcases List.mem_cons.1 hx with rfl | hx
        · exact ⟨hne, us.length, Runs.Last.lt hlast,
            Runs.at_snoc.2 (.inr ⟨rfl, (hu x.key).2 rfl⟩)⟩
        · have hlater := (List.pairwise_append.1 hothers.order).2.2 x hx f hmem
          obtain ⟨j, l, hj, hl, hlt⟩ := id hlater
          obtain rfl := Runs.Last.unique hl hlast
          exact ⟨hlater.ne, j, hlt, Runs.at_snoc.2 (.inl hj.1)⟩

/-- No use breaks the order of the entries, or loses one for another reason than room or age. -/
theorem Kept.snoc (h : Kept cap s₀ us) (hcap : 0 < cap) (u : Use) : Kept cap s₀ (us ++ [u]) := by
  have hgoes := step_goes (s₀.run us) u
  rw [← run_snoc] at hgoes
  generalize hs : s₀.run (us ++ [u]) = s' at hgoes
  cases hgoes with
  | rests _ d hu => exact h.rests hs hu
  | drops a e he hx hu =>
    obtain ⟨hmem, hkey⟩ := (ResponseCache.entry?_eq_some_iff h.ranked.keys).1 he
    rw [← hkey] at hs
    exact h.drops hmem hx hu hs
  | hits a e he hx hr =>
    obtain ⟨hmem, hkey⟩ := (ResponseCache.entry?_eq_some_iff h.ranked.keys).1 he
    rw [← hkey] at hs
    have hlength := Nat.lt_of_lt_of_le (ResponseCache.length_without hmem) h.bounded
    obtain ⟨i, hi⟩ := h.ranked.latest e hmem
    refine h.fronts (List.append_nil _).symm hlength (absurd rfl) ?_ ⟨i, hi.keep nofun⟩ hs
    intro key
    rw [touches_get_iff (by rw [hr]; exact Option.some_ne_none _), hkey]
    exact Iff.rfl
  | stores a r ttl =>
    have hcapacity := h.capacity
    have hsplit := List.take_append_drop ((s₀.run us).cache.capacity - 1)
      ((s₀.run us).cache.without a.fingerprint)
    have hset : Sets (Keyed a.fingerprint) r ((s₀.run us).now + ttl) (s₀.run us) (.set a r ttl) :=
      .mk a ttl rfl rfl
    refine h.fronts (e := ⟨a.fingerprint, r, (s₀.run us).now + ttl⟩) hsplit.symm ?_ ?_
      (fun _ => touches_set_iff) ⟨us.length, latestSet_snoc hset⟩ hs
    · exact Nat.lt_of_le_of_lt (List.length_take_le _ _) (by omega)
    · intro hgone
      have hlt := List.length_pos_of_ne_nil hgone
      rw [List.length_drop] at hlt
      rw [List.length_take, Nat.min_eq_left (by omega)]
      omega

theorem kept_run (capacity : Nat) (now : Instant) (us : List Use) :
    Kept (max capacity 1) (new capacity now) us := by
  induction us using List.reverseRecOn with
  | nil =>
    refine ⟨rfl, Nat.zero_le _, ⟨nofun, .nil⟩, ?_⟩
    intro key i hi
    exact absurd (Runs.Last.lt hi) (Nat.not_lt_zero i)
  | append_singleton us u ih => exact ih.snoc (by omega) u

/-! Keys that come and go. -/

variable {ttl : Duration}

/-- A lookup brings nothing in, and takes out what it finds expired. -/
theorem present_get : (s.step (.get a)).Present key ↔
    s.Present key ∧
      ∀ e, s.cache.entry? a.fingerprint = some e → e.expires ≤ s.now → e.key ≠ key := by
  rw [step]
  rcases s.cache.get_cases s.now a with ⟨he, hg⟩ | ⟨e, he, hx, hg⟩ | ⟨e, he, hx, hg⟩
  · rw [hg]
    exact ⟨fun h => ⟨h, by simp [he]⟩, And.left⟩
  · rw [hg]
    have hkey := ResponseCache.entry?_key he
    constructor
    · rintro ⟨f, hf, rfl⟩
      obtain ⟨hf, hne⟩ := ResponseCache.mem_without.1 hf
      refine ⟨⟨f, hf, rfl⟩, ?_⟩
      intro e' he' _
      rw [ResponseCache.entry?_key he']
      exact hne.symm
    · rintro ⟨⟨f, hf, rfl⟩, hne⟩
      refine ⟨f, ResponseCache.mem_without.2 ⟨hf, ?_⟩, rfl⟩
      rw [← hkey]
      exact (hne e he hx).symm
  · rw [hg]
    have hkey := ResponseCache.entry?_key he
    constructor
    · rintro ⟨f, hf, rfl⟩
      refine ⟨?_, fun e' he' hx' => ?_⟩
      · rcases List.mem_cons.1 hf with rfl | hf
        · exact ⟨f, List.mem_of_find?_eq_some he, rfl⟩
        · exact ⟨f, (ResponseCache.mem_without.1 hf).1, rfl⟩
      · rw [he] at he'
        cases he'
        exact absurd hx (Nat.not_lt.2 hx')
    · rintro ⟨⟨f, hf, rfl⟩, -⟩
      by_cases hfe : f.key = a.fingerprint
      · exact ⟨e, List.mem_cons_self, hkey.trans hfe.symm⟩
      · exact ⟨f, List.mem_cons_of_mem e (ResponseCache.mem_without.2 ⟨hf, hfe⟩), rfl⟩

theorem present_set_self : (s.step (.set a r ttl)).Present a.fingerprint :=
  ⟨⟨a.fingerprint, r, s.now + ttl⟩, List.mem_cons_self, rfl⟩

theorem present_of_set (h : (s.step (.set a r ttl)).Present key) :
    a.fingerprint = key ∨ s.Present key := by
  obtain ⟨e, he, rfl⟩ := h
  rcases List.mem_cons.1 he with rfl | he
  · exact .inl rfl
  · exact .inr ⟨e, (ResponseCache.mem_without.1 (List.mem_of_mem_take he)).1, rfl⟩

/-- There is room for one more, so what is there stays. -/
theorem Kept.present_set (h : Kept cap s₀ us)
    (hroom : (s₀.run us).Present a.fingerprint ∨ (s₀.run us).cache.size < cap)
    (hp : (s₀.run us).Present key) : ((s₀.run us).step (.set a r ttl)).Present key := by
  by_cases hkey : key = a.fingerprint
  · rw [hkey]
    exact present_set_self
  · have hlength : ((s₀.run us).cache.without a.fingerprint).length < cap := by
      rcases hroom with ⟨e, he, hroom⟩ | hroom
      · rw [← hroom]
        exact Nat.lt_of_lt_of_le (ResponseCache.length_without he) h.bounded
      · exact Nat.lt_of_le_of_lt (List.length_filter_le _ _) hroom
    obtain ⟨e, he, rfl⟩ := hp
    refine ⟨e, List.mem_cons_of_mem _ ?_, rfl⟩
    rw [List.take_of_length_le (by rw [h.capacity]; omega)]
    exact ResponseCache.mem_without.2 ⟨he, hkey⟩

/-- There is no room, so the last entry goes. -/
theorem Kept.set_full (h : Kept cap s₀ us) (ha : ¬ (s₀.run us).Present a.fingerprint)
    (hes : (s₀.run us).cache.entries = es ++ [e]) (hfull : (s₀.run us).cache.size = cap) :
    ((s₀.run us).step (.set a r ttl)).cache.entries =
      ⟨a.fingerprint, r, (s₀.run us).now + ttl⟩ :: es := by
  have hwithout : (s₀.run us).cache.without a.fingerprint = es ++ [e] := by
    rw [← hes, ResponseCache.without, List.filter_eq_self]
    intro f hf
    have hne : f.key ≠ a.fingerprint := fun hkey => ha ⟨f, hf, hkey⟩
    simpa using hne
  rw [ResponseCache.size, hes, List.length_append, List.length_singleton] at hfull
  rw [step, ResponseCache.set, hwithout, h.capacity, ← hfull, Nat.add_sub_cancel,
    List.take_left]

end TimedResponseCache
end Switchboard.Client
