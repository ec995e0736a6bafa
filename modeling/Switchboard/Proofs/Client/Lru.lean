import Switchboard.Proofs.Client.Listing
import Switchboard.Proofs.Client.Recency
import Switchboard.Proofs.Rpc.Fingerprint

/-! What a cache of responses is for requests that are told apart by their fingerprints. -/
namespace Switchboard.Client

open Rpc (Request Response)

def Use.request? : Use → Option Request
  | .set a _ _ => some a
  | .get a => some a
  | .list => none
  | .wait _ => none

namespace TimedResponseCache

variable {s s₀ : TimedResponseCache} {u : Use} {us : List Use} {P Q : Request → Prop}
  {a b : Request}
  {rs : List Request} {r : Response} {ends : Instant} {ttl : Duration} {key : String}
  {e : CachedResponse} {es : List CachedResponse} {i j cap : Nat}

/-- The requests in a history. -/
def asked (us : List Use) : List Request := us.filterMap Use.request?

/-- Requests with one fingerprint differ at most in what is not asked for. -/
def Distinguished (rs : List Request) : Prop :=
  ∀ a ∈ rs, ∀ b ∈ rs, a.fingerprint = b.fingerprint → a.Alike b

def Holds (s : TimedResponseCache) (a : Request) : Prop := s.Present a.fingerprint

/-- Requests other than this one that were touched after a place, no two of them alike. -/
structure Others (s₀ : TimedResponseCache) (us : List Use) (a : Request) (i : Nat)
    (bs : List Request) :
    Prop where
  apart : bs.Pairwise fun b c => ¬ b.Alike c
  other : ∀ b ∈ bs, ¬ b.Alike a
  touched : ∀ b ∈ bs, ∃ j, i < j ∧ Runs.At step (Touches (·.Alike b)) s₀ us j

/-- This is held, and whatever else is held was touched later. -/
structure Oldest (rs : List Request) (s₀ : TimedResponseCache) (us : List Use) (a : Request) :
    Prop where
  held : (s₀.run us).Holds a
  first : ∀ b ∈ rs, (s₀.run us).Holds b → ¬ b.Alike a → Later s₀ us (·.Alike b) (·.Alike a)

/-- A lookup finds that the time of the latest response is over. -/
inductive Expires (s₀ : TimedResponseCache) (us : List Use) (a : Request) : Use → Prop
  | mk (b : Request) (r : Response) (ends : Instant) (i : Nat) (ha : b.Alike a)
    (hs : LatestSet (·.Alike a) r ends s₀ us i) (hx : ends ≤ (s₀.run us).now) :
    Expires s₀ us a (.get b)

/-- A response comes for a request that is not held, and as much is held as can be. -/
inductive Displaces (cap : Nat) (s : TimedResponseCache) : Use → Prop
  | mk (b : Request) (r : Response) (ttl : Duration) (hb : ¬ s.Holds b) (hs : s.cache.size = cap) :
    Displaces cap s (.set b r ttl)

/-- Of the requests of `rs` the cache holds the ones used last, each with its latest response. -/
structure Lru (cap : Nat) (rs : List Request) (s₀ : TimedResponseCache) (us : List Use) : Prop where
  bounded : (s₀.run us).cache.size ≤ cap
  single : ((s₀.run us).cache.entries.map (·.key)).Nodup
  sound : ∀ a ∈ rs, ∀ r, (s₀.run us).got a = some r →
    ∃ ends i, LatestSet (·.Alike a) r ends s₀ us i ∧ (s₀.run us).now < ends
  complete : ∀ a ∈ rs, ∀ r ends i k, LatestSet (·.Alike a) r ends s₀ us i →
    (s₀.run us).now < ends → LastTouch (·.Alike a) s₀ us k →
      (∀ bs, Others s₀ us a k bs → bs.length < cap) → (s₀.run us).got a = some r
  comes : ∀ u, asked [u] ⊆ rs → ∀ a ∈ rs, ¬ (s₀.run us).Holds a →
    (((s₀.run us).step u).Holds a ↔ ∃ b r ttl, u = .set b r ttl ∧ b.Alike a)
  leaves : ∀ u, asked [u] ⊆ rs → ∀ a ∈ rs, (s₀.run us).Holds a →
    (¬ ((s₀.run us).step u).Holds a ↔
      Expires s₀ us a u ∨ Displaces cap (s₀.run us) u ∧ Oldest rs s₀ us a)
  oldest : (s₀.run us).cache.size ≠ 0 → ∃ a ∈ rs, Oldest rs s₀ us a
  unlisted : s₀.run (us ++ [.list]) = s₀.run us
  listed : ∃ rows vs,
    Json.IsArray (Bytes.ofString ((s₀.run us).cache.listText (s₀.run us).now)) vs ∧
    List.Forall₂ (ResponseCache.Shows (s₀.run us).now) rows vs ∧
    rows.Pairwise (fun e f => Later s₀ us (Keyed e.key) (Keyed f.key)) ∧
    ∀ e, e ∈ rows ↔ ∃ a ∈ rs, e.key = a.fingerprint ∧ (s₀.run us).Holds a ∧
      (∃ i, LatestSet (·.Alike a) e.response e.expires s₀ us i) ∧ (s₀.run us).now < e.expires

theorem mem_asked (hu : u ∈ us) (ha : u.request? = some a) : a ∈ asked us :=
  List.mem_filterMap.2 ⟨u, hu, ha⟩

theorem keyed_iff (hd : Distinguished rs) (ha : a ∈ rs) (hb : b ∈ rs) :
    Keyed a.fingerprint b ↔ b.Alike a :=
  ⟨hd b hb a ha, Rpc.Request.Alike.fingerprint⟩

theorem touches_congr (h : ∀ b, u.request? = some b → (P b ↔ Q b)) :
    Touches P s u ↔ Touches Q s u := by
  constructor
  · rintro (⟨a, r, ttl, ha⟩ | ⟨a, ha, hr⟩)
    · exact .set a r ttl ((h a rfl).1 ha)
    · exact .hit a ((h a rfl).1 ha) hr
  · rintro (⟨a, r, ttl, ha⟩ | ⟨a, ha, hr⟩)
    · exact .set a r ttl ((h a rfl).2 ha)
    · exact .hit a ((h a rfl).2 ha) hr

theorem sets_congr (h : ∀ b, u.request? = some b → (P b ↔ Q b)) :
    Sets P r ends s u ↔ Sets Q r ends s u := by
  constructor
  · rintro ⟨a, ttl, ha, he⟩
    exact .mk a ttl ((h a rfl).1 ha) he
  · rintro ⟨a, ttl, ha, he⟩
    exact .mk a ttl ((h a rfl).2 ha) he

section

variable (hd : Distinguished rs) (hus : asked us ⊆ rs) (ha : a ∈ rs)
include hd hus ha

theorem touched_iff : Runs.At step (Touches (Keyed a.fingerprint)) s₀ us i ↔
    Runs.At step (Touches (·.Alike a)) s₀ us i :=
  Runs.at_congr fun _ _ hu => touches_congr fun _ hb => keyed_iff hd ha (hus (mem_asked hu hb))

theorem lastTouch_iff :
    LastTouch (Keyed a.fingerprint) s₀ us i ↔ LastTouch (·.Alike a) s₀ us i :=
  Runs.last_congr fun _ _ hu => touches_congr fun _ hb => keyed_iff hd ha (hus (mem_asked hu hb))

theorem latestSet_iff :
    LatestSet (Keyed a.fingerprint) r ends s₀ us i ↔ LatestSet (·.Alike a) r ends s₀ us i := by
  have hat : ∀ r ends j, Runs.At step (Sets (Keyed a.fingerprint) r ends) s₀ us j ↔
      Runs.At step (Sets (·.Alike a) r ends) s₀ us j := fun _ _ _ =>
    Runs.at_congr fun _ _ hu => sets_congr fun _ hb => keyed_iff hd ha (hus (mem_asked hu hb))
  simp only [LatestSet, hat]

theorem later_iff (hb : b ∈ rs) : Later s₀ us (Keyed a.fingerprint) (Keyed b.fingerprint) ↔
    Later s₀ us (·.Alike a) (·.Alike b) :=
  exists_congr fun _ => exists_congr fun _ =>
    and_congr (lastTouch_iff hd hus ha) (and_congr (lastTouch_iff hd hus hb) Iff.rfl)

end

/-- What was set last is one response with one expiry. -/
theorem LatestSet.unique {r' : Response} {ends' : Instant} (h : LatestSet P r ends s₀ us i)
    (h' : LatestSet P r' ends' s₀ us j) : r = r' ∧ ends = ends' := by
  obtain rfl : i = j := by
    rcases Nat.lt_trichotomy i j with hij | hij | hij
    · exact absurd h'.1 (h.2 j hij r' ends')
    · exact hij
    · exact absurd h.1 (h'.2 i hij r ends)
  obtain ⟨⟨u, hu, a, ttl, -, rfl⟩, -⟩ := h
  obtain ⟨⟨u', hu', hset⟩, -⟩ := h'
  rw [hu] at hu'
  cases hu'
  obtain ⟨-, -, -, rfl⟩ := hset
  exact ⟨rfl, rfl⟩

theorem LatestSet.asked (h : LatestSet (Keyed key) r ends s₀ us i) :
    ∃ a ∈ asked us, a.fingerprint = key := by
  obtain ⟨⟨u, hu, a, ttl, ha, -⟩, -⟩ := h
  exact ⟨a, mem_asked (List.mem_of_getElem? hu) rfl, ha⟩

theorem asked_of_touched (h : Runs.At step (Touches (Keyed key)) s₀ us i) :
    ∃ a ∈ asked us, a.fingerprint = key := by
  obtain ⟨u, hu, ⟨a, r, ttl, ha⟩ | ⟨a, ha, -⟩⟩ := h
  · exact ⟨a, mem_asked (List.mem_of_getElem? hu) rfl, ha⟩
  · exact ⟨a, mem_asked (List.mem_of_getElem? hu) rfl, ha⟩

/-- What a lookup gives, when no key is there twice. -/
theorem got_eq_some_iff (hk : (s.cache.entries.map (·.key)).Nodup) :
    s.got a = some r ↔
      ∃ e ∈ s.cache.entries, e.key = a.fingerprint ∧ s.now < e.expires ∧ e.response = r := by
  have hmem : ∀ e, s.cache.entry? a.fingerprint = some e ↔
      e ∈ s.cache.entries ∧ e.key = a.fingerprint := fun e => ResponseCache.entry?_eq_some_iff hk
  rcases s.cache.get_cases s.now a with ⟨he, hg⟩ | ⟨e, he, hx, hg⟩ | ⟨e, he, hx, hg⟩
  · rw [got, hg]
    constructor
    · intro h
      cases h
    · rintro ⟨e, hin, hkey, -⟩
      rw [(hmem e).2 ⟨hin, hkey⟩] at he
      cases he
  · rw [got, hg]
    constructor
    · intro h
      cases h
    · rintro ⟨f, hin, hkey, hlive, -⟩
      rw [(hmem f).2 ⟨hin, hkey⟩] at he
      cases he
      exact absurd hlive (Nat.not_lt.2 hx)
  · rw [got, hg]
    constructor
    · rintro ⟨⟩
      obtain ⟨hin, hkey⟩ := (hmem e).1 he
      exact ⟨e, hin, hkey, hx, rfl⟩
    · rintro ⟨f, hin, hkey, -, rfl⟩
      rw [(hmem f).2 ⟨hin, hkey⟩] at he
      cases he
      rfl

/-! The parts of this, one by one. -/

/-- A response that is found was set last for such a request, and has not expired. -/
theorem Kept.sound (h : Kept cap s₀ us) (hd : Distinguished rs) (hus : asked us ⊆ rs) (ha : a ∈ rs)
    (hr : (s₀.run us).got a = some r) :
    ∃ ends i, LatestSet (·.Alike a) r ends s₀ us i ∧ (s₀.run us).now < ends := by
  obtain ⟨e, he, hkey, hx, rfl⟩ := (got_eq_some_iff h.ranked.keys).1 hr
  obtain ⟨i, hi⟩ := h.ranked.latest e he
  rw [hkey] at hi
  exact ⟨e.expires, i, (latestSet_iff hd hus ha).1 hi, hx⟩

/-- As many keys as were touched, as many requests. -/
theorem Crowded.others (h : Crowded s₀ us cap a.fingerprint i) (hd : Distinguished rs)
    (hus : asked us ⊆ rs) : ∃ bs, Others s₀ us a i bs ∧ bs.length = cap := by
  obtain ⟨ks, hnodup, hlength, hks⟩ := h
  have hasked : ∀ k ∈ ks, ∃ b ∈ asked us, b.fingerprint = k := by
    intro k hk
    obtain ⟨-, j, -, hat⟩ := hks k hk
    exact asked_of_touched hat
  choose f hf hkey using hasked
  refine ⟨ks.pmap f fun _ hk => hk, ⟨?_, ?_, ?_⟩, ?_⟩
  · refine List.Pairwise.pmap hnodup _ ?_
    intro k hk l hl hne halike
    rw [← hkey k hk, ← hkey l hl] at hne
    exact hne halike.fingerprint
  · intro b hb halike
    obtain ⟨k, hk, rfl⟩ := List.mem_pmap.1 hb
    refine (hks k hk).1 ?_
    rw [← hkey k hk]
    exact halike.fingerprint
  · intro b hb
    obtain ⟨k, hk, rfl⟩ := List.mem_pmap.1 hb
    obtain ⟨-, j, hj, hat⟩ := hks k hk
    rw [← hkey k hk] at hat
    exact ⟨j, hj, (touched_iff hd hus (hus (hf k hk))).1 hat⟩
  · rw [List.length_pmap, hlength]

/-- A response is found until it expires, unless as many others as there is room for were used
since. -/
theorem Kept.complete (h : Kept cap s₀ us) (hd : Distinguished rs) (hus : asked us ⊆ rs)
    (ha : a ∈ rs) (hi : LatestSet (·.Alike a) r ends s₀ us i) (hx : (s₀.run us).now < ends)
    (hj : LastTouch (·.Alike a) s₀ us j) (hbs : ∀ bs, Others s₀ us a j bs → bs.length < cap) :
    (s₀.run us).got a = some r := by
  have hi := (latestSet_iff hd hus ha).2 hi
  rcases h.lost a.fingerprint j ((lastTouch_iff hd hus ha).2 hj) with hp | hlapsed | hcrowded
  · obtain ⟨e, he, hkey⟩ := hp
    obtain ⟨i', hi'⟩ := h.ranked.latest e he
    rw [hkey] at hi'
    obtain ⟨hr, hends⟩ := hi'.unique hi
    refine (got_eq_some_iff h.ranked.keys).2 ⟨e, he, hkey, ?_, hr⟩
    rw [hends]
    exact hx
  · obtain ⟨r', ends', i', hi', hx'⟩ := hlapsed
    rw [(hi'.unique hi).2] at hx'
    exact absurd hx (Nat.not_lt.2 hx')
  · obtain ⟨bs, hothers, hlength⟩ := hcrowded.others hd hus
    exact absurd hlength (Nat.ne_of_lt (hbs bs hothers))

/-- Each entry is that of a request in the history. -/
theorem Ranked.asked (h : Ranked s₀ us es) (he : e ∈ es) :
    ∃ a ∈ asked us, a.fingerprint = e.key := by
  obtain ⟨i, hi⟩ := h.latest e he
  exact hi.asked

/-- The last entry is that of the request whose last use is the longest ago. -/
theorem Kept.oldest_iff (h : Kept cap s₀ us) (hd : Distinguished rs) (hus : asked us ⊆ rs)
    (ha : a ∈ rs) (hes : (s₀.run us).cache.entries = es ++ [e]) :
    Oldest rs s₀ us a ↔ e.key = a.fingerprint := by
  have hranked := h.ranked
  rw [hes] at hranked
  have hlater : ∀ f ∈ es, Later s₀ us (Keyed f.key) (Keyed e.key) := fun f hf =>
    (List.pairwise_append.1 hranked.order).2.2 f hf e (List.mem_singleton_self e)
  have hlast : e ∈ es ++ [e] := List.mem_append_right es (List.mem_singleton_self e)
  constructor
  · intro ho
    obtain ⟨f, hf, hkey⟩ := ho.held
    rw [hes] at hf
    rcases List.mem_append.1 hf with hf | hf
    · -- otherwise what is last was touched both before and after it
      have hfe := hlater f hf
      obtain ⟨b, hb, hbe⟩ := hranked.asked hlast
      rw [hkey, ← hbe] at hfe
      have hholds : (s₀.run us).Holds b := ⟨e, by rw [hes]; exact hlast, hbe.symm⟩
      have hne : ¬ b.Alike a := fun halike => hfe.ne halike.fingerprint.symm
      have hbf := ho.first b (hus hb) hholds hne
      exact absurd ((later_iff hd hus ha (hus hb)).1 hfe) (Runs.Later.asymm hbf)
    · rw [← List.mem_singleton.1 hf, hkey]
  · intro hkey
    refine ⟨⟨e, by rw [hes]; exact hlast, hkey⟩, ?_⟩
    rintro b hb ⟨f, hf, hbf⟩ hne
    rw [hes] at hf
    rcases List.mem_append.1 hf with hf | hf
    · have hfe := hlater f hf
      rw [hbf, hkey] at hfe
      exact (later_iff hd hus hb ha).1 hfe
    · rw [List.mem_singleton.1 hf, hkey] at hbf
      exact absurd (hd b hb a ha hbf.symm) hne

theorem Kept.oldest (h : Kept cap s₀ us) (hd : Distinguished rs) (hus : asked us ⊆ rs)
    (hs : (s₀.run us).cache.size ≠ 0) : ∃ a ∈ rs, Oldest rs s₀ us a := by
  rcases List.eq_nil_or_concat' (s₀.run us).cache.entries with hnil | ⟨es, e, hes⟩
  · rw [ResponseCache.size, hnil] at hs
    exact absurd rfl hs
  · have hmem : e ∈ (s₀.run us).cache.entries := by
      rw [hes]
      exact List.mem_append_right es (List.mem_singleton_self e)
    obtain ⟨a, ha, hkey⟩ := h.ranked.asked hmem
    exact ⟨a, hus ha, (h.oldest_iff hd hus (hus ha) hes).2 hkey.symm⟩

theorem asked_singleton (hu : asked [u] ⊆ rs) (hb : u.request? = some b) : b ∈ rs :=
  hu (mem_asked (List.mem_singleton_self u) hb)

/-- A request comes into the cache by being set, and not otherwise. -/
theorem comes_iff (hd : Distinguished rs) (hu : asked [u] ⊆ rs) (ha : a ∈ rs) (hn : ¬ s.Holds a) :
    (s.step u).Holds a ↔ ∃ b r ttl, u = .set b r ttl ∧ b.Alike a := by
  cases u with
  | set b r ttl =>
    constructor
    · intro hp
      have hkey := (present_of_set hp).resolve_right hn
      exact ⟨b, r, ttl, rfl, hd b (asked_singleton hu rfl) a ha hkey⟩
    · rintro ⟨b, r, ttl, ⟨⟩, halike⟩
      rw [Holds, ← halike.fingerprint]
      exact present_set_self
  | get b =>
    constructor
    · intro hp
      exact absurd (present_get.1 hp).1 hn
    · rintro ⟨b, r, ttl, ⟨⟩, -⟩
  | list =>
    constructor
    · exact fun hp => absurd hp hn
    · rintro ⟨b, r, ttl, ⟨⟩, -⟩
  | wait d =>
    constructor
    · exact fun hp => absurd hp hn
    · rintro ⟨b, r, ttl, ⟨⟩, -⟩

/-- A lookup takes out the one entry that it finds expired. -/
theorem Kept.leaves_get (h : Kept cap s₀ us) (hd : Distinguished rs) (hus : asked us ⊆ rs)
    (hb : b ∈ rs) (ha : a ∈ rs) (hp : (s₀.run us).Holds a) :
    ¬ ((s₀.run us).step (.get b)).Holds a ↔ Expires s₀ us a (.get b) := by
  rw [Holds, present_get, not_and_or]
  constructor
  · rintro (hn | hn)
    · exact absurd hp hn
    · push Not at hn
      obtain ⟨e, he, hx, hkey⟩ := hn
      obtain ⟨hmem, hbe⟩ := (ResponseCache.entry?_eq_some_iff h.ranked.keys).1 he
      obtain ⟨i, hi⟩ := h.ranked.latest e hmem
      rw [hkey] at hi hbe
      exact .mk b e.response e.expires i (hd b hb a ha hbe.symm) ((latestSet_iff hd hus ha).1 hi) hx
  · rintro ⟨b, r, ends, i, halike, hi, hx⟩
    refine .inr fun hn => ?_
    obtain ⟨e, hmem, hkey⟩ := hp
    obtain ⟨j, hj⟩ := h.ranked.latest e hmem
    rw [hkey] at hj
    refine hn e ?_ ?_ hkey
    · rw [halike.fingerprint]
      exact (ResponseCache.entry?_eq_some_iff h.ranked.keys).2 ⟨hmem, hkey⟩
    · rw [(hj.unique ((latestSet_iff hd hus ha).2 hi)).2]
      exact hx

/-- What is stored takes out one entry at most, the one touched the longest ago. -/
theorem Kept.leaves_set (h : Kept cap s₀ us) (hd : Distinguished rs) (hus : asked us ⊆ rs)
    (ha : a ∈ rs) (hp : (s₀.run us).Holds a) :
    ¬ ((s₀.run us).step (.set b r ttl)).Holds a ↔
      Displaces cap (s₀.run us) (.set b r ttl) ∧ Oldest rs s₀ us a := by
  by_cases hroom : (s₀.run us).Holds b ∨ (s₀.run us).cache.size < cap
  · constructor
    · exact fun hn => absurd (h.present_set hroom hp) hn
    · rintro ⟨⟨b, r, ttl, hb, hfull⟩, -⟩
      exact absurd (hroom.resolve_left hb) (Nat.not_lt.2 (Nat.le_of_eq hfull.symm))
  · obtain ⟨hb, hfull⟩ := not_or.1 hroom
    have hfull := Nat.le_antisymm h.bounded (Nat.not_lt.1 hfull)
    rcases List.eq_nil_or_concat' (s₀.run us).cache.entries with hnil | ⟨es, e, hes⟩
    · obtain ⟨f, hf, -⟩ := hp
      rw [hnil] at hf
      cases hf
    · rw [h.oldest_iff hd hus ha hes, Holds, Present, h.set_full hb hes hfull]
      have hnodup := h.ranked.keys
      rw [hes, List.map_append, List.nodup_append] at hnodup
      constructor
      · intro hn
        refine ⟨.mk b r ttl hb hfull, ?_⟩
        obtain ⟨f, hf, hkey⟩ := hp
        rw [hes] at hf
        rcases List.mem_append.1 hf with hf | hf
        · exact absurd ⟨f, List.mem_cons_of_mem _ hf, hkey⟩ hn
        · rw [← List.mem_singleton.1 hf, hkey]
      · rintro ⟨-, hkey⟩ ⟨f, hf, hfa⟩
        rcases List.mem_cons.1 hf with rfl | hf
        · rw [Holds, show b.fingerprint = a.fingerprint from hfa] at hb
          exact hb hp
        · exact hnodup.2.2 f.key (List.mem_map_of_mem hf) e.key (List.mem_singleton_self e.key)
            (hfa.trans hkey.symm)

/-- A request leaves the cache because it expired, or because it was the oldest and room was needed.
-/
theorem Kept.leaves (h : Kept cap s₀ us) (hd : Distinguished rs) (hus : asked us ⊆ rs)
    (hu : asked [u] ⊆ rs) (ha : a ∈ rs) (hp : (s₀.run us).Holds a) :
    ¬ ((s₀.run us).step u).Holds a ↔
      Expires s₀ us a u ∨ Displaces cap (s₀.run us) u ∧ Oldest rs s₀ us a := by
  cases u with
  | set b r ttl =>
    rw [h.leaves_set hd hus ha hp]
    exact ⟨.inr, fun hn => hn.resolve_left nofun⟩
  | get b =>
    rw [h.leaves_get hd hus (asked_singleton hu rfl) ha hp]
    exact ⟨.inl, fun hn => hn.resolve_right nofun⟩
  | list =>
    refine ⟨fun hn => absurd hp hn, ?_⟩
    rintro (hn | ⟨hn, -⟩)
    · cases hn
    · cases hn
  | wait d =>
    refine ⟨fun hn => absurd hp hn, ?_⟩
    rintro (hn | ⟨hn, -⟩)
    · cases hn
    · cases hn

/-- Listed are the responses set last that have not expired, no others. -/
theorem Kept.listed (h : Kept cap s₀ us) (hd : Distinguished rs) (hus : asked us ⊆ rs) :
    e ∈ (s₀.run us).cache.live (s₀.run us).now ↔
      ∃ a ∈ rs, e.key = a.fingerprint ∧ (s₀.run us).Holds a ∧
        (∃ i, LatestSet (·.Alike a) e.response e.expires s₀ us i) ∧
          (s₀.run us).now < e.expires := by
  rw [ResponseCache.live, List.mem_filter, decide_eq_true_iff]
  constructor
  · rintro ⟨he, hx⟩
    obtain ⟨a, ha, hkey⟩ := h.ranked.asked he
    obtain ⟨i, hi⟩ := h.ranked.latest e he
    rw [← hkey] at hi
    exact ⟨a, hus ha, hkey.symm, ⟨e, he, hkey.symm⟩, ⟨i, (latestSet_iff hd hus (hus ha)).1 hi⟩, hx⟩
  · rintro ⟨a, ha, hkey, ⟨f, hf, hfa⟩, ⟨i, hi⟩, hx⟩
    obtain ⟨j, hj⟩ := h.ranked.latest f hf
    rw [hfa] at hj
    obtain ⟨hr, hends⟩ := hj.unique ((latestSet_iff hd hus ha).2 hi)
    have hfe : f = e := by
      cases f
      cases e
      simp_all
    exact ⟨hfe ▸ hf, hx⟩

/-- A cache of responses gives the latest one for a request until it expires, unless as many other
requests as it has room for were touched since. -/
theorem lru_run (capacity : Nat) (now : Instant) (hd : Distinguished rs) (hus : asked us ⊆ rs) :
    Lru (max capacity 1) rs (new capacity now) us := by
  have h := kept_run capacity now us
  obtain ⟨vs, harray, hrows⟩ :=
    ResponseCache.exists_rows ((new capacity now).run us).cache ((new capacity now).run us).now
  exact {
    bounded := h.bounded
    single := h.ranked.keys
    sound := fun _ ha _ => h.sound hd hus ha
    complete := fun _ ha _ _ _ _ => h.complete hd hus ha
    comes := fun _ hu _ ha => comes_iff hd hu ha
    leaves := fun _ hu _ ha => h.leaves hd hus hu ha
    oldest := h.oldest hd hus
    unlisted := run_snoc
    listed := ⟨_, vs, harray, hrows, h.ranked.order.sublist List.filter_sublist,
      fun _ => h.listed hd hus⟩ }

theorem distinguished_of_nodup (h : (rs.map (·.fingerprint)).Nodup) : Distinguished rs := by
  intro a ha b hb hab
  obtain rfl := List.inj_on_of_nodup_map h ha hb hab
  exact ⟨rfl, rfl, rfl⟩

/-- There is room for two: the second makes room for the third, as the first was asked for again,
and the first is found expired later. -/
theorem lru_run_third :
    let request (n : UInt8) : Request := { service := "a", endpoint := "b", body := [n] }
    let response (n : UInt8) : Response := { body := [n] }
    let us : List Use := [.set (request 1) (response 1) 5, .set (request 2) (response 2) 20,
      .get (request 1), .set (request 3) (response 3) 20, .wait 5, .get (request 1)]
    let rs := [request 1, request 2, request 3]
    let s₀ := new 2 0
    Distinguished rs ∧ asked us ⊆ rs ∧ Lru 2 rs s₀ us ∧
      rs.map (s₀.run us).got = [none, none, some (response 3)] ∧ (s₀.run us).cache.size = 1 := by
  intro request response us rs s₀
  have hd : Distinguished rs := distinguished_of_nodup (by decide +kernel)
  have hus : asked us ⊆ rs := by decide
  exact ⟨hd, hus, lru_run 2 0 hd hus, by decide +kernel, by decide +kernel⟩

end TimedResponseCache
end Switchboard.Client
