import Switchboard.Proofs.Discovery.Loops

/-! The fetches of a hub and the table of those in flight. -/
namespace Switchboard.Discovery.Hub

variable {h h' : Hub} {e : HubEvent} {f : Fetch} {name : String} {k t : Nat}
  {answer r : Except Error (List Service)}

theorem find?_settled {fs : List Fetch} (hf : fs.find? (·.ticket == t) = some f) :
    (fs.map fun g => if g.ticket = t then { g with answer := some r } else g).find?
      (·.ticket == k) =
      if t = k then some { f with answer := some r } else fs.find? (·.ticket == k) := by
  have hsame : ((·.ticket == k) ∘
      fun g : Fetch => if g.ticket = t then { g with answer := some r } else g) =
      (·.ticket == k) := by
    funext g
    by_cases hg : g.ticket = t <;> simp [hg]
  rw [List.find?_map, hsame]
  by_cases hk : t = k
  · subst hk
    have ht : f.ticket = t := by simpa using List.find?_some hf
    simp [hf, ht]
  · rw [if_neg hk]
    cases hg : fs.find? (·.ticket == k) with
    | none => rfl
    | some g =>
      have hgk : g.ticket = k := by simpa using List.find?_some hg
      have hgt : g.ticket ≠ t := by
        intro h
        exact hk (h.symm.trans hgk)
      simp [hgt]

theorem fetch?_settle (hf : h.fetch? t = some f) : (h.settle f answer).fetch? k =
    if t = k then some { f with answer := some (h.cache.settle h.now f.name answer).2 }
    else h.fetch? k := by
  have ht : f.ticket = t := fetch?_ticket hf
  subst ht
  obtain ⟨st, es, he⟩ := settle_eq h f answer
  rw [he]
  exact find?_settled hf

theorem fetch?_start (hn : h.fetch? t = none) (c : Cache) :
    ({ h with cache := c, fetches := h.fetches ++ [⟨t, name, none⟩] } : Hub).fetch? k =
      if t = k then some ⟨t, name, none⟩ else h.fetch? k := by
  change (h.fetches ++ [(⟨t, name, none⟩ : Fetch)]).find? (·.ticket == k) = _
  rw [List.find?_append]
  by_cases hk : t = k
  · subst hk
    rw [if_pos rfl, show h.fetches.find? (·.ticket == t) = none from hn]
    simp
  · simp [hk, fetch?]

/-- The table of fetches in flight names those that have no answer, each under its name. -/
structure Booked (h : Hub) : Prop where
  known : ∀ t f, h.fetch? t = some f → t < h.cache.nextTicket
  inFlight : ∀ name t,
    h.cache.inFlight.get? name = some t ↔ ∃ f, h.fetch? t = some f ∧ f.name = name ∧ f.answer = none

theorem booked_new (ttl : Duration) : (new ttl).Booked where
  known _ _ h := nomatch h
  inFlight name t := by simp [new, fetch?]

/-- Two fetches of a name are not in flight together. -/
theorem Booked.one {f g : Fetch} {t u : Nat} (hb : h.Booked) (hf : h.fetch? t = some f)
    (hg : h.fetch? u = some g) (hn : f.name = g.name) (hfa : f.answer = none)
    (hga : g.answer = none) : t = u := by
  have ht := (hb.inFlight f.name t).2 ⟨f, hf, rfl, hfa⟩
  have hu := (hb.inFlight f.name u).2 ⟨g, hg, hn.symm, hga⟩
  exact Option.some.inj (ht.symm.trans hu)

theorem Booked.fresh (hb : h.Booked) : h.fetch? h.cache.nextTicket = none := by
  cases hf : h.fetch? h.cache.nextTicket with
  | none => rfl
  | some f => exact absurd (hb.known _ _ hf) (Nat.lt_irrefl _)

/-- A fetch that is there stays, and so does its answer. -/
theorem Trans.fetch? (ht : Trans h e h') (hf : h.fetch? t = some f) :
    ∃ g, h'.fetch? t = some g ∧ g.name = f.name ∧ ∀ r, f.answer = some r → g.answer = some r := by
  cases ht with
  | start name hv hn =>
    refine ⟨f, ?_, rfl, fun _ => id⟩
    change (h.fetches ++ _).find? (·.ticket == t) = some f
    have hold : h.fetches.find? (·.ticket == t) = some f := hf
    rw [List.find?_append, hold, Option.some_or]
  | settled u g answer hg ha =>
    rw [fetch?_settle hg]
    by_cases hu : u = t
    · subst hu
      rw [hf] at hg
      cases hg
      refine ⟨_, if_pos rfl, rfl, ?_⟩
      intro r hr
      rw [ha] at hr
      cases hr
    · exact ⟨f, by rw [if_neg hu, hf], rfl, fun _ => id⟩
  | idle | received | stop | tick | moved | ended => exact ⟨f, hf, rfl, fun _ => id⟩

theorem answer?_eq_some_iff :
    h.answer? t = some r ↔ ∃ f, h.fetch? t = some f ∧ f.answer = some r := by
  simp [answer?, Option.bind_eq_some_iff]

theorem Trans.answer? (ht : Trans h e h') (ha : h.answer? t = some r) : h'.answer? t = some r := by
  obtain ⟨f, hf, hr⟩ := answer?_eq_some_iff.1 ha
  obtain ⟨g, hg, -, hkeep⟩ := ht.fetch? hf
  exact answer?_eq_some_iff.2 ⟨g, hg, hkeep r hr⟩

/-- Only an answer of the registry answers a fetch. -/
theorem Trans.answer?_inv (ht : Trans h e h') (hb : h.Booked) (ha : h'.answer? t = some r) :
    h.answer? t = some r ∨ ∃ x, e = .answer t x := by
  obtain ⟨f, hf, hr⟩ := answer?_eq_some_iff.1 ha
  cases ht with
  | start name hv hn =>
    rw [fetch?_start hb.fresh] at hf
    split at hf
    · cases hf
      cases hr
    · exact .inl (answer?_eq_some_iff.2 ⟨f, hf, hr⟩)
  | settled u g answer hg hga =>
    rw [fetch?_settle hg] at hf
    split at hf
    · rename_i hu
      exact .inr ⟨answer, hu ▸ rfl⟩
    · exact .inl (answer?_eq_some_iff.2 ⟨f, hf, hr⟩)
  | idle | received | stop | tick | moved | ended => exact .inl ha

/-- A fetch starts when a name is looked up that has no valid entry and no fetch in flight. -/
theorem Trans.fetch?_inv (ht : Trans h e h') (hb : h.Booked) (hf : h'.fetch? t = some f) :
    (∃ g, h.fetch? t = some g ∧ g.name = f.name) ∨
      (e = .look f.name ∧ t = h.cache.nextTicket ∧ f.answer = none ∧
      h.cache.valid? h.now f.name = none ∧
        h.cache.inFlight.get? f.name = none ∧ h'.cache.inFlight.get? f.name = some t) := by
  cases ht with
  | start name hv hn =>
    rw [fetch?_start hb.fresh] at hf
    split at hf
    · rename_i ht
      cases hf
      exact .inr ⟨rfl, ht.symm, rfl, hv, hn, by simp [ht]⟩
    · exact .inl ⟨f, hf, rfl⟩
  | settled u g answer hg ha =>
    rw [fetch?_settle hg] at hf
    split at hf
    · rename_i hu
      cases hf
      exact .inl ⟨g, hu ▸ hg, rfl⟩
    · exact .inl ⟨f, hf, rfl⟩
  | idle | received | stop | tick | moved | ended => exact .inl ⟨f, hf, rfl⟩

theorem Booked.step (ht : Trans h e h') (hb : h.Booked) : h'.Booked := by
  cases ht with
  | idle | stop | tick | moved | ended => exact ⟨hb.known, hb.inFlight⟩
  | received id l ch hl hp =>
    obtain ⟨es, hc⟩ := Cache.receive_eq h.cache h.now ch
    rw [hc]
    exact ⟨hb.known, hb.inFlight⟩
  | start name hv hn =>
    have hnew := hb.fresh
    constructor
    · intro t f hf
      rw [fetch?_start hnew] at hf
      split at hf
      · rename_i ht
        exact ht ▸ Nat.lt_succ_self _
      · exact Nat.lt_succ_of_lt (hb.known t f hf)
    · intro m t
      rw [fetch?_start hnew, Dict.get?_insert]
      by_cases hm : name = m
      · subst hm
        by_cases ht : h.cache.nextTicket = t
        · simp [ht]
        · rw [if_pos rfl, if_neg ht, ← hb.inFlight, hn]
          simp [ht]
      · rw [if_neg hm, hb.inFlight]
        by_cases ht : h.cache.nextTicket = t
        · subst ht
          simp [hnew, hm]
        · simp [ht]
  | settled u g answer hg ha =>
    have hfetch := fun k => @fetch?_settle h g k u answer hg
    obtain ⟨st, es, he⟩ := settle_eq h g answer
    constructor
    · intro t f hf
      rw [hfetch] at hf
      rw [he]
      split at hf
      · rename_i hu
        exact hu ▸ hb.known u g hg
      · exact hb.known t f hf
    · intro m t
      have hin : (h.settle g answer).cache.inFlight = h.cache.inFlight.erase g.name := by rw [he]
      rw [hfetch, hin, Dict.get?_erase]
      by_cases hu : u = t
      · subst hu
        by_cases hm : g.name = m
        · simp [hm]
        · rw [if_neg hm, hb.inFlight]
          simp [hg, hm]
      · rw [if_neg hu]
        by_cases hm : g.name = m
        · rw [if_pos hm]
          refine ⟨nofun, ?_⟩
          rintro ⟨f, hf, hfm, hfa⟩
          -- Two fetches in flight for one name would be one.
          exact absurd (hb.one hg hf (hm.trans hfm.symm) ha hfa) hu
        · rw [if_neg hm, hb.inFlight]

end Switchboard.Discovery.Hub
