import Mathlib.Data.List.Nodup
import Switchboard.Client.ResponseCache

/-! What a cache of responses has for a key after it was looked up or stored in. -/
namespace Switchboard.Client.ResponseCache

open Rpc (Request Response)

variable {c : ResponseCache} {now : Instant} {r : Request} {response : Response} {ttl : Duration}
  {key j : String} {e : CachedResponse}

theorem entry?_key (h : c.entry? key = some e) : e.key = key := by
  simpa using List.find?_some h

/-- Of entries whose keys differ each is found under its own. -/
theorem entry?_eq_some_iff (hk : (c.entries.map (·.key)).Nodup) :
    c.entry? key = some e ↔ e ∈ c.entries ∧ e.key = key := by
  constructor
  · intro h
    exact ⟨List.mem_of_find?_eq_some h, entry?_key h⟩
  · rintro ⟨he, rfl⟩
    cases hx : c.entry? e.key with
    | none => simpa using List.find?_eq_none.1 hx e he
    | some x =>
      have heq := List.inj_on_of_nodup_map hk (List.mem_of_find?_eq_some hx) he (entry?_key hx)
      rw [heq]

theorem mem_without : e ∈ c.without key ↔ e ∈ c.entries ∧ e.key ≠ key := by
  simp [without]

theorem length_without (he : e ∈ c.entries) : (c.without e.key).length < c.size :=
  List.length_filter_lt_length_iff_exists.2 ⟨e, he, by simp⟩

theorem find?_without :
    (c.without key).find? (·.key == j) = if key = j then none else c.entry? j := by
  rw [without, List.find?_filter]
  split
  · rename_i hk
    rw [List.find?_eq_none]
    intro x hx
    simp [hk]
  · rename_i hk
    unfold entry?
    congr
    funext x
    by_cases hx : x.key = j
    · simp [hx, Ne.symm hk]
    · simp [hx]

/-- How a lookup goes: there is nothing, something that has expired and goes, or a hit. -/
theorem get_cases (c : ResponseCache) (now : Instant) (r : Request) :
    c.entry? r.fingerprint = none ∧ c.get now r = (c, none) ∨
    (∃ e, c.entry? r.fingerprint = some e ∧ e.expires ≤ now ∧
      c.get now r = ({ c with entries := c.without r.fingerprint }, none)) ∨
    ∃ e, c.entry? r.fingerprint = some e ∧ now < e.expires ∧
      c.get now r = ({ c with entries := e :: c.without r.fingerprint }, some e.response) := by
  unfold get
  cases he : c.entry? r.fingerprint with
  | none => exact .inl ⟨rfl, rfl⟩
  | some e =>
    by_cases ht : now < e.expires
    · exact .inr (.inr ⟨e, rfl, ht, if_pos ht⟩)
    · exact .inr (.inl ⟨e, rfl, Nat.not_lt.1 ht, if_neg ht⟩)

/-- A lookup brings nothing in. -/
theorem entry?_get (h : entry? (c.get now r).1 key = some e) : c.entry? key = some e := by
  rcases get_cases c now r with ⟨-, hg⟩ | ⟨x, -, -, hg⟩ | ⟨x, hx, -, hg⟩
  · rwa [hg] at h
  · rw [hg] at h
    have h : (c.without r.fingerprint).find? (·.key == key) = some e := h
    rw [find?_without] at h
    split at h
    · cases h
    · exact h
  · rw [hg] at h
    have h : (x :: c.without r.fingerprint).find? (·.key == key) = some e := h
    rw [List.find?_cons, find?_without, entry?_key hx] at h
    split at h
    · rename_i hk
      rw [← h, ← hx, beq_iff_eq.1 hk]
    · split at h
      · cases h
      · exact h

/-- A store brings in what is stored, under the fingerprint of the request. -/
theorem entry?_set (h : entry? (c.set now r response ttl) key = some e) :
    r.fingerprint = key ∧ e.response = response ∧ e.expires = now + ttl ∨
      r.fingerprint ≠ key ∧ c.entry? key = some e := by
  have h : ((⟨r.fingerprint, response, now + ttl⟩ : CachedResponse) ::
      (c.without r.fingerprint).take (c.capacity - 1)).find? (·.key == key) = some e := h
  rw [List.find?_cons] at h
  split at h
  · rename_i hk
    cases h
    exact .inl ⟨by simpa using hk, rfl, rfl⟩
  · rename_i hk
    have hne : r.fingerprint ≠ key := by simpa using hk
    refine .inr ⟨hne, ?_⟩
    have hfound : (c.without r.fingerprint).find? (·.key == key) = some e := by
      rw [← List.take_append_drop (c.capacity - 1) (c.without r.fingerprint), List.find?_append, h,
        Option.some_or]
    rwa [find?_without, if_neg hne] at hfound

end Switchboard.Client.ResponseCache
