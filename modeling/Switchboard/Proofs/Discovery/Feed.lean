import Switchboard.Discovery.Feed

/-! The kept part of a stream of changes, and what a reader finds in it. -/
namespace Switchboard.Discovery

variable {f : Feed} {w w' : Watcher} {c : Change} {cs : List Change} {service : Option String}
  {i n : Nat}

namespace Feed

/-- The kept changes are the latest ones: as many as there is room for. -/
structure WellFormed (f : Feed) : Prop where
  bounded : f.kept.length ≤ capacity
  full : 0 < f.first → f.kept.length = capacity

/-- The kept changes from a place on. -/
def since (f : Feed) (i : Nat) : List Change := f.kept.drop (i - f.first)

theorem published_publish : (f.publish c).published = f.published + 1 := by
  simp only [published, publish, List.length_drop, List.length_append, List.length_singleton]
  omega

theorem ended_publish : (f.publish c).ended = f.ended := by simp only [publish]

theorem wellFormed_new : ({} : Feed).WellFormed where
  bounded := Nat.zero_le _
  full h := absurd h (Nat.lt_irrefl 0)

theorem wellFormed_publish (h : f.WellFormed) : (f.publish c).WellFormed := by
  have hb := h.bounded
  have hf := h.full
  refine ⟨?_, fun _ => ?_⟩ <;>
    simp only [publish, List.length_drop, List.length_append, List.length_singleton] at *
  · omega
  · omega

theorem first_le_publish : f.first ≤ (f.publish c).first := Nat.le_add_right _ _

/-- A reader that is no more than the kept changes behind has lost nothing. -/
theorem first_le_of_lag (h : f.WellFormed) (hi : f.published ≤ i + capacity) : f.first ≤ i := by
  have hf := h.full
  unfold published at hi
  omega

theorem since_published : f.since f.published = [] := by
  simp only [since, published, Nat.add_sub_cancel_left]
  exact List.drop_length

/-- A reader at the end of the feed finds a new change alone. -/
theorem since_publish : (f.publish c).since f.published = [c] := by
  have hp := published_publish (f := f) (c := c)
  have hk : (f.publish c).kept = (f.kept ++ [c]).drop ((f.publish c).first - f.first) := by
    simp [publish]
  have hle := first_le_publish (f := f) (c := c)
  rw [since, hk, List.drop_drop]
  have hlen : (f.publish c).first - f.first + (f.published - (f.publish c).first) =
      f.kept.length := by
    simp only [publish, published, List.length_append, List.length_singleton, capacity]
    omega
  rw [hlen]
  exact List.drop_left

/-- The changes published, of which the feed keeps the end. -/
structure Tails (f : Feed) (log : List Change) : Prop where
  length : f.published = log.length
  kept : f.kept = log.drop f.first

variable {log : List Change}

/-- What the feed keeps from a place on is the log from there on. -/
theorem Tails.since (h : f.Tails log) (hi : f.first ≤ i) : f.since i = log.drop i := by
  rw [Feed.since, h.kept, List.drop_drop]
  congr 1
  omega

/-- A feed goes on keeping the end of its log. -/
theorem tails_publish (h : f.Tails log) (hf : f.first ≤ log.length) :
    (f.publish c).Tails (log ++ [c]) where
  length := by rw [published_publish, h.length, List.length_append, List.length_singleton]
  kept := by
    have hk := h.kept
    simp only [publish]
    rw [hk, ← List.drop_append_of_le_length hf, List.drop_drop]

theorem Tails.first_le (h : f.Tails log) : f.first ≤ log.length := by
  rw [← h.length]
  exact Nat.le_add_right _ _

end Feed

namespace Watcher

/-- The changes of a service, or all. -/
def wanted (service : Option String) (cs : List Change) : List Change :=
  cs.filter fun c => wants service c.service.name

theorem wanted_cons : wanted service (c :: cs) =
    if wants service c.service.name then c :: wanted service cs else wanted service cs :=
    List.filter_cons

theorem wanted_append {ds : List Change} :
    wanted service (cs ++ ds) = wanted service cs ++ wanted service ds :=
  List.filter_append ..

/-- What a scan finds is the first change wanted. -/
theorem scan_some (h : scan service cs = (some c, n)) : ∃ before after, cs = before ++ c :: after ∧
    n = before.length + 1 ∧ wanted service before = [] ∧ wants service c.service.name = true := by
  induction cs generalizing n with
  | nil => cases h
  | cons d cs ih =>
    unfold scan at h
    split at h
    · rename_i hd
      cases h
      exact ⟨[], cs, rfl, rfl, rfl, hd⟩
    · rename_i hd
      simp only [Prod.mk.injEq] at h
      obtain ⟨before, after, rfl, hn, hb, hc⟩ := ih (Prod.ext h.1 rfl)
      refine ⟨d :: before, after, rfl, ?_, by simpa [wanted_cons, hd] using hb, hc⟩
      rw [← h.2]
      exact congrArg Nat.succ hn

/-- A scan that finds nothing has passed everything. -/
theorem scan_none (h : scan service cs = (none, n)) : n = cs.length ∧ wanted service cs = [] := by
  induction cs generalizing n with
  | nil =>
    cases h
    exact ⟨rfl, rfl⟩
  | cons d cs ih =>
    unfold scan at h
    split at h
    · cases h
    · rename_i hd
      simp only [Prod.mk.injEq] at h
      obtain ⟨hn, hf⟩ := ih (Prod.ext h.1 rfl)
      refine ⟨?_, by simpa [wanted_cons, hd] using hf⟩
      rw [← h.2, List.length_cons]
      exact congrArg Nat.succ hn

variable {log : List Change}

/-- Where a reader goes on: past what the feed no longer keeps. -/
def start (w : Watcher) (f : Feed) : Nat := max w.next f.first

theorem start_le (hf : f.Tails log) (hn : w.next ≤ log.length) : w.start f ≤ log.length :=
  Nat.max_le.2 ⟨hn, hf.first_le⟩

/-- A reader that is no more than the kept changes behind has lost nothing. -/
theorem start_eq (h : f.WellFormed) (hi : f.published ≤ w.next + Feed.capacity) :
    w.start f = w.next :=
  Nat.max_eq_left (Feed.first_le_of_lag h hi)

/-- A poll gives the first change wanted in the log, from where the reader goes on. -/
theorem poll_eq (hw : w.stopped = false) (hf : f.Tails log) : w.poll f =
    match scan w.service (log.drop (w.start f)) with
    | (some c, n) => ({ w with next := w.start f + n }, .change c)
    | (none, n) =>
      if f.ended then ({ w with next := w.start f + n, stopped := true }, .stopped)
      else ({ w with next := w.start f + n }, .pending) := by
  have hs : f.kept.drop (max w.next f.first - f.first) = log.drop (w.start f) :=
    hf.since (Nat.le_max_right _ _)
  unfold poll
  simp only [hw, hs, if_false, Bool.false_eq_true]
  cases scan w.service (log.drop (w.start f)) with
  | mk found n => cases found <;> simp [start]

/-- A reader finds the next change it wants, after others only. -/
theorem poll_change (hw : w.stopped = false) (hf : f.Tails log) (h : w.poll f = (w', .change c)) :
    ∃ before, log.drop (w.start f) = before ++ c :: log.drop w'.next ∧
      wanted w.service before = [] ∧ wants w.service c.service.name = true ∧
      w' = { w with next := w.start f + before.length + 1 } := by
  rw [poll_eq hw hf] at h
  cases hs : scan w.service (log.drop (w.start f)) with
  | mk found n =>
    rw [hs] at h
    cases found with
    | none =>
      dsimp only at h
      split at h <;> cases h
    | some d =>
      cases h
      obtain ⟨before, after, hcs, rfl, hb, hc⟩ := scan_some hs
      refine ⟨before, ?_, hb, hc, rfl⟩
      rw [← List.drop_drop, hcs]
      simp

/-- Or it finds that there is none, and has then passed all that was published. -/
theorem poll_pending (hw : w.stopped = false) (hf : f.Tails log) (hn : w.next ≤ log.length)
    (h : w.poll f = (w', .pending)) :
    w' = { w with next := log.length } ∧ wanted w.service (log.drop (w.start f)) = [] := by
  have hle := start_le hf hn
  rw [poll_eq hw hf] at h
  cases hs : scan w.service (log.drop (w.start f)) with
  | mk found n =>
    rw [hs] at h
    cases found with
    | some d => cases h
    | none =>
      obtain ⟨hlen, hc⟩ := scan_none hs
      rw [List.length_drop] at hlen
      dsimp only at h
      split at h
      · cases h
      · cases h
        refine ⟨?_, hc⟩
        rw [show w.start f + n = log.length by omega]

theorem poll_ne_stopped (hw : w.stopped = false) (hf : f.ended = false) :
    (w.poll f).2 ≠ .stopped := by
  unfold poll
  simp only [hw, hf, if_false, Bool.false_eq_true]
  split <;> simp

end Watcher
end Switchboard.Discovery
