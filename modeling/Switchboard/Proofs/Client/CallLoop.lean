import Switchboard.Proofs.Client.Session

/-! Every run of the loop of a call goes from attempt to attempt until one of its ends. -/
namespace Switchboard.Client

open Rpc (CallError)

variable {α : Type} {rules : RetryRules} {ctx : Context} {s : Session α} {bs : List Start}
  {xs : List (End α)} {b b' : Start} {x : End α} {e f : CallError} {t u : Instant}
  {r : Except CallError α} {m : Session.Move α} {i : Nat}

theorem getElem?_snoc {β : Type} {l : List β} {a b : β} (h : (l ++ [a])[i]? = some b) :
    (i < l.length ∧ l[i]? = some b) ∨ (i = l.length ∧ b = a) := by
  rcases Nat.lt_trichotomy i l.length with hi | rfl | hi
  · rw [List.getElem?_append_left hi] at h
    exact .inl ⟨hi, h⟩
  · rw [List.getElem?_concat_length] at h
    exact .inr ⟨rfl, (Option.some.inj h).symm⟩
  · rw [List.getElem?_eq_none (by simp; omega)] at h
    cases h

/-- An attempt begins in its turn, on a node of its own, in time, and in a context that has not
ended. -/
structure Begins (rules : RetryRules) (ctx : Context) (i : Nat) (t : Instant)
    (b : Start) : Prop where
  number : b.number.toNat = i
  node : rules.next i = .ok b.node
  check : ctx.check b.cancellation b.time = .ok ()
  time : t ≤ b.time

/-- Attempts that each led on to another one, and when the next may begin. -/
inductive Rounds (rules : RetryRules) (ctx : Context) : List Start → List (End α) → Instant → Prop
  | none : Rounds rules ctx [] [] 0
  | more {bs : List Start} {xs : List (End α)} {t : Instant} {b : Start} {x : End α} {e : CallError}
    (h : Rounds rules ctx bs xs t) (hb : Begins rules ctx bs.length t b) (hx : x.outcome = .error e)
    (hr : rules.Retries b.number e) :
    Rounds rules ctx (bs ++ [b]) (xs ++ [x]) (x.time + rules.backoff b.number)

namespace Rounds

theorem length (h : Rounds rules ctx bs xs t) : bs.length = xs.length := by
  induction h with
  | none => rfl
  | more h hb hx hr ih =>
    rw [List.length_append, List.length_append, ih, List.length_singleton, List.length_singleton]

theorem le_retries (h : Rounds rules ctx bs xs t) : bs.length ≤ rules.retries.toNat := by
  cases h with
  | none => exact Nat.zero_le _
  | more h hb hx hr =>
    rw [List.length_append, List.length_singleton, ← hb.number]
    exact UInt32.lt_iff_toNat_lt.1 hr.2.1

theorem begins (h : Rounds rules ctx bs xs t) (hi : bs[i]? = some b) :
    ∃ u, Begins rules ctx i u b := by
  induction h with
  | none => cases hi
  | more h hb hx hr ih =>
    rcases getElem?_snoc hi with ⟨-, hi⟩ | ⟨rfl, rfl⟩
    · exact ih hi
    · exact ⟨_, hb⟩

/-- Whatever led to another attempt was a failure for which the policy wanted one. -/
theorem retries (h : Rounds rules ctx bs xs t) (hi : bs[i]? = some b) (hx : xs[i]? = some x) :
    ∃ e, x.outcome = .error e ∧ rules.Retries b.number e := by
  induction h with
  | none => cases hi
  | more h hb hx' hr ih =>
    have hlen := h.length
    rcases getElem?_snoc hi with ⟨hlt, hi⟩ | ⟨rfl, rfl⟩ <;>
      rcases getElem?_snoc hx with ⟨hlt', hx⟩ | ⟨heq, rfl⟩
    · exact ih hi hx
    · omega
    · omega
    · exact ⟨_, hx', hr⟩

/-- The time from which on the next attempt may begin is that of the last end and the wait after it.
-/
theorem time_le (h : Rounds rules ctx bs xs t) (hi : bs[i]? = some b) (hx : xs[i]? = some x)
    (hlast : i + 1 = bs.length) : t = x.time + rules.backoff b.number := by
  cases h with
  | none => cases hi
  | more h hb hx' hr =>
    have hlen := h.length
    rw [List.length_append, List.length_singleton] at hlast
    rcases getElem?_snoc hi with ⟨hlt, hi⟩ | ⟨-, rfl⟩
    · omega
    · rcases getElem?_snoc hx with ⟨hlt', hx⟩ | ⟨heq, rfl⟩
      · omega
      · rfl

/-- No attempt begins before the wait after the one before it is over. -/
theorem waits (h : Rounds rules ctx bs xs t) (hi : bs[i]? = some b) (hx : xs[i]? = some x)
    (hn : bs[i + 1]? = some b') : x.time + rules.backoff b.number ≤ b'.time := by
  induction h with
  | none => cases hi
  | more h hb hx' hr ih =>
    have hlen := h.length
    rcases getElem?_snoc hn with ⟨hlt, hn⟩ | ⟨heq, rfl⟩
    · rcases getElem?_snoc hi with ⟨-, hi⟩ | ⟨rfl, -⟩
      · rcases getElem?_snoc hx with ⟨-, hx⟩ | ⟨heq, -⟩
        · exact ih hi hx hn
        · omega
      · omega
    · rcases getElem?_snoc hi with ⟨-, hi⟩ | ⟨rfl, -⟩
      · rcases getElem?_snoc hx with ⟨-, hx⟩ | ⟨heq, -⟩
        · exact h.time_le hi hx heq ▸ hb.time
        · omega
      · omega

end Rounds

/-- How the end of an attempt ends the loop. -/
def RetryRules.Stops (rules : RetryRules) (b : Start) (x : End α) (r : Except CallError α) : Prop :=
  (∃ e f, x.outcome = .error e ∧ Retry.isFinal e = false ∧ b.number < rules.retries ∧
      rules.retry b.number e = .error f ∧ r = .error f) ∨
    ((∀ e, x.outcome = .error e → Retry.isFinal e = true ∨ rules.retries ≤ b.number ∨
      rules.retry b.number e = .ok false) ∧ r = x.outcome)

/-- How the loop ends between two attempts. -/
def Session.Breaks (rules : RetryRules) (ctx : Context) (s : Session α)
    (r : Except CallError α) : Prop :=
  (∃ e ∈ ctx.endings s.cancellation s.now, r = .error e) ∨
    ∃ e, rules.next s.starts.length = .error e ∧ r = .error e

/-- Where the loop stands after what it did. -/
def Session.Stands (rules : RetryRules) (ctx : Context) (s : Session α) : Prop :=
  match s.loop.phase with
  | .ready =>
    ∃ t, Rounds rules ctx s.starts s.ends t ∧ t ≤ s.now ∧ s.loop.attempt.toNat = s.starts.length
  | .pausing t => Rounds rules ctx s.starts s.ends t ∧ s.loop.attempt.toNat + 1 = s.starts.length
  | .trying n =>
    ∃ bs b t, s.starts = bs ++ [b] ∧ Rounds rules ctx bs s.ends t ∧ Begins rules ctx bs.length t b ∧
      b.number = s.loop.attempt ∧ b.node = n
  | .done r => (∃ t, Rounds rules ctx s.starts s.ends t ∧ s.Breaks rules ctx r) ∨
      ∃ bs b xs x t, s.starts = bs ++ [b] ∧ s.ends = xs ++ [x] ∧ Rounds rules ctx bs xs t ∧
        Begins rules ctx bs.length t b ∧ rules.Stops b x r

namespace Session

theorem stands_new : Stands rules ctx ({} : Session α) := ⟨0, .none, Nat.le_refl _, rfl⟩

/-- The count of attempts stays within the budget, and so within its word. -/
theorem toNat_succ {k : UInt32} (h : k.toNat + 1 ≤ rules.retries.toNat) :
    (k + 1).toNat = k.toNat + 1 := by
  have hmax := rules.retries.toNat_lt
  rw [UInt32.toNat_add]
  exact Nat.mod_eq_of_lt (by simp; omega)

/-- Time and cancellations leave the loop where it is. -/
theorem Stands.later {s' : Session α} (h : s.Stands rules ctx) (hl : s'.loop = s.loop)
    (hs : s'.starts = s.starts) (he : s'.ends = s.ends)
    (hc : s.cancellation.cancelled ⊆ s'.cancellation.cancelled) (hn : s.now ≤ s'.now) :
    s'.Stands rules ctx := by
  unfold Stands Breaks at *
  rw [hl, hs, he]
  cases hp : s.loop.phase with
  | ready =>
    rw [hp] at h
    obtain ⟨t, hr, ht, ha⟩ := h
    exact ⟨t, hr, Nat.le_trans ht hn, ha⟩
  | trying n => rwa [hp] at h
  | pausing t => rwa [hp] at h
  | done r =>
    rw [hp] at h
    rcases h with ⟨t, hr, ⟨e, hmem, he⟩ | hb⟩ | h
    · exact .inl ⟨t, hr, .inl ⟨e, Context.endings_subset hc hn hmem, he⟩⟩
    · exact .inl ⟨t, hr, .inr hb⟩
    · exact .inr h

/-- An attempt begins, or the loop breaks off. -/
theorem Stands.start (h : s.Stands rules ctx) (hp : s.loop.phase = .ready) :
    (s.start rules ctx).Stands rules ctx := by
  unfold Stands at h
  rw [hp] at h
  obtain ⟨t, hr, ht, ha⟩ := h
  unfold Session.start
  rcases Retry.start_cases rules (s.check ctx) s.loop with
    ⟨e, hc, he⟩ | ⟨e, hc, hn, he⟩ | ⟨n, hc, hn, he⟩
  · rw [he]
    exact .inl ⟨t, hr, .inl ⟨e, Context.mem_endings_of_check hc, rfl⟩⟩
  · rw [he]
    rw [ha] at hn
    exact .inl ⟨t, hr, .inr ⟨e, hn, rfl⟩⟩
  · rw [he]
    rw [ha] at hn
    exact ⟨s.starts, _, t, rfl, hr, ⟨ha, hn, hc, ht⟩, rfl, rfl⟩

/-- An attempt ends, and leads to the next one or to the end. -/
theorem Stands.finish {n : Discovery.Node} (h : s.Stands rules ctx) (hp : s.loop.phase = .trying n)
    (result : Except CallError α) (notes : List RetryNote) : Stands rules ctx { s with
      loop := (s.loop.finish rules s.now result).1
      ends := s.ends ++ [⟨s.now, result⟩]
      notes } := by
  unfold Stands at h
  rw [hp] at h
  obtain ⟨bs, b, t, hs, hr, hb, hnum, hnode⟩ := h
  have hlen : bs.length + 1 = s.starts.length := by
    rw [hs, List.length_append, List.length_singleton]
  rcases (Retry.finish_cases rules s.now result hp b hnum hnode).2 with
    ⟨e, rfl, hret, hl⟩ | ⟨e, f, rfl, hf, hlt, hret, hl⟩ | ⟨hstop, hl⟩
  · rw [← hnum] at hret hl
    have hmore := Rounds.more hr hb (x := ⟨s.now, .error e⟩) rfl hret
    rw [← hs] at hmore
    have hle := hmore.le_retries
    rw [hl]
    by_cases hz : rules.backoff b.number = 0
    · rw [if_pos hz]
      refine ⟨_, hmore, Nat.le_of_eq (by rw [hz]; rfl), ?_⟩
      change (b.number + 1).toNat = s.starts.length
      have hnext : b.number.toNat + 1 ≤ rules.retries.toNat := by
        rw [hb.number]
        omega
      rw [toNat_succ hnext, hb.number, hlen]
    · rw [if_neg hz]
      refine ⟨hmore, ?_⟩
      change b.number.toNat + 1 = s.starts.length
      rw [hb.number, hlen]
  · rw [← hnum] at hlt hret
    rw [hl]
    exact .inr ⟨bs, b, s.ends, _, t, hs, rfl, hr, hb, .inl ⟨e, f, rfl, hf, hlt, hret, rfl⟩⟩
  · rw [← hnum] at hstop
    rw [hl]
    exact .inr ⟨bs, b, s.ends, _, t, hs, rfl, hr, hb, .inr ⟨hstop, rfl⟩⟩

/-- A pause that ends in time, or with an ending of the context. -/
theorem Stands.wake (h : s.Stands rules ctx) {check : Except CallError Unit}
    (hc : ∀ e, check = .error e → e ∈ ctx.endings s.cancellation s.now) :
    Stands rules ctx { s with loop := s.loop.wake check s.now } := by
  by_cases hpause : ∃ t, s.loop.phase = .pausing t
  · obtain ⟨t, hp⟩ := hpause
    have hold := h
    unfold Stands at h
    rw [hp] at h
    obtain ⟨hr, ha⟩ := h
    rcases Retry.wake_cases hp check s.now with ⟨e, he, hl⟩ | ⟨-, ht, hl⟩ | ⟨-, -, hl⟩
    · rw [hl]
      exact .inl ⟨t, hr, .inl ⟨e, hc e he, rfl⟩⟩
    · rw [hl]
      have hle := hr.le_retries
      have hle : s.loop.attempt.toNat + 1 ≤ rules.retries.toNat := by omega
      exact ⟨t, hr, ht, (toNat_succ hle).trans ha⟩
    · rw [hl]
      exact hold
  · have hp : ∀ t, s.loop.phase ≠ .pausing t := by
      intro t ht
      exact hpause ⟨t, ht⟩
    rw [Retry.wake_of_not_pausing hp]
    exact h

/-- Wherever a move leads, the loop stands as what it did has it. -/
theorem Stands.step (h : s.Stands rules ctx) (m : Move α) :
    (s.step rules ctx m).Stands rules ctx := by
  cases m with
  | tick d => exact h.later rfl rfl rfl (fun _ => id) (Nat.le_add_right _ _)
  | cancel t => exact h.later rfl rfl rfl (List.subset_cons_self _ _) (Nat.le_refl _)
  | start =>
    simp only [Session.step]
    split
    · rename_i hp
      exact h.start hp
    · exact h
  | finish result =>
    simp only [Session.step]
    split
    · rename_i n hp
      exact h.finish hp result _
    · exact h
  | wake =>
    refine h.wake ?_
    intro e he
    cases he
  | interrupt e =>
    simp only [Session.step]
    split
    · rename_i hmem
      refine h.wake ?_
      intro e' he
      cases he
      exact hmem
    · exact h

/-- The notes are those of the attempts that have ended, in order. -/
def Noted (rules : RetryRules) (s : Session α) : Prop :=
  s.notes = (List.zipWith rules.notes s.starts s.ends).flatten

theorem zipWith_snoc_left {β γ δ : Type} {g : β → γ → δ} {l : List β} {l' : List γ} {a : β}
    (h : l'.length ≤ l.length) : List.zipWith g (l ++ [a]) l' = List.zipWith g l l' := by
  induction l generalizing l' with
  | nil =>
    rw [List.eq_nil_of_length_eq_zero (Nat.le_zero.1 h), List.zipWith_nil_right,
      List.zipWith_nil_right]
  | cons b l ih =>
    cases l' with
    | nil => rfl
    | cons c l' =>
      rw [List.cons_append, List.zipWith_cons_cons, List.zipWith_cons_cons,
        ih (Nat.le_of_succ_le_succ h)]

theorem Noted.step (hn : s.Noted rules) (h : s.Stands rules ctx) (m : Move α) :
    (s.step rules ctx m).Noted rules := by
  unfold Noted Stands at *
  cases m with
  | tick d => exact hn
  | cancel t => exact hn
  | wake => exact hn
  | interrupt e =>
    simp only [Session.step]
    split <;> exact hn
  | start =>
    simp only [Session.step]
    split
    · rename_i hp
      rw [hp] at h
      obtain ⟨t, hr, -⟩ := h
      unfold Session.start
      rcases Retry.start_cases rules (s.check ctx) s.loop with
        ⟨e, -, he⟩ | ⟨e, -, -, he⟩ | ⟨n, -, -, he⟩ <;> rw [he]
      · exact hn
      · exact hn
      · dsimp only
        rw [zipWith_snoc_left (Nat.le_of_eq hr.length.symm)]
        exact hn
    · exact hn
  | finish result =>
    simp only [Session.step]
    split
    · rename_i n hp
      rw [hp] at h
      obtain ⟨bs, b, t, hs, hr, hb, hnum, hnode⟩ := h
      -- The attempt that ends has its result now, and its notes with it.
      rw [hs, zipWith_snoc_left (Nat.le_of_eq hr.length.symm)] at hn
      simp only
      rw [hs, List.zipWith_append hr.length, List.flatten_append, ← hn,
        (Retry.finish_cases rules s.now result hp b hnum hnode).1]
      simp
    · exact hn

theorem stands_run (h : s.Stands rules ctx) (hn : s.Noted rules) (ms : List (Move α)) :
    (s.run rules ctx ms).Stands rules ctx ∧ (s.run rules ctx ms).Noted rules := by
  induction ms generalizing s with
  | nil => exact ⟨h, hn⟩
  | cons m ms ih => exact ih (h.step m) (hn.step h m)

/-- A pause that ends in time leads to the next number. -/
theorem Stands.attempt_wake (h : s.Stands rules ctx) (check : Except CallError Unit) :
    (s.loop.wake check s.now).attempt.toNat = s.loop.attempt.toNat ∨
      (s.loop.wake check s.now).attempt.toNat = s.loop.attempt.toNat + 1 := by
  unfold Stands at h
  by_cases hpause : ∃ t, s.loop.phase = .pausing t
  · obtain ⟨t, hp⟩ := hpause
    rw [hp] at h
    obtain ⟨hr, ha⟩ := h
    rcases Retry.wake_cases hp check s.now with ⟨e, -, hl⟩ | ⟨-, -, hl⟩ | ⟨-, -, hl⟩ <;> rw [hl]
    · exact .inl rfl
    · have hle := hr.le_retries
      have hnext : s.loop.attempt.toNat + 1 ≤ rules.retries.toNat := by omega
      exact .inr (toNat_succ hnext)
    · exact .inl rfl
  · rw [Retry.wake_of_not_pausing fun t ht => hpause ⟨t, ht⟩]
    exact .inl rfl

/-- The counter moves by one at most, and never past its word. -/
theorem Stands.attempt (h : s.Stands rules ctx) (m : Move α) :
    (s.step rules ctx m).loop.attempt.toNat = s.loop.attempt.toNat ∨
      (s.step rules ctx m).loop.attempt.toNat = s.loop.attempt.toNat + 1 := by
  cases m with
  | tick d => exact .inl rfl
  | cancel t => exact .inl rfl
  | start =>
    simp only [Session.step]
    split
    · unfold Session.start
      rcases Retry.start_cases rules (s.check ctx) s.loop with
        ⟨e, -, he⟩ | ⟨e, -, -, he⟩ | ⟨n, -, -, he⟩ <;>
        rw [he] <;> exact .inl rfl
    · exact .inl rfl
  | finish result =>
    simp only [Session.step]
    split
    · rename_i n hp
      unfold Stands at h
      rw [hp] at h
      obtain ⟨bs, b, t, hs, hr, hb, hnum, hnode⟩ := h
      dsimp only
      rcases (Retry.finish_cases rules s.now result hp b hnum hnode).2 with ⟨e, -, hret, hl⟩ |
        ⟨_, _, -, -, -, -, hl⟩ |
        ⟨-, hl⟩ <;> rw [hl]
      · split
        · exact .inr (toNat_succ (UInt32.lt_iff_toNat_lt.1 hret.2.1))
        · exact .inl rfl
      · exact .inl rfl
      · exact .inl rfl
    · exact .inl rfl
  | wake => exact h.attempt_wake _
  | interrupt e =>
    simp only [Session.step]
    split
    · exact h.attempt_wake _
    · exact .inl rfl

/-- No attempt begins in a context that has ended. -/
theorem starts_run (h : ctx.endings s.cancellation s.now ≠ []) (ms : List (Move α)) :
    (s.run rules ctx ms).starts = s.starts := by
  induction ms generalizing s with
  | nil => rfl
  | cons m ms ih =>
    -- A context that has ended stays so.
    have keep {c : Cancellation} {now : Instant} (hc : s.cancellation.cancelled ⊆ c.cancelled)
      (hn : s.now ≤ now) :
        ctx.endings c now ≠ [] := by
      intro hnil
      have hsub : ctx.endings s.cancellation s.now ⊆ ctx.endings c now :=
        Context.endings_subset hc hn
      rw [hnil] at hsub
      exact h (List.subset_nil.1 hsub)
    have hcheck : s.check ctx ≠ .ok () := by
      intro hok
      exact h (Context.check_eq_ok_iff.1 hok)
    have hm : (s.step rules ctx m).starts = s.starts ∧
        ctx.endings (s.step rules ctx m).cancellation (s.step rules ctx m).now ≠ [] := by
      cases m with
      | tick d => exact ⟨rfl, keep (fun _ => id) (Nat.le_add_right _ _)⟩
      | cancel t => exact ⟨rfl, keep (List.subset_cons_self _ _) (Nat.le_refl _)⟩
      | wake => exact ⟨rfl, h⟩
      | interrupt e =>
        simp only [Session.step]
        split <;> exact ⟨rfl, h⟩
      | finish result =>
        simp only [Session.step]
        split <;> exact ⟨rfl, h⟩
      | start =>
        simp only [Session.step]
        split
        · unfold Session.start
          rcases Retry.start_cases rules (s.check ctx) s.loop with
            ⟨e, -, he⟩ | ⟨e, hc, -⟩ | ⟨n, hc, -⟩
          · rw [he]
            exact ⟨rfl, h⟩
          · exact absurd hc hcheck
          · exact absurd hc hcheck
        · exact ⟨rfl, h⟩
    exact (ih hm.2).trans hm.1

/-- The attempts begun, but for one under way or at an end, have led on to the next. -/
theorem Stands.rounds (h : s.Stands rules ctx) : ∃ bs xs t, Rounds rules ctx bs xs t ∧
    ((s.starts = bs ∧ s.ends = xs ∧ ∀ r, s.loop.phase = .done r → s.Breaks rules ctx r) ∨
      ∃ b, s.starts = bs ++ [b] ∧ Begins rules ctx bs.length t b ∧
        ((s.ends = xs ∧ ∀ r, s.loop.phase ≠ .done r) ∨
        ∃ x r, s.ends = xs ++ [x] ∧ s.loop.phase = .done r ∧ rules.Stops b x r)) := by
  unfold Stands at h
  cases hp : s.loop.phase with
  | ready =>
    rw [hp] at h
    obtain ⟨t, hr, -⟩ := h
    exact ⟨_, _, t, hr, .inl ⟨rfl, rfl, nofun⟩⟩
  | pausing t =>
    rw [hp] at h
    exact ⟨_, _, t, h.1, .inl ⟨rfl, rfl, nofun⟩⟩
  | trying n =>
    rw [hp] at h
    obtain ⟨bs, b, t, hs, hr, hb, -⟩ := h
    exact ⟨bs, _, t, hr, .inr ⟨b, hs, hb, .inl ⟨rfl, nofun⟩⟩⟩
  | done r =>
    rw [hp] at h
    rcases h with ⟨t, hr, hbreak⟩ | ⟨bs, b, xs, x, t, hs, he, hr, hb, hstop⟩
    · refine ⟨_, _, t, hr, .inl ⟨rfl, rfl, ?_⟩⟩
      intro q hq
      cases hq
      exact hbreak
    · exact ⟨bs, xs, t, hr, .inr ⟨b, hs, hb, .inr ⟨x, r, he, rfl, hstop⟩⟩⟩

theorem Stands.begins (h : s.Stands rules ctx) (hi : s.starts[i]? = some b) :
    ∃ u, Begins rules ctx i u b := by
  obtain ⟨bs, xs, t, hr, hcase⟩ := h.rounds
  rcases hcase with ⟨rfl, -⟩ | ⟨b', hs, hb, -⟩
  · exact hr.begins hi
  · rw [hs] at hi
    rcases getElem?_snoc hi with ⟨-, hi⟩ | ⟨rfl, rfl⟩
    · exact hr.begins hi
    · exact ⟨t, hb⟩

/-- There is one attempt more than the budget allows to repeat, at most. -/
theorem Stands.limit (h : s.Stands rules ctx) : s.starts.length ≤ rules.retries.toNat + 1 := by
  obtain ⟨bs, xs, t, hr, hcase⟩ := h.rounds
  have hle := hr.le_retries
  rcases hcase with ⟨hs, -⟩ | ⟨b', hs, -⟩
  · rw [hs]
    omega
  · rw [hs, List.length_append, List.length_singleton]
    omega

/-- No two attempts are under way at the same time. -/
theorem Stands.paired (h : s.Stands rules ctx) :
    s.ends.length ≤ s.starts.length ∧ s.starts.length ≤ s.ends.length + 1 := by
  obtain ⟨bs, xs, t, hr, hcase⟩ := h.rounds
  have hlen := hr.length
  rcases hcase with ⟨hs, he, -⟩ | ⟨b', hs, -, ⟨he, -⟩ | ⟨x, r, he, -⟩⟩
  · rw [hs, he]
    omega
  · rw [hs, he, List.length_append, List.length_singleton]
    omega
  · rw [hs, he, List.length_append, List.length_append, List.length_singleton,
      List.length_singleton]
    omega

/-- Every attempt that was not the last has failed, and the policy wanted another one. -/
theorem Stands.retries (h : s.Stands rules ctx) (hi : s.starts[i]? = some b)
    (hx : s.ends[i]? = some x) (hmore : i + 1 < s.starts.length ∨ ∀ r, s.loop.phase ≠ .done r) :
    ∃ e, x.outcome = .error e ∧ rules.Retries b.number e := by
  obtain ⟨bs, xs, t, hr, hcase⟩ := h.rounds
  rcases hcase with ⟨hs, he, -⟩ | ⟨b', hs, -, ⟨he, -⟩ | ⟨x', r, he, hp, -⟩⟩
  · exact hr.retries (hs ▸ hi) (he ▸ hx)
  · rw [hs] at hi
    rw [he] at hx
    rcases getElem?_snoc hi with ⟨-, hi⟩ | ⟨rfl, -⟩
    · exact hr.retries hi hx
    · rw [hr.length, List.getElem?_eq_none (Nat.le_refl _)] at hx
      cases hx
  · have hlt := hmore.resolve_right fun hn => hn r hp
    rw [hs, List.length_append, List.length_singleton] at hlt
    have hlt : i < bs.length := by omega
    rw [hs, List.getElem?_append_left hlt] at hi
    rw [he, List.getElem?_append_left (hr.length ▸ hlt)] at hx
    exact hr.retries hi hx

theorem Stands.waits (h : s.Stands rules ctx) (hi : s.starts[i]? = some b)
    (hx : s.ends[i]? = some x) (hn : s.starts[i + 1]? = some b') :
    x.time + rules.backoff b.number ≤ b'.time := by
  obtain ⟨bs, xs, t, hr, hcase⟩ := h.rounds
  have hlen := hr.length
  rcases hcase with ⟨hs, he, -⟩ | ⟨c, hs, hb, hcase⟩
  · exact hr.waits (hs ▸ hi) (he ▸ hx) (hs ▸ hn)
  · have hxs (hlt : i < bs.length) : xs[i]? = some x := by
      rcases hcase with ⟨he, -⟩ | ⟨x', r, he, -⟩
      · rwa [he] at hx
      · rwa [he, List.getElem?_append_left (hlen ▸ hlt)] at hx
    rw [hs] at hi hn
    rcases getElem?_snoc hn with ⟨hlt, hn⟩ | ⟨heq, rfl⟩
    · rw [List.getElem?_append_left (Nat.lt_of_succ_lt hlt)] at hi
      exact hr.waits hi (hxs (Nat.lt_of_succ_lt hlt)) hn
    · have hlt : i < bs.length := by omega
      rw [List.getElem?_append_left hlt] at hi
      exact hr.time_le hi (hxs hlt) heq ▸ hb.time

/-- The loop was broken off between two attempts, or the last of them ended it. -/
theorem Stands.result (h : s.Stands rules ctx) (hp : s.loop.phase = .done r) :
    (s.Breaks rules ctx r ∧ s.ends.length = s.starts.length ∧ ∀ (i : Nat) (b : Start) (x : End α),
        s.starts[i]? = some b → s.ends[i]? = some x →
        ∃ e, x.outcome = .error e ∧ rules.Retries b.number e) ∨
      ∃ i b x, i + 1 = s.starts.length ∧ s.starts[i]? = some b ∧ s.ends[i]? = some x ∧
        rules.Stops b x r := by
  unfold Stands at h
  rw [hp] at h
  rcases h with ⟨t, hr, hbreak⟩ | ⟨bs, b, xs, x, t, hs, he, hr, hb, hstop⟩
  · exact .inl ⟨hbreak, hr.length.symm, fun i b x hi hx => hr.retries hi hx⟩
  · have hlast : bs.length + 1 = s.starts.length := by
      rw [hs, List.length_append, List.length_singleton]
    refine .inr ⟨bs.length, b, x, hlast, ?_, ?_, hstop⟩
    · rw [hs, List.getElem?_concat_length]
    · rw [he, hr.length, List.getElem?_concat_length]

/-- A pause lasts as long as the backoff says, from the end of the attempt before it. -/
theorem Stands.pauses (h : s.Stands rules ctx) (hp : s.loop.phase = .pausing t) :
    ∃ i b x, i + 1 = s.starts.length ∧ s.starts[i]? = some b ∧ s.ends[i]? = some x ∧
      t = x.time + rules.backoff b.number := by
  unfold Stands at h
  rw [hp] at h
  obtain ⟨hr, ha⟩ := h
  have hlen := hr.length
  have hi : s.loop.attempt.toNat < s.starts.length := by omega
  have hi' : s.loop.attempt.toNat < s.ends.length := by omega
  exact ⟨_, _, _, ha, List.getElem?_eq_getElem hi, List.getElem?_eq_getElem hi',
    hr.time_le (List.getElem?_eq_getElem hi) (List.getElem?_eq_getElem hi') ha⟩

/-- A pause goes on until its time is over. -/
theorem wake_pausing (hp : s.loop.phase = .pausing t) : (s.step rules ctx .wake).loop.phase =
    if t ≤ s.now then .ready else .pausing t := by
  change (s.loop.wake (.ok ()) s.now).phase = _
  rcases Retry.wake_cases hp (.ok ()) s.now with ⟨e, hc, -⟩ | ⟨-, ht, hl⟩ | ⟨-, ht, hl⟩
  · cases hc
  · rw [hl, if_pos ht]
  · rw [hl, if_neg (Nat.not_le_of_lt ht)]
    exact hp

/-- A pause is cut short by the end of the context, and by nothing else. -/
theorem interrupt_pausing (hp : s.loop.phase = .pausing t) (e : CallError) :
    (s.step rules ctx (.interrupt e)).loop.phase =
      if e ∈ ctx.endings s.cancellation s.now then .done (.error e) else .pausing t := by
  simp only [step]
  split
  · rcases Retry.wake_cases hp (.error e) s.now with ⟨f, hc, hl⟩ | ⟨hc, -⟩ | ⟨hc, -⟩ <;> cases hc
    rw [hl]
  · exact hp

/-- What a move has to find for the loop to take it. -/
def Awaits (s : Session α) : Move α → Prop
  | .tick _ | .cancel _ => False
  | .start => s.loop.phase = .ready
  | .finish _ => ∃ n, s.loop.phase = .trying n
  | .wake | .interrupt _ => ∃ t, s.loop.phase = .pausing t

/-- A move that the loop does not wait for changes the clock and the tokens at most. -/
theorem step_of_not_awaits (hm : ¬ s.Awaits m) :
    ∃ now c, s.step rules ctx m = { s with now, cancellation := c } := by
  cases m with
  | tick d => exact ⟨_, _, rfl⟩
  | cancel t => exact ⟨_, _, rfl⟩
  | start =>
    refine ⟨s.now, s.cancellation, ?_⟩
    simp only [Session.step]
    split
    · rename_i hp
      exact absurd hp hm
    · rfl
  | finish result =>
    refine ⟨s.now, s.cancellation, ?_⟩
    simp only [Session.step]
    split
    · rename_i n hp
      exact absurd ⟨n, hp⟩ hm
    · rfl
  | wake =>
    refine ⟨s.now, s.cancellation, ?_⟩
    simp only [Session.step, Retry.wake_of_not_pausing fun t ht => hm ⟨t, ht⟩]
  | interrupt e =>
    refine ⟨s.now, s.cancellation, ?_⟩
    simp only [Session.step, Retry.wake_of_not_pausing fun t ht => hm ⟨t, ht⟩, ite_self]

/-- How a loop goes on that is to make an attempt: its context has ended, the iterator fails, or the
attempt begins whose turn it is. -/
inductive Tries (rules : RetryRules) (ctx : Context) (s : Session α) : Session α → Prop
  | ended {e : CallError} (hc : ctx.check s.cancellation s.now = .error e) :
    Tries rules ctx s { s with loop := ⟨s.loop.attempt, .done (.error e)⟩ }
  | undrawn {e : CallError} (hc : ctx.check s.cancellation s.now = .ok ())
    (hn : rules.next s.starts.length = .error e) :
    Tries rules ctx s { s with loop := ⟨s.loop.attempt, .done (.error e)⟩ }
  | begun {b : Start} (hb : Begins rules ctx s.starts.length s.now b) (ht : b.time = s.now)
    (hc : b.cancellation = s.cancellation) :
    Tries rules ctx s { s with
      loop := ⟨s.loop.attempt, .trying b.node⟩
      starts := s.starts ++ [b] }

/-- A loop that is ready has one way to go, and its context and the iterator tell which. -/
theorem Stands.tries (h : s.Stands rules ctx) (hp : s.loop.phase = .ready) :
    Tries rules ctx s (s.step rules ctx .start) := by
  unfold Stands at h
  rw [hp] at h
  obtain ⟨t, -, -, ha⟩ := h
  simp only [Session.step, hp, Session.start]
  rcases Retry.start_cases rules (s.check ctx) s.loop with
    ⟨e, hc, he⟩ | ⟨e, hc, hn, he⟩ | ⟨n, hc, hn, he⟩ <;> rw [he]
  · exact .ended hc
  · exact .undrawn hc (ha ▸ hn)
  · have hb : Begins rules ctx s.starts.length s.now ⟨s.loop.attempt, n, s.now, s.cancellation⟩ :=
      ⟨ha, ha ▸ hn, hc, Nat.le_refl _⟩
    exact .begun hb rfl rfl

end Session

/-- Where the end of an attempt leads: to the next at once, to the pause before it, or to the end of
the loop. -/
inductive RetryRules.LeadsTo (rules : RetryRules) (b : Start) (x : End α) : RetryPhase α → Prop
  | again {e : CallError} (hx : x.outcome = .error e) (hr : rules.Retries b.number e)
    (hz : rules.backoff b.number = 0) : LeadsTo rules b x .ready
  | later {e : CallError} (hx : x.outcome = .error e) (hr : rules.Retries b.number e)
    (hz : rules.backoff b.number ≠ 0) :
    LeadsTo rules b x (.pausing (x.time + rules.backoff b.number))
  | ends {r : Except CallError α} (hr : rules.Stops b x r) : LeadsTo rules b x (.done r)

namespace Session

/-- Whatever an attempt comes to, the loop takes it, and the rules tell where it leads. -/
theorem Stands.leadsTo {n : Discovery.Node} (h : s.Stands rules ctx)
    (hp : s.loop.phase = .trying n) : ∃ bs b, s.starts = bs ++ [b] ∧ s.ends.length = bs.length ∧
      b.node = n ∧ ∀ r, (s.step rules ctx (.finish r)).starts = s.starts ∧
        (s.step rules ctx (.finish r)).ends = s.ends ++ [⟨s.now, r⟩] ∧
          rules.LeadsTo b ⟨s.now, r⟩ (s.step rules ctx (.finish r)).loop.phase := by
  unfold Stands at h
  rw [hp] at h
  obtain ⟨bs, b, t, hs, hr, -, hnum, hnode⟩ := h
  refine ⟨bs, b, hs, hr.length.symm, hnode, ?_⟩
  intro r
  simp only [Session.step, hp]
  refine ⟨trivial, trivial, ?_⟩
  rcases (Retry.finish_cases rules s.now r hp b hnum hnode).2 with
    ⟨e, rfl, hret, hl⟩ | ⟨e, f, rfl, hf, hlt, hret, hl⟩ | ⟨hstop, hl⟩ <;> rw [hl]
  · rw [← hnum] at hret ⊢
    by_cases hz : rules.backoff b.number = 0
    · rw [if_pos hz]
      exact .again rfl hret hz
    · rw [if_neg hz]
      exact .later rfl hret hz
  · rw [← hnum] at hlt hret
    exact .ends (.inl ⟨e, f, rfl, hf, hlt, hret, rfl⟩)
  · rw [← hnum] at hstop
    exact .ends (.inr ⟨hstop, rfl⟩)

/-- What is to hold of a loop wherever it stands: of its attempts and their number, of the notes it
made, of its going on, of what it does next, of its pauses, and of how it ends. -/
structure Obeys (rules : RetryRules) (ctx : Context) (s : Session α) : Prop where
  begins : ∀ (i : Nat) (b : Start), s.starts[i]? = some b →
    b.number.toNat = i ∧ rules.next i = .ok b.node ∧ ctx.endings b.cancellation b.time = []
  limit : s.starts.length ≤ rules.retries.toNat + 1
  closed : ctx.endings s.cancellation s.now ≠ [] → ∀ ms, (s.run rules ctx ms).starts = s.starts
  counter : ∀ m, (s.step rules ctx m).loop.attempt.toNat = s.loop.attempt.toNat ∨
    (s.step rules ctx m).loop.attempt.toNat = s.loop.attempt.toNat + 1
  paired : s.ends.length ≤ s.starts.length ∧ s.starts.length ≤ s.ends.length + 1
  noted : s.notes = (List.zipWith rules.notes s.starts s.ends).flatten
  goesOn : ∀ (i : Nat) (b : Start) (x : End α), s.starts[i]? = some b → s.ends[i]? = some x →
    (i + 1 < s.starts.length ∨ ∀ r, s.loop.phase ≠ .done r) →
    ∃ e, x.outcome = .error e ∧ rules.Retries b.number e
  waits : ∀ (i : Nat) (b : Start) (x : End α) (b' : Start), s.starts[i]? = some b →
    s.ends[i]? = some x → s.starts[i + 1]? = some b' →
    x.time + rules.backoff b.number ≤ b'.time
  still : ∀ m, ¬ s.Awaits m → ∃ now c, s.step rules ctx m = { s with now, cancellation := c }
  tries : s.loop.phase = .ready → Tries rules ctx s (s.step rules ctx .start)
  leads : ∀ n, s.loop.phase = .trying n → ∃ bs b, s.starts = bs ++ [b] ∧
    s.ends.length = bs.length ∧ b.node = n ∧
    ∀ r, (s.step rules ctx (.finish r)).starts = s.starts ∧
      (s.step rules ctx (.finish r)).ends = s.ends ++ [⟨s.now, r⟩] ∧
        rules.LeadsTo b ⟨s.now, r⟩ (s.step rules ctx (.finish r)).loop.phase
  pauses : ∀ t, s.loop.phase = .pausing t →
    (s.step rules ctx .wake).loop.phase = (if t ≤ s.now then .ready else .pausing t) ∧
    (∀ e, (s.step rules ctx (.interrupt e)).loop.phase =
      if e ∈ ctx.endings s.cancellation s.now then .done (.error e) else .pausing t) ∧
    ∃ i b x, i + 1 = s.starts.length ∧ s.starts[i]? = some b ∧ s.ends[i]? = some x ∧
      t = x.time + rules.backoff b.number
  result : ∀ r, s.loop.phase = .done r →
    (s.Breaks rules ctx r ∧ s.ends.length = s.starts.length ∧ ∀ (i : Nat) (b : Start) (x : End α),
      s.starts[i]? = some b → s.ends[i]? = some x →
      ∃ e, x.outcome = .error e ∧ rules.Retries b.number e) ∨
    ∃ i b x, i + 1 = s.starts.length ∧ s.starts[i]? = some b ∧ s.ends[i]? = some x ∧
      rules.Stops b x r

theorem Stands.obeys (h : s.Stands rules ctx) (hn : s.Noted rules) : Obeys rules ctx s where
  begins i b hi := by
    obtain ⟨u, hb⟩ := h.begins hi
    exact ⟨hb.number, hb.node, Context.check_eq_ok_iff.1 hb.check⟩
  limit := h.limit
  closed := starts_run
  counter := h.attempt
  paired := h.paired
  noted := hn
  goesOn i b x hi hx hmore := h.retries hi hx hmore
  waits i b x b' hi hx hn := h.waits hi hx hn
  still _ hm := step_of_not_awaits hm
  tries hp := h.tries hp
  leads _ hp := h.leadsTo hp
  pauses _ hp := ⟨wake_pausing hp, interrupt_pausing hp, h.pauses hp⟩
  result r hp := h.result hp

/-- Every run of the loop obeys. -/
theorem obeys_run (rules : RetryRules) (ctx : Context) (ms : List (Move α)) :
    Obeys rules ctx (run rules ctx {} ms) := by
  obtain ⟨h, hn⟩ := @stands_run α rules ctx {} stands_new rfl ms
  exact h.obeys hn

end Session
end Switchboard.Client
