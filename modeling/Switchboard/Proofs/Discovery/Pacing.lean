import Switchboard.Proofs.Discovery.Deletion
import Switchboard.Proofs.Discovery.Roster

/-! How long a watch loop leaves its watch alone, by what it has met since it began. -/
namespace Switchboard.Discovery

/-- How a loop fared with a watch: it could not be opened, it was opened, or an open one failed. -/
inductive Outcome
  | unopened
  | opened
  | broken
deriving DecidableEq

variable {os ps : List Outcome} {o : Outcome} {h h' : Hub} {e : HubEvent} {es fs : List HubEvent}
  {l m : Loop} {k n : Nat} {t : Instant}

namespace Outcome

/-- How often in a row, up to now, a watch could not be opened. -/
def streak (os : List Outcome) : Nat := (os.reverse.takeWhile (· == unopened)).length

/-- The pause after what a loop met last. While no watch has been open the pauses are one step
behind. -/
def pause (os : List Outcome) : Duration :=
  if streak os = 0 then 0
  else if streak os = os.length then
    if streak os = 1 then 0 else Nat.pow 10 (min (streak os - 1) 4)
  else Nat.pow 10 (min (streak os) 4)

/-- How many failures count, while no watch is open. -/
def count (os : List Outcome) : Nat :=
  min (if streak os = os.length then streak os else streak os + 1) 4

theorem streak_unopened : streak (os ++ [unopened]) = streak os + 1 := by
  simp [streak]

theorem streak_of_ne (ho : o ≠ unopened) : streak (os ++ [o]) = 0 := by
  simp [streak, ho]

theorem streak_le (os : List Outcome) : streak os ≤ os.length := by
  have hle := (List.takeWhile_sublist (· == unopened) (l := os.reverse)).length_le
  rwa [List.length_reverse] at hle

/-- What came before a watch was open makes no difference. -/
theorem streak_opened : streak (os ++ opened :: ps) = streak ps := by
  have hcut : (ps.reverse ++ opened :: os.reverse).takeWhile (· == unopened) =
      ps.reverse.takeWhile (· == unopened) := by
    rw [List.takeWhile_append]
    split
    · rename_i hall
      rw [List.takeWhile_cons_of_neg (by decide), List.append_nil]
      exact ((List.takeWhile_prefix _).eq_of_length hall).symm
    · rfl
  rw [streak, List.reverse_append, List.reverse_cons, List.append_assoc, List.singleton_append,
    hcut, streak]

/-- Once a watch was open, the pauses go by what came after it. -/
theorem pause_opened : pause (os ++ opened :: ps) = pause (opened :: ps) := by
  have hlt : streak ps < (os ++ opened :: ps).length := by
    rw [List.length_append, List.length_cons]
    have := streak_le ps
    omega
  have hlt' : streak ps < (opened :: ps).length := Nat.lt_succ_of_le (streak_le ps)
  have hs : streak ([] ++ opened :: ps) = streak ps := streak_opened
  rw [List.nil_append] at hs
  rw [pause, pause, streak_opened, hs, if_neg (Nat.ne_of_lt hlt), if_neg (Nat.ne_of_lt hlt')]

theorem count_unopened : count (os ++ [unopened]) = min (count os + 1) 4 := by
  simp only [count, streak_unopened, List.length_append, List.length_singleton,
    Nat.add_right_cancel_iff]
  split <;> omega

theorem count_of_ne (ho : o ≠ unopened) : count (os ++ [o]) = 1 := by
  simp [count, streak_of_ne ho]

theorem pause_of_ne (ho : o ≠ unopened) : pause (os ++ [o]) = 0 := by
  rw [pause, streak_of_ne ho, if_pos rfl]

theorem delay_of_ne {a : Nat} (ha : a ≠ 0) : Restart.delay a = Nat.pow 10 (min a 4) := if_neg ha

/-- The pause after such a failure, from the count before it. -/
theorem pause_unopened : pause (os ++ [unopened]) = Restart.delay (count os) := by
  have hs : streak (os ++ [unopened]) ≠ 0 := by simp [streak_unopened]
  rw [pause, if_neg hs, List.length_append, streak_unopened]
  by_cases hall : streak os = os.length
  · have hc : count os = min (streak os) 4 := by simp [count, hall]
    rw [if_pos (by simp [hall]), hc]
    by_cases hz : streak os = 0
    · simp [hz, Restart.delay]
    · rw [if_neg (by omega), delay_of_ne (by omega), Nat.min_assoc]
      rfl
  · have hc : count os = min (streak os + 1) 4 := by simp [count, hall]
    rw [if_neg (by simp [hall]), hc, delay_of_ne (by omega), Nat.min_assoc]
    rfl

theorem delay_mono {a b : Nat} (hab : a ≤ b) : Restart.delay a ≤ Restart.delay b := by
  unfold Restart.delay
  split
  · exact Nat.zero_le _
  · rw [if_neg (by omega)]
    exact Nat.pow_le_pow_right (by decide) (by omega)

theorem delay_le (a : Nat) : Restart.delay a ≤ 10000 := by
  unfold Restart.delay
  split
  · exact Nat.zero_le _
  · exact Nat.pow_le_pow_right (by decide : 0 < 10) (Nat.min_le_right _ 4)

theorem pause_cases (os : List Outcome) :
    pause os = 0 ∨ ∃ ps, os = ps ++ [unopened] ∧ pause os = Restart.delay (count ps) := by
  rcases List.eq_nil_or_concat' os with rfl | ⟨ps, o, rfl⟩
  · exact .inl rfl
  · by_cases ho : o = unopened
    · subst ho
      exact .inr ⟨ps, rfl, pause_unopened⟩
    · exact .inl (pause_of_ne ho)

theorem count_le (os : List Outcome) : count os ≤ 4 := Nat.min_le_right _ _

/-- In a streak the pauses never get shorter. -/
theorem pause_le_pause : pause os ≤ pause (os ++ [unopened]) := by
  rcases pause_cases os with hz | ⟨ps, rfl, hp⟩
  · rw [hz]
    exact Nat.zero_le _
  · rw [hp, pause_unopened, count_unopened]
    refine delay_mono ?_
    have := count_le ps
    omega

theorem pause_le (os : List Outcome) : pause os ≤ 10000 := by
  rcases pause_cases os with hz | ⟨ps, -, hp⟩
  · rw [hz]
    exact Nat.zero_le _
  · rw [hp]
    exact delay_le _

end Outcome

/-- Where a failure leaves a loop. -/
def Loop.rested (l : Loop) (now : Instant) : Loop := { l with
  restart := l.restart.failed.2
  phase := if l.restart.failed.1 = 0 then .fresh else .resting (now + l.restart.failed.1) }

namespace Hub

/-- What an event tells a loop of its watch. -/
def outcome? (h : Hub) (k : Nat) : HubEvent → Option Outcome
  | .opened id result =>
    if id = k ∧ ∃ l ∈ h.loop? k, l.phase = .opening then
      some (if result.isOk then .opened else .unopened)
    else none
  | .broke id _ => if id = k ∧ ∃ l ∈ h.loop? k, l.phase = .watching then some .broken else none
  | _ => none

/-- What a loop meets in a run. -/
def outcomes (k : Nat) : Hub → List HubEvent → List Outcome
  | _, [] => []
  | h, e :: es => (h.outcome? k e).toList ++ outcomes k (h.step e) es

theorem loop?_rest (hl : h.loop? k = some l) (st : Option Error) :
    ({ h with cache := { h.cache with status := st } }.rest l).loop? k =
      if h.cache.stopped then none else some (l.rested h.now) := by
  by_cases hs : h.cache.stopped = true
  · rw [if_pos hs]
    exact rest_of_stopped hs hl
  · simp only [rest, if_neg hs]
    exact loop?_put (m := l.rested h.now) hl rfl

/-- What an outcome does to its loop. -/
theorem outcome?_inv (ho : h.outcome? k e = some o) :
    ∃ l, h.loop? k = some l ∧ (l.phase = .watching ↔ o = .broken) ∧
      (h.step e).loop? k =
        if o = .opened then some { l with phase := .watching, restart := {} }
        else if h.cache.stopped then none else some (l.rested h.now) := by
  unfold outcome? at ho
  split at ho
  · rename_i id result
    split at ho
    · rename_i hc
      obtain ⟨rfl, l, hmem, hp⟩ := hc
      have hl : h.loop? id = some l := hmem
      refine ⟨l, hl, ?_, ?_⟩
      · cases ho
        rw [hp]
        split <;> simp
      · simp only [step, hl, if_pos hp]
        cases result with
        | ok u =>
          cases ho
          exact loop?_put (m := { l with phase := .watching, restart := {} }) hl rfl
        | error er =>
          cases ho
          exact loop?_rest hl (some er)
    · cases ho
  · rename_i id er
    split at ho
    · rename_i hc
      obtain ⟨rfl, l, hmem, hp⟩ := hc
      have hl : h.loop? id = some l := hmem
      cases ho
      refine ⟨l, hl, by simp [hp], ?_⟩
      simp only [step, hl, if_pos hp]
      exact loop?_rest hl (some er)
    · cases ho
  · cases ho

theorem loop?_phase (hl : h.loop? k = some l) (p : LoopPhase) :
    (h.setLoop { l with phase := p }).loop? k = some { l with phase := p } :=
  loop?_put hl rfl

/-- Other events end a loop, leave it alone or move it on to where it is not watching. -/
theorem outcome?_none (ho : h.outcome? k e = none) (hl : h.loop? k = some l) :
    (h.step e).loop? k = none ∨ (h.step e).loop? k = some l ∨
      l.phase ≠ .watching ∧
        ∃ p ≠ .watching, (h.step e).loop? k = some { l with phase := p } := by
  by_cases hk : e.mover? = some k
  · cases e with
    | pause id jitter =>
      cases hk
      simp only [step, hl]
      split
      · rename_i hp
        unfold pause
        split
        · exact .inl (endLoop_self hl)
        · refine .inr (.inr ⟨by simp [hp], _, ?_, loop?_phase hl _⟩)
          split <;> simp
      · exact .inr (.inl hl)
    | wake id =>
      cases hk
      simp only [step, hl, wake]
      split
      · rename_i hp
        split
        · exact .inr (.inr ⟨by simp [hp], _, by simp, loop?_phase hl _⟩)
        · exact .inr (.inl hl)
      · rename_i hp
        split
        · exact .inr (.inr ⟨by simp [hp], _, by simp, loop?_phase hl _⟩)
        · exact .inr (.inl hl)
      · exact .inr (.inl hl)
    -- A loop that waits for this would have met an outcome.
    | opened id result =>
      cases hk
      have hp : l.phase ≠ .opening := by
        intro hp
        simp [outcome?, hl, hp] at ho
      have hsame : h.step (.opened k result) = h := by simp only [step, hl, if_neg hp]
      rw [hsame]
      exact .inr (.inl hl)
    | received id ch =>
      cases hk
      simp only [step, hl]
      split <;> exact .inr (.inl hl)
    | broke id er =>
      cases hk
      have hp : l.phase ≠ .watching := by
        intro hp
        simp [outcome?, hl, hp] at ho
      have hsame : h.step (.broke k er) = h := by simp only [step, hl, if_neg hp]
      rw [hsame]
      exact .inr (.inl hl)
    | notice id =>
      cases hk
      simp only [step, hl]
      split
      · exact .inl (endLoop_self hl)
      · exact .inr (.inl hl)
    | look | answer | stop | tick => cases hk
  · exact .inr (.inl ((step_trans h e).loop?_of_ne hk hl))

/-- Loops start afresh, and under new ids. -/
theorem Trans.loop?_new (ht : Trans h e h') (hl : h.loop? k = none) (hm : h'.loop? k = some m) :
    k = h.nextLoop ∧ m.restart = {} ∧ m.phase = .fresh := by
  cases ht with
  | idle | start | received | stop | tick => cases hl.symm.trans hm
  | settled t f answer hf ha =>
    rw [loop?_settle, hl, Option.none_or] at hm
    split at hm
    · rename_i hs
      cases hm
      exact ⟨hs.2.symm, rfl, rfl⟩
    · cases hm
  | moved e id q q' st he hq hid hn =>
    change (h.setLoop q').loop? k = some m at hm
    rw [loop?_setLoop hq hid] at hm
    split at hm
    · rename_i hk
      cases hl.symm.trans (hk ▸ hq)
    · cases hl.symm.trans hm
  | ended e id q st he hq hs =>
    change (h.endLoop q).loop? k = some m at hm
    rw [loop?_endLoop hq] at hm
    split at hm
    · cases hm
    · cases hl.symm.trans hm

/-- The count that a loop with such a past should have. -/
def due (os : List Outcome) (l : Loop) : Nat := if l.phase = .watching then 0 else Outcome.count os

theorem due_watching (hp : l.phase = .watching) : due os l = 0 := if_pos hp

theorem due_of_ne (hp : l.phase ≠ .watching) : due os l = Outcome.count os := if_neg hp

/-- The count of a loop goes by what it has met. -/
structure Counts (h : Hub) (k : Nat) (os : List Outcome) : Prop where
  tidy : h.Tidy
  new : h.nextLoop ≤ k → os = []
  attempt : ∀ l, h.loop? k = some l → l.restart.attempt = due os l

theorem counts_new (ttl : Duration) : (new ttl).Counts k [] where
  tidy := tidy_new ttl
  new _ := rfl
  attempt l hl := by cases hl

theorem rested_phase (l : Loop) (now : Instant) : (l.rested now).phase ≠ .watching := by
  unfold Loop.rested
  dsimp only
  split <;> simp

/-- An outcome counts as it should, whatever the loop then makes of it. -/
theorem attempt_outcome (hp : l.phase = .watching ↔ o = .broken) (ho : o ≠ .opened)
    (ha : l.restart.attempt = due os l) :
    (l.rested h.now).restart.attempt = due (os ++ [o]) (l.rested h.now) := by
  rw [due_of_ne (rested_phase l h.now)]
  change min (l.restart.attempt + 1) 4 = _
  cases o with
  | opened => exact absurd rfl ho
  | unopened => rw [ha, due_of_ne (by simp [hp]), Outcome.count_unopened]
  | broken =>
    rw [ha, due_watching (by simp [hp]), Outcome.count_of_ne (by decide)]
    rfl

/-- A loop counts right after each event. -/
theorem Counts.step (hc : h.Counts k os) (e : HubEvent) :
    (h.step e).Counts k (os ++ (h.outcome? k e).toList) where
  tidy := hc.tidy.step (step_trans h e)
  new hk := by
    have hk' : h.nextLoop ≤ k := Nat.le_trans (step_trans h e).nextLoop_le hk
    cases ho : h.outcome? k e with
    | none => simp [hc.new hk']
    | some o =>
      obtain ⟨l, hl, -⟩ := outcome?_inv ho
      exact absurd (hc.tidy.known k l hl) (Nat.not_lt_of_le hk')
  attempt m hm := by
    cases ho : h.outcome? k e with
    | some o =>
      obtain ⟨l, hl, hp, hstep⟩ := outcome?_inv ho
      rw [hm] at hstep
      split at hstep
      · cases hstep
        rfl
      · rename_i hopen
        split at hstep
        · cases hstep
        · cases hstep
          exact attempt_outcome hp hopen (hc.attempt l hl)
    | none =>
      rw [Option.toList_none, List.append_nil]
      cases hl : h.loop? k with
      | none =>
        -- The loop has just been started, under an id that no outcome was for.
        obtain ⟨hk, hr, hp⟩ := (step_trans h e).loop?_new hl hm
        rw [due_of_ne (by simp [hp]), hc.new (Nat.le_of_eq hk.symm), hr]
        rfl
      | some l =>
        rcases outcome?_none ho hl with hn | hs | ⟨hp, p, hp', hs⟩
        · cases hn.symm.trans hm
        · cases hs.symm.trans hm
          exact hc.attempt _ hl
        · cases hs.symm.trans hm
          exact (hc.attempt l hl).trans ((due_of_ne hp).trans (due_of_ne hp').symm)

theorem Counts.run (hc : h.Counts k os) (es : List HubEvent) :
    (h.run es).Counts k (os ++ outcomes k h es) := by
  induction es generalizing h os with
  | nil => exact (List.append_nil os).symm ▸ hc
  | cons e es ih =>
    rw [outcomes, ← List.append_assoc]
    exact ih (hc.step e)

/-- A failure is paced by all the loop has met. -/
theorem Counts.delay (hc : h.Counts k os) (hl : h.loop? k = some l)
    (hp : l.phase = .watching ↔ o = .broken) (ho : o ≠ .opened) :
    l.restart.failed.1 = Outcome.pause (os ++ [o]) := by
  change Restart.delay l.restart.attempt = _
  rw [hc.attempt l hl]
  cases o with
  | opened => exact absurd rfl ho
  | unopened => rw [due_of_ne (by simp [hp]), Outcome.pause_unopened]
  | broken =>
    rw [due_watching (by simp [hp]), Outcome.pause_of_ne (by decide)]
    rfl

theorem due_le (os : List Outcome) (l : Loop) : due os l ≤ 4 := by
  unfold due
  split
  · exact Nat.zero_le _
  · exact Outcome.count_le os

/-- Until the instant a loop rests, whatever happens but a stop, and from then on it is ready to
open its watch again. -/
structure RestsUntil (h : Hub) (k : Nat) (t : Instant) : Prop where
  rests : ∀ es, .stop ∉ es → (h.run es).now < t →
    ∃ l, (h.run es).loop? k = some l ∧ l.phase = .resting t
  ready : ∀ es, .stop ∉ es → t ≤ (h.run es).now → (h.run es).loop? k = h.loop? k →
    ∃ l, ((h.run es).step (.wake k)).loop? k = some l ∧ l.phase = .fresh

/-- No event wakes a loop before its time, but a stop. -/
theorem step_resting (hl : h.loop? k = some l) (hp : l.phase = .resting t) (ht : h.now < t)
    (hs : h.cache.stopped = false) : (h.step e).loop? k = some l := by
  by_cases hk : e.mover? = some k
  · have hsame : h.step e = h := by
      cases e with
      | wake id =>
        cases hk
        simp [step, hl, wake, hp, Nat.not_le_of_lt ht]
      | pause | opened | received | broke =>
        cases hk
        simp [step, hl, hp]
      | notice id =>
        cases hk
        simp [step, hl, hs]
      | look | answer | stop | tick => cases hk
    rw [hsame]
    exact hl
  · exact (step_trans h e).loop?_of_ne hk hl

/-- Only the clock takes time. -/
theorem Trans.now_eq (ht : Trans h e h') (he : ∀ d, e ≠ .tick d) : h'.now = h.now := by
  cases ht with
  | settled t f answer hf ha =>
    obtain ⟨st, es, hs⟩ := settle_eq h f answer
    rw [hs]
  | tick d => exact absurd rfl (he d)
  | idle | start | received | moved | ended | stop => rfl

theorem now_run (es : List HubEvent) : h.now ≤ (h.run es).now := by
  induction es generalizing h with
  | nil => exact Nat.le_refl _
  | cons e es ih => exact Nat.le_trans (step_trans h e).now_le ih

/-- So a loop rests until its time, whatever happens. -/
theorem run_resting (hl : h.loop? k = some l) (hp : l.phase = .resting t)
    (hs : h.cache.stopped = false) (hstop : .stop ∉ es) (ht : (h.run es).now < t) :
    (h.run es).loop? k = some l := by
  induction es generalizing h with
  | nil => exact hl
  | cons e es ih =>
    rw [List.mem_cons, not_or] at hstop
    obtain ⟨he, hes⟩ := hstop
    have hnow : h.now < t := Nat.lt_of_le_of_lt (now_run (e :: es)) ht
    have hs' : (h.step e).cache.stopped = false :=
      ((step_trans h e).stopped (Ne.symm he)).trans hs
    exact ih (step_resting hl hp hnow hs) hs' hes ht

/-- A loop that has just failed rests for its pause exactly. -/
theorem restsUntil_of_loop? (hl : h.loop? k = some (l.rested n)) (hs : h.cache.stopped = false)
    (hn : h.now = n) : h.RestsUntil k (n + l.restart.failed.1) where
  rests es hstop ht := by
    have hnow := now_run (h := h) es
    have hd : l.restart.failed.1 ≠ 0 := by
      intro hd
      rw [hd, hn.symm] at ht
      exact Nat.not_lt_of_le hnow ht
    have hp : (l.rested n).phase = .resting (n + l.restart.failed.1) := if_neg hd
    exact ⟨_, run_resting hl hp hs hstop ht, hp⟩
  ready es hstop ht hsame := by
    rw [hl] at hsame
    by_cases hd : l.restart.failed.1 = 0
    · have hp : (l.rested n).phase = .fresh := if_pos hd
      refine ⟨_, ?_, hp⟩
      simp [step, hsame, wake, hp]
    · have hp : (l.rested n).phase = .resting (n + l.restart.failed.1) := if_neg hd
      simp only [step, hsame, wake, hp, if_pos ht]
      exact ⟨_, loop?_phase hsame .fresh, rfl⟩

/-- How a loop that has met this goes on: after a failure it rests as long as its past tells, and no
count of its failures is past the largest exponent. -/
structure Paced (h : Hub) (k : Nat) (os : List Outcome) : Prop where
  pause : ∀ e o, h.outcome? k e = some o → o ≠ .opened → h.cache.stopped = false →
    (h.step e).RestsUntil k (h.now + Outcome.pause (os ++ [o]))
  exponent : ∀ l, h.loop? k = some l → l.restart.attempt ≤ Restart.maxExponent

/-- So a loop that counts right keeps the pace. -/
theorem Counts.paced (hc : h.Counts k os) : h.Paced k os where
  pause e o ho hopen hs := by
    obtain ⟨l, hl, hp, hstep⟩ := outcome?_inv ho
    rw [if_neg hopen, hs] at hstep
    have he : e ≠ .stop := by
      rintro rfl
      cases ho
    have htick (d : Duration) : e ≠ .tick d := by
      rintro rfl
      cases ho
    have hs' : (h.step e).cache.stopped = false := ((step_trans h e).stopped he).trans hs
    rw [← hc.delay hl hp hopen]
    exact restsUntil_of_loop? hstep hs' ((step_trans h e).now_eq htick)
  exponent l hl := by
    rw [hc.attempt l hl]
    exact due_le os l

/-! Whatever loops may meet, some loop meets. -/

theorem outcomes_append :
    outcomes k h (es ++ fs) = outcomes k h es ++ outcomes k (h.run es) fs := by
  induction es generalizing h with
  | nil => rfl
  | cons e es ih =>
    rw [List.cons_append, outcomes, ih, outcomes, List.append_assoc]
    rfl

/-- A loop that is not at a watch: it is about to pause, or at rest. -/
structure Between (h : Hub) (k : Nat) : Prop where
  running : h.cache.stopped = false
  loop : ∃ l, h.loop? k = some l ∧ (l.phase = .fresh ∨ ∃ t, l.phase = .resting t)

theorem rested_between (l : Loop) (now : Instant) :
    (l.rested now).phase = .fresh ∨ ∃ t, (l.rested now).phase = .resting t := by
  unfold Loop.rested
  dsimp only
  split
  · exact .inl rfl
  · exact .inr ⟨_, rfl⟩

/-- A loop between watches comes to the top of its round when time passes. -/
theorem exists_fresh (hb : h.Between k) : ∃ d l,
    ((h.step (.tick d)).step (.wake k)).loop? k = some l ∧ l.phase = .fresh := by
  obtain ⟨-, l, hl, hp⟩ := hb
  have htick (d : Duration) : (h.step (.tick d)).loop? k = some l := hl
  rcases hp with hp | ⟨t, hp⟩
  · refine ⟨0, l, ?_, hp⟩
    have hsame : (h.step (.tick 0)).step (.wake k) = h.step (.tick 0) := by
      rw [step, htick 0]
      simp [wake, hp]
    rw [hsame]
    exact htick 0
  · refine ⟨t, { l with phase := .fresh }, ?_, rfl⟩
    have hpast : t ≤ (h.step (.tick t)).now := Nat.le_add_left _ _
    have hstep : (h.step (.tick t)).step (.wake k) =
        (h.step (.tick t)).setLoop { l with phase := .fresh } := by
      rw [step, htick t]
      simp only [wake, hp, if_pos hpast]
    rw [hstep]
    exact loop?_phase (htick t) .fresh

/-- A loop between watches comes to opening one. -/
theorem exists_opening (hb : h.Between k) : ∃ d l,
    (h.run [.tick d, .wake k, .pause k 0]).cache.stopped = false ∧
      (h.run [.tick d, .wake k, .pause k 0]).loop? k = some l ∧ l.phase = .opening := by
  obtain ⟨d, l, hl, hp⟩ := exists_fresh hb
  have hs : ((h.step (.tick d)).step (.wake k)).cache.stopped = false := by
    rw [(step_trans _ _).stopped (by simp), (step_trans _ _).stopped (by simp)]
    exact hb.running
  refine ⟨d, { l with phase := .opening }, ?_, ?_, rfl⟩
  · change (((h.step (.tick d)).step (.wake k)).step (.pause k 0)).cache.stopped = false
    rw [(step_trans _ _).stopped (by simp)]
    exact hs
  · change (((h.step (.tick d)).step (.wake k)).step (.pause k 0)).loop? k = _
    rw [step, hl]
    simp only [if_pos hp, pause, hs]
    exact loop?_phase hl .opening

end Hub

/-- What a loop meets at one go: the watch cannot be opened, or it is opened and fails later. -/
def Outcome.ofTry : Bool → List Outcome
  | true => [.opened, .broken]
  | false => [.unopened]

namespace Hub

theorem between_of_failed (ho : h.outcome? k e = some o) (hopen : o ≠ .opened)
    (hs : h.cache.stopped = false) : (h.step e).Between k := by
  obtain ⟨l, -, -, hstep⟩ := outcome?_inv ho
  rw [if_neg hopen, hs] at hstep
  have he : e ≠ .stop := by
    rintro rfl
    cases ho
  exact ⟨((step_trans h e).stopped he).trans hs, _, hstep, rested_between l h.now⟩

theorem outcome?_opened (hl : h.loop? k = some l) (hp : l.phase = .opening)
    (result : Except Error Unit) : h.outcome? k (.opened k result) =
      some (if result.isOk then .opened else .unopened) :=
  if_pos ⟨rfl, l, hl, hp⟩

theorem outcome?_broke (hl : h.loop? k = some l) (hp : l.phase = .watching) (er : Error) :
    h.outcome? k (.broke k er) = some .broken :=
  if_pos ⟨rfl, l, hl, hp⟩

/-- From there it can meet either kind of trouble next. -/
theorem exists_try (hb : h.Between k) (b : Bool) :
    ∃ es, outcomes k h es = Outcome.ofTry b ∧ (h.run es).Between k := by
  obtain ⟨d, l, hs, hl, hp⟩ := exists_opening hb
  have hnone : outcomes k h [.tick d, .wake k, .pause k 0] = [] := rfl
  generalize hes : [HubEvent.tick d, .wake k, .pause k 0] = es at hs hl hnone
  cases b with
  | false =>
    have ho := outcome?_opened hl hp (.error .watcherStopped)
    refine ⟨es ++ [.opened k (.error .watcherStopped)], ?_, ?_⟩
    · rw [outcomes_append, hnone, outcomes, ho]
      rfl
    · rw [run, List.foldl_append]
      exact between_of_failed ho (by decide) hs
  | true =>
    have ho := outcome?_opened hl hp (.ok ())
    obtain ⟨m, -, -, hopen⟩ := outcome?_inv ho
    have hs' : ((h.run es).step (.opened k (.ok ()))).cache.stopped = false := by
      rw [(step_trans _ _).stopped (by simp)]
      exact hs
    have ho' := outcome?_broke (hopen.trans (if_pos rfl)) rfl .watcherStopped
    refine ⟨es ++ [.opened k (.ok ()), .broke k .watcherStopped], ?_, ?_⟩
    · rw [outcomes_append, hnone, outcomes, ho, outcomes, ho']
      rfl
    · rw [run, List.foldl_append]
      exact between_of_failed ho' (by decide) hs'

/-- Whatever the outcomes of the goes that a loop has at its watch, some run has them. -/
theorem exists_run (hb : h.Between k) (bs : List Bool) :
    ∃ es, outcomes k h es = bs.flatMap Outcome.ofTry := by
  induction bs generalizing h with
  | nil => exact ⟨[], rfl⟩
  | cons b bs ih =>
    obtain ⟨es, hes, hb'⟩ := exists_try hb b
    obtain ⟨fs, hfs⟩ := ih hb'
    exact ⟨es ++ fs, by rw [outcomes_append, hes, hfs, List.flatMap_cons]⟩

theorem between_started (ttl : Duration) :
    ((new ttl).run [.look "", .answer 0 (.ok [])]).Between 0 :=
  ⟨rfl, { id := 0, name := "" }, rfl, .inl rfl⟩

/-- Whatever the loops of a cache have met, in whatever order, each pauses as its own past tells,
and any course of failures to open and of open watches that fail is one that some loop takes. In a
streak of failures to open the pauses do not get shorter, none is longer than ten seconds, and what
was before an open watch is forgotten. -/
theorem paced_run (ttl : Duration) :
    (∀ es k, ((new ttl).run es).Paced k (outcomes k (new ttl) es)) ∧
      (∀ bs : List Bool, ∃ es, outcomes 0 (new ttl) es = bs.flatMap Outcome.ofTry) ∧
      (∀ os, Outcome.pause os ≤ Outcome.pause (os ++ [.unopened])) ∧
      (∀ os, Outcome.pause os ≤ Duration.seconds 10) ∧
      ∀ os ps, Outcome.pause (os ++ .opened :: ps) = Outcome.pause (.opened :: ps) := by
  refine ⟨?_, ?_, fun os => Outcome.pause_le_pause, Outcome.pause_le,
    fun os ps => Outcome.pause_opened⟩
  · intro es k
    have hc : ((new ttl).run es).Counts k (outcomes k (new ttl) es) := (counts_new ttl).run es
    exact hc.paced
  · intro bs
    obtain ⟨es, hes⟩ := exists_run (between_started ttl) bs
    refine ⟨[.look "", .answer 0 (.ok [])] ++ es, ?_⟩
    rw [outcomes_append, hes]
    rfl

/-- The first watch opens at the third go and then fails. -/
def troubles : List HubEvent :=
  [.look "a", .answer 0 (.ok []), .pause 0 3, .tick 3, .wake 0, .opened 0 (.error .watcherStopped),
    .pause 0 0, .opened 0 (.error .watcherStopped), .tick 10, .wake 0, .pause 0 0,
    .opened 0 (.ok ()), .broke 0 .watcherStopped]

example : outcomes 0 (new 1) troubles = [.unopened, .unopened, .opened, .broken] ∧
    [1, 2, 4].map (fun n => Outcome.pause ((outcomes 0 (new 1) troubles).take n)) = [0, 10, 0] := by
  decide +kernel

end Hub
end Switchboard.Discovery
