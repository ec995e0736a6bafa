import Switchboard.Client.Context
import Switchboard.Client.Retry

/-! The loop of a call on its way through time: what it did, and why it ended. -/
namespace Switchboard.Client

open Discovery (Node)
open Rpc (CallError)

variable {α : Type} {rules : RetryRules} {ctx : Context} {r : Retry α} {n : Node} {e f : CallError}
  {now t : Instant} {c : Cancellation} {result : Except CallError α} {i : Nat}

/-- The beginning of an attempt, with the tokens that had been cancelled by then. -/
structure Start where
  number : UInt32
  node : Node
  time : Instant
  cancellation : Cancellation

structure End (α : Type) where
  time : Instant
  outcome : Except CallError α

/-- The lists have every attempt that was begun and every one that has ended, in order. -/
structure Session (α : Type) where
  now : Instant := 0
  cancellation : Cancellation := {}
  loop : Retry α := {}
  starts : List Start := []
  ends : List (End α) := []
  notes : List RetryNote := []

namespace Context

/-- A check passes exactly while the context has not ended. -/
theorem check_eq_ok_iff : ctx.check c now = .ok () ↔ ctx.endings c now = [] := by
  unfold check
  split <;> simp_all

theorem mem_endings_of_check (h : ctx.check c now = .error e) : e ∈ ctx.endings c now := by
  unfold check at h
  split at h
  · rename_i f fs hf
    cases h
    rw [hf]
    exact List.mem_cons_self
  · cases h

/-- A context that has ended stays so. -/
theorem endings_subset {c' : Cancellation} (hc : c.cancelled ⊆ c'.cancelled) (ht : t ≤ now) :
    ctx.endings c t ⊆ ctx.endings c' now := by
  intro e he
  rcases List.mem_append.1 he with he | he
  · refine List.mem_append_left _ ?_
    split at he
    · rename_i hcan
      obtain ⟨k, hk, hck⟩ := List.any_eq_true.1 hcan
      have hcan' : c'.isCancelled ctx.token = true :=
        List.any_eq_true.2 ⟨k, hk, List.contains_iff_mem.2 (hc (List.contains_iff_mem.1 hck))⟩
      rwa [if_pos hcan']
    · cases he
  · refine List.mem_append_right _ ?_
    split at he
    · rename_i hdue
      have hdue' : ctx.isOverdue now = true := by
        unfold isOverdue at hdue ⊢
        cases hd : ctx.deadline with
        | none => simp [hd] at hdue
        | some d =>
          simp only [hd, decide_eq_true_eq] at hdue ⊢
          exact Nat.le_trans hdue ht
      rwa [if_pos hdue']
    · cases he

end Context

namespace Session

/-- A pause is waited for together with the end of the context: where both have come, either may be
what the loop sees first, and so may either reason of a context that has ended for two. -/
inductive Move (α : Type)
  | tick (d : Duration)
  | cancel (t : Token)
  | start
  | finish (result : Except CallError α)
  | wake
  | interrupt (e : CallError)

def check (ctx : Context) (s : Session α) : Except CallError Unit := ctx.check s.cancellation s.now

def start (rules : RetryRules) (ctx : Context) (s : Session α) : Session α :=
  let loop := s.loop.start rules (s.check ctx)
  match loop.phase with
  | .trying n => { s with loop, starts := s.starts ++ [⟨s.loop.attempt, n, s.now, s.cancellation⟩] }
  | _ => { s with loop }

def step (rules : RetryRules) (ctx : Context) (s : Session α) : Move α → Session α
  | .tick d => { s with now := s.now + d }
  | .cancel t => { s with cancellation := s.cancellation.cancel t }
  | .start =>
    match s.loop.phase with
    | .ready => s.start rules ctx
    | _ => s
  | .finish result =>
    match s.loop.phase with
    | .trying _ =>
      let (loop, notes) := s.loop.finish rules s.now result
      { s with loop, ends := s.ends ++ [⟨s.now, result⟩], notes := s.notes ++ notes }
    | _ => s
  | .wake => { s with loop := s.loop.wake (.ok ()) s.now }
  | .interrupt e =>
    if e ∈ ctx.endings s.cancellation s.now then { s with loop := s.loop.wake (.error e) s.now }
    else s

def run (rules : RetryRules) (ctx : Context) (s : Session α) (ms : List (Move α)) : Session α :=
  ms.foldl (step rules ctx) s

end Session

/-- The policy has another attempt made after a failure. -/
def RetryRules.Retries (rules : RetryRules) (i : UInt32) (e : CallError) : Prop :=
  Retry.isFinal e = false ∧ i < rules.retries ∧ rules.retry i e = .ok true

/-- What is to be noted of an attempt that has ended. -/
def RetryRules.notes (rules : RetryRules) (b : Start) (x : End α) : List RetryNote :=
  match x.outcome with
  | .ok _ => [.marked b.node none]
  | .error e =>
    .marked b.node (some e) ::
      if Retry.isFinal e || rules.retries ≤ b.number then []
      else .asked b.number e ::
        match rules.retry b.number e with
        | .ok true => [.backedOff b.number]
        | _ => []

namespace Retry

/-- Where an attempt's end leaves the loop. -/
theorem finish_cases (rules : RetryRules) (now : Instant) (result : Except CallError α)
    (hp : r.phase = .trying n) (b : Start) (hb : b.number = r.attempt) (hn : b.node = n) :
    (r.finish rules now result).2 = rules.notes b ⟨now, result⟩ ∧
      ((∃ e, result = .error e ∧ rules.Retries r.attempt e ∧ (r.finish rules now result).1 =
          if rules.backoff r.attempt = 0 then ⟨r.attempt + 1, .ready⟩
          else ⟨r.attempt, .pausing (now + rules.backoff r.attempt)⟩) ∨
        (∃ e f, result = .error e ∧ isFinal e = false ∧ r.attempt < rules.retries ∧
          rules.retry r.attempt e = .error f ∧
            (r.finish rules now result).1 = ⟨r.attempt, .done (.error f)⟩) ∨
        ((∀ e, result = .error e → isFinal e = true ∨ rules.retries ≤ r.attempt ∨
            rules.retry r.attempt e = .ok false) ∧
          (r.finish rules now result).1 = ⟨r.attempt, .done result⟩)) := by
  subst hn
  cases result with
  | ok a => simp [finish, hp, RetryRules.notes]
  | error e =>
    simp only [finish, hp, afterFailure, RetryRules.notes, hb]
    by_cases hlast : (isFinal e || decide (rules.retries ≤ r.attempt)) = true
    · have hor : isFinal e = true ∨ rules.retries ≤ r.attempt := by simpa using hlast
      simp only [hlast, if_true]
      refine ⟨trivial, .inr (.inr ⟨?_, trivial⟩)⟩
      intro e' he'
      cases he'
      exact hor.imp_right .inl
    · have hand : isFinal e = false ∧ r.attempt < rules.retries := by simpa using hlast
      simp only [hlast]
      cases hd : rules.retry r.attempt e with
      | error f =>
        refine ⟨by simp, .inr (.inl ⟨e, f, rfl, hand.1, hand.2, hd, rfl⟩)⟩
      | ok go =>
        cases go with
        | false =>
          refine ⟨by simp, .inr (.inr ⟨?_, rfl⟩)⟩
          intro e' he'
          cases he'
          exact .inr (.inr hd)
        | true =>
          refine ⟨by simp, .inl ⟨e, rfl, ⟨hand.1, hand.2, hd⟩, ?_⟩⟩
          by_cases hz : rules.backoff r.attempt = 0 <;> simp [hz]

/-- Where a beginning leaves the loop. -/
theorem start_cases (rules : RetryRules) (check : Except CallError Unit) (r : Retry α) :
    (∃ e, check = .error e ∧ r.start rules check = ⟨r.attempt, .done (.error e)⟩) ∨
      (∃ e, check = .ok () ∧ rules.next r.attempt.toNat = .error e ∧
        r.start rules check = ⟨r.attempt, .done (.error e)⟩) ∨
      (∃ n, check = .ok () ∧ rules.next r.attempt.toNat = .ok n ∧
        r.start rules check = ⟨r.attempt, .trying n⟩) := by
  unfold start
  cases check with
  | error e => exact .inl ⟨e, rfl, rfl⟩
  | ok u =>
    cases hn : rules.next r.attempt.toNat with
    | error e => exact .inr (.inl ⟨e, rfl, rfl, rfl⟩)
    | ok n => exact .inr (.inr ⟨n, rfl, rfl, rfl⟩)

/-- Where a look at a pause leaves the loop. -/
theorem wake_cases (hp : r.phase = .pausing t) (check : Except CallError Unit) (now : Instant) :
    (∃ e, check = .error e ∧ r.wake check now = ⟨r.attempt, .done (.error e)⟩) ∨
      (check = .ok () ∧ t ≤ now ∧ r.wake check now = ⟨r.attempt + 1, .ready⟩) ∨
      (check = .ok () ∧ now < t ∧ r.wake check now = r) := by
  unfold wake
  simp only [hp]
  cases check with
  | error e => exact .inl ⟨e, rfl, rfl⟩
  | ok u =>
    by_cases ht : t ≤ now
    · exact .inr (.inl ⟨rfl, ht, by simp [ht]⟩)
    · exact .inr (.inr ⟨rfl, Nat.lt_of_not_le ht, by simp [ht]⟩)

theorem wake_of_not_pausing (hp : ∀ t, r.phase ≠ .pausing t) (check : Except CallError Unit)
    (now : Instant) :
    r.wake check now = r := by
  unfold wake
  split
  · rename_i t ht
    exact absurd ht (hp t)
  · rfl

end Retry
end Switchboard.Client
