import Switchboard.Client

/-! How a call comes by its response, and what it does to the responses that the client keeps. -/
namespace Switchboard.Client

open Discovery (Node)
open Rpc (Request Response CallError)

variable {σ : Type} {c : Client σ} {m : Client.Moment} {call : Call} {loop : Retry Outcome}
  {n : Node} {info : AttemptInfo} {a : Attempt} {out : Outgoing} {conn : Connection}
  {cache : ResponseCache} {stage : Stage} {result : Except CallError Outcome}
  {earned : Response → Prop} {x : Client σ × Call × List Action}

/-- No attempt of the loop has succeeded. -/
def Retry.Unwon {α : Type} (loop : Retry α) : Prop := ∀ a, loop.phase ≠ .done (.ok a)

namespace Retry

variable {rules : RetryRules} {check : Except CallError Unit} {now : Instant}

theorem unwon_start : (loop.start rules check).Unwon := by
  unfold start Unwon
  split
  · exact nofun
  · split <;> exact nofun

theorem Unwon.wake (h : loop.Unwon) : (loop.wake check now).Unwon := by
  unfold Retry.wake
  split
  · split
    · exact nofun
    · split
      · exact nofun
      · exact h
  · exact h

theorem unwon_afterFailure {e : CallError} : (loop.afterFailure rules now e).1.Unwon := by
  unfold afterFailure Unwon
  split
  · exact nofun
  · split
    · exact nofun
    · exact nofun
    · dsimp only
      split <;> exact nofun

/-- A loop is won by a result. -/
theorem Unwon.finish (h : loop.Unwon) (rules : RetryRules) (now : Instant)
    (result : Except CallError Outcome) : (loop.finish rules now result).1.Unwon ∨
    ∃ a, result = .ok a ∧ (loop.finish rules now result).1.phase = .done (.ok a) := by
  unfold Retry.finish
  split
  · cases result with
    | ok a => exact .inr ⟨a, rfl, rfl⟩
    | error e => exact .inl unwon_afterFailure
  · exact .inl h

end Retry

/-- What a call has at a stage: a loop that is not won, and at most a response that has come to it;
none if it is to open a stream. -/
def Stage.Sound (opens : Bool) (earned : Response → Prop) : Stage → Prop
  | .fresh | .selecting | .done _ => True
  | .looping loop => loop.Unwon
  | .dialling loop a => loop.Unwon ∧ a.outgoing.isRight = opens
  | .exchanging loop _ _ _ => loop.Unwon ∧ opens = false
  | .judging loop _ result =>
    loop.Unwon ∧ ∀ r, result = .ok (.response r) → opens = false ∧ earned r

theorem Stage.Sound.mono {earned' : Response → Prop} {opens : Bool} (hs : stage.Sound opens earned)
    (h : ∀ r, earned r → earned' r) : stage.Sound opens earned' := by
  cases stage with
  | judging loop info result => exact ⟨hs.1, fun r hr => (hs.2 r hr).imp_right (h r)⟩
  | fresh | selecting | looping | dialling | exchanging | done => exact hs

def Stage.Answered (stage : Stage) (r : Response) : Prop := stage = .done (.ok (.response r))

/-- A step of a call that neither looks into the cache nor gives a response. -/
structure Passes (earned : Response → Prop) (cache : ResponseCache) (call : Call)
    (x : Client σ × Call × List Action) : Prop where
  cache : x.1.cache = cache
  call : ∃ stage next, x.2.1 = { call with stage, next } ∧ stage.Sound call.opens earned ∧
    ∀ r, ¬ stage.Answered r

theorem passes_judge (hc : c.cache = cache) (hu : loop.Unwon)
    (hr : ∀ r, result = .ok (.response r) → call.opens = false ∧ earned r) :
    Passes earned cache call (c.judge call loop info result) :=
  ⟨hc, _, _, rfl, ⟨hu, hr⟩, nofun⟩

theorem passes_connect (hc : c.cache = cache) (hu : loop.Unwon) (ho : call.opens = false) :
    Passes earned cache call (c.connect m call loop n info out) := by
  unfold Client.connect
  dsimp only
  split
  · exact ⟨hc, _, _, rfl, ⟨hu, ho⟩, nofun⟩
  · exact ⟨hc, _, _, rfl, ⟨hu, ho.symm⟩, nofun⟩

theorem passes_transmit (hc : c.cache = cache) (hu : loop.Unwon) (ho : call.opens = false) :
    Passes earned cache call (c.transmit m call loop n info) := by
  unfold Client.transmit
  dsimp only
  split
  · exact passes_judge hc hu fun _ h => nomatch h
  · exact passes_connect hc hu ho

theorem passes_openChannel (hc : c.cache = cache) (hu : loop.Unwon) (ho : call.opens = true) :
    Passes earned cache call (c.openChannel call loop n info) := by
  unfold Client.openChannel
  split
  · exact passes_judge hc hu fun _ h => nomatch h
  · exact ⟨hc, _, _, rfl, ⟨hu, ho.symm⟩, nofun⟩

/-- An attempt that begins gives no response yet. -/
theorem passes_attempt (hu : loop.Unwon) :
    Passes earned c.cache call (c.attempt m call loop n) := by
  unfold Client.attempt
  dsimp only
  split
  · exact passes_judge rfl hu fun _ h => nomatch h
  · split
    · rename_i ho
      exact passes_openChannel rfl hu ho
    · rename_i ho
      exact passes_transmit rfl hu (Bool.eq_false_iff.2 ho)

theorem passes_dialled {r : Except Transport.Error Nat} (hu : loop.Unwon)
    (ho : a.outgoing.isRight = call.opens) :
    Passes earned c.cache call (c.dialled m call loop a r) := by
  unfold Client.dialled
  split
  · exact passes_judge rfl hu fun _ h => nomatch h
  · split
    · rename_i out hout
      refine ⟨rfl, _, _, rfl, ⟨hu, ?_⟩, nofun⟩
      rw [← ho, hout]
      rfl
    · exact passes_judge rfl hu fun _ h => nomatch h

/-- A response of an attempt is one that the reply gave. -/
theorem passes_arrived {x : Arrival} (hu : loop.Unwon) (ho : call.opens = false)
    (hx : ∀ r, (Exchange.decode out x).bind Exchange.accept = .ok r → earned r) :
    Passes earned c.cache call (c.arrived call loop a out conn x) := by
  unfold Client.arrived
  dsimp only
  refine ⟨rfl, _, _, rfl, ⟨hu, ?_⟩, nofun⟩
  intro r hr
  refine ⟨ho, hx r ?_⟩
  cases hd : (Exchange.decode out x).bind Exchange.accept with
  | error e =>
    rw [hd] at hr
    cases hr
  | ok q =>
    rw [hd] at hr
    cases hr
    rfl

theorem passes_resume (hc : c.cache = cache) (hu : loop.Unwon) (as : List Action) :
    Passes earned cache call ((c.resume m call loop).1, (c.resume m call loop).2, as) := by
  unfold Client.resume
  split
  · rename_i r hp
    cases r with
    | error e => exact ⟨hc, _, _, rfl, trivial, nofun⟩
    | ok o => exact absurd hp (hu o)
  · exact ⟨hc, _, _, rfl, hu, nofun⟩

/-- All that a step of a call can do to the responses kept. -/
inductive Yields (earned : Response → Prop) (cache : ResponseCache) (m : Client.Moment)
    (call : Call) : CallEvent → ResponseCache → Call → Prop
  | passes (e : CallEvent) (stage : Stage) (next : Next) (hs : stage.Sound call.opens earned)
    (hn : ∀ r, stage.Answered r → stage = call.stage) :
    Yields earned cache m call e cache { call with stage, next }
  | misses (stage : Stage) (next : Next) (ttl : Duration) (hs : stage.Sound call.opens earned)
    (hn : ∀ r, ¬ stage.Answered r) (hf : call.stage = .fresh) (ho : call.opens = false)
    (hc : call.options.cacheFor = some ttl) (hg : (cache.get m.now call.request).2 = none) :
    Yields earned cache m call .proceed (cache.get m.now call.request).1 { call with stage, next }
  | hits (r : Response) (ttl : Duration) (hf : call.stage = .fresh) (ho : call.opens = false)
    (hc : call.options.cacheFor = some ttl) (hg : (cache.get m.now call.request).2 = some r) :
    Yields earned cache m call .proceed (cache.get m.now call.request).1
      { call with stage := .done (.ok (.response r)) }
  | stores (r : Response) (ttl : Duration) (hf : call.stage ≠ .fresh) (hn : call.result? = none)
    (ho : call.opens = false) (hr : earned r) (hc : call.options.cacheFor = some ttl) :
    Yields earned cache m call .proceed (cache.set m.now call.request r ttl)
      { call with stage := .done (.ok (.response r)) }
  | gives (r : Response) (hf : call.stage ≠ .fresh) (hn : call.result? = none)
    (ho : call.opens = false) (hr : earned r) (hc : call.options.cacheFor = none) :
    Yields earned cache m call .proceed cache { call with stage := .done (.ok (.response r)) }

theorem Passes.yields {e : CallEvent} (h : Passes earned cache call x) :
    Yields earned cache m call e x.1.cache x.2.1 := by
  obtain ⟨hcache, stage, next, hcall, hs, hn⟩ := h
  rw [hcache, hcall]
  exact .passes e stage next hs fun r hr => absurd hr (hn r)

theorem yields_idle {e : CallEvent} (hs : call.stage.Sound call.opens earned) :
    Yields earned cache m call e cache call :=
  .passes e call.stage call.next hs fun _ _ => rfl

/-- The cache is looked into for a response if the call is to have one, and is told to keep it. -/
theorem cached?_cases (c : Client σ) (m : Client.Moment) (call : Call) :
    c.cached? m call = (c, none) ∨ call.opens = false ∧
      (∃ ttl, call.options.cacheFor = some ttl) ∧
        c.cached? m call = ({ c with cache := (c.cache.get m.now call.request).1 },
          (c.cache.get m.now call.request).2) := by
  unfold Client.cached?
  cases ho : call.opens with
  | true => exact .inl rfl
  | false =>
    cases hc : call.options.cacheFor with
    | none => exact .inl rfl
    | some ttl => exact .inr ⟨rfl, ⟨ttl, rfl⟩, rfl⟩

/-- A call that begins is answered from the cache, or goes on without a response. -/
theorem yields_start (hs : call.stage = .fresh) :
    Yields earned c.cache m call .proceed (c.start m call).1.cache (c.start m call).2.1 := by
  have unanswered (stage : Stage) (hs' : ∀ r, ¬ stage.Answered r) :
      ∀ r, stage.Answered r → stage = call.stage := fun r hr => absurd hr (hs' r)
  unfold Client.start
  split
  · exact .passes _ _ call.next trivial (unanswered _ nofun)
  rcases cached?_cases c m call with hnone | ⟨ho, ⟨ttl, httl⟩, hsome⟩
  · rw [hnone]
    dsimp only
    split
    · exact .passes _ _ call.next trivial (unanswered _ nofun)
    · exact .passes _ _ _ nofun (unanswered _ nofun)
  · rw [hsome]
    cases hg : (c.cache.get m.now call.request).2 with
    | some r => exact .hits r ttl hs ho httl hg
    | none =>
      dsimp only
      split
      · exact .misses _ call.next ttl trivial nofun hs ho httl hg
      · exact .misses _ _ ttl nofun nofun hs ho httl hg

/-- A hit asks for nothing, and changes nothing but the cache. -/
theorem start_answered {r : Response} (h : (c.start m call).2.1.stage.Answered r) :
    (c.start m call).1 = { c with cache := (c.cache.get m.now call.request).1 } ∧
      (c.start m call).2.2 = [] := by
  unfold Client.start at h ⊢
  split at h
  · cases h
  · rename_i hs
    rw [if_neg hs]
    rcases cached?_cases c m call with hnone | ⟨-, -, hsome⟩
    · rw [hnone] at h
      dsimp only at h
      split at h <;> cases h
    · rw [hsome] at h ⊢
      cases hg : (c.cache.get m.now call.request).2 with
      | some r => exact ⟨rfl, rfl⟩
      | none =>
        rw [hg] at h
        dsimp only at h
        split at h <;> cases h

theorem cache_report (c : Client σ) (m : Client.Moment) (info : AttemptInfo)
    (result : Except CallError Outcome) : (c.report m info result).cache = c.cache := by
  unfold Client.report
  split <;> rfl

/-- A call whose loop is won gives its response, and leaves it in the cache if it is told to. -/
theorem yields_won {o : Outcome} (hcache : c.cache = cache) (hp : loop.phase = .done (.ok o))
    (hf : call.stage ≠ .fresh) (hn : call.result? = none)
    (ho : ∀ r, o = .response r → call.opens = false ∧ earned r) :
    Yields earned cache m call .proceed (c.resume m call loop).1.cache
      (c.resume m call loop).2 := by
  simp only [Client.resume, hp, Client.settle]
  cases o with
  | channel ch =>
    rw [← hcache]
    exact .passes _ _ call.next trivial nofun
  | response r =>
    obtain ⟨hopens, hr⟩ := ho r rfl
    cases hc : call.options.cacheFor with
    | none =>
      rw [← hcache]
      exact .gives r hf hn hopens hr hc
    | some ttl =>
      rw [← hcache]
      exact .stores r ttl hf hn hopens hr hc

/-- A response is stored only where the call that earned it comes to its end. -/
theorem yields_proceed (hs : call.stage.Sound call.opens earned) :
    Yields earned c.cache m call .proceed (c.proceed m call).1.cache (c.proceed m call).2.1 := by
  unfold Client.proceed
  cases hstage : call.stage with
  | fresh => exact yields_start hstage
  | looping loop =>
    rw [hstage] at hs
    dsimp only
    split
    · split
      · exact (passes_attempt Retry.unwon_start).yields
      · exact (passes_resume rfl Retry.unwon_start []).yields
    · exact (passes_resume rfl (Retry.Unwon.wake hs) []).yields
  | judging loop info result =>
    rw [hstage] at hs
    dsimp only
    rcases Retry.Unwon.finish hs.1 call.rules m.now result with
      hu | ⟨o, rfl, hp⟩
    · exact (passes_resume (cache_report ..) hu []).yields
    · refine yields_won (cache_report ..) hp (by simp [hstage]) (by simp [Call.result?, hstage]) ?_
      rintro r rfl
      exact hs.2 r rfl
  | selecting | dialling | exchanging | done => exact yields_idle hs

/-- What arrives for a call is what comes to it. -/
theorem yields_step {e : CallEvent} (hs : call.stage.Sound call.opens earned)
    (he : ∀ x loop a out conn r, e = .arrived x → call.stage = .exchanging loop a out conn →
      (Exchange.decode out x).bind Exchange.accept = .ok r → earned r) :
    Yields earned c.cache m call e (c.step m call e).1.cache (c.step m call e).2.1 := by
  unfold Client.step
  split
  · exact yields_proceed hs
  · exact .passes _ _ _ nofun nofun
  · exact .passes _ _ call.next trivial nofun
  · rename_i r loop a hstage
    rw [hstage] at hs
    exact (passes_dialled hs.1 hs.2).yields
  · rename_i x loop a out conn hstage
    rw [hstage] at hs
    exact (passes_arrived hs.1 hs.2 fun r => he x loop a out conn r rfl hstage).yields
  · exact yields_idle hs

end Switchboard.Client
