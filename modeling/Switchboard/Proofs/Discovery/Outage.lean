import Mathlib.Data.List.Induction
import Switchboard.Proofs.Discovery.ServingCache
import Switchboard.Proofs.Runs

/-! What a cache does when its registry fails, and what its status tells. -/
namespace Switchboard.Discovery

variable {c : Cache} {h : Hub} {x : Entry} {f : Fetch} {l : Loop} {now : Instant} {name : String}
  {i j k t : Nat} {e : HubEvent} {er : Error} {ss : List Service}
  {answer r : Except Error (List Service)}

namespace Cache

/-- The services of the entry of a name, valid or not. -/
def Known (c : Cache) (name : String) (ss : List Service) : Prop :=
  ss ≠ [] ∧ ∃ x, c.entries.get? name = some x ∧ x.services = ss

/-- A failed fetch gives what is known, however old, and sets the status. -/
theorem settle_stale (hk : c.Known name ss) : c.settle now name (.error er) =
    ({ c with inFlight := c.inFlight.erase name, status := some er }, .ok ss) := by
  obtain ⟨hss, x, hx, rfl⟩ := hk
  simp [settle, hx, hss, fail]

/-- Where nothing is known it gives the error itself, and leaves the status. -/
theorem settle_cold (hk : ∀ ss, ¬ c.Known name ss) : c.settle now name (.error er) =
    ({ c with inFlight := c.inFlight.erase name }, .error er) := by
  cases hx : c.entries.get? name with
  | none => simp [settle, hx]
  | some x =>
    have hss : x.services = [] := by
      by_contra hne
      exact hk x.services ⟨hne, x, hx, rfl⟩
    simp [settle, hx, hss]

end Cache

namespace Hub

theorem settle_error : h.settle f (.error er) = { h with
    cache := (h.cache.settle h.now f.name (.error er)).1
    fetches := h.fetches.map fun g =>
      if g.ticket = f.ticket then
        { g with answer := some (h.cache.settle h.now f.name (.error er)).2 } else g } := rfl

theorem status_settle_ok : (h.settle f (.ok ss)).cache.status = none := by
  unfold settle Cache.settle
  dsimp only
  split <;> split <;> rfl

theorem status_rest : (h.rest l).cache.status = h.cache.status := by
  unfold rest
  split <;> rfl

theorem status_opened (hl : h.loop? k = some l) (hp : l.phase = .opening) :
    (h.step (.opened k (.error er))).cache.status = some er := by
  simp only [step, hl, if_pos hp, opened, status_rest, Cache.fail]

/-- A watch that breaks sets the status. -/
theorem status_broke (hl : h.loop? k = some l) (hp : l.phase = .watching) :
    (h.step (.broke k er)).cache.status = some er := by
  simp only [step, hl, if_pos hp, status_rest, Cache.fail]

theorem status_received {ch : Change} (hl : h.loop? k = some l) (hp : l.phase = .watching) :
    (h.step (.received k ch)).cache.status = none := by
  obtain ⟨es, hc⟩ := Cache.receive_eq h.cache h.now ch
  simp only [step, hl, if_pos hp, hc]

/-- A failure or a change tells something when a loop waits for it. -/
def Tells (h : Hub) : HubEvent → Prop
  | .answer _ _ => True
  | .opened k (.error _) => ∃ l, h.loop? k = some l ∧ l.phase = .opening
  | .broke k _ | .received k _ => ∃ l, h.loop? k = some l ∧ l.phase = .watching
  | _ => False

/-- An event that tells nothing leaves the status. -/
theorem status_step (he : ¬ h.Tells e) : (h.step e).cache.status = h.cache.status := by
  cases e with
  | answer t r => exact absurd trivial he
  | look name =>
    change (h.look name).1.cache.status = _
    unfold look
    rcases Cache.look_cases h.cache h.now name with ⟨ss, -, hc⟩ | ⟨-, t, -, hc⟩ | ⟨-, -, hc⟩ <;>
      rw [hc]
  | pause k jitter =>
    simp only [step, pause]
    split
    · split
      · split <;> rfl
      · rfl
    · rfl
  | wake k =>
    simp only [step, wake]
    split
    · split
      · split <;> rfl
      · split <;> rfl
      · rfl
    · rfl
  | opened k result =>
    cases hl : h.loop? k with
    | none => simp only [step, hl]
    | some l =>
      cases result with
      | ok u =>
        simp only [step, hl, opened]
        split <;> rfl
      | error er =>
        have hp : l.phase ≠ .opening := fun hp => he ⟨l, hl, hp⟩
        simp only [step, hl, if_neg hp]
  | received k ch =>
    cases hl : h.loop? k with
    | none => simp only [step, hl]
    | some l =>
      have hp : l.phase ≠ .watching := fun hp => he ⟨l, hl, hp⟩
      simp only [step, hl, if_neg hp]
  | broke k er =>
    cases hl : h.loop? k with
    | none => simp only [step, hl]
    | some l =>
      have hp : l.phase ≠ .watching := fun hp => he ⟨l, hl, hp⟩
      simp only [step, hl, if_neg hp]
  | notice k =>
    simp only [step]
    split
    · split <;> rfl
    · rfl
  | stop => rfl
  | tick d => rfl

end Hub

/-- A loop that has yet to leave has told what it had to tell. -/
theorem WatchLoops.status_step {s : WatchLoops} (hk : ∀ k, e.mover? = some k → k ∉ s.leaving) :
    (s.step (.event e)).hub.cache.status = (s.hub.step e).cache.status := by
  have hany : ¬ e.mover?.any (· ∈ s.leaving) = true := by
    intro ha
    obtain ⟨k, hmover, hmem⟩ := (Option.any_eq_true _ _).1 ha
    exact hk k hmover (by simpa using hmem)
  simp only [step, if_neg hany, take]
  split
  · rfl
  · split
    · rfl
    · split <;> rfl

namespace ServingCache

variable {d d' : ServingCache} {m n : Move} {ms : List Move}

def status (d : ServingCache) : Option Error := d.cache.status

/-- The moves with which the registry is found to fail: a fetch fails that has old services to give
out, a watch is not opened, and a watch fails. -/
inductive Fails (d : ServingCache) : Move → Error → Prop
  | stale (i : Nat) (name : String) (t : Nat) (er : Error) (ss : List Service)
    (h : d.Settling i name t (.error er)) (hk : d.cache.Known name ss) :
    Fails d (.caller (.settle i)) er
  | unopened (k : Nat) (er : Error) (h : d.Working k .opening) :
    Fails d (.aside (.event (.opened k (.error er)))) er
  | broken (k : Nat) (er : Error) (h : d.Working k .watching) :
    Fails d (.aside (.event (.broke k er))) er

/-- The moves with which the registry is found to be there. -/
inductive Recovers (d : ServingCache) : Move → Prop
  | fetched (i : Nat) (name : String) (t : Nat) (ss : List Service)
    (h : d.Settling i name t (.ok ss)) : Recovers d (.caller (.settle i))
  | received (k : Nat) (ch : Change) (h : d.Working k .watching) :
    Recovers d (.aside (.event (.received k ch)))

theorem Working.mover {p : LoopPhase} (h : d.Working k p) (he : e.mover? = some k) :
    ∀ j, e.mover? = some j → j ∉ d.watchLoops.leaving := by
  intro j hj
  rw [he] at hj
  cases hj
  exact h.1

/-- After a failure the status is its error. -/
theorem Fails.status (hs : d.lookups.Sound) (h : d.Fails m er) : (d.step m).status = some er := by
  cases h with
  | stale i name t er ss h hk =>
    obtain ⟨f, hf, rfl, -, -, hstep⟩ := h.fetch hs
    rw [h.step, hstep]
    change (d.hub.settle f (.error er)).cache.status = some er
    rw [Hub.settle_error, Cache.settle_stale hk]
  | unopened k er h =>
    have hmover := h.mover (e := .opened k (.error er)) rfl
    obtain ⟨-, l, hl, hp⟩ := h
    exact (WatchLoops.status_step hmover).trans (Hub.status_opened hl hp)
  | broken k er h =>
    have hmover := h.mover (e := .broke k er) rfl
    obtain ⟨-, l, hl, hp⟩ := h
    exact (WatchLoops.status_step hmover).trans (Hub.status_broke hl hp)

/-- After a success there is none. -/
theorem Recovers.status (hs : d.lookups.Sound) (h : d.Recovers m) : (d.step m).status = none := by
  cases h with
  | fetched i name t ss h =>
    obtain ⟨f, hf, rfl, -, -, hstep⟩ := h.fetch hs
    rw [h.step, hstep]
    exact Hub.status_settle_ok
  | received k ch h =>
    have hmover := h.mover (e := .received k ch) rfl
    obtain ⟨-, l, hl, hp⟩ := h
    exact (WatchLoops.status_step hmover).trans (Hub.status_received hl hp)

theorem Settling.status_cold (h : d.Settling i name t (.error er)) (hs : d.lookups.Sound)
    (hk : ∀ ss, ¬ d.cache.Known name ss) : (d.step (.caller (.settle i))).status = d.status := by
  obtain ⟨f, hf, rfl, -, -, hstep⟩ := h.fetch hs
  rw [h.step, hstep]
  change (d.hub.settle f (.error er)).cache.status = d.hub.cache.status
  rw [Hub.settle_error, Cache.settle_cold hk]

/-- Of what callers do, only the end of a fetch tells of the registry. -/
theorem status_call {m : SharedLookups.Move} (ht : Trans d (.caller m) d') (hm : ∀ i, m ≠ .settle i) :
    d'.status = d.status := by
  cases ht with
  | idle => rfl
  | called m c ho hc =>
    cases hc with
    | started i name hc hv hf => exact Hub.status_step (e := .look name) id
    | settled i t r hr => exact absurd rfl (hm i)
    | aside e he => exact absurd rfl (ho e)
    | idle | arrived | hit | missed | joined | called | replied | took | left => rfl

/-- A fetch that ends otherwise leaves the status as it was. -/
theorem status_settle (hs : d.lookups.Sound) (hf : ∀ er, ¬ d.Fails (.caller (.settle i)) er)
    (hr : ¬ d.Recovers (.caller (.settle i))) :
    (d.step (.caller (.settle i))).status = d.status := by
  by_cases hset : ∃ name t r, d.Settling i name t r
  · obtain ⟨name, t, r, h⟩ := hset
    cases r with
    | ok ss => exact absurd (.fetched i name t ss h) hr
    | error er =>
      have hk (ss : List Service) : ¬ d.cache.Known name ss :=
        fun hk => hf er (.stale i name t er ss h hk)
      obtain ⟨f, -, rfl, -, -, hstep⟩ := h.fetch hs
      rw [h.step, hstep]
      change (d.hub.settle f (.error er)).cache.status = d.hub.cache.status
      rw [Hub.settle_error, Cache.settle_cold hk]
  · rw [step_settle_of_not fun name t r h => hset ⟨name, t, r, h⟩]

theorem status_watch (hf : ∀ er, ¬ d.Fails (.aside (.event e)) er)
    (hr : ¬ d.Recovers (.aside (.event e))) (ha : SharedLookups.Aside e) :
    (d.watchLoops.step (.event e)).hub.cache.status = d.status := by
  by_cases hk : ∀ k, e.mover? = some k → k ∉ d.leaving
  · rw [WatchLoops.status_step (s := d.watchLoops) hk]
    refine Hub.status_step ?_
    intro htells
    cases e with
    | answer t r => exact ha
    | opened k result =>
      cases result with
      | ok u => exact htells
      | error er => exact hf er (.unopened k er ⟨hk k rfl, htells⟩)
    | broke k er => exact hf er (.broken k er ⟨hk k rfl, htells⟩)
    | received k ch => exact hr (.received k ch ⟨hk k rfl, htells⟩)
    | look | pause | wake | notice | stop | tick => exact htells
  · have hany : e.mover?.any (· ∈ d.watchLoops.leaving) = true := by
      push Not at hk
      obtain ⟨k, hmover, hmem⟩ := hk
      exact (Option.any_eq_true _ _).2 ⟨k, hmover, decide_eq_true hmem⟩
    rw [WatchLoops.step, if_pos hany]
    rfl

theorem status_leave (d : ServingCache) (k : Nat) :
    (d.watchLoops.step (.leave k)).hub.cache.status = d.status := by
  simp only [WatchLoops.step]
  split
  · split <;> rfl
  · rfl

/-- What shows neither that the registry fails nor that it is there leaves the status alone. -/
theorem status_step (hs : d.lookups.Sound) (hf : ∀ er, ¬ d.Fails m er) (hr : ¬ d.Recovers m) :
    (d.step m).status = d.status := by
  cases m with
  | caller m =>
    cases m with
    | settle i => exact status_settle hs hf hr
    | arrive | peek | look | call | reply | take | leave | other =>
      exact status_call (step_trans d _) nofun
  | aside m =>
    cases m with
    | leave k => exact status_leave d k
    | event e =>
      cases e with
      | look | answer => rfl
      | pause | wake | opened | received | broke | notice | stop | tick =>
        exact status_watch hf hr trivial

/-! The status after a run. -/

def FailsAt (d : ServingCache) (ms : List Move) (i : Nat) (er : Error) : Prop :=
  Runs.At step (fun d m => d.Fails m er) d ms i

def RecoversAt (d : ServingCache) (ms : List Move) (i : Nat) : Prop :=
  Runs.At step Recovers d ms i

/-- The latest that was found of the registry is that it fails, with this error. -/
def LastFailure (d : ServingCache) (ms : List Move) (er : Error) : Prop :=
  ∃ i, d.FailsAt ms i er ∧ ∀ j, i < j → ¬ d.RecoversAt ms j ∧ ∀ er', ¬ d.FailsAt ms j er'

/-- No failure has come since the registry was last found to be there. -/
def Recovered (d : ServingCache) (ms : List Move) : Prop :=
  ∀ i er, d.FailsAt ms i er → ∃ j, i < j ∧ d.RecoversAt ms j

theorem failsAt_snoc :
    d.FailsAt (ms ++ [m]) i er ↔ d.FailsAt ms i er ∨ i = ms.length ∧ (d.run ms).Fails m er :=
  Runs.at_snoc

theorem recoversAt_snoc :
    d.RecoversAt (ms ++ [m]) i ↔ d.RecoversAt ms i ∨ i = ms.length ∧ (d.run ms).Recovers m :=
  Runs.at_snoc

theorem FailsAt.unique {er' : Error} (hs : d.lookups.Sound) (h : d.FailsAt ms i er)
    (h' : d.FailsAt ms i er') : er' = er := by
  obtain ⟨m, hm, hf⟩ := h
  obtain ⟨n, hn, hf'⟩ := h'
  cases hm.symm.trans hn
  have hstage : (Runs.stage step d ms i).lookups.Sound := sound_run hs _
  exact Option.some.inj ((hf'.status hstage).symm.trans (hf.status hstage))

theorem LastFailure.unique {er' : Error} (hs : d.lookups.Sound) (h : d.LastFailure ms er)
    (h' : d.LastFailure ms er') : er' = er := by
  obtain ⟨i, hf, hi⟩ := h
  obtain ⟨j, hf', hj⟩ := h'
  rcases Nat.lt_trichotomy i j with hij | rfl | hji
  · exact absurd hf' ((hi j hij).2 er')
  · exact hf.unique hs hf'
  · exact absurd hf ((hj i hji).2 er)

theorem LastFailure.not_recovered (h : d.LastFailure ms er) : ¬ d.Recovered ms := by
  intro hr
  obtain ⟨i, hf, hi⟩ := h
  obtain ⟨j, hij, hj⟩ := hr i er hf
  exact (hi j hij).1 hj

theorem lastFailure_of_fails (h : (d.run ms).Fails m er) : d.LastFailure (ms ++ [m]) er := by
  refine ⟨ms.length, failsAt_snoc.2 (.inr ⟨rfl, h⟩), ?_⟩
  intro j hj
  have hend : (ms ++ [m]).length ≤ j := by
    rw [List.length_append, List.length_singleton]
    exact hj
  exact ⟨Runs.not_at_of_length_le hend, fun er' => Runs.not_at_of_length_le hend⟩

theorem recovered_of_recovers (hs : d.lookups.Sound) (h : (d.run ms).Recovers m) :
    d.Recovered (ms ++ [m]) := by
  intro i er hf
  rcases failsAt_snoc.1 hf with hf | ⟨-, hf⟩
  · exact ⟨ms.length, hf.lt, recoversAt_snoc.2 (.inr ⟨rfl, h⟩)⟩
  · have := (hf.status (sound_run hs ms)).symm.trans (h.status (sound_run hs ms))
    cases this

/-- Moves that neither fail nor succeed leave the last failure what it was. -/
theorem LastFailure.snoc (hf : ∀ er, ¬ (d.run ms).Fails m er) (hr : ¬ (d.run ms).Recovers m)
    (h : d.LastFailure ms er) : d.LastFailure (ms ++ [m]) er := by
  obtain ⟨i, hi, hlast⟩ := h
  refine ⟨i, failsAt_snoc.2 (.inl hi), ?_⟩
  intro j hj
  obtain ⟨hrec, hfail⟩ := hlast j hj
  constructor
  · intro h
    rcases recoversAt_snoc.1 h with h | ⟨-, h⟩
    · exact hrec h
    · exact hr h
  · intro er' h
    rcases failsAt_snoc.1 h with h | ⟨-, h⟩
    · exact hfail er' h
    · exact hf er' h

theorem Recovered.snoc (hf : ∀ er, ¬ (d.run ms).Fails m er) (h : d.Recovered ms) :
    d.Recovered (ms ++ [m]) := by
  intro i er hi
  rcases failsAt_snoc.1 hi with hi | ⟨-, hi⟩
  · obtain ⟨j, hij, hj⟩ := h i er hi
    exact ⟨j, hij, recoversAt_snoc.2 (.inl hj)⟩
  · exact absurd hi (hf er)

/-- By induction from the end: what the last move tells, it has put into the status. -/
theorem status_tells (hs : d.lookups.Sound) (hd : d.status = none) (ms : List Move) :
    (∀ er, (d.run ms).status = some er → d.LastFailure ms er) ∧
      ((d.run ms).status = none → d.Recovered ms) := by
  induction ms using List.reverseRecOn with
  | nil =>
    constructor
    · intro er h
      cases hd.symm.trans h
    · rintro - i er ⟨m, hm, -⟩
      cases hm
  | append_singleton ms m ih =>
    have hrun : d.run (ms ++ [m]) = (d.run ms).step m := List.foldl_append ..
    rw [hrun]
    by_cases hf : ∃ er, (d.run ms).Fails m er
    · obtain ⟨er, hf⟩ := hf
      rw [hf.status (sound_run hs ms)]
      refine ⟨?_, nofun⟩
      rintro er' ⟨⟩
      exact lastFailure_of_fails hf
    by_cases hr : (d.run ms).Recovers m
    · rw [hr.status (sound_run hs ms)]
      exact ⟨nofun, fun _ => recovered_of_recovers hs hr⟩
    · have hf' : ∀ er, ¬ (d.run ms).Fails m er := fun er h => hf ⟨er, h⟩
      rw [status_step (sound_run hs ms) hf' hr]
      exact ⟨fun er h => (ih.1 er h).snoc hf' hr, fun h => (ih.2 h).snoc hf'⟩

/-- The status is the last failure, as long as nothing has succeeded since. -/
theorem status_eq_some (hs : d.lookups.Sound) (hd : d.status = none) :
    (d.run ms).status = some er ↔ d.LastFailure ms er := by
  obtain ⟨hsome, hnone⟩ := status_tells hs hd ms
  refine ⟨hsome er, fun h => ?_⟩
  cases hst : (d.run ms).status with
  | none => exact absurd (hnone hst) h.not_recovered
  | some er' => rw [h.unique hs (hsome er' hst)]

/-- There is no status before any failure, and after a recovery. -/
theorem status_eq_none (hs : d.lookups.Sound) (hd : d.status = none) :
    (d.run ms).status = none ↔ d.Recovered ms := by
  obtain ⟨hsome, hnone⟩ := status_tells hs hd ms
  refine ⟨hnone, fun h => ?_⟩
  cases hst : (d.run ms).status with
  | none => rfl
  | some er => exact absurd h (hsome er hst).not_recovered

/-! A fetch that fails. -/

/-- A fetch of a name has failed, and it takes away nothing that was known. -/
structure Endures (d d' : ServingCache) (name : String) (t : Nat) (er : Error) : Prop where
  entries : d'.cache.entries = d.cache.entries
  watched : d'.cache.watched = d.cache.watched
  loops : d'.hub.loops = d.hub.loops
  leaving : d'.leaving = d.leaving
  inFlight : ∀ n, d'.cache.inFlight.get? n = if name = n then none else d.cache.inFlight.get? n
  joined : ∀ j u, d.lookups.callers j = .waiting name u → d.hub.answer? u = none → u = t
  stale : ∀ ss, d.cache.Known name ss → d'.Gives t (.ok ss) ∧ d'.status = some er
  cold : (∀ ss, ¬ d.cache.Known name ss) → d'.Gives t (.error er) ∧ d'.status = d.status

/-- All that a fetch that fails leaves behind. -/
theorem Settling.failed (h : d.Settling i name t (.error er)) (hs : d.lookups.Sound) :
    ∃ st fs, d.step (.caller (.settle i)) = { d with lookups := { d.lookups with hub := { d.hub with
      cache := { d.cache with inFlight := d.cache.inFlight.erase name, status := st }
      fetches := fs } } } := by
  obtain ⟨f, hf, rfl, -, -, hstep⟩ := h.fetch hs
  rw [h.step, hstep, Hub.settle_error]
  by_cases hk : ∃ ss, d.cache.Known f.name ss
  · obtain ⟨ss, hk⟩ := hk
    rw [Cache.settle_stale hk]
    exact ⟨some er, _, rfl⟩
  · have hk' (ss : List Service) : ¬ d.cache.Known f.name ss := fun hss => hk ⟨ss, hss⟩
    rw [Cache.settle_cold hk']
    exact ⟨d.cache.status, _, rfl⟩

/-- What one failed fetch does to the cache and to its callers. -/
theorem Settling.endures (h : d.Settling i name t (.error er)) (hs : d.lookups.Sound) :
    d.Endures (d.step (.caller (.settle i))) name t er := by
  have hgives := h.gives hs
  obtain ⟨st, fs, hd⟩ := h.failed hs
  refine ⟨?_, ?_, ?_, ?_, ?_, fun j u hj hu => h.joined hs hj hu, ?_, ?_⟩
  · rw [hd]
  · rw [hd]
  · rw [hd]
  · rw [hd]
  · intro n
    rw [hd]
    exact Dict.get?_erase
  · intro ss hk
    rw [Cache.settle_stale hk] at hgives
    exact ⟨hgives, (Fails.stale i name t er ss h hk).status hs⟩
  · intro hk
    rw [Cache.settle_cold hk] at hgives
    exact ⟨hgives, h.status_cold hs hk⟩

/-- What an outage does to a cache at work, and what the status tells of it. -/
structure Weathers (d : ServingCache) (ms : List Move) : Prop where
  fetch : ∀ i name t er, (d.run ms).Settling i name t (.error er) →
    (d.run ms).Endures ((d.run ms).step (.caller (.settle i))) name t er
  status_some : ∀ er, (d.run ms).status = some er ↔ d.LastFailure ms er
  status_none : (d.run ms).status = none ↔ d.Recovered ms

/-- In every run, all that failing fetches do, and what the status tells. -/
theorem weathers_run (ttl : Duration) (ms : List Move) : (new ttl).Weathers ms where
  fetch _ _ _ _ h := h.endures (sound_run (sound_new ttl) ms)
  status_some _ := status_eq_some (sound_new ttl) rfl
  status_none := status_eq_none (sound_new ttl) rfl

example :
    let a : Service := { name := "a", version := "1", nodes := [{ id := "n", address := "n:1" }] }
    let ask (r : Except Error (List Service)) : List Move :=
      [.caller (.arrive 0 "a"), .caller (.peek 0), .caller (.look 0), .caller (.call 0),
        .caller (.reply 0 r), .caller (.settle 0), .caller (.take 0)]
    let d := (new 1000).run (ask (.ok [a]) ++ .aside (.event (.tick 1000)) ::
      ask (.error (.unavailable "down")))
    d.status = some (.unavailable "down") ∧
      d.lookups.callers 0 = .served "a" (some 1) (.ok [a]) := ⟨by rfl, by rfl⟩

end ServingCache
end Switchboard.Discovery
