import Switchboard.Proofs.Discovery.Roster

/-! Watch loops at work when their cache is stopped, up to the moment when each has left. -/
namespace Switchboard.Discovery

/-- A loop that has noticed the stop is at work until it gets the lock and takes its name off the
list. `opens` has a loop's id for each watch that the loop began to open. -/
structure WatchLoops where
  hub : Hub
  leaving : List Nat := []
  opens : List Nat := []

namespace WatchLoops

inductive Move
  | event (e : HubEvent)
  | leave (id : Nat)

variable {s s' : WatchLoops} {m : Move} {ms : List Move} {h : Hub} {e : HubEvent} {l : Loop}
  {name : String} {k t : Nat} {os os' : List Nat}

def new (ttl : Duration) : WatchLoops := { hub := Hub.new ttl }

/-- A loop does what the hub says, but where the hub ends it, it has yet to leave. -/
def take (s : WatchLoops) (e : HubEvent) : WatchLoops :=
  let hub := s.hub.step e
  match e.mover? with
  | none => { s with hub }
  | some id =>
    if (s.hub.loop? id).isSome && (hub.loop? id).isNone then
      { s with
        hub := { s.hub with cache := { s.hub.cache with status := hub.cache.status } }
        leaving := s.leaving ++ [id] }
    else if hub.isOpening id && !s.hub.isOpening id then { s with hub, opens := s.opens ++ [id] }
    else { s with hub }

def step (s : WatchLoops) : Move → WatchLoops
  | .event e => if e.mover?.any (· ∈ s.leaving) then s else s.take e
  | .leave id =>
    match s.hub.loop? id with
    | some l =>
      if id ∈ s.leaving then
        { s with hub := s.hub.endLoop l, leaving := s.leaving.filter (· != id) }
      else s
    | none => s

def run (s : WatchLoops) (ms : List Move) : WatchLoops := ms.foldl step s

/-- The loops at work for a name. -/
def live (s : WatchLoops) (name : String) : Nat := s.hub.loops.countP (·.name == name)

/-- All that a move can do. -/
inductive Trans (s : WatchLoops) : Move → WatchLoops → Prop
  | idle (m : Move) (hm : ∀ e, m = .event e → ∃ id ∈ s.leaving, e.mover? = some id) : Trans s m s
  | moved (e : HubEvent) (os : List Nat) (he : ∀ id, e.mover? = some id → id ∉ s.leaving)
    (ho : s.hub.cache.stopped = true → os = [] ∨
      ∃ id t, e = .wake id ∧ os = [id] ∧ s.hub.Pauses id t ∧ t ≤ s.hub.now) :
    Trans s (.event e) { s with hub := s.hub.step e, opens := s.opens ++ os }
  | noticed (e : HubEvent) (id : Nat) (l : Loop) (status : Option Error) (he : e.mover? = some id)
    (hid : id ∉ s.leaving) (hl : s.hub.loop? id = some l) (hs : s.hub.cache.stopped = true) :
    Trans s (.event e) { s with
      hub := { s.hub with cache := { s.hub.cache with status } }
      leaving := s.leaving ++ [id] }
  | left (id : Nat) (l : Loop) (hid : id ∈ s.leaving) (hl : s.hub.loop? id = some l) :
    Trans s (.leave id) { s with
      hub := s.hub.endLoop l
      leaving := s.leaving.filter (· != id) }

/-- What any move does to the loops. -/
theorem step_trans (s : WatchLoops) (m : Move) : Trans s m (s.step m) := by
  cases m with
  | leave id =>
    simp only [step]
    split
    · rename_i l hl
      split
      · rename_i hid
        exact .left id l hid hl
      · exact .idle _ nofun
    · exact .idle _ nofun
  | event e =>
    simp only [step]
    split
    · rename_i ha
      obtain ⟨id, hid, hmem⟩ := (Option.any_eq_true _ _).1 ha
      refine .idle _ ?_
      intro e' he
      cases he
      exact ⟨id, by simpa using hmem, hid⟩
    · rename_i ha
      have hleft : ∀ id, e.mover? = some id → id ∉ s.leaving := by
        intro id hid hmem
        exact ha (by simp [hid, hmem])
      simp only [take]
      split
      · simpa using Trans.moved (s := s) e [] hleft (fun _ => .inl rfl)
      · rename_i id hid
        split
        · rename_i hend
          obtain ⟨hsome, hnone⟩ := Bool.and_eq_true_iff.1 hend
          obtain ⟨l, hl⟩ := Option.isSome_iff_exists.1 hsome
          have hs :=
            (Hub.step_trans s.hub e).stopped_of_ended hl (Option.isNone_iff_eq_none.1 hnone)
          exact .noticed e id l _ hid (hleft id hid) hl hs
        · split
          · rename_i hopen
            obtain ⟨hafter, hbefore⟩ := Bool.and_eq_true_iff.1 hopen
            refine .moved e [id] hleft ?_
            intro hs
            obtain ⟨he, t, hp, ht⟩ := Hub.pauses_of_isOpening hs hid (by simpa using hbefore) hafter
            exact .inr ⟨id, t, he, rfl, hp, ht⟩
          · simpa using Trans.moved (s := s) e [] hleft (fun _ => .inl rfl)

/-- What watch loops keep: a loop each for the names watched, and none that leaves before the stop. -/
structure Sound (s : WatchLoops) : Prop where
  manned : s.hub.Manned
  leaving : ∀ k ∈ s.leaving, s.hub.cache.stopped = true ∧ ∃ l, s.hub.loop? k = some l

theorem sound_new (ttl : Duration) : (new ttl).Sound where
  manned := Hub.manned_new ttl
  leaving _ h := nomatch h

/-- No move breaks the roster. -/
theorem Sound.step (hs : s.Sound) (ht : Trans s m s') : s'.Sound := by
  cases ht with
  | idle => exact hs
  | moved e os he ho =>
    have ht := Hub.step_trans s.hub e
    refine ⟨hs.manned.step ht, ?_⟩
    intro k hk
    obtain ⟨hstop, l, hl⟩ := hs.leaving k hk
    have hne : e.mover? ≠ some k := fun hm => he k hm hk
    exact ⟨ht.stopped_true hstop, l, ht.loop?_of_ne hne hl⟩
  | noticed e id l status he hid hl hstop =>
    refine ⟨hs.manned.status status, ?_⟩
    intro k hk
    rcases List.mem_append.1 hk with hk | hk
    · exact hs.leaving k hk
    · rw [List.mem_singleton.1 hk]
      exact ⟨hstop, l, hl⟩
  | left id l hid hl =>
    refine ⟨hs.manned.endLoop (Hub.loop?_mem hl), ?_⟩
    intro k hk
    obtain ⟨hk, hne⟩ := List.mem_filter.1 hk
    obtain ⟨hstop, m, hm⟩ := hs.leaving k hk
    refine ⟨hstop, m, ?_⟩
    rw [Hub.loop?_endLoop hl, if_neg (by simpa using Ne.symm (bne_iff_ne.1 hne)), hm]

theorem Sound.run (hs : s.Sound) (ms : List Move) : (s.run ms).Sound := by
  induction ms generalizing s with
  | nil => exact hs
  | cons m ms ih => exact ih (hs.step (step_trans s m))

theorem stopped_step (ht : Trans s m s') :
    s'.hub.cache.stopped = true ↔ s.hub.cache.stopped = true ∨ m = .event .stop := by
  cases ht with
  | idle m hm =>
    refine ⟨.inl, ?_⟩
    rintro (hs | rfl)
    · exact hs
    · obtain ⟨id, -, hid⟩ := hm .stop rfl
      cases hid
  | moved e os he ho =>
    by_cases hstop : e = .stop
    · subst hstop
      exact iff_of_true rfl (.inr rfl)
    · rw [(Hub.step_trans s.hub e).stopped hstop]
      simp [hstop]
  | noticed e id l status he hid hl hs => exact iff_of_true hs (.inl hs)
  | left id l hid hl =>
    change s.hub.cache.stopped = true ↔ _
    simp

/-- A cache is stopped exactly if it was, or was told to stop. -/
theorem stopped_run (ms : List Move) :
    (s.run ms).hub.cache.stopped = true ↔ s.hub.cache.stopped = true ∨ .event .stop ∈ ms := by
  induction ms generalizing s with
  | nil => simp [run]
  | cons m ms ih =>
    have hrun : s.run (m :: ms) = (s.step m).run ms := rfl
    rw [hrun, ih, stopped_step (step_trans s m), List.mem_cons, or_assoc, eq_comm (a := m)]

/-- Watch loops after the stop, as they go on: no new loop and no pause that begins. Loops may open a
watch yet, as `os` has it, from pauses that began before and are over, each of them once. -/
structure Since (s : WatchLoops) (os : List Nat) (s' : WatchLoops) : Prop where
  now : s.hub.now ≤ s'.hub.now
  nextLoop : s'.hub.nextLoop = s.hub.nextLoop
  old : ∀ k m, s'.hub.loop? k = some m → ∃ l, s.hub.loop? k = some l ∧ l.name = m.name
  leaving : ∀ k ∈ s.leaving, k ∈ s'.leaving ∨ s'.hub.loop? k = none
  pausing : ∀ k t, s'.hub.Pauses k t → s.hub.Pauses k t ∧ k ∉ os
  opens : s'.opens = s.opens ++ os
  once : os.Nodup
  past : ∀ k ∈ os, k ∉ s.leaving ∧ ∃ t, s.hub.Pauses k t ∧ t ≤ s'.hub.now

theorem Since.refl (s : WatchLoops) : Since s [] s where
  now := Nat.le_refl _
  nextLoop := rfl
  old _ m hm := ⟨m, hm, rfl⟩
  leaving _ hk := .inl hk
  pausing _ _ hp := ⟨hp, List.not_mem_nil⟩
  opens := (List.append_nil _).symm
  once := .nil
  past _ hk := nomatch hk

/-- What was opened late in two stretches of a run, together. -/
theorem Since.trans {s₁ s₂ s₃ : WatchLoops} (h : Since s₁ os s₂) (h' : Since s₂ os' s₃) :
    Since s₁ (os ++ os') s₃ where
  now := Nat.le_trans h.now h'.now
  nextLoop := h'.nextLoop.trans h.nextLoop
  old k m hm := by
    obtain ⟨l, hl, hn⟩ := h'.old k m hm
    obtain ⟨q, hq, hn'⟩ := h.old k l hl
    exact ⟨q, hq, hn'.trans hn⟩
  leaving k hk := by
    rcases h.leaving k hk with hk | hn
    · exact h'.leaving k hk
    · cases hm : s₃.hub.loop? k with
      | none => exact .inr rfl
      | some m =>
        obtain ⟨l, hl, -⟩ := h'.old k m hm
        exact absurd (hn.symm.trans hl) nofun
  pausing k t hp := by
    obtain ⟨hp', hk'⟩ := h'.pausing k t hp
    obtain ⟨hp, hk⟩ := h.pausing k t hp'
    exact ⟨hp, fun hmem => (List.mem_append.1 hmem).elim hk hk'⟩
  opens := by rw [h'.opens, h.opens, List.append_assoc]
  -- A loop of `os` is in its pause no more, so it is not one of `os'`.
  once := by
    refine List.nodup_append.2 ⟨h.once, h'.once, ?_⟩
    rintro k hk _ hk' rfl
    obtain ⟨-, t, hp, -⟩ := h'.past k hk'
    exact (h.pausing k t hp).2 hk
  past k hk := by
    rcases List.mem_append.1 hk with hk | hk
    · obtain ⟨hleave, t, hp, ht⟩ := h.past k hk
      exact ⟨hleave, t, hp, Nat.le_trans ht h'.now⟩
    · obtain ⟨hleave, t, hp, ht⟩ := h'.past k hk
      refine ⟨?_, t, (h.pausing k t hp).1, ht⟩
      intro hmem
      rcases h.leaving k hmem with hmem | hn
      · exact hleave hmem
      · obtain ⟨l, hl, -⟩ := hp
        exact absurd (hn.symm.trans hl) nofun

/-- A move after the stop, with the watch that it may yet open. -/
theorem since_step (hs : s.hub.cache.stopped = true) (ht : Trans s m s') :
    ∃ os, Since s os s' := by
  cases ht with
  | idle => exact ⟨[], .refl s⟩
  | moved e os he ho =>
    have ht := Hub.step_trans s.hub e
    -- A loop that opens its watch late has left its pause by the same move.
    have hpause (k t : Nat) (hp : (s.hub.step e).Pauses k t) : k ∉ os := by
      rcases ho hs with rfl | ⟨id, u, rfl, rfl, hid, hu⟩
      · exact List.not_mem_nil
      · rw [List.mem_singleton]
        rintro rfl
        exact (Hub.wake_of_pauses hid hu).2 t hp
    refine ⟨os, ht.now_le, ht.nextLoop_eq hs, fun k m hm => ht.loop?_old hs hm, fun k => .inl,
      fun k t hp => ⟨Hub.pauses_step hs hp, hpause k t hp⟩, rfl, ?_, ?_⟩
    · rcases ho hs with rfl | ⟨id, u, -, rfl, -⟩
      · exact .nil
      · exact List.nodup_singleton id
    · intro k hk
      rcases ho hs with rfl | ⟨id, u, rfl, rfl, hid, hu⟩
      · cases hk
      · rw [List.mem_singleton.1 hk]
        exact ⟨he id rfl, u, hid, Nat.le_trans hu ht.now_le⟩
  | noticed e id l status he hid hl =>
    have hkeep := Since.refl s
    exact ⟨[], hkeep.now, rfl, hkeep.old, fun k hk => .inl (List.mem_append_left _ hk),
      hkeep.pausing, hkeep.opens, .nil, hkeep.past⟩
  | left id l hid hl =>
    have hloop (k : Nat) : (s.hub.endLoop l).loop? k = if id = k then none else s.hub.loop? k :=
      Hub.loop?_endLoop hl
    have hold (k : Nat) (m : Loop) (hm : (s.hub.endLoop l).loop? k = some m) :
        s.hub.loop? k = some m := by
      rw [hloop] at hm
      split at hm
      · cases hm
      · exact hm
    refine ⟨[], Nat.le_refl _, rfl, fun k m hm => ⟨m, hold k m hm, rfl⟩, ?_, ?_,
      (List.append_nil _).symm, .nil, nofun⟩
    · intro k hk
      by_cases hik : id = k
      · exact .inr ((hloop k).trans (if_pos hik))
      · exact .inl (List.mem_filter.2 ⟨hk, bne_iff_ne.2 (Ne.symm hik)⟩)
    · rintro k t ⟨m, hm, hp⟩
      exact ⟨⟨m, hold k m hm, hp⟩, List.not_mem_nil⟩

theorem since_run (hs : s.hub.cache.stopped = true) (ms : List Move) :
    ∃ os, Since s os (s.run ms) := by
  induction ms generalizing s with
  | nil => exact ⟨[], .refl s⟩
  | cons m ms ih =>
    have ht := step_trans s m
    obtain ⟨os, hstep⟩ := since_step hs ht
    obtain ⟨os', hrun⟩ := ih ((stopped_step ht).2 (.inl hs))
    exact ⟨os ++ os', hstep.trans hrun⟩

/-- A pause that is over leads on to the watch where the loop has not seen the stop before that. -/
theorem opens_wake (hk : k ∉ s.leaving) (hp : s.hub.Pauses k t) (ht : t ≤ s.hub.now) :
    (s.step (.event (.wake k))).opens = s.opens ++ [k] := by
  obtain ⟨hopen, -⟩ := Hub.wake_of_pauses hp ht
  have hsome : ((s.hub.step (.wake k)).loop? k).isNone = false := by
    cases hl : (s.hub.step (.wake k)).loop? k with
    | none => simp [Hub.isOpening, hl] at hopen
    | some l => rfl
  have hno : ¬ (HubEvent.wake k).mover?.any (· ∈ s.leaving) = true := by
    simp [HubEvent.mover?, HubEvent.loop?, hk]
  rw [step, if_neg hno]
  simp [take, HubEvent.mover?, HubEvent.loop?, hsome, hopen, hp.not_isOpening]

theorem watched_step (hs : s.Sound) (ht : Trans s m s') (hstop : s.hub.cache.stopped = false)
    (hn : name ∈ s.hub.cache.watched) : name ∈ s'.hub.cache.watched := by
  cases ht with
  | idle | noticed => exact hn
  | moved e os he ho => exact (Hub.step_trans s.hub e).watched hstop hn
  | left id l hid hl => exact absurd ((hs.leaving id hid).1.symm.trans hstop) nofun

/-- Until the stop, a name that is watched stays so. -/
theorem watched_run (hs : s.Sound) (ms : List Move)
    (hstop : (s.run ms).hub.cache.stopped = false) (hn : name ∈ s.hub.cache.watched) :
    name ∈ (s.run ms).hub.cache.watched := by
  induction ms generalizing s with
  | nil => exact hn
  | cons m ms ih =>
    have ht := step_trans s m
    have hnow : s.hub.cache.stopped = false := by
      rw [← Bool.not_eq_true] at hstop ⊢
      exact fun h => hstop ((stopped_run (m :: ms)).2 (.inl h))
    exact ih (hs.step ht) hstop (watched_step hs ht hnow hn)

/-- What a move asks of the cache, as a caller, the registry or the clock. -/
def Move.asked? : Move → Option HubEvent
  | .event e => if e.asks then some e else none
  | .leave _ => none

theorem asked?_eq_none (hm : ∀ e, m = .event e → ∃ id, e.mover? = some id) : m.asked? = none := by
  cases m with
  | leave id => rfl
  | event e =>
    obtain ⟨id, hid⟩ := hm e rfl
    simp [Move.asked?, HubEvent.asks_eq_false hid]

/-- Moves of the loops are not seen by lookups, but for a change that comes in. -/
theorem front_step (ht : Trans s m s') (hr : ∀ k ch, m ≠ .event (.received k ch)) :
    s'.hub.front = m.asked?.elim s.hub.front fun e => (s.hub.front.step e).front := by
  cases ht with
  | idle m hm =>
    have hnone : m.asked? = none := by
      refine asked?_eq_none ?_
      intro e he
      obtain ⟨id, -, hid⟩ := hm e he
      exact ⟨id, hid⟩
    rw [hnone]
    rfl
  | noticed e id l status he hid hl hs =>
    simp [Move.asked?, HubEvent.asks_eq_false he, Hub.front]
  | left id l hid hl => rfl
  | moved e os he ho =>
    by_cases ha : e.asks = true
    · simpa [Move.asked?, ha] using Hub.front_step ha
    · have hasks : e.asks = false := by simpa using ha
      have hf := (Hub.step_trans s.hub e).front hasks fun k ch hc => hr k ch (congrArg _ hc)
      simpa [Move.asked?, ha] using hf

/-- Unless a change is received, what lookups see comes of what was asked alone. -/
theorem front_run {ms : List Move} (hr : ∀ k ch, .event (.received k ch) ∉ ms)
    (hf : s.hub.front = h.front) :
    (s.run ms).hub.front = ((ms.filterMap Move.asked?).foldl Hub.step h).front := by
  induction ms generalizing s h with
  | nil => exact hf
  | cons m ms ih =>
    have hstep := front_step (step_trans s m) fun k ch hm => hr k ch (hm ▸ List.mem_cons_self)
    have hrest : ∀ k ch, .event (.received k ch) ∉ ms :=
      fun k ch hm => hr k ch (List.mem_cons_of_mem _ hm)
    change ((s.step m).run ms).hub.front = _
    cases ha : m.asked? with
    | none =>
      rw [List.filterMap_cons_none ha]
      rw [ha] at hstep
      exact ih hrest (hstep.trans hf)
    | some e =>
      have hasks : e.asks = true := by
        cases m with
        | leave id => cases ha
        | event e' =>
          simp only [Move.asked?] at ha
          split at ha
          · rename_i hasks
            cases ha
            exact hasks
          · cases ha
      rw [List.filterMap_cons_some ha]
      rw [ha] at hstep
      refine ih hrest (hstep.trans ?_)
      rw [Hub.front_step hasks, ← hf]
      rfl

/-- A loop that the hub would end has noticed the stop. -/
theorem mem_leaving_step (hk : k ∉ s.leaving) (hl : s.hub.loop? k = some l)
    (he : e.mover? = some k) (hn : (s.hub.step e).loop? k = none) :
    k ∈ (s.step (.event e)).leaving := by
  simp [step, hk, take, he, hl, hn]

/-- A loop notices the stop wherever it looks for it: before a pause, while it waits, and after a
failure. -/
structure Notices (s : WatchLoops) (k : Nat) (l : Loop) : Prop where
  pause : l.phase = .fresh → ∀ jitter, k ∈ (s.step (.event (.pause k jitter))).leaving
  waiting : Hub.isWaiting l.phase = true → k ∈ (s.step (.event (.notice k))).leaving
  unopened : l.phase = .opening → ∀ er, k ∈ (s.step (.event (.opened k (.error er)))).leaving
  broken : l.phase = .watching → ∀ er, k ∈ (s.step (.event (.broke k er))).leaving

/-- A loop that waits in a stopped cache may notice it. -/
theorem notices (hs : s.hub.cache.stopped = true) (hk : k ∉ s.leaving)
    (hl : s.hub.loop? k = some l) : s.Notices k l where
  pause hp jitter := mem_leaving_step hk hl rfl (Hub.pause_of_stopped hs hl hp jitter)
  waiting hp := mem_leaving_step hk hl rfl (Hub.notice_of_stopped hs hl hp)
  unopened hp er := mem_leaving_step hk hl rfl (Hub.opened_of_stopped hs hl hp er)
  broken hp er := mem_leaving_step hk hl rfl (Hub.broke_of_stopped hs hl hp er)

/-- A loop that has noticed the stop does nothing but take its name off the list. -/
theorem Sound.leaves (hs : s.Sound) (hk : k ∈ s.leaving) :
    ∃ l, s.hub.loop? k = some l ∧ l.name ∈ s.hub.cache.watched ∧
      (∀ e, e.mover? = some k → s.step (.event e) = s) ∧
        (s.step (.leave k)).hub.loop? k = none ∧
          (s.step (.leave k)).hub.cache.watched = s.hub.cache.watched.filter (· != l.name) := by
  obtain ⟨-, l, hl⟩ := hs.leaving k hk
  have hname : l.name ∈ s.hub.cache.watched := by
    rw [← hs.manned.names]
    exact List.mem_map_of_mem (Hub.loop?_mem hl)
  have hleave : s.step (.leave k) =
      { s with hub := s.hub.endLoop l, leaving := s.leaving.filter (· != k) } := by
    simp only [WatchLoops.step, hl, if_pos hk]
  refine ⟨l, hl, hname, ?_, ?_, ?_⟩
  · intro e he
    simp [WatchLoops.step, he, hk]
  · rw [hleave]
    exact Hub.endLoop_self hl
  · rw [hleave]
    rfl

/-- Lookups after the stop go as those of a hub that knows of no stop. -/
theorem lookups_stop (s : WatchLoops) (hr : ∀ k ch, .event (.received k ch) ∉ ms) (name : String)
    (t : Nat) :
    (((s.step (.event .stop)).run ms).hub.look name).2 =
        (((ms.filterMap Move.asked?).foldl Hub.step s.hub).look name).2 ∧
      ((s.step (.event .stop)).run ms).hub.answer? t =
        ((ms.filterMap Move.asked?).foldl Hub.step s.hub).answer? t := by
  have hf : (s.step (.event .stop)).hub.front = s.hub.front := rfl
  have hrun := front_run hr hf
  constructor
  · rw [Hub.look_front.1, hrun, ← Hub.look_front.1]
  · rw [← Hub.answer?_front, hrun, Hub.answer?_front]

/-- One loop at work for each name watched; names stay watched until the stop, and from then on no
loop is started; loops notice the stop where they look for it, and take their names off the list
next; lookups go on as if nothing had happened. A pause that is over when its loop looks still leads
to a watch, also after the stop: at most once for each loop, and for no other reason. -/
structure Guarded (ms : List Move) (s : WatchLoops) : Prop where
  one : ∀ name, s.live name = if name ∈ s.hub.cache.watched then 1 else 0
  stopped : s.hub.cache.stopped = true ↔ .event .stop ∈ ms
  kept : ∀ ns name, .event .stop ∉ ms ++ ns → name ∈ s.hub.cache.watched →
    name ∈ (s.run ns).hub.cache.watched
  since : .event .stop ∈ ms → ∀ ns, ∃ os, Since s os (s.run ns)
  wakes : ∀ k t, k ∉ s.leaving → s.hub.Pauses k t → t ≤ s.hub.now →
    (s.step (.event (.wake k))).opens = s.opens ++ [k]
  notices : .event .stop ∈ ms → ∀ k l, s.hub.loop? k = some l → k ∉ s.leaving → s.Notices k l
  leaves : ∀ k ∈ s.leaving, ∃ l, s.hub.loop? k = some l ∧ l.name ∈ s.hub.cache.watched ∧
    (∀ e, e.mover? = some k → s.step (.event e) = s) ∧
      (s.step (.leave k)).hub.loop? k = none ∧
        (s.step (.leave k)).hub.cache.watched = s.hub.cache.watched.filter (· != l.name)
  lookups : ∀ ns, (∀ k ch, .event (.received k ch) ∉ ns) → ∀ name t,
    (((s.step (.event .stop)).run ns).hub.look name).2 =
        (((ns.filterMap Move.asked?).foldl Hub.step s.hub).look name).2 ∧
      ((s.step (.event .stop)).run ns).hub.answer? t =
        ((ns.filterMap Move.asked?).foldl Hub.step s.hub).answer? t

/-- Every run of a cache is guarded. -/
theorem guarded (ttl : Duration) (ms : List Move) : Guarded ms ((new ttl).run ms) := by
  have hs : ((new ttl).run ms).Sound := (sound_new ttl).run ms
  have hstopped : ((new ttl).run ms).hub.cache.stopped = true ↔ .event .stop ∈ ms := by
    rw [stopped_run]
    simp [new, Hub.new]
  generalize (new ttl).run ms = s at hs hstopped
  exact {
    one := hs.manned.countP
    stopped := hstopped
    kept := by
      intro ns name hno hn
      refine watched_run hs ns ?_ hn
      rw [← Bool.not_eq_true, stopped_run, hstopped, ← List.mem_append]
      exact hno
    since := fun hm ns => since_run (hstopped.2 hm) ns
    wakes := fun k t hk hp ht => opens_wake hk hp ht
    notices := fun hm k l hl hk => notices (hstopped.2 hm) hk hl
    leaves := fun k hk => hs.leaves hk
    lookups := fun ns hr name t => lookups_stop s hr name t }

/-- A pause of 20 ms is over at 20 ms, and the cache is stopped then: the loop may open its watch, or
notice the stop. -/
theorem guarded_opens_late :
    let a : Service := { name := "a", version := "1", nodes := [⟨"n", "n:1", .empty⟩] }
    let s := (new 60000).run [.event (.look "a"), .event (.answer 0 (.ok [a])),
      .event (.pause 0 20), .event (.tick 20), .event .stop]
    s.hub.cache.stopped = true ∧ s.opens = [] ∧ (s.step (.event (.wake 0))).opens = [0] ∧
      (s.step (.event (.notice 0))).leaving = [0] := by
  decide

end WatchLoops
end Switchboard.Discovery
