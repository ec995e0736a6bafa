import Mathlib.Data.List.Nodup
import Switchboard.Proofs.Discovery.Loops

/-! Watch loops and the names watched; what a stopped cache lets a loop do, and what lookups see. -/
namespace Switchboard.Discovery

/-- The loop that an event is about. -/
def HubEvent.mover? : HubEvent → Option Nat
  | .received id _ => some id
  | e => e.loop?

/-- The events that callers, the registry and the clock cause. -/
def HubEvent.asks : HubEvent → Bool
  | .look _ | .answer _ _ | .tick _ => true
  | _ => false

theorem HubEvent.asks_eq_false {e : HubEvent} {k : Nat} (he : e.mover? = some k) :
    e.asks = false := by
  cases e with
  | look | answer | stop | tick => cases he
  | pause | wake | opened | received | broke | notice => rfl

theorem HubEvent.mover?_of_loop? {e : HubEvent} {k : Nat} (he : e.loop? = some k) :
    e.mover? = some k := by
  cases e with
  | received => cases he
  | look | answer | pause | wake | opened | broke | notice | stop | tick => exact he

namespace Hub

variable {h h' : Hub} {e : HubEvent} {l m : Loop} {name : String} {k t : Nat}

def isOpening (h : Hub) (id : Nat) : Bool := (h.loop? id).any (·.phase == .opening)

theorem loop?_mem (hl : h.loop? k = some l) : l ∈ h.loops := List.mem_of_find?_eq_some hl

/-- The names watched are those of the loops, in the order in which the loops were started. -/
structure Manned (h : Hub) : Prop where
  ids : (h.loops.map (·.id)).Nodup
  known : ∀ l ∈ h.loops, l.id < h.nextLoop
  names : h.loops.map (·.name) = h.cache.watched
  once : h.cache.watched.Nodup

theorem manned_new (ttl : Duration) : (new ttl).Manned where
  ids := .nil
  known _ h := nomatch h
  names := rfl
  once := .nil

theorem Manned.eq_of_id (hh : h.Manned) (hl : l ∈ h.loops) (hm : m ∈ h.loops)
    (he : l.id = m.id) : l = m :=
  List.inj_on_of_nodup_map hh.ids hl hm he

/-- There is one loop of a name. -/
theorem Manned.eq_of_name (hh : h.Manned) (hl : l ∈ h.loops) (hm : m ∈ h.loops)
    (he : l.name = m.name) : l = m :=
  List.inj_on_of_nodup_map (hh.names ▸ hh.once) hl hm he

/-- So a name that is watched has one loop, and any other none. -/
theorem Manned.countP (hh : h.Manned) (name : String) :
    h.loops.countP (·.name == name) = if name ∈ h.cache.watched then 1 else 0 := by
  have hc : h.loops.countP (·.name == name) = (h.loops.map (·.name)).count name := by
    rw [List.count, List.countP_map]
    rfl
  rw [hc, hh.names]
  exact hh.once.count

/-- A loop for a new name joins the others. -/
theorem Manned.start (hh : h.Manned) (hn : name ∉ h.cache.watched)
    (hw : h'.cache.watched = h.cache.watched ++ [name])
    (hl : h'.loops = h.loops ++ [{ id := h.nextLoop, name }]) (hk : h'.nextLoop = h.nextLoop + 1) :
    h'.Manned where
  ids := by
    rw [hl, List.map_append, List.map_singleton]
    refine List.nodup_append.2 ⟨hh.ids, by simp, ?_⟩
    intro i hi j hj hij
    obtain ⟨l, hmem, rfl⟩ := List.mem_map.1 hi
    have hlt := hh.known l hmem
    have hj' : j = h.nextLoop := List.mem_singleton.1 hj
    omega
  known l hmem := by
    rw [hl] at hmem
    rw [hk]
    rcases List.mem_append.1 hmem with hmem | hmem
    · exact Nat.lt_succ_of_lt (hh.known l hmem)
    · rw [List.mem_singleton.1 hmem]
      exact Nat.lt_succ_self _
  names := by rw [hl, hw, List.map_append, hh.names, List.map_singleton]
  once := by
    rw [hw]
    refine List.nodup_append.2 ⟨hh.once, by simp, ?_⟩
    intro a ha b hb he
    exact hn (List.mem_singleton.1 hb ▸ he ▸ ha)

theorem map_setLoop {α : Type} {f : Loop → α} (hf : ∀ q ∈ h.loops, q.id = m.id → f m = f q) :
    (h.setLoop m).loops.map f = h.loops.map f := by
  change (h.loops.map _).map f = _
  rw [List.map_map]
  refine List.map_congr_left ?_
  intro q hq
  dsimp only [Function.comp]
  split
  · rename_i he
    exact hf q hq he
  · rfl

/-- A loop that moves on keeps its place. -/
theorem Manned.setLoop (hh : h.Manned) (hl : l ∈ h.loops) (hid : m.id = l.id)
    (hn : m.name = l.name) : (h.setLoop m).Manned := by
  have hids : (h.setLoop m).loops.map (·.id) = h.loops.map (·.id) :=
    map_setLoop fun q _ he => he.symm
  have hnames : (h.setLoop m).loops.map (·.name) = h.loops.map (·.name) := by
    refine map_setLoop ?_
    intro q hq he
    rw [hh.eq_of_id hq hl (he.trans hid)]
    exact hn
  exact {
    ids := hids ▸ hh.ids
    known := by
      intro q hq
      have hmem : q.id ∈ h.loops.map (·.id) := hids ▸ List.mem_map_of_mem hq
      obtain ⟨p, hp, he⟩ := List.mem_map.1 hmem
      exact he ▸ hh.known p hp
    names := hnames.trans hh.names
    once := hh.once }

/-- A loop that ends takes its name with it. -/
theorem Manned.endLoop (hh : h.Manned) (hl : l ∈ h.loops) : (h.endLoop l).Manned where
  ids := hh.ids.sublist (List.filter_sublist.map _)
  known m hm := hh.known m (List.mem_filter.1 hm).1
  names := by
    change (h.loops.filter (·.id != l.id)).map (·.name) = h.cache.watched.filter (· != l.name)
    rw [← hh.names, List.filter_map]
    congr 1
    refine List.filter_congr ?_
    intro m hm
    have hiff : m.id = l.id ↔ m.name = l.name :=
      ⟨fun he => congrArg _ (hh.eq_of_id hm hl he), fun he => congrArg _ (hh.eq_of_name hm hl he)⟩
    rw [Function.comp_apply, Bool.eq_iff_iff, bne_iff_ne, bne_iff_ne, ne_eq, ne_eq, hiff]
  once := hh.once.filter _

/-- The status is nothing to the loops. -/
theorem Manned.status (hh : h.Manned) (status : Option Error) :
    Manned { h with cache := { h.cache with status } } :=
  ⟨hh.ids, hh.known, hh.names, hh.once⟩

/-- No event breaks the roster. -/
theorem Manned.step (ht : Trans h e h') (hh : h.Manned) : h'.Manned := by
  cases ht with
  | idle | start | stop | tick => exact ⟨hh.ids, hh.known, hh.names, hh.once⟩
  | settled t f answer hf ha =>
    obtain ⟨st, es, he⟩ := settle_eq h f answer
    rw [he]
    by_cases hs : h.starts f answer = true
    · exact hh.start (not_watched_of_starts hs) (if_pos hs) (if_pos hs) (if_pos hs)
    · simp only [if_neg hs]
      exact ⟨hh.ids, hh.known, hh.names, hh.once⟩
  | received id l ch hl hp =>
    obtain ⟨es, hc⟩ := Cache.receive_eq h.cache h.now ch
    rw [hc]
    exact ⟨hh.ids, hh.known, hh.names, hh.once⟩
  | moved e id l l' st he hl hid hn => exact (hh.status st).setLoop (loop?_mem hl) hid hn
  | ended e id l st he hl hs => exact (hh.status st).endLoop (loop?_mem hl)

/-- A loop that an event does not move stays as it is. -/
theorem Trans.loop?_of_ne (ht : Trans h e h') (hk : e.mover? ≠ some k) (hl : h.loop? k = some l) :
    h'.loop? k = some l := by
  cases ht with
  | idle | start | stop | tick | received => exact hl
  | settled t f answer hf ha => rw [loop?_settle, hl, Option.some_or]
  | moved e id q q' st he hq hid hn =>
    have hne : id ≠ k := fun hik => hk (hik ▸ HubEvent.mover?_of_loop? he)
    change (h.setLoop q').loop? k = some l
    rw [loop?_setLoop hq hid, if_neg hne, hl]
  | ended e id q st he hq hs =>
    have hne : id ≠ k := fun hik => hk (hik ▸ HubEvent.mover?_of_loop? he)
    change (h.endLoop q).loop? k = some l
    rw [loop?_endLoop hq, if_neg hne, hl]

/-- A cache that was stopped stays so. -/
theorem Trans.stopped_true (ht : Trans h e h') (hs : h.cache.stopped = true) :
    h'.cache.stopped = true := by
  by_cases he : e = .stop
  · subst he
    cases ht with
    | idle => exact hs
    | stop => rfl
    | moved e id q q' st he => cases he
    | ended e id q st he => cases he
  · exact (ht.stopped he).trans hs

/-- A cache that was stopped starts no loop. -/
theorem Trans.nextLoop_eq (ht : Trans h e h') (hs : h.cache.stopped = true) :
    h'.nextLoop = h.nextLoop := by
  cases ht with
  | settled t f answer hf ha =>
    have hno : h.starts f answer = false := by simp [starts, Cache.wantsWatcher, hs]
    obtain ⟨st, es, he⟩ := settle_eq h f answer
    rw [he]
    simp [hno]
  | idle | start | received | stop | tick | moved | ended => rfl

theorem Trans.loop?_old (ht : Trans h e h') (hs : h.cache.stopped = true)
    (hm : h'.loop? k = some m) : ∃ l, h.loop? k = some l ∧ l.name = m.name := by
  rcases ht.loop? hm with hold | ⟨-, hn, -, -⟩
  · exact hold
  · have hsame := ht.nextLoop_eq hs
    omega

/-- Loops end in stopped caches only. -/
theorem Trans.stopped_of_ended (ht : Trans h e h') (hl : h.loop? k = some l)
    (hn : h'.loop? k = none) : h.cache.stopped = true := by
  cases ht with
  | idle | start | received | stop | tick => exact absurd (hl.symm.trans hn) nofun
  | settled t f answer hf ha =>
    rw [loop?_settle, hl, Option.some_or] at hn
    cases hn
  | moved e id q q' st he hq hid =>
    change (h.setLoop q').loop? k = none at hn
    rw [loop?_setLoop hq hid] at hn
    split at hn
    · cases hn
    · exact absurd (hl.symm.trans hn) nofun
  | ended e id q st he hq hs => exact hs

theorem endLoop_self (hl : h.loop? k = some l) : (h.endLoop l).loop? k = none := by
  rw [loop?_endLoop hl, if_pos rfl]

theorem pause_of_stopped (hs : h.cache.stopped = true) (hl : h.loop? k = some l)
    (hp : l.phase = .fresh) (jitter : Duration) : (h.step (.pause k jitter)).loop? k = none := by
  simp only [step, hl, if_pos hp, pause, if_pos hs]
  exact endLoop_self hl

theorem notice_of_stopped (hs : h.cache.stopped = true) (hl : h.loop? k = some l)
    (hp : isWaiting l.phase = true) : (h.step (.notice k)).loop? k = none := by
  simp only [step, hl, hs, hp, Bool.and_self, if_pos]
  exact endLoop_self hl

theorem rest_of_stopped (hs : h.cache.stopped = true) (hl : h.loop? k = some l) :
    (h.rest l).loop? k = none := by
  simp only [rest, if_pos hs]
  exact endLoop_self hl

theorem opened_of_stopped (hs : h.cache.stopped = true) (hl : h.loop? k = some l)
    (hp : l.phase = .opening) (er : Error) : (h.step (.opened k (.error er))).loop? k = none := by
  simp only [step, hl, if_pos hp, opened]
  exact rest_of_stopped hs hl

theorem broke_of_stopped (hs : h.cache.stopped = true) (hl : h.loop? k = some l)
    (hp : l.phase = .watching) (er : Error) : (h.step (.broke k er)).loop? k = none := by
  simp only [step, hl, if_pos hp]
  exact rest_of_stopped hs hl

theorem loop?_put (hl : h.loop? k = some l) (hid : m.id = l.id) :
    (h.setLoop m).loop? k = some m :=
  (loop?_setLoop hl hid).trans (if_pos rfl)

/-- What a stopped cache can make of a loop that moves. A pause that is over when the loop looks may
still lead on, since it is waited for together with the stop. -/
inductive WindsDown (h : Hub) (e : HubEvent) (k : Nat) (l : Loop) : Option Loop → Prop
  | ended : WindsDown h e k l none
  | same : WindsDown h e k l (some l)
  | watches (m : Loop) (hp : m.phase = .watching) : WindsDown h e k l (some m)
  | opens (t : Instant) (he : e = .wake k) (hp : l.phase = .pausing t) (ht : t ≤ h.now) :
    WindsDown h e k l (some { l with phase := .opening })
  | rested (t : Instant) (he : e = .wake k) (hp : l.phase = .resting t) (ht : t ≤ h.now) :
    WindsDown h e k l (some { l with phase := .fresh })

/-- A pause that is over leads on even so, and so does a rest. -/
theorem windsDown_wake (hl : h.loop? k = some l) :
    WindsDown h (.wake k) k l ((h.step (.wake k)).loop? k) := by
  have set (p : LoopPhase) : (h.setLoop { l with phase := p }).loop? k =
      some { l with phase := p } := by
    rw [loop?_put hl]
    rfl
  have stay {g : Hub} (hg : g = h) : WindsDown h (.wake k) k l (g.loop? k) := by
    rw [hg, hl]
    exact .same
  simp only [step, hl, wake]
  cases hp : l.phase with
  | pausing t =>
    dsimp only
    split
    · rename_i ht
      rw [set]
      exact .opens t rfl hp ht
    · exact stay rfl
  | resting t =>
    dsimp only
    split
    · rename_i ht
      rw [set]
      exact .rested t rfl hp ht
    · exact stay rfl
  | fresh | opening | watching => exact stay rfl

/-- All that a loop can come to after the stop. -/
theorem windsDown_step (hs : h.cache.stopped = true) (hl : h.loop? k = some l)
    (hk : e.mover? = some k) : WindsDown h e k l ((h.step e).loop? k) := by
  have stay {g : Hub} (hg : g = h) : WindsDown h e k l (g.loop? k) := by
    rw [hg, hl]
    exact .same
  cases e with
  | pause id jitter =>
    cases hk
    by_cases hp : l.phase = .fresh
    · rw [pause_of_stopped hs hl hp jitter]
      exact .ended
    · exact stay (by simp [step, hl, hp])
  | wake id =>
    cases hk
    exact windsDown_wake hl
  | opened id result =>
    cases hk
    by_cases hp : l.phase = .opening
    · cases result with
      | ok u =>
        let q : Loop := { l with phase := .watching, restart := l.restart.opened }
        have hid : q.id = l.id := rfl
        simp only [step, hl, if_pos hp, opened]
        rw [loop?_put hl hid]
        exact .watches q rfl
      | error er =>
        rw [opened_of_stopped hs hl hp er]
        exact .ended
    · exact stay (by simp [step, hl, hp])
  | received id ch =>
    cases hk
    simp only [step, hl]
    split <;>
      (rename_i hp; exact hl.symm ▸ .same)
  | broke id er =>
    cases hk
    by_cases hp : l.phase = .watching
    · rw [broke_of_stopped hs hl hp er]
      exact .ended
    · exact stay (by simp [step, hl, hp])
  | notice id =>
    cases hk
    by_cases hp : isWaiting l.phase = true
    · rw [notice_of_stopped hs hl hp]
      exact .ended
    · exact stay (by simp [step, hl, hp])
  | look | answer | stop | tick => cases hk

/-- A loop in the pause before it opens a watch. -/
def Pauses (h : Hub) (k : Nat) (t : Instant) : Prop :=
  ∃ l, h.loop? k = some l ∧ l.phase = .pausing t

/-- In a stopped cache a loop begins to open a watch only from a pause that is over. -/
theorem pauses_of_isOpening (hs : h.cache.stopped = true) (hk : e.mover? = some k)
    (hn : h.isOpening k = false) (ho : (h.step e).isOpening k = true) :
    e = .wake k ∧ ∃ t, h.Pauses k t ∧ t ≤ h.now := by
  cases hl : h.loop? k with
  | none =>
    cases hm : (h.step e).loop? k with
    | none => simp [isOpening, hm] at ho
    | some m =>
      obtain ⟨l, hl', -⟩ := (step_trans h e).loop?_old hs hm
      rw [hl] at hl'
      cases hl'
  | some l =>
    have hw := windsDown_step hs hl hk
    unfold isOpening at ho hn
    rw [hl] at hn
    generalize (h.step e).loop? k = o at hw ho
    cases hw with
    | ended => cases ho
    | same => exact absurd (hn.symm.trans ho) Bool.noConfusion
    | watches m hp => simp [hp] at ho
    | opens t he hp ht => exact ⟨he, t, ⟨l, hl, hp⟩, ht⟩
    | rested t he hp ht => simp at ho

/-- In a stopped cache no pause begins. -/
theorem pauses_step (hs : h.cache.stopped = true) (hp : (h.step e).Pauses k t) : h.Pauses k t := by
  obtain ⟨m, hm, hpm⟩ := hp
  obtain ⟨l, hl, -⟩ := (step_trans h e).loop?_old hs hm
  refine ⟨l, hl, ?_⟩
  by_cases hk : e.mover? = some k
  · have hw := windsDown_step hs hl hk
    rw [hm] at hw
    cases hw with
    | same => exact hpm
    | watches m hp => exact absurd (hp.symm.trans hpm) nofun
    | opens | rested => cases hpm
  · rw [(step_trans h e).loop?_of_ne hk hl] at hm
    cases hm
    exact hpm

/-- A pause that is over leads to opening the watch. -/
theorem wake_of_pauses (hp : h.Pauses k t) (ht : t ≤ h.now) :
    (h.step (.wake k)).isOpening k = true ∧ ∀ u, ¬ (h.step (.wake k)).Pauses k u := by
  obtain ⟨l, hl, hpl⟩ := hp
  have hloop : (h.step (.wake k)).loop? k = some { l with phase := .opening } := by
    simp only [step, hl, wake, hpl, if_pos ht]
    rw [loop?_put hl]
    rfl
  constructor
  · simp [isOpening, hloop]
  · rintro u ⟨m, hm, hpm⟩
    rw [hloop] at hm
    cases hm
    cases hpm

theorem Pauses.not_isOpening (hp : h.Pauses k t) : h.isOpening k = false := by
  obtain ⟨l, hl, hpl⟩ := hp
  simp [isOpening, hl, hpl]

/-- What lookups see of a hub. -/
def front (h : Hub) : Hub :=
  { h with
    cache := { h.cache with status := none, watched := [], stopped := false }
    loops := []
    nextLoop := 0 }

theorem answer?_front : h.front.answer? t = h.answer? t := rfl

/-- A lookup depends only on what lookups see, and changes only that. -/
theorem look_front : (h.look name).2 = (h.front.look name).2 ∧
    (h.look name).1.front = (h.front.look name).1.front := by
  have hv : h.front.cache.valid? h.front.now name = h.cache.valid? h.now name := rfl
  have hf : h.front.cache.inFlight = h.cache.inFlight := rfl
  unfold look Cache.look
  rw [hv, hf]
  cases h.cache.valid? h.now name with
  | some ss => exact ⟨rfl, rfl⟩
  | none =>
    cases h.cache.inFlight.get? name with
    | some t => exact ⟨rfl, rfl⟩
    | none => exact ⟨rfl, rfl⟩

/-- The end of a fetch changes what lookups see by what they see alone. -/
theorem settle_front {f : Fetch} {answer : Except Error (List Service)} :
    (h.settle f answer).front = (h.front.settle f answer).front := by
  have hsettle (g : Hub) : (g.settle f answer).front = { g.front with
      cache := { (g.cache.settle g.now f.name answer).1 with
        status := none, watched := [], stopped := false }
      fetches := g.fetches.map fun p =>
        if p.ticket = f.ticket then
          { p with answer := some (g.cache.settle g.now f.name answer).2 } else p } := by
    unfold settle
    dsimp only
    split <;> rfl
  rw [hsettle h, hsettle h.front]
  unfold Cache.settle
  cases answer with
  | ok ss =>
    dsimp only
    split <;> split <;> rfl
  | error er =>
    have hg : h.front.cache.entries = h.cache.entries := rfl
    dsimp only
    rw [hg]
    cases h.cache.entries.get? f.name with
    | none => rfl
    | some x =>
      dsimp only
      split <;> rfl

/-- Whatever callers, the registry and the clock cause does so. -/
theorem front_step (he : e.asks = true) : (h.step e).front = (h.front.step e).front := by
  cases e with
  | look name => exact look_front.2
  | answer t answer =>
    have hf : h.front.fetch? t = h.fetch? t := rfl
    simp only [step, hf]
    split
    · split
      · exact settle_front
      · rfl
    · rfl
  | tick d => rfl
  | pause | wake | opened | received | broke | notice | stop => cases he

/-- What loops do is not seen by lookups, but for a change that comes in. -/
theorem Trans.front (ht : Trans h e h') (he : e.asks = false) (hr : ∀ k ch, e ≠ .received k ch) :
    h'.front = h.front := by
  cases ht with
  | idle | stop => rfl
  | moved e id l l' st _ hl hid hn => rfl
  | ended e id l st _ hl hs => rfl
  | start | settled | tick => cases he
  | received id l ch => exact absurd rfl (hr id ch)

end Hub

end Switchboard.Discovery
