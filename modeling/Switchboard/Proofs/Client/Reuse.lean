import Switchboard.Bench.PoolRun
import Switchboard.Proofs.Client.Custody
import Switchboard.Proofs.Runs

/-! Which of its idle connections a pool gives to a caller, which it closes, and when it dials. -/
namespace Switchboard.Client

namespace Pool

variable {p : Pool} {now : Instant} {address a : String} {c d : Connection}
  {cs below : List Connection} {old : Connection → Prop} {got : Acquired}

/-- A connection is as old as one may be, or older. -/
def Outlived (p : Pool) (now : Instant) (c : Connection) : Prop := p.ttl ≤ now - c.created

/-- A stack is looked through from the top until something is found that is not old, and what is
below that stays. -/
inductive Picks (old : Connection → Prop) : List Connection → Acquired → List Connection → Prop
  | reused (above : List Connection) (c : Connection) (below : List Connection)
    (ha : ∀ x ∈ above, old x) (hc : ¬ old c) : Picks old (above ++ c :: below) ⟨above, some c⟩ below
  | none (all : List Connection) (ha : ∀ x ∈ all, old x) : Picks old all ⟨all, none⟩ []

theorem Picks.cons (h : Picks old cs got below) (hd : old d) :
    Picks old (d :: cs) ⟨d :: got.expired, got.found⟩ below := by
  cases h with
  | reused above c below ha hc =>
    exact .reused (d :: above) c below (List.forall_mem_cons.2 ⟨hd, ha⟩) hc
  | none all ha => exact .none (d :: cs) (List.forall_mem_cons.2 ⟨hd, ha⟩)

theorem Picks.sublist (h : Picks old cs got below) : below.Sublist cs := by
  cases h with
  | reused above c below =>
    exact (List.sublist_cons_self c below).trans (List.sublist_append_right _ _)
  | none => exact List.nil_sublist cs

theorem picks_dropWhile {f : Connection → Bool} (hf : ∀ c, f c = true ↔ old c) :
    Picks old cs ⟨cs.takeWhile f, (cs.dropWhile f).head?⟩ (cs.dropWhile f).tail := by
  induction cs with
  | nil => exact .none [] nofun
  | cons c cs ih =>
    by_cases hc : old c
    · rw [List.takeWhile_cons_of_pos ((hf c).2 hc), List.dropWhile_cons_of_pos ((hf c).2 hc)]
      exact ih.cons hc
    · have hfc : ¬ f c = true := fun h => hc ((hf c).1 h)
      rw [List.takeWhile_cons_of_neg hfc, List.dropWhile_cons_of_neg hfc]
      exact .reused [] c cs nofun hc

theorem idleAt_acquire_self : (p.acquire now address).1.idleAt address =
    ((p.idleAt address).dropWhile (p.isExpired now)).tail := by
  rw [acquire, idleAt_insert, if_pos rfl]

theorem idleAt_acquire_of_ne (h : a ≠ address) :
    (p.acquire now address).1.idleAt a = p.idleAt a := by
  rw [acquire, idleAt_insert, if_neg h.symm]

/-- A pool picks the first connection that is not too old, and gives up those above it. -/
theorem acquire_picks (p : Pool) (now : Instant) (address : String) :
    Picks (p.Outlived now) (p.idleAt address) (p.acquire now address).2
      ((p.acquire now address).1.idleAt address) := by
  rw [idleAt_acquire_self]
  exact picks_dropWhile fun c => decide_eq_true_iff

theorem idleAt_acquire_sublist :
    ((p.acquire now address).1.idleAt a).Sublist (p.idleAt a) := by
  by_cases h : a = address
  · rw [h]
    exact (acquire_picks p now address).sublist
  · rw [idleAt_acquire_of_ne h]

/-- A connection that comes back is on top of the others, or is not kept. -/
theorem release_cases (p : Pool) (c : Connection) (failed : Bool) :
    p.release c failed = (p, some c) ∨
      p.release c failed =
        ({ p with idle := p.idle.insert c.address (c :: p.idleAt c.address) }, none) := by
  unfold release
  dsimp only
  split
  · exact .inr rfl
  · exact .inl rfl

end Pool

namespace SharedPool

variable {s s' s₀ : SharedPool} {m : Move} {ms : List Move} {address : String} {c d : Connection}
  {k size : Nat} {got : Acquired} {below : List Connection}

/-- A caller lets go of this connection. -/
def Releases (c : Connection) (s : SharedPool) (m : Move) : Prop :=
  ∃ k failed, m = .release k failed ∧ s.chores[k]? = some (.holding c)

/-- The one was released after the other was for the last time. -/
def Later (s₀ : SharedPool) (ms : List Move) (c d : Connection) : Prop :=
  Runs.Later step (Releases c) (Releases d) s₀ ms

/-- Idle connections stand in the order in which they were released, the latest first. -/
structure Stacked (s₀ : SharedPool) (ms : List Move) : Prop where
  released : ∀ address, ∀ c ∈ (s₀.run ms).pool.idleAt address,
    ∃ i, Runs.Last step (Releases c) s₀ ms i
  order : ∀ address, ((s₀.run ms).pool.idleAt address).Pairwise (Later s₀ ms)

theorem run_snoc : s₀.run (ms ++ [m]) = (s₀.run ms).step m := by
  rw [run, List.foldl_append]
  rfl

/-- What a caller has is not idle. -/
theorem Sound.not_releases (hs : s.Sound size) (hc : c ∈ s.pool.idleAt address) :
    ¬ Releases c s m := by
  rintro ⟨k, failed, -, hk⟩
  have hone := List.nodup_iff_count_le_one.1 hs.nodup c
  have hcount := hs.balanced c
  have hstock := List.count_pos_iff.2 ((Pool.idleAt_sublist s.pool address).mem hc)
  have hkept : 0 < s.kept.count c := List.count_pos_iff.2
    (List.mem_flatMap.2 ⟨_, List.mem_of_getElem? hk, List.mem_singleton_self c⟩)
  omega

/-- Where connections only go, the others keep their order. -/
theorem Stacked.rests (h : Stacked s₀ ms) (hs : (s₀.run ms).Sound size)
    (hsub : ∀ address, ((s₀.run (ms ++ [m])).pool.idleAt address).Sublist
      ((s₀.run ms).pool.idleAt address)) : Stacked s₀ (ms ++ [m]) where
  released := by
    intro address c hc
    have hidle := (hsub address).mem hc
    obtain ⟨i, hi⟩ := h.released address c hidle
    exact ⟨i, hi.snoc (hs.not_releases hidle)⟩
  order := by
    intro address
    have horder := Runs.pairwise_later_snoc (h.order address) fun c hc => hs.not_releases (m := m) hc
    exact horder.sublist (hsub address)

/-- A connection that is released comes on top. -/
theorem Stacked.piles (h : Stacked s₀ ms) (hs : (s₀.run ms).Sound size)
    (hc : Releases c (s₀.run ms) m)
    (hp : ∀ address, (s₀.run (ms ++ [m])).pool.idleAt address =
      if c.address = address then c :: (s₀.run ms).pool.idleAt c.address
      else (s₀.run ms).pool.idleAt address) : Stacked s₀ (ms ++ [m]) := by
  have hn : ∀ address, ∀ d ∈ (s₀.run ms).pool.idleAt address, ¬ Releases d (s₀.run ms) m :=
    fun address d hd => hs.not_releases hd
  have hreleased : ∀ address, ∀ d ∈ (s₀.run ms).pool.idleAt address,
      ∃ i, Runs.Last step (Releases d) s₀ (ms ++ [m]) i := by
    intro address d hd
    obtain ⟨i, hi⟩ := h.released address d hd
    exact ⟨i, hi.snoc (hn address d hd)⟩
  constructor
  · intro address d hd
    rw [hp] at hd
    split at hd
    · rcases List.mem_cons.1 hd with rfl | hd
      · exact ⟨ms.length, Runs.last_snoc_self hc⟩
      · exact hreleased c.address d hd
    · exact hreleased address d hd
  · intro address
    rw [hp]
    split
    · exact Runs.pairwise_later_cons (h.order c.address) (hn c.address) (h.released c.address) hc
    · exact Runs.pairwise_later_snoc (h.order address) (hn address)

/-- Idle connections of an address are in the order of their releases, the last one first. -/
theorem Stacked.snoc (h : Stacked s₀ ms) (hs : (s₀.run ms).Sound size) (m : Move) :
    Stacked s₀ (ms ++ [m]) := by
  have ht := step_trans (s₀.run ms) m
  rw [← run_snoc] at ht
  have keep (hp : (s₀.run (ms ++ [m])).pool = (s₀.run ms).pool) : Stacked s₀ (ms ++ [m]) := by
    refine h.rests hs fun address => ?_
    rw [hp]
  generalize hs' : s₀.run (ms ++ [m]) = s' at ht
  have hpool := congrArg SharedPool.pool hs'
  cases ht with
  | idle | ticked | closed | handed | dialled | undialled | finished => exact keep hpool
  | got address =>
    refine h.rests hs fun a => ?_
    rw [hpool]
    exact Pool.idleAt_acquire_sublist
  | drained =>
    refine h.rests hs fun a => ?_
    rw [hpool]
    exact List.nil_sublist _
  | released k failed c hk =>
    rcases Pool.release_cases (s₀.run ms).pool c failed with hr | hr
    · exact keep (hpool.trans (congrArg Prod.fst hr))
    · refine h.piles hs ⟨k, failed, rfl, hk⟩ fun a => ?_
      rw [hpool.trans (congrArg Prod.fst hr)]
      exact Pool.idleAt_insert

theorem stacked_run (size : Nat) (ttl : Duration) (ms : List Move) :
    Stacked (new size ttl) ms := by
  induction ms using List.reverseRecOn with
  | nil => exact ⟨nofun, fun _ => .nil⟩
  | append_singleton ms m ih => exact ih.snoc ((sound_new size ttl).run ms) m

/-- What a lookup finds in a stack, told by when its connections were released. -/
structure Finds (s₀ : SharedPool) (ms : List Move) (old : Connection → Prop) (cs : List Connection)
    (got : Acquired) (below : List Connection) : Prop where
  found : ∀ c, got.found = some c ↔
    c ∈ cs ∧ ¬ old c ∧ ∀ d ∈ cs, ¬ old d → d = c ∨ Later s₀ ms c d
  expired : ∀ d, d ∈ got.expired ↔ d ∈ cs ∧ old d ∧ ∀ c, got.found = some c → Later s₀ ms d c
  left : ∀ d, d ∈ below ↔ d ∈ cs ∧ ∃ c, got.found = some c ∧ Later s₀ ms c d

theorem cases_of_order {above : List Connection}
    (ho : (above ++ c :: below).Pairwise (Later s₀ ms)) (hd : d ∈ above ++ c :: below) :
    d ∈ above ∧ Later s₀ ms d c ∨ d = c ∨ d ∈ below ∧ Later s₀ ms c d := by
  obtain ⟨-, hbelow, habove⟩ := List.pairwise_append.1 ho
  rcases List.mem_append.1 hd with hd | hd
  · exact .inl ⟨hd, habove d hd c List.mem_cons_self⟩
  · rcases List.mem_cons.1 hd with hd | hd
    · exact .inr (.inl hd)
    · exact .inr (.inr ⟨hd, (List.pairwise_cons.1 hbelow).1 d hd⟩)

/-- Among connections in that order the one picked was released last of those not too old. -/
theorem finds_of_picks {old : Connection → Prop} {cs : List Connection}
    (h : Pool.Picks old cs got below) (ho : cs.Pairwise (Later s₀ ms)) :
    Finds s₀ ms old cs got below := by
  cases h with
  | reused above c below ha hc =>
    -- Every connection of the stack lies above the one picked, is it, or lies below.
    have hcases := fun d => cases_of_order (d := d) ho
    have hself : ¬ Later s₀ ms c c := fun h => Runs.Later.asymm h h
    have hmem : c ∈ above ++ c :: below := List.mem_append_right above List.mem_cons_self
    refine ⟨fun d => ⟨?_, ?_⟩, fun d => ⟨?_, ?_⟩, fun d => ⟨?_, ?_⟩⟩
    · rintro ⟨⟩
      refine ⟨hmem, hc, ?_⟩
      intro d hd hyoung
      rcases hcases d hd with ⟨hd, -⟩ | rfl | ⟨-, hlater⟩
      · exact absurd (ha d hd) hyoung
      · exact .inl rfl
      · exact .inr hlater
    · rintro ⟨hd, hyoung, hlatest⟩
      rcases hcases d hd with ⟨hd, -⟩ | rfl | ⟨-, hlater⟩
      · exact absurd (ha d hd) hyoung
      · rfl
      · rcases hlatest c hmem hc with rfl | hlater'
        · rfl
        · exact absurd hlater' (Runs.Later.asymm hlater)
    · intro hd
      refine ⟨List.mem_append_left _ hd, ha d hd, ?_⟩
      rintro c ⟨⟩
      exact (List.pairwise_append.1 ho).2.2 d hd c List.mem_cons_self
    · rintro ⟨hd, -, hlater⟩
      rcases hcases d hd with ⟨hd, -⟩ | rfl | ⟨-, hlater'⟩
      · exact hd
      · exact absurd (hlater d rfl) hself
      · exact absurd (hlater c rfl) (Runs.Later.asymm hlater')
    · intro hd
      refine ⟨List.mem_append_right above (List.mem_cons_of_mem c hd), c, rfl, ?_⟩
      exact (List.pairwise_cons.1 (List.pairwise_append.1 ho).2.1).1 d hd
    · rintro ⟨hd, _, ⟨⟩, hlater⟩
      rcases hcases d hd with ⟨-, hlater'⟩ | rfl | ⟨hd, -⟩
      · exact absurd hlater (Runs.Later.asymm hlater')
      · exact absurd hlater hself
      · exact hd
  | none all ha =>
    refine ⟨fun c => ⟨nofun, ?_⟩, fun d => ⟨fun hd => ⟨hd, ha d hd, nofun⟩, And.left⟩,
      fun d => ⟨nofun, ?_⟩⟩
    · rintro ⟨hc, hyoung, -⟩
      exact absurd (ha c hc) hyoung
    · rintro ⟨-, c, ⟨⟩, -⟩

/-- What a caller does until it has a connection, or has failed to make one. -/
inductive Deed
  | closes (c : Connection)
  | takes (c : Connection)
  | dials (address : String)

/-- What a caller that asked for a connection has yet to do. -/
def due : Chore → List Deed
  | .getting address expired found =>
    expired.map .closes ++ [found.elim (.dials address) .takes]
  | _ => []

/-- The caller that makes a move, if it has begun before. -/
def caller? : Move → Option Nat
  | .release k _ | .ended k _ | .handed k | .dialled k _ | .finish k => some k
  | .get _ | .close | .tick _ => none

/-- What a move does for a caller that asked for a connection. -/
def deed? : Move → Chore → Option Deed
  | .ended _ _, .getting _ (c :: _) _ => some (.closes c)
  | .handed _, .getting _ [] (some c) => some (.takes c)
  | .dialled _ _, .getting address [] none => some (.dials address)
  | _, _ => none

/-- What caller `k` does by a move. -/
def deedOf (k : Nat) (s : SharedPool) (m : Move) : List Deed :=
  if caller? m = some k then (s.chores[k]?.bind (deed? m)).toList else []

def deeds (k : Nat) : SharedPool → List Move → List Deed
  | _, [] => []
  | s, m :: ms => deedOf k s m ++ deeds k (s.step m) ms

/-- What caller `k` has yet to do. -/
def dueOf (s : SharedPool) (k : Nat) : List Deed := s.chores[k]?.elim [] due

/-- A caller stays at what it is at while others move. -/
theorem getElem?_step_of_caller?_ne (hk : k < s.chores.length) (hm : caller? m ≠ some k) :
    (s.step m).chores[k]? = s.chores[k]? := by
  have ht := step_trans s m
  generalize s.step m = s' at ht
  cases ht with
  | idle | ticked => rfl
  | got | drained => exact List.getElem?_append_left hk
  | released j | closed j | handed j | dialled j | undialled j | finished j =>
    exact List.getElem?_set_ne fun hj => hm (congrArg some hj)

theorem dueOf_eq {t : Chore} (ht : s.chores[k]? = some t) : s.dueOf k = due t := by
  rw [dueOf, ht]
  rfl

theorem dueOf_setChore {u : Chore} (hk : k < s.chores.length) : (s.setChore k u).dueOf k = due u :=
  dueOf_eq (List.getElem?_set_self hk)

/-- A caller's own move does the next thing due to it. -/
theorem deedOf_step_self (hk : k < s.chores.length) (hm : caller? m = some k) :
    deedOf k s m ++ (s.step m).dueOf k = s.dueOf k := by
  have ht := List.getElem?_eq_getElem hk
  generalize s.chores[k] = t at ht
  -- A move of the caller's takes the first thing that is due to it, or nothing.
  have hset : ∀ u closed made pool, ({ s with closed, made, pool }.setChore k u).dueOf k = due u :=
    fun u closed made pool => dueOf_setChore hk
  rw [dueOf_eq ht, deedOf, if_pos hm, ht, Option.bind_some]
  cases m with
  | get | close | tick => cases hm
  | release j failed =>
    cases hm
    simp only [step, ht]
    cases t with
    | holding c =>
      simp only [hset]
      cases (s.pool.release c failed).2 <;> rfl
    | getting | discarding | emptying | emptied | done => exact dueOf_eq ht
  | ended j e =>
    cases hm
    simp only [step, ht]
    rcases t with ⟨address, _ | ⟨c, cs⟩, found⟩ | c | c | ⟨_ | ⟨c, cs⟩, ends⟩ | ⟨ends, r⟩ | _
    case getting.cons => simp only [hset]; rfl
    case discarding => simp only [hset]; rfl
    case emptying.cons => simp only [hset]; rfl
    all_goals exact dueOf_eq ht
  | handed j =>
    cases hm
    simp only [step, ht]
    rcases t with ⟨address, _ | ⟨c, cs⟩, _ | d⟩ | c | c | ⟨cs, ends⟩ | ⟨ends, r⟩ | _
    case getting.nil.some => simp only [dueOf_setChore hk]; rfl
    all_goals exact dueOf_eq ht
  | dialled j r =>
    cases hm
    simp only [step, ht]
    rcases t with ⟨address, _ | ⟨c, cs⟩, _ | d⟩ | c | c | ⟨cs, ends⟩ | ⟨ends, r⟩ | _
    case getting.nil.none => cases r <;> simp only [hset] <;> rfl
    all_goals exact dueOf_eq ht
  | finish j =>
    cases hm
    simp only [step, ht]
    rcases t with ⟨address, cs, found⟩ | c | c | ⟨_ | ⟨c, cs⟩, ends⟩ | ⟨ends, r⟩ | _
    case emptying.nil => simp only [dueOf_setChore hk]; rfl
    all_goals exact dueOf_eq ht

/-- What a caller has done and what is due to it are the same in sum after every move. -/
theorem deedOf_step (hk : k < s.chores.length) (m : Move) :
    deedOf k s m ++ (s.step m).dueOf k = s.dueOf k := by
  by_cases hm : caller? m = some k
  · exact deedOf_step_self hk hm
  · rw [deedOf, if_neg hm, dueOf, getElem?_step_of_caller?_ne hk hm]
    rfl

theorem length_chores_step (s : SharedPool) (m : Move) :
    s.chores.length ≤ (s.step m).chores.length := by
  have ht := step_trans s m
  generalize s.step m = s' at ht
  cases ht with
  | idle | ticked => exact Nat.le_refl _
  | got | drained =>
    rw [List.length_append]
    exact Nat.le_add_right _ _
  | released | closed | handed | dialled | undialled | finished =>
    exact Nat.le_of_eq List.length_set.symm

/-- What was due is done in its order, whatever others do meanwhile. -/
theorem deeds_append_dueOf (hk : k < s.chores.length) (ms : List Move) :
    deeds k s ms ++ (s.run ms).dueOf k = s.dueOf k := by
  induction ms generalizing s with
  | nil => rfl
  | cons m ms ih =>
    have ih := ih (Nat.lt_of_lt_of_le hk (length_chores_step s m))
    rw [deeds, List.append_assoc]
    exact (congrArg _ ih).trans (deedOf_step hk m)

/-- How a caller gets a connection among others that use the pool: it finds the one released last of
those not too old, closes what it passed over, and dials when there was none. -/
structure Gets (s₀ : SharedPool) (ms : List Move) (address : String) (s' : SharedPool)
    (got : Acquired) :
    Prop where
  finds : Finds s₀ ms ((s₀.run ms).pool.Outlived (s₀.run ms).now) ((s₀.run ms).pool.idleAt address)
    got (s'.pool.idleAt address)
  others : ∀ a, a ≠ address → s'.pool.idleAt a = (s₀.run ms).pool.idleAt a
  deeds : ∀ ns, deeds (s₀.run ms).chores.length s' ns ++
      (s'.run ns).dueOf (s₀.run ms).chores.length =
    got.expired.map .closes ++ [got.found.elim (.dials address) .takes]

/-- A caller gets a connection in this way whatever others do with the pool. -/
theorem Stacked.gets (h : Stacked s₀ ms) (address : String) :
    ∃ got, Gets s₀ ms address ((s₀.run ms).step (.get address)) got := by
  refine ⟨((s₀.run ms).pool.acquire (s₀.run ms).now address).2, ?_, ?_, ?_⟩
  · exact finds_of_picks (Pool.acquire_picks _ _ address) (h.order address)
  · exact fun a ha => Pool.idleAt_acquire_of_ne ha
  · intro ns
    have ht : ((s₀.run ms).step (.get address)).chores[(s₀.run ms).chores.length]? = some
        (.getting address ((s₀.run ms).pool.acquire (s₀.run ms).now address).2.expired
          ((s₀.run ms).pool.acquire (s₀.run ms).now address).2.found) :=
      List.getElem?_concat_length
    rw [deeds_append_dueOf (List.getElem?_eq_some_iff.1 ht).1, dueOf_eq ht]
    rfl

end SharedPool
end Switchboard.Client

namespace Switchboard.Bench.PoolRun

open Client

variable {r : PoolRun} {address : String} {stream : Bool} {timeout : Duration} {c : Connection}

def Outlived (r : PoolRun) (c : Connection) : Prop := r.pool.Outlived r.now c

/-- The line in the log for a connection that is closed. -/
def closing (c : Connection) : String := "close " ++ toString c.id

/-- The line in the log for a dial. -/
def dialling (number : Nat) (address : String) (stream : Bool) (timeout : Duration) : String :=
  "dial " ++ toString number ++ " " ++ address ++ " stream=" ++ toString stream ++
    " timeout=" ++ toString timeout

/-- Getting a connection from a stack finds one that is not too old, or dials, and that may fail. -/
inductive Gets (r : PoolRun) (address : String) (stream : Bool) (timeout : Duration) :
    PoolRun × Except Transport.Error Connection → Prop
  | reused (r' : PoolRun) (above : List Connection) (c : Connection) (below : List Connection)
    (hs : r.pool.idleAt address = above ++ c :: below)
    (ha : ∀ x ∈ above, r.Outlived x) (hc : ¬ r.Outlived c)
    (hi : r'.pool.idleAt address = below)
    (hl : r'.log = r.log ++ above.map closing) (hn : r'.network = r.network) :
    Gets r address stream timeout (r', .ok c)
  | dialled (r' : PoolRun) (result : Except Transport.Error Connection)
    (ha : ∀ x ∈ r.pool.idleAt address, r.Outlived x)
    (hi : r'.pool.idleAt address = [])
    (hl : r'.log = r.log ++ (r.pool.idleAt address).map closing ++
      [dialling r.network.dialled address stream timeout])
    (hn : r'.network =
      { r.network with dials := r.network.dials.tail, dialled := r.network.dialled + 1 })
    (hr : result = (Network.outcome (r.network.dials.headD {}) address timeout).2.map
      fun _ => ⟨r.network.dialled, address, r'.now⟩) :
    Gets r address stream timeout (r', result)

theorem foldl_close (cs : List Connection) (r : PoolRun) :
    cs.foldl close r = { r with log := r.log ++ cs.map closing } := by
  induction cs generalizing r with
  | nil => simp
  | cons c cs ih =>
    rw [List.foldl_cons, ih, close, write]
    simp [closing]

theorem eq_hand (r : PoolRun) (c : Connection) : ∃ given, r.hand c = { r with given } := by
  unfold hand
  split
  · exact ⟨r.given, rfl⟩
  · exact ⟨r.given ++ [c.id], rfl⟩

/-- The pool is looked through, and what was found expired is closed. -/
def cleared (r : PoolRun) (address : String) : PoolRun :=
  { r with
    pool := (r.pool.acquire r.now address).1
    log := r.log ++ (r.pool.acquire r.now address).2.expired.map closing }

/-- A dial, however it ends. -/
def dials (r : PoolRun) (address : String) (stream : Bool) (timeout : Duration) : PoolRun :=
  { r with
    log := r.log ++ [dialling r.network.dialled address stream timeout]
    network := { r.network with dials := r.network.dials.tail, dialled := r.network.dialled + 1 }
    now := r.now + (Network.outcome (r.network.dials.headD {}) address timeout).1 }

theorem acquire_of_found (hf : (r.pool.acquire r.now address).2.found = some c) :
    r.acquire address stream timeout = ((r.cleared address).hand c, .ok c) := by
  unfold acquire
  simp only [foldl_close, hf]
  rfl

/-- Where nothing idle is left a connection is dialled, and handed out if that succeeds. -/
theorem acquire_of_none (stream : Bool) (timeout : Duration)
    (hf : (r.pool.acquire r.now address).2.found = none) :
    ∃ given, r.acquire address stream timeout =
      ({ (r.cleared address).dials address stream timeout with given },
        (Network.outcome (r.network.dials.headD {}) address timeout).2.map fun _ =>
          ⟨r.network.dialled, address,
            ((r.cleared address).dials address stream timeout).now⟩) := by
  unfold acquire
  simp only [foldl_close, hf, Network.dial]
  cases ho : (Network.outcome (r.network.dials.headD {}) address timeout).2 with
  | ok _ =>
    obtain ⟨given, hg⟩ := eq_hand ((r.cleared address).dials address stream timeout)
      ⟨r.network.dialled, address, ((r.cleared address).dials address stream timeout).now⟩
    exact ⟨given, congrArg (Prod.mk · _) hg⟩
  | error e => exact ⟨r.given, rfl⟩

/-- One get by itself, with its dial and its closings. -/
theorem acquire_gets (r : PoolRun) (address : String) (stream : Bool) (timeout : Duration) :
    Gets r address stream timeout (r.acquire address stream timeout) := by
  have hpicks := Pool.acquire_picks r.pool r.now address
  generalize hs : r.pool.idleAt address = cs at hpicks
  generalize hg : (r.pool.acquire r.now address).2 = got at hpicks
  generalize hi : (r.pool.acquire r.now address).1.idleAt address = below at hpicks
  cases hpicks with
  | reused above c below ha hc =>
    rw [acquire_of_found (by rw [hg])]
    obtain ⟨given, hgiven⟩ := eq_hand (r.cleared address) c
    rw [hgiven]
    refine .reused _ above c below hs ha hc hi ?_ rfl
    rw [cleared, hg]
  | none all ha =>
    obtain ⟨given, hr⟩ := acquire_of_none stream timeout (by rw [hg])
    rw [hr]
    refine .dialled _ _ ?_ hi ?_ rfl rfl
    · rw [hs]
      exact ha
    · rw [dials, cleared, hg, hs]

theorem pool_acquire (r : PoolRun) (address : String) (stream : Bool) (timeout : Duration) :
    (r.acquire address stream timeout).1.pool = (r.pool.acquire r.now address).1 := by
  cases hf : (r.pool.acquire r.now address).2.found with
  | some c =>
    rw [acquire_of_found hf]
    obtain ⟨given, hgiven⟩ := eq_hand (r.cleared address) c
    rw [hgiven]
    rfl
  | none =>
    obtain ⟨given, hr⟩ := acquire_of_none stream timeout hf
    rw [hr]
    rfl

/-- Either nothing is dialled and something was young, or there is one dial and nothing was. -/
theorem Gets.network {x : PoolRun × Except Transport.Error Connection}
    (h : Gets r address stream timeout x) :
    x.1.network = r.network ∧ (∃ c ∈ r.pool.idleAt address, ¬ r.Outlived c) ∨
      x.1.network.dialled = r.network.dialled + 1 ∧ ∀ c ∈ r.pool.idleAt address, r.Outlived c := by
  cases h with
  | reused r' above c below hs ha hc hi hl hn => exact .inl ⟨hn, c, by simp [hs], hc⟩
  | dialled r' result ha hi hl hn hr => exact .inr ⟨by rw [hn], ha⟩

/-- What getting a connection comes to, by itself. -/
structure Reuses (r : PoolRun) (address : String) (stream : Bool) (timeout : Duration) : Prop where
  gets : Gets r address stream timeout (r.acquire address stream timeout)
  others : ∀ a, a ≠ address →
    (r.acquire address stream timeout).1.pool.idleAt a = r.pool.idleAt a
  dials : (r.acquire address stream timeout).1.network.dialled = r.network.dialled + 1 ↔
    ∀ c ∈ r.pool.idleAt address, r.Outlived c
  spares : (r.acquire address stream timeout).1.network = r.network ↔
    ∃ c ∈ r.pool.idleAt address, ¬ r.Outlived c

/-- On any pool a get reuses what it can. -/
theorem reuses (r : PoolRun) (address : String) (stream : Bool) (timeout : Duration) :
    r.Reuses address stream timeout := by
  have hgets := acquire_gets r address stream timeout
  refine ⟨hgets, ?_, ?_, ?_⟩
  · intro a ha
    rw [pool_acquire, Pool.idleAt_acquire_of_ne ha]
  · rcases hgets.network with ⟨hn, c, hc, hyoung⟩ | ⟨hn, hold⟩
    · rw [hn]
      exact ⟨fun h => absurd h (Nat.ne_of_lt (Nat.lt_succ_self _)), fun h => absurd (h c hc) hyoung⟩
    · exact ⟨fun _ => hold, fun _ => hn⟩
  · rcases hgets.network with ⟨hn, hyoung⟩ | ⟨hn, hold⟩
    · exact ⟨fun _ => hyoung, fun _ => hn⟩
    · refine ⟨fun h => ?_, ?_⟩
      · rw [h] at hn
        exact absurd hn (Nat.ne_of_lt (Nat.lt_succ_self _))
      · rintro ⟨c, hc, hyoung⟩
        exact absurd (hold c hc) hyoung

/-- A pool gives out the connection released last of those that are not too old, closes the ones
that it passes over, and dials exactly when there is none; so it does for any number of callers. -/
theorem acquire_exact (r : PoolRun) (address : String) (stream : Bool) (timeout : Duration)
    (size : Nat) (ttl : Duration) (ms : List SharedPool.Move) :
    r.Reuses address stream timeout ∧
      ∃ got, SharedPool.Gets (.new size ttl) ms address
        (((SharedPool.new size ttl).run ms).step (.get address)) got :=
  ⟨reuses r address stream timeout, (SharedPool.stacked_run size ttl ms).gets address⟩

end Switchboard.Bench.PoolRun
