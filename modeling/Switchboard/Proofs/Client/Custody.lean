import Mathlib.Data.List.Nodup
import Switchboard.Proofs.Client.Pool

/-! Callers of a pool, in any number and order, and where each of its connections is. -/
namespace Switchboard.Client

/-- A connection that was closed, and how that ended. -/
abbrev Closing := Connection × Except Transport.Error Unit

/-- What a caller of the pool is at. The connections that it closes go one after another. -/
inductive Chore
  | getting (address : String) (expired : List Connection) (found : Option Connection)
  | holding (c : Connection)
  | discarding (c : Connection)
  | emptying (left : List Connection) (ends : List Closing)
  | emptied (ends : List Closing) (result : Except Transport.Error Unit)
  | done

namespace Chore

/-- The connections that are a caller's own, or on the way to it. -/
def kept : Chore → List Connection
  | getting _ _ found => found.toList
  | holding c => [c]
  | _ => []

/-- The connections that are yet to be closed. -/
def doomed : Chore → List Connection
  | getting _ expired _ => expired
  | discarding c => [c]
  | emptying left _ => left
  | _ => []

def held : Chore → List Connection
  | holding c => [c]
  | _ => []

/-- The caller is between two operations. -/
def AtRest : Chore → Prop
  | holding _ | emptied _ _ | done => True
  | _ => False

/-- A caller that empties the pool has closed what it says it has, and says how that ended. -/
def Recorded (closed : List Closing) : Chore → Prop
  | emptying _ ends => ends.Sublist closed
  | emptied ends result => ends.Sublist closed ∧ result = Pool.outcome (ends.map (·.2))
  | _ => True

theorem Recorded.append {t : Chore} {closed : List Closing} (h : t.Recorded closed) (x : Closing) :
    t.Recorded (closed ++ [x]) := by
  cases t with
  | emptying cs ends => exact h.trans (List.sublist_append_left _ _)
  | emptied ends r => exact ⟨h.1.trans (List.sublist_append_left _ _), h.2⟩
  | getting | holding | discarding | done => trivial

end Chore

/-- A pool with its callers. `made` has every connection that was dialled, `closed` every one that
the pool closed. -/
structure SharedPool where
  pool : Pool
  now : Instant := 0
  made : List Connection := []
  closed : List Closing := []
  chores : List Chore := []

namespace SharedPool

/-- An operation takes or leaves connections while it has the lock, and closes and dials without it.
-/
inductive Move
  | get (address : String)
  | release (k : Nat) (failed : Bool)
  | close
  | ended (k : Nat) (e : Except Transport.Error Unit)
  | handed (k : Nat)
  | dialled (k : Nat) (r : Except Transport.Error Unit)
  | finish (k : Nat)
  | tick (d : Duration)

variable {s s' : SharedPool} {m : Move} {k j size : Nat} {c : Connection} {t u : Chore}
  {ts : List Chore} {f : Chore → List Connection} {left cs : List Connection} {ends : List Closing}
  {r : Except Transport.Error Unit}

def new (size : Nat) (ttl : Duration) : SharedPool := { pool := { size, ttl } }

def setChore (s : SharedPool) (k : Nat) (t : Chore) : SharedPool :=
  { s with chores := s.chores.set k t }

/-- The connection that is made next, when its address is dialled now. -/
def next (s : SharedPool) (address : String) : Connection := ⟨s.made.length, address, s.now⟩

def step (s : SharedPool) : Move → SharedPool
  | .get address =>
    let (pool, got) := s.pool.acquire s.now address
    { s with pool, chores := s.chores ++ [.getting address got.expired got.found] }
  | .release k failed =>
    match s.chores[k]? with
    | some (.holding c) =>
      let (pool, discarded) := s.pool.release c failed
      { s with pool }.setChore k (discarded.elim .done .discarding)
    | _ => s
  | .close =>
    let (pool, cs) := s.pool.drain
    { s with pool, chores := s.chores ++ [.emptying cs []] }
  | .ended k e =>
    match s.chores[k]? with
    | some (.getting address (c :: cs) found) =>
      { s with closed := s.closed ++ [(c, e)] }.setChore k (.getting address cs found)
    | some (.discarding c) => { s with closed := s.closed ++ [(c, e)] }.setChore k .done
    | some (.emptying (c :: cs) ends) =>
      { s with closed := s.closed ++ [(c, e)] }.setChore k (.emptying cs (ends ++ [(c, e)]))
    | _ => s
  | .handed k =>
    match s.chores[k]? with
    | some (.getting _ [] (some c)) => s.setChore k (.holding c)
    | _ => s
  | .dialled k r =>
    match s.chores[k]?, r with
    | some (.getting address [] none), .ok () =>
      { s with made := s.made ++ [s.next address] }.setChore k (.holding (s.next address))
    | some (.getting _ [] none), .error _ => s.setChore k .done
    | _, _ => s
  | .finish k =>
    match s.chores[k]? with
    | some (.emptying [] ends) => s.setChore k (.emptied ends (Pool.outcome (ends.map (·.2))))
    | _ => s
  | .tick d => { s with now := s.now + d }

def run (s : SharedPool) (ms : List Move) : SharedPool := ms.foldl step s

/-- What a caller may come to be at when it closes the next of its connections. -/
inductive Closes (c : Connection) (e : Except Transport.Error Unit) : Chore → Chore → Prop
  | expired (address : String) (cs : List Connection) (found : Option Connection) :
    Closes c e (.getting address (c :: cs) found) (.getting address cs found)
  | discarded : Closes c e (.discarding c) .done
  | emptying (cs : List Connection) (ends : List Closing) :
    Closes c e (.emptying (c :: cs) ends) (.emptying cs (ends ++ [(c, e)]))

/-- All that a move can do to a pool and its callers. -/
inductive Trans (s : SharedPool) : Move → SharedPool → Prop
  | idle (m : Move) : Trans s m s
  | ticked (d : Duration) : Trans s (.tick d) { s with now := s.now + d }
  | got (address : String) : Trans s (.get address)
    { s with
      pool := (s.pool.acquire s.now address).1
      chores := s.chores ++ [.getting address (s.pool.acquire s.now address).2.expired
        (s.pool.acquire s.now address).2.found] }
  | released (k : Nat) (failed : Bool) (c : Connection) (hk : s.chores[k]? = some (.holding c)) :
    Trans s (.release k failed)
      ({ s with pool := (s.pool.release c failed).1 }.setChore k
        ((s.pool.release c failed).2.elim .done .discarding))
  | drained : Trans s .close
    { s with pool := s.pool.drain.1, chores := s.chores ++ [.emptying s.pool.drain.2 []] }
  | closed (k : Nat) (c : Connection) (e : Except Transport.Error Unit) (t u : Chore)
    (hk : s.chores[k]? = some t) (hc : Closes c e t u) :
    Trans s (.ended k e) ({ s with closed := s.closed ++ [(c, e)] }.setChore k u)
  | handed (k : Nat) (address : String) (c : Connection)
    (hk : s.chores[k]? = some (.getting address [] (some c))) :
    Trans s (.handed k) (s.setChore k (.holding c))
  | dialled (k : Nat) (address : String) (hk : s.chores[k]? = some (.getting address [] none)) :
    Trans s (.dialled k (.ok ()))
      ({ s with made := s.made ++ [s.next address] }.setChore k (.holding (s.next address)))
  | undialled (k : Nat) (address : String) (e : Transport.Error)
    (hk : s.chores[k]? = some (.getting address [] none)) :
    Trans s (.dialled k (.error e)) (s.setChore k .done)
  | finished (k : Nat) (ends : List Closing) (hk : s.chores[k]? = some (.emptying [] ends)) :
    Trans s (.finish k) (s.setChore k (.emptied ends (Pool.outcome (ends.map (·.2)))))

/-- Every move is one of those listed. -/
theorem step_trans (s : SharedPool) (m : Move) : Trans s m (s.step m) := by
  cases m with
  | get address => exact .got address
  | release k failed =>
    simp only [step]
    split
    · rename_i c hk
      exact .released k failed c hk
    · exact .idle _
  | close => exact .drained
  | ended k e =>
    simp only [step]
    split
    · rename_i hk
      exact .closed k _ e _ _ hk (.expired _ _ _)
    · rename_i hk
      exact .closed k _ e _ _ hk .discarded
    · rename_i hk
      exact .closed k _ e _ _ hk (.emptying _ _)
    · exact .idle _
  | handed k =>
    simp only [step]
    split
    · rename_i hk
      exact .handed k _ _ hk
    · exact .idle _
  | dialled k r =>
    simp only [step]
    split
    · rename_i hk
      exact .dialled k _ hk
    · rename_i hk
      exact .undialled k _ _ hk
    · exact .idle _
  | finish k =>
    simp only [step]
    split
    · rename_i hk
      exact .finished k _ hk
    · exact .idle _
  | tick d => exact .ticked d

/-- The connections that callers have. -/
def kept (s : SharedPool) : List Connection := s.chores.flatMap Chore.kept

/-- The connections that callers are yet to close. -/
def doomed (s : SharedPool) : List Connection := s.chores.flatMap Chore.doomed

def held (s : SharedPool) : List Connection := s.chores.flatMap Chore.held

/-- The connections that the pool closed, as often as it did. -/
def gone (s : SharedPool) : List Connection := s.closed.map (·.1)

/-- Every caller is between two operations. -/
def AtRest (s : SharedPool) : Prop := ∀ t ∈ s.chores, t.AtRest

/-- Where one of many is replaced, the counts of the others do not change. -/
theorem count_flatMap_set (hk : ts[k]? = some t) :
    ((ts.set k u).flatMap f).count c + (f t).count c =
      (ts.flatMap f).count c + (f u).count c := by
  induction ts generalizing k with
  | nil => cases hk
  | cons x ts ih =>
    cases k with
    | zero =>
      cases hk
      simp only [List.set_cons_zero, List.flatMap_cons, List.count_append]
      omega
    | succ k =>
      have ih := ih (k := k) hk
      simp only [List.set_cons_succ, List.flatMap_cons, List.count_append]
      omega

/-- Where the copies of a connection are, all over the pool and its callers. -/
def Balanced (s : SharedPool) : Prop :=
  ∀ c, s.pool.stock.count c + s.kept.count c + s.doomed.count c + s.gone.count c = s.made.count c

theorem Closes.count {e : Except Transport.Error Unit} {d : Connection} (h : Closes c e t u) :
    u.kept = t.kept ∧ t.doomed.count d = u.doomed.count d + [c].count d := by
  cases h with
  | expired address cs found => exact ⟨rfl, by simp [Chore.doomed, List.count_cons]⟩
  | discarded => exact ⟨rfl, by simp [Chore.doomed]⟩
  | emptying cs ends => exact ⟨rfl, by simp [Chore.doomed, List.count_cons]⟩

/-- A caller turns to another chore, and what it lets go of or takes up is made up for elsewhere. -/
theorem Balanced.setChore {q : SharedPool} (hs : s.Balanced) (hk : s.chores[k]? = some t)
    (hc : q.chores = s.chores)
    (he : ∀ d, q.pool.stock.count d + u.kept.count d + u.doomed.count d + q.gone.count d +
        s.made.count d =
      s.pool.stock.count d + t.kept.count d + t.doomed.count d + s.gone.count d +
        q.made.count d) :
    (q.setChore k u).Balanced := by
  intro d
  have hd := hs d
  have hkept := count_flatMap_set (c := d) (f := Chore.kept) (u := u) hk
  have hdoomed := count_flatMap_set (c := d) (f := Chore.doomed) (u := u) hk
  have he := he d
  simp only [kept, doomed, gone, SharedPool.setChore, hc] at hd he ⊢
  omega

/-- No move makes a copy of a connection or loses one. -/
theorem Balanced.step (hs : s.Balanced) (ht : Trans s m s') : s'.Balanced := by
  cases ht with
  | idle | ticked => exact hs
  | got address =>
    intro d
    have hd := hs d
    have hpool := (Pool.acquire_perm s.pool s.now address).count_eq d
    simp only [kept, doomed, gone, List.flatMap_append, List.flatMap_singleton, Chore.kept,
      Chore.doomed, List.count_append] at hd hpool ⊢
    omega
  | drained =>
    intro d
    have hd := hs d
    have hpool := (Pool.drain_perm s.pool).count_eq d
    simp only [kept, doomed, gone, List.flatMap_append, List.flatMap_singleton, Chore.kept,
      Chore.doomed, List.count_append, List.count_nil, Pool.stock_drain] at hd ⊢
    omega
  | released k failed c hk =>
    refine hs.setChore hk rfl ?_
    intro d
    have hpool := (Pool.release_perm s.pool c failed).count_eq d
    cases hr : (s.pool.release c failed).2 <;>
    · simp only [hr, gone, Chore.kept, Chore.doomed, Option.elim, Option.toList,
        List.count_append, List.count_cons, List.count_nil] at hpool ⊢
      omega
  | closed k c e t u hk hc =>
    refine hs.setChore hk rfl ?_
    intro d
    obtain ⟨hkept, hdoomed⟩ := hc.count (d := d)
    simp only [hkept, hdoomed, gone, List.map_append, List.map_cons, List.map_nil,
      List.count_append]
    omega
  | handed k address c hk => exact hs.setChore hk rfl fun d => rfl
  | dialled k address hk =>
    refine hs.setChore hk rfl ?_
    intro d
    simp only [gone, Chore.kept, Chore.doomed, Option.toList_none, List.count_nil,
      List.count_append]
    omega
  | undialled k address e hk => exact hs.setChore hk rfl fun d => rfl
  | finished k ends hk => exact hs.setChore hk rfl fun d => rfl

structure Sound (size : Nat) (s : SharedPool) : Prop where
  size : s.pool.size = size
  housed : s.pool.Housed
  numbered : s.made.map (·.id) = List.range s.made.length
  balanced : s.Balanced
  recorded : ∀ t ∈ s.chores, t.Recorded s.closed

theorem sound_new (size : Nat) (ttl : Duration) : (new size ttl).Sound size where
  size := rfl
  housed _ := ⟨nofun, Nat.zero_le _⟩
  numbered := rfl
  balanced _ := rfl
  recorded _ h := nomatch h

theorem Sound.nodup (hs : s.Sound size) : s.made.Nodup := by
  have hn : (s.made.map (·.id)).Nodup := hs.numbered ▸ List.nodup_range
  exact List.Nodup.of_map _ hn

theorem numbered_next (hn : s.made.map (·.id) = List.range s.made.length) (address : String) :
    (s.made ++ [s.next address]).map (·.id) = List.range (s.made ++ [s.next address]).length := by
  rw [List.map_append, hn, List.length_append, List.length_singleton, List.range_succ]
  rfl

theorem recorded_setChore {closed : List Closing}
    (hs : ∀ t ∈ s.chores, t.Recorded closed) (hu : u.Recorded closed) :
    ∀ t ∈ s.chores.set k u, t.Recorded closed := by
  intro t ht
  rcases List.mem_or_eq_of_mem_set ht with ht | rfl
  · exact hs t ht
  · exact hu

theorem Closes.recorded {e : Except Transport.Error Unit} {closed : List Closing}
    (h : Closes c e t u) (ht : t.Recorded closed) : u.Recorded (closed ++ [(c, e)]) := by
  cases h with
  | expired | discarded => trivial
  | emptying cs ends => exact List.Sublist.append ht (List.Sublist.refl _)

/-- What the chores have closed is on record after every move. -/
theorem recorded_step (hs : ∀ t ∈ s.chores, t.Recorded s.closed) (ht : Trans s m s') :
    ∀ t ∈ s'.chores, t.Recorded s'.closed := by
  cases ht with
  | idle | ticked => exact hs
  | got address =>
    intro t ht
    rcases List.mem_append.1 ht with ht | ht
    · exact hs t ht
    · rw [List.mem_singleton.1 ht]
      trivial
  | drained =>
    intro t ht
    rcases List.mem_append.1 ht with ht | ht
    · exact hs t ht
    · rw [List.mem_singleton.1 ht]
      exact List.nil_sublist _
  | released k failed c hk =>
    refine recorded_setChore hs ?_
    cases (s.pool.release c failed).2 <;> trivial
  | closed k c e t u hk hc =>
    have hall : ∀ t ∈ s.chores, t.Recorded (s.closed ++ [(c, e)]) :=
      fun t ht => (hs t ht).append _
    exact recorded_setChore hall (hc.recorded (hs t (List.mem_of_getElem? hk)))
  | handed | dialled | undialled => exact recorded_setChore hs trivial
  | finished k ends hk =>
    have he : ends.Sublist s.closed := hs _ (List.mem_of_getElem? hk)
    exact recorded_setChore hs ⟨he, rfl⟩

/-- The pool with its callers stays sound from move to move. -/
theorem Sound.step (hs : s.Sound size) (ht : Trans s m s') : s'.Sound size := by
  have hbalanced := hs.balanced.step ht
  have hrecorded := recorded_step hs.recorded ht
  cases ht with
  | idle | ticked | closed | handed | undialled | finished =>
    exact ⟨hs.size, hs.housed, hs.numbered, hbalanced, hrecorded⟩
  | got address =>
    exact ⟨hs.size, hs.housed.acquire s.now address, hs.numbered, hbalanced, hrecorded⟩
  | released k failed c hk =>
    have hsize : (s.pool.release c failed).1.size = size := by rw [Pool.size_release, hs.size]
    exact ⟨hsize, hs.housed.release c failed, hs.numbered, hbalanced, hrecorded⟩
  | drained => exact ⟨hs.size, .drain s.pool, hs.numbered, hbalanced, hrecorded⟩
  | dialled k address hk =>
    exact ⟨hs.size, hs.housed, numbered_next hs.numbered address, hbalanced, hrecorded⟩

theorem Sound.run (hs : s.Sound size) (ms : List Move) : (s.run ms).Sound size := by
  induction ms generalizing s with
  | nil => exact hs
  | cons m ms ih => exact ih (hs.step (step_trans s m))

theorem Sound.placed (hs : s.Sound size) :
    (s.pool.stock ++ s.kept ++ s.doomed ++ s.gone).Perm s.made := by
  refine List.perm_iff_count.2 ?_
  intro c
  simpa only [List.count_append] using hs.balanced c

/-- While no chore is under way, none of them is doomed. -/
theorem Sound.placed_atRest (hs : s.Sound size) (hr : s.AtRest) :
    (s.pool.stock ++ s.held ++ s.gone).Perm s.made := by
  have hkept : s.kept = s.held := by
    refine List.flatMap_congr ?_
    intro t ht
    have hrest := hr t ht
    cases t <;> trivial
  have hdoomed : s.doomed = [] := by
    refine List.flatMap_eq_nil_iff.2 ?_
    intro t ht
    have hrest := hr t ht
    cases t <;> trivial
  have hp := hs.placed
  rwa [hkept, hdoomed, List.append_nil] at hp

/-- The connections that the pool is done with: they are closed, or are going to be. -/
def spent (s : SharedPool) : List Connection := s.doomed ++ s.gone

/-- A connection that is doomed or closed is neither idle nor with a caller. -/
theorem Sound.spent (hs : s.Sound size) (hc : c ∈ s.spent) : c ∉ s.pool.stock ∧ c ∉ s.kept := by
  have hone := List.nodup_iff_count_le_one.1 hs.nodup c
  have hcount := hs.balanced c
  have hspent := List.count_pos_iff.2 hc
  rw [SharedPool.spent, List.count_append] at hspent
  constructor
  · intro hstock
    have hpos := List.count_pos_iff.2 hstock
    omega
  · intro hkept
    have hpos := List.count_pos_iff.2 hkept
    omega

theorem count_spent_setChore {q : SharedPool} (hk : s.chores[k]? = some t) (hc : q.chores = s.chores)
    (he : t.doomed.count c + s.gone.count c ≤ u.doomed.count c + q.gone.count c) :
    s.spent.count c ≤ (q.setChore k u).spent.count c := by
  have hdoomed := count_flatMap_set (c := c) (f := Chore.doomed) (u := u) hk
  simp only [spent, List.count_append, doomed, gone, setChore, hc] at he ⊢
  omega

/-- Nothing that the pool is done with comes back. -/
theorem spent_step (ht : Trans s m s') : s.spent.count c ≤ s'.spent.count c := by
  cases ht with
  | idle | ticked => exact Nat.le_refl _
  | got | drained =>
    simp only [spent, doomed, gone, List.flatMap_append, List.count_append]
    omega
  | released k failed d hk => exact count_spent_setChore hk rfl (by simp [Chore.doomed, gone])
  | closed k d e t u hk hc =>
    refine count_spent_setChore hk rfl ?_
    have hdoomed := (hc.count (d := c)).2
    simp only [gone, List.map_append, List.map_cons, List.map_nil, List.count_append]
    omega
  | handed k address d hk => exact count_spent_setChore hk rfl (Nat.le_refl _)
  | dialled k address hk => exact count_spent_setChore hk rfl (Nat.le_refl _)
  | undialled k address e hk => exact count_spent_setChore hk rfl (Nat.le_refl _)
  | finished k ends hk => exact count_spent_setChore hk rfl (Nat.le_refl _)

theorem spent_run (ms : List Move) (hc : c ∈ s.spent) : c ∈ (s.run ms).spent := by
  induction ms generalizing s with
  | nil => exact hc
  | cons m ms ih =>
    refine ih (List.count_pos_iff.1 ?_)
    exact Nat.lt_of_lt_of_le (List.count_pos_iff.2 hc) (spent_step (step_trans s m))

theorem spent_release (hk : s.chores[k]? = some (.holding c)) :
    c ∈ (s.step (.release k true)).spent := by
  have hstep : s.step (.release k true) = s.setChore k (.discarding c) := by
    simp only [step, hk, Pool.release_failed, Option.elim]
  have hmem : Chore.discarding c ∈ (s.chores.set k (.discarding c)) :=
    List.mem_set (List.getElem?_eq_some_iff.1 hk).1 _
  rw [hstep]
  exact List.mem_append_left _ (List.mem_flatMap.2 ⟨_, hmem, List.mem_singleton_self c⟩)

/-- Caller `k` is closing the connections `cs`, has closed some, and has no others to close. -/
def Empties (s : SharedPool) (k : Nat) (cs : List Connection) : Prop :=
  ∃ left ends, ends.map (·.1) ++ left = cs ∧
    (s.chores[k]? = some (.emptying left ends) ∨
      left = [] ∧ ∃ r, s.chores[k]? = some (.emptied ends r))

theorem Empties.step (h : s.Empties k cs) (ht : Trans s m s') : s'.Empties k cs := by
  -- Moves of other callers leave what is closed here and what is left as they are.
  have keep {q : SharedPool} (hq : q.chores[k]? = s.chores[k]?) : q.Empties k cs := by
    obtain ⟨left, ends, hcs, hk⟩ := h
    exact ⟨left, ends, hcs, by rwa [hq]⟩
  have hlt : k < s.chores.length := by
    obtain ⟨left, ends, -, hk | ⟨-, r, hk⟩⟩ := h <;> exact (List.getElem?_eq_some_iff.1 hk).1
  cases ht with
  | idle | ticked => exact h
  | got | drained => exact keep (List.getElem?_append_left hlt)
  | released j failed c hj | handed j address c hj | dialled j address hj
  | undialled j address e hj =>
    refine keep (List.getElem?_set_ne ?_)
    rintro rfl
    obtain ⟨left, ends, -, hk | ⟨-, r, hk⟩⟩ := h <;> simp [hj] at hk
  | closed j c e t u hj hc =>
    by_cases hjk : j = k
    · subst hjk
      obtain ⟨left, ends, hcs, hk | ⟨-, r, hk⟩⟩ := h
      · rw [hj] at hk
        cases hk
        cases hc with
        | emptying left ends =>
          refine ⟨left, ends ++ [(c, e)], ?_, .inl (List.getElem?_set_self hlt)⟩
          simpa using hcs
      · rw [hj] at hk
        cases hk
        cases hc
    · exact keep (List.getElem?_set_ne hjk)
  | finished j ends hj =>
    by_cases hjk : j = k
    · subst hjk
      obtain ⟨left, ends', hcs, hk | ⟨-, r, hk⟩⟩ := h
      · rw [hj] at hk
        cases hk
        exact ⟨[], ends, hcs, .inr ⟨rfl, _, List.getElem?_set_self hlt⟩⟩
      · rw [hj] at hk
        cases hk
    · exact keep (List.getElem?_set_ne hjk)

/-- Closing goes on, connection by connection, through the whole run. -/
theorem Empties.run (h : s.Empties k cs) (ms : List Move) : (s.run ms).Empties k cs := by
  induction ms generalizing s with
  | nil => exact h
  | cons m ms ih => exact ih (h.step (step_trans s m))

theorem empties_close (s : SharedPool) : (s.step .close).Empties s.chores.length s.pool.drain.2 :=
  ⟨s.pool.drain.2, [], rfl, .inl List.getElem?_concat_length⟩

/-- However its closes end, a caller that empties the pool goes on to the last of them. -/
theorem emptying_run {left : List Connection} {ends : List Closing}
    (hk : s.chores[k]? = some (.emptying left ends)) (es : List (Except Transport.Error Unit))
    (hl : es.length = left.length) :
    (s.run (es.map (.ended k) ++ [.finish k])).chores[k]? =
      some (.emptied (ends ++ left.zip es) (Pool.outcome ((ends ++ left.zip es).map (·.2)))) ∧
    (s.run (es.map (.ended k) ++ [.finish k])).pool = s.pool := by
  have hlt := (List.getElem?_eq_some_iff.1 hk).1
  induction es generalizing s left ends with
  | nil =>
    obtain rfl : left = [] := List.length_eq_zero_iff.1 hl.symm
    simp [run, step, hk, setChore, List.getElem?_set_self hlt]
  | cons e es ih =>
    obtain ⟨c, left, rfl⟩ := List.exists_cons_of_length_eq_add_one hl.symm
    have hstep : s.step (.ended k e) = { s with closed := s.closed ++ [(c, e)] }.setChore k
        (.emptying left (ends ++ [(c, e)])) := by
      simp only [step, hk]
    have hlen : es.length = left.length := by simpa using hl
    have hnext : (s.step (.ended k e)).chores[k]? = some (.emptying left (ends ++ [(c, e)])) := by
      rw [hstep]
      exact List.getElem?_set_self hlt
    have hlt' : k < (s.step (.ended k e)).chores.length := (List.getElem?_eq_some_iff.1 hnext).1
    have hpool : (s.step (.ended k e)).pool = s.pool := by rw [hstep]; rfl
    have ih := ih hnext hlen hlt'
    rw [hpool] at ih
    simpa [run] using ih

/-- Each connection is in one place: idle under its address, with a caller, or closed once. What was
released as failed is not handed out again; closing the pool closes all that was idle, and fails
when one of them failed to close. -/
structure Accounts (size : Nat) (s : SharedPool) : Prop where
  distinct : (s.made.map (·.id)).Nodup
  placed : (s.pool.stock ++ s.kept ++ s.doomed ++ s.gone).Perm s.made
  atRest : s.AtRest → (s.pool.stock ++ s.held ++ s.gone).Perm s.made
  filed : ∀ address c, c ∈ s.pool.idleAt address →
    c.address = address ∧ (s.pool.idleAt address).count c = 1
  bounded : ∀ address, (s.pool.idleAt address).length ≤ size
  refused : ∀ k c ms, s.chores[k]? = some (.holding c) →
    c ∉ ((s.step (.release k true)).run ms).pool.stock ∧
      c ∉ ((s.step (.release k true)).run ms).kept
  emptied : (s.step .close).pool.stock = [] ∧ s.pool.drain.2.Perm s.pool.stock ∧
    (s.step .close).chores = s.chores ++ [.emptying s.pool.drain.2 []]
  attempts : ∀ ms, ((s.step .close).run ms).Empties s.chores.length s.pool.drain.2
  goesOn : ∀ k left ends es, s.chores[k]? = some (.emptying left ends) → es.length = left.length →
    (s.run (es.map (.ended k) ++ [.finish k])).chores[k]? =
        some (.emptied (ends ++ left.zip es) (Pool.outcome ((ends ++ left.zip es).map (·.2)))) ∧
      (s.run (es.map (.ended k) ++ [.finish k])).pool = s.pool
  outcome : ∀ (k : Nat) (ends : List Closing) (r : Except Transport.Error Unit),
    s.chores[k]? = some (.emptied ends r) →
      ends.Sublist s.closed ∧ (r ≠ .ok () ↔ ∃ x ∈ ends, x.2 ≠ .ok ())

theorem Sound.filed (hs : s.Sound size) {address : String} (hc : c ∈ s.pool.idleAt address) :
    c.address = address ∧ (s.pool.idleAt address).count c = 1 := by
  have hone := List.nodup_iff_count_le_one.1 hs.nodup c
  have hcount := hs.balanced c
  have hsub := (Pool.idleAt_sublist s.pool address).count_le c
  have hpos := List.count_pos_iff.2 hc
  exact ⟨(hs.housed address).1 c hc, by omega⟩

/-- A close fails exactly when one of its connections failed to close. -/
theorem Sound.outcome (hs : s.Sound size) (hk : s.chores[k]? = some (.emptied ends r)) :
    ends.Sublist s.closed ∧ (r ≠ .ok () ↔ ∃ x ∈ ends, x.2 ≠ .ok ()) := by
  obtain ⟨hsub, rfl⟩ := hs.recorded _ (List.mem_of_getElem? hk)
  refine ⟨hsub, ?_⟩
  rw [Pool.outcome_ne_ok_iff]
  constructor
  · rintro ⟨e, he, hne⟩
    obtain ⟨x, hx, rfl⟩ := List.mem_map.1 he
    exact ⟨x, hx, hne⟩
  · rintro ⟨x, hx, hne⟩
    exact ⟨x.2, List.mem_map_of_mem hx, hne⟩

/-- After every run the pool accounts for all its connections. -/
theorem accounts_run (size : Nat) (ttl : Duration) (ms : List Move) :
    Accounts size ((new size ttl).run ms) := by
  have hs : ((new size ttl).run ms).Sound size := (sound_new size ttl).run ms
  exact {
    distinct := hs.numbered ▸ List.nodup_range
    placed := hs.placed
    atRest := hs.placed_atRest
    filed := fun address c hc => hs.filed hc
    bounded := by
      intro address
      have hl := (hs.housed address).2
      rwa [hs.size] at hl
    refused := by
      intro k c ns hk
      have hnext := (hs.step (step_trans _ (.release k true))).run ns
      exact hnext.spent (spent_run ns (spent_release hk))
    emptied := ⟨rfl, Pool.drain_perm _, rfl⟩
    attempts := fun ns => (empties_close _).run ns
    goesOn := fun k left ends es hk hl => emptying_run hk es hl
    outcome := fun k ends r hk => hs.outcome hk }

end SharedPool
end Switchboard.Client
