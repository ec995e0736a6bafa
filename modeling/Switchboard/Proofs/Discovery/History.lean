import Mathlib.Data.List.Induction
import Switchboard.Discovery.Registry
import Switchboard.Proofs.Discovery.Contents

/-! What a history of registrations says of a version, read without any registry. -/
namespace Switchboard.Discovery

/-- What can be asked of a registry that changes it. -/
inductive Act
  | register (now : Instant) (s : Service) (ttl : Option Duration)
  | deregister (s : Service)

namespace History

/-- What an act says of one version; a node may be told to end. -/
inductive Word
  | announce (metadata : Dict String) (endpoints : List Endpoint)
  | enter (n : Node) (ends : Option Instant)
  | leave (ns : List Node)

variable {ws xs : List Word} {w u : Word} {n m : Node} {ends e : Option Instant} {ds : List Node}
  {id a b : String} {k : Nat} {p : Word → Prop} {metadata : Dict String} {endpoints : List Endpoint}

namespace Word

def Announces : Word → Prop
  | announce _ _ => True
  | _ => False

def Leaves : Word → Prop
  | leave _ => True
  | _ => False

/-- To take back no nodes is to take back them all. -/
def Removes (id : String) : Word → Prop
  | leave ns => ns = [] ∨ ∃ n ∈ ns, n.id = id
  | _ => False

def Concerns (id : String) : Word → Prop
  | enter n _ => n.id = id
  | w => w.Removes id

theorem Removes.concerns (h : w.Removes id) : w.Concerns id := by
  cases w with
  | leave ns => exact h
  | announce | enter => exact h.elim

end Word

/-- A service without a name is turned down. -/
def words (name v : String) : Act → List Word
  | .register now s ttl =>
    if s.name ≠ "" ∧ s.name = name ∧ s.version = v then
      .announce s.metadata s.endpoints :: s.nodes.map (.enter · (ttl.map (now + ·)))
    else []
  | .deregister s => if s.name = name ∧ s.version = v then [.leave s.nodes] else []

def wordsOf (h : List Act) (name v : String) : List Word := h.flatMap (words name v)

/-- The word was said, and none of the kind since. -/
def Final (p : Word → Prop) (ws : List Word) (w : Word) : Prop :=
  ∃ xs ys, ws = xs ++ w :: ys ∧ ∀ u ∈ ys, ¬ p u

/-- The latest that was said of a node is that it is registered. -/
def Stands (ws : List Word) (n : Node) (ends : Option Instant) : Prop :=
  Final (Word.Concerns n.id) ws (.enter n ends)

def LivesAt (ws : List Word) (t : Instant) (n : Node) : Prop :=
  ∃ ends, Stands ws n ends ∧ ∀ e ∈ ends, t < e

/-- What the latest registration of the version says of it. -/
def Latest (ws : List Word) (metadata : Dict String) (endpoints : List Endpoint) : Prop :=
  Final Word.Announces ws (.announce metadata endpoints)

/-- The id was first registered at this place, since it did not stand, and not taken back after. -/
def Arrives (ws : List Word) (id : String) (k : Nat) : Prop :=
  ∃ xs n ends ys, ws = xs ++ .enter n ends :: ys ∧ xs.length = k ∧ n.id = id ∧
    (∀ m e, Stands xs m e → m.id ≠ id) ∧ ∀ u ∈ ys, ¬ u.Removes id

def Before (ws : List Word) (a b : String) : Prop :=
  ∃ i j, i < j ∧ Arrives ws a i ∧ Arrives ws b j

/-- A version is there while a node of it stands, even beyond its end, and from a registration on until
something is taken back. -/
def Present (ws : List Word) : Prop :=
  (∃ n ends, Stands ws n ends) ∨ ∃ xs w, ws = xs ++ [w] ∧ ¬ w.Leaves

/-- The service as a history has it at a time: its live nodes as they were last registered, in the
order in which they came. -/
structure Tells (ws : List Word) (t : Instant) (s : Service) : Prop where
  nodes : ∀ n, n ∈ s.nodes ↔ LivesAt ws t n
  order : (s.nodes.map (·.id)).Pairwise (Before ws)
  facts : Latest ws s.metadata s.endpoints

theorem wordsOf_snoc {h : List Act} {a : Act} {name v : String} :
    wordsOf (h ++ [a]) name v = wordsOf h name v ++ words name v a := by
  simp [wordsOf]

/-! One word more. -/

theorem final_nil : ¬ Final p [] w := by
  rintro ⟨xs, ys, h, -⟩
  simp at h

/-- A word more is final, and ends the others of its kind. -/
theorem final_snoc : Final p (ws ++ [u]) w ↔ u = w ∨ Final p ws w ∧ ¬ p u := by
  constructor
  · rintro ⟨xs, ys, h, hy⟩
    rcases List.eq_nil_or_concat ys with rfl | ⟨zs, z, rfl⟩
    · obtain ⟨-, h⟩ := List.append_inj' h rfl
      cases h
      exact .inl rfl
    · have h' : ws ++ [u] = (xs ++ w :: zs) ++ [z] := by simpa using h
      obtain ⟨rfl, hz⟩ := List.append_inj' h' rfl
      cases hz
      exact .inr ⟨⟨xs, zs, rfl, fun v hv => hy v (by simp [hv])⟩, hy u (by simp)⟩
  · rintro (rfl | ⟨⟨xs, ys, rfl, hy⟩, hu⟩)
    · exact ⟨ws, [], rfl, by simp⟩
    · refine ⟨xs, ys ++ [u], by simp, ?_⟩
      intro v hv
      rcases List.mem_append.1 hv with hv | hv
      · exact hy v hv
      · rwa [List.mem_singleton.1 hv]

theorem stands_announce :
    Stands (ws ++ [.announce metadata endpoints]) n ends ↔ Stands ws n ends := by
  rw [Stands, final_snoc]
  constructor
  · rintro (h | ⟨h, -⟩)
    · cases h
    · exact h
  · intro h
    exact .inr ⟨h, fun hc => hc⟩

/-- A node that enters stands, and others stand as before. -/
theorem stands_enter : Stands (ws ++ [.enter m e]) n ends ↔
    (m = n ∧ e = ends) ∨ (m.id ≠ n.id ∧ Stands ws n ends) := by
  rw [Stands, final_snoc]
  constructor
  · rintro (h | ⟨h, hc⟩)
    · cases h
      exact .inl ⟨rfl, rfl⟩
    · exact .inr ⟨hc, h⟩
  · rintro (⟨rfl, rfl⟩ | ⟨hc, h⟩)
    · exact .inl rfl
    · exact .inr ⟨h, hc⟩

theorem removes_leave : (Word.leave ds).Removes id ↔ ds = [] ∨ (nodeOf ds id).isSome := by
  refine or_congr Iff.rfl ?_
  rw [nodeOf, List.find?_isSome]
  simp

theorem stands_leave : Stands (ws ++ [.leave ds]) n ends ↔
    Stands ws n ends ∧ ds ≠ [] ∧ nodeOf ds n.id = none := by
  have hc : (Word.leave ds).Concerns n.id ↔ ds = [] ∨ (nodeOf ds n.id).isSome := removes_leave
  rw [Stands, final_snoc, hc, not_or, Option.not_isSome_iff_eq_none]
  constructor
  · rintro (h | h)
    · cases h
    · exact h
  · exact .inr

theorem present_leave :
    Present (ws ++ [.leave ds]) ↔ ∃ n ends, Stands (ws ++ [.leave ds]) n ends := by
  refine ⟨fun h => h.resolve_right ?_, .inl⟩
  rintro ⟨xs, w, h, hw⟩
  obtain ⟨-, h⟩ := List.append_inj' h rfl
  cases h
  exact hw trivial

theorem Arrives.lt (h : Arrives ws id k) : k < ws.length := by
  obtain ⟨xs, n, ends, ys, rfl, rfl, -⟩ := h
  simp

theorem Arrives.snoc (h : Arrives ws id k) (hw : ¬ w.Removes id) : Arrives (ws ++ [w]) id k := by
  obtain ⟨xs, n, ends, ys, rfl, hk, hid, hx, hy⟩ := h
  refine ⟨xs, n, ends, ys ++ [w], by simp, hk, hid, hx, ?_⟩
  intro u hu
  rcases List.mem_append.1 hu with hu | hu
  · exact hy u hu
  · rwa [List.mem_singleton.1 hu]

theorem arrives_enter (h : ∀ m e, Stands ws m e → m.id ≠ n.id) :
    Arrives (ws ++ [.enter n ends]) n.id ws.length :=
  ⟨ws, n, ends, [], rfl, rfl, rfl, h, nofun⟩

theorem Before.snoc (h : Before ws a b) (ha : ¬ w.Removes a) (hb : ¬ w.Removes b) :
    Before (ws ++ [w]) a b := by
  obtain ⟨i, j, hij, hi, hj⟩ := h
  exact ⟨i, j, hij, hi.snoc ha, hj.snoc hb⟩

/-! A history leaves no choice. -/

theorem append_cons_cases {ys xs' ys' : List Word} (h : xs ++ w :: ys = xs' ++ u :: ys') :
    (xs = xs' ∧ w = u) ∨ (∃ zs, xs' = xs ++ w :: zs ∧ ys = zs ++ u :: ys') ∨
      ∃ zs, xs = xs' ++ u :: zs ∧ ys' = zs ++ w :: ys := by
  rcases List.append_eq_append_iff.1 h with ⟨as, rfl, hs⟩ | ⟨as, rfl, hs⟩
  · cases as with
    | nil =>
      cases hs
      exact .inl ⟨by simp, rfl⟩
    | cons a as =>
      cases hs
      exact .inr (.inl ⟨as, rfl, rfl⟩)
  · cases as with
    | nil =>
      cases hs
      exact .inl ⟨by simp, rfl⟩
    | cons a as =>
      cases hs
      exact .inr (.inr ⟨as, rfl, rfl⟩)

theorem Final.unique (hw : Final p ws w) (hu : Final p ws u) (hpw : p w) (hpu : p u) : w = u := by
  obtain ⟨xs, ys, rfl, hy⟩ := hw
  obtain ⟨xs', ys', h, hy'⟩ := hu
  rcases append_cons_cases h with ⟨-, h⟩ | ⟨zs, -, rfl⟩ | ⟨zs, -, rfl⟩
  · exact h
  · exact absurd hpu (hy u (by simp))
  · exact absurd hpw (hy' w (by simp))

/-- An id that is registered and not taken back after stands. -/
theorem exists_stands (ys : List Word) (hy : ∀ u ∈ ys, ¬ u.Removes n.id) :
    ∃ m e, Stands (xs ++ .enter n ends :: ys) m e ∧ m.id = n.id := by
  induction ys using List.reverseRecOn with
  | nil => exact ⟨n, ends, ⟨xs, [], rfl, nofun⟩, rfl⟩
  | append_singleton ys y ih =>
    obtain ⟨m, e, hm, hid⟩ := ih fun u hu => hy u (by simp [hu])
    have hlast := hy y (by simp)
    rw [← List.cons_append, ← List.append_assoc]
    cases y with
    | announce => exact ⟨m, e, stands_announce.2 hm, hid⟩
    | leave ds =>
      rw [removes_leave, ← hid, not_or, Option.not_isSome_iff_eq_none] at hlast
      exact ⟨m, e, stands_leave.2 ⟨hm, hlast⟩, hid⟩
    | enter k f =>
      by_cases hk : k.id = m.id
      · exact ⟨k, f, stands_enter.2 (.inl ⟨rfl, rfl⟩), hk.trans hid⟩
      · exact ⟨m, e, stands_enter.2 (.inr ⟨hk, hm⟩), hid⟩

/-- An id has arrived at one place. -/
theorem Arrives.unique {i j : Nat} (hi : Arrives ws id i) (hj : Arrives ws id j) : i = j := by
  obtain ⟨xs, n, e, ys, rfl, rfl, hn, hx, hy⟩ := hi
  obtain ⟨xs', n', e', ys', h, rfl, hn', hx', hy'⟩ := hj
  have later : ∀ {xs zs : List Word} {n : Node} {e : Option Instant}, n.id = id →
      (∀ u ∈ zs, ¬ u.Removes id) → ¬ ∀ m f, Stands (xs ++ .enter n e :: zs) m f → m.id ≠ id := by
    rintro xs zs n e rfl hz hnone
    obtain ⟨m, f, hm, hid⟩ := exists_stands zs hz
    exact hnone m f hm hid
  rcases append_cons_cases h with ⟨rfl, -⟩ | ⟨zs, rfl, rfl⟩ | ⟨zs, rfl, rfl⟩
  · rfl
  · exact absurd hx' (later hn fun u hu => hy u (by simp [hu]))
  · exact absurd hx (later hn' fun u hu => hy' u (by simp [hu]))

theorem Before.asymm (h : Before ws a b) : ¬ Before ws b a := by
  obtain ⟨i, j, hij, hi, hj⟩ := h
  rintro ⟨j', i', hji, hj', hi'⟩
  rw [hi.unique hi', hj.unique hj'] at hij
  exact Nat.lt_asymm hij hji

/-- A history tells of one service under a name and a version at most. -/
theorem Tells.unique {s s' : Service} {t : Instant} (hs : Tells ws t s) (hs' : Tells ws t s')
    (hn : s.name = s'.name) (hv : s.version = s'.version) : s = s' := by
  have hnodup {r : Service} (hr : Tells ws t r) : r.nodes.Nodup := by
    refine (List.pairwise_map.1 hr.order).imp ?_
    rintro m n hmn rfl
    exact hmn.asymm hmn
  have hperm : s.nodes.Perm s'.nodes := by
    refine (List.perm_ext_iff_of_nodup (hnodup hs) (hnodup hs')).2 fun n => ?_
    rw [hs.nodes n, hs'.nodes n]
  have hnodes : s.nodes = s'.nodes :=
    hperm.eq_of_pairwise (fun m n _ _ hmn hnm => absurd hnm hmn.asymm)
      (List.pairwise_map.1 hs.order) (List.pairwise_map.1 hs'.order)
  have hfacts := hs.facts.unique hs'.facts trivial trivial
  cases s
  cases s'
  cases hfacts
  cases hn
  cases hv
  cases hnodes
  rfl

end History
end Switchboard.Discovery
