import Switchboard.Client.Filter
import Switchboard.Client.Strategy

/-! What filters leave of the services, in whatever order they come and however often. -/
namespace Switchboard.Client.Filter

open Discovery (Node Service)

variable {f : Filter} {fs gs : List Filter} {s : Service} {ss : List Service} {n : Node}

/-- Filters that are no caller's own. -/
def IsNamed : Filter → Prop
  | custom _ => False
  | _ => True

def IsLabel : Filter → Prop
  | label _ _ => True
  | _ => False

/-- What a filter asks of a service. -/
def Admits (s : Service) : Filter → Prop
  | endpoint name => ∃ e ∈ s.endpoints, e.name = name
  | version v => s.version = v
  | _ => True

/-- What a filter asks of a node. -/
def Keeps (n : Node) : Filter → Prop
  | label key value => n.metadata.get? key = some value
  | _ => True

instance : DecidablePred IsLabel
  | label _ _ => isTrue trivial
  | endpoint _ | version _ | custom _ => isFalse id

instance (s : Service) : DecidablePred (Admits s)
  | endpoint name => inferInstanceAs (Decidable (∃ e ∈ s.endpoints, e.name = name))
  | version v => inferInstanceAs (Decidable (s.version = v))
  | label _ _ | custom _ => isTrue trivial

instance (n : Node) : DecidablePred (Keeps n)
  | label key value => inferInstanceAs (Decidable (n.metadata.get? key = some value))
  | endpoint _ | version _ | custom _ => isTrue trivial

/-- The service has every endpoint and version that is asked for. -/
def Admitted (fs : List Filter) (s : Service) : Prop := ∀ f ∈ fs, f.Admits s

/-- The node has every label that is asked for. -/
def Kept (fs : List Filter) (n : Node) : Prop := ∀ f ∈ fs, f.Keeps n

instance : Decidable (Admitted fs s) := inferInstanceAs (Decidable (∀ f ∈ fs, f.Admits s))

instance : Decidable (Kept fs n) := inferInstanceAs (Decidable (∀ f ∈ fs, f.Keeps n))

def narrowed (fs : List Filter) (s : Service) : Service :=
  { s with nodes := s.nodes.filter (Kept fs ·) }

/-- A service that is admitted stays, even without nodes, unless a label was asked for that none of
its nodes has. -/
def Stays (fs : List Filter) (s : Service) : Prop :=
  Admitted fs s ∧ ((∃ f ∈ fs, f.IsLabel) → (narrowed fs s).nodes ≠ [])

instance : Decidable (Stays fs s) :=
  inferInstanceAs (Decidable (Admitted fs s ∧ ((∃ f ∈ fs, f.IsLabel) → (narrowed fs s).nodes ≠ [])))

theorem admits_narrowed : f.Admits (narrowed gs s) ↔ f.Admits s := by
  cases f <;> exact Iff.rfl

theorem kept_cons : Kept (f :: fs) n ↔ Kept [f] n ∧ Kept fs n := by
  simp [Kept]

theorem narrowed_cons : narrowed (f :: fs) s = narrowed fs (narrowed [f] s) := by
  have hnodes : s.nodes.filter (Kept (f :: fs) ·) =
      (s.nodes.filter (Kept [f] ·)).filter (Kept fs ·) := by
    rw [List.filter_filter]
    refine List.filter_congr fun n _ => ?_
    rw [← Bool.decide_and, decide_eq_decide, kept_cons, and_comm]
  rw [narrowed, hnodes]
  rfl

theorem narrowed_nodes_sublist : (narrowed fs s).nodes.Sublist s.nodes := List.filter_sublist

/-- Without labels no node is lost. -/
theorem narrowed_of_no_label (h : ¬ ∃ f ∈ fs, f.IsLabel) : narrowed fs s = s := by
  have hkept : ∀ n, Kept fs n := by
    intro n f hf
    cases f with
    | label key value => exact absurd ⟨_, hf, trivial⟩ h
    | endpoint | version | custom => trivial
  rw [narrowed, List.filter_eq_self.2 fun n _ => decide_eq_true (hkept n)]

/-- A service survives the first filter, and what is left of it the others. -/
theorem stays_cons : Stays (f :: fs) s ↔ Stays [f] s ∧ Stays fs (narrowed [f] s) := by
  have hadmitted : Admitted (f :: fs) s ↔ Admitted [f] s ∧ Admitted fs (narrowed [f] s) := by
    simp only [Admitted, List.forall_mem_cons, List.not_mem_nil, false_imp_iff, implies_true,
      and_true, admits_narrowed]
  have hsub : (narrowed (f :: fs) s).nodes.Sublist (narrowed [f] s).nodes := by
    rw [narrowed_cons]
    exact narrowed_nodes_sublist
  simp only [Stays, hadmitted, ← narrowed_cons, List.mem_cons, List.not_mem_nil, or_false,
    exists_eq_left, exists_eq_or_imp]
  constructor
  · rintro ⟨⟨hf, hfs⟩, hlabel⟩
    refine ⟨⟨hf, fun hl hnil => hlabel (.inl hl) ?_⟩, hfs, fun hl => hlabel (.inr hl)⟩
    rw [hnil] at hsub
    exact List.sublist_nil.1 hsub
  · rintro ⟨⟨hf, hone⟩, hfs, hrest⟩
    refine ⟨⟨hf, hfs⟩, fun hl => ?_⟩
    by_cases hls : ∃ g ∈ fs, g.IsLabel
    · exact hrest hls
    · rw [narrowed_cons, narrowed_of_no_label hls]
      exact hone (hl.resolve_right hls)

theorem apply_eq_filter (hn : ¬ f.IsLabel) {p : Service → Bool} (hp : ∀ s, p s = true ↔ f.Admits s) :
    ss.filter p = (ss.filter (Stays [f] ·)).map (narrowed [f]) := by
  have hnone : ¬ ∃ g ∈ [f], g.IsLabel := by simpa using hn
  have hmap : narrowed [f] = id := funext fun s => narrowed_of_no_label hnone
  rw [hmap, List.map_id]
  refine List.filter_congr fun s _ => ?_
  rw [Bool.eq_iff_iff, hp, decide_eq_true_iff, Stays]
  simp [Admitted, hn]

/-- A label keeps the services that have nodes left. -/
theorem labelled?_eq {key value : String} : labelled? key value s =
    if Stays [label key value] s then some (narrowed [label key value] s) else none := by
  have hnodes : s.nodes.filter (fun n => n.metadata.get? key == some value) =
      (narrowed [label key value] s).nodes := by
    refine List.filter_congr fun n _ => ?_
    rw [Bool.eq_iff_iff, beq_iff_eq, decide_eq_true_iff]
    simp [Kept, Keeps]
  have hstays : Stays [label key value] s ↔ (narrowed [label key value] s).nodes ≠ [] := by
    simp [Stays, Admitted, Admits, IsLabel]
  simp only [labelled?, hnodes]
  by_cases hnil : (narrowed [label key value] s).nodes = []
  · rw [if_neg fun h => hstays.1 h hnil, hnil]
    rfl
  · rw [if_pos (hstays.2 hnil), if_neg (by rwa [List.isEmpty_iff])]
    rfl

/-- A filter drops the services that do not stay, and narrows those that do. -/
theorem apply_eq (hf : f.IsNamed) (ss : List Service) :
    f.apply ss = (ss.filter (Stays [f] ·)).map (narrowed [f]) := by
  cases f with
  | endpoint name =>
    refine apply_eq_filter id fun s => ?_
    simp [hasEndpoint, Admits]
  | version v =>
    refine apply_eq_filter id fun s => ?_
    simp [Admits]
  | label key value =>
    show ss.filterMap (labelled? key value) = _
    induction ss with
    | nil => rfl
    | cons s ss ih =>
      by_cases hs : Stays [label key value] s
      · have hlabelled : labelled? key value s = some (narrowed [label key value] s) := by
          rw [labelled?_eq, if_pos hs]
        rw [List.filterMap_cons_some hlabelled, List.filter_cons_of_pos, List.map_cons, ih]
        exact decide_eq_true hs
      · have hlabelled : labelled? key value s = none := by rw [labelled?_eq, if_neg hs]
        rw [List.filterMap_cons_none hlabelled, List.filter_cons_of_neg, ih]
        simpa using hs
  | custom g => exact hf.elim

/-- A named filter and those after it do what all of them ask for at once. -/
theorem applyAll_eq (hfs : ∀ f ∈ fs, f.IsNamed) (ss : List Service) :
    applyAll fs ss = (ss.filter (Stays fs ·)).map (narrowed fs) := by
  induction fs generalizing ss with
  | nil =>
    have hmap : narrowed [] = id := funext fun s => narrowed_of_no_label (by simp)
    have hall : ss.filter (Stays [] ·) = ss :=
      List.filter_eq_self.2 fun s _ => decide_eq_true ⟨nofun, by simp⟩
    rw [hmap, hall, List.map_id]
    rfl
  | cons f fs ih =>
    obtain ⟨hf, hrest⟩ := List.forall_mem_cons.1 hfs
    have hstep : applyAll (f :: fs) ss = applyAll fs (f.apply ss) := rfl
    rw [hstep, ih hrest, apply_eq hf, List.filter_map, List.map_map, List.filter_filter]
    congr 1
    · funext s
      exact narrowed_cons.symm
    · refine List.filter_congr fun s _ => ?_
      show (decide (Stays fs (narrowed [f] s)) && decide (Stays [f] s)) = _
      rw [← Bool.decide_and, decide_eq_decide, and_comm]
      exact stays_cons.symm

/-- The service is admitted, and the node is kept. -/
def Survives (fs : List Filter) (s : Service) (n : Node) : Prop := Admitted fs s ∧ Kept fs n

instance : Decidable (Survives fs s n) :=
  inferInstanceAs (Decidable (Admitted fs s ∧ Kept fs n))

/-- The nodes that are left, in their order, are those that survive all filters. -/
theorem nodes_applyAll (hfs : ∀ f ∈ fs, f.IsNamed) (ss : List Service) :
    Strategy.nodes (applyAll fs ss) = ss.flatMap fun s => s.nodes.filter (Survives fs s ·) := by
  rw [applyAll_eq hfs]
  induction ss with
  | nil => rfl
  | cons s ss ih =>
    have hs : s.nodes.filter (Survives fs s ·) =
        if Stays fs s then (narrowed fs s).nodes else [] := by
      by_cases ha : Admitted fs s
      · have hnodes : s.nodes.filter (Survives fs s ·) = (narrowed fs s).nodes :=
          List.filter_congr fun n _ => by simp [Survives, ha]
        by_cases hst : Stays fs s
        · rw [if_pos hst, hnodes]
        · rw [if_neg hst, hnodes]
          exact Classical.byContradiction fun hne => hst ⟨ha, fun _ => hne⟩
      · rw [if_neg fun hst : Stays fs s => ha hst.1]
        exact List.filter_eq_nil_iff.2 fun n _ => by simp [Survives, ha]
    rw [List.flatMap_cons, ← ih, hs]
    by_cases hst : Stays fs s <;> simp [hst, Strategy.nodes]

theorem kept_congr (h : ∀ f, f ∈ fs ↔ f ∈ gs) : Kept fs n ↔ Kept gs n :=
  forall_congr' fun f => by rw [h]

theorem narrowed_congr (h : ∀ f, f ∈ fs ↔ f ∈ gs) : narrowed fs s = narrowed gs s := by
  rw [narrowed, List.filter_congr fun n _ => decide_eq_decide.2 (kept_congr h)]
  rfl

theorem stays_congr (h : ∀ f, f ∈ fs ↔ f ∈ gs) : Stays fs s ↔ Stays gs s := by
  simp only [Stays, Admitted, narrowed_congr h, h]

theorem applyAll_congr (h : ∀ f, f ∈ fs ↔ f ∈ gs) (hfs : ∀ f ∈ fs, f.IsNamed)
    (ss : List Service) : applyAll fs ss = applyAll gs ss := by
  rw [applyAll_eq hfs, applyAll_eq fun f hf => hfs f ((h f).2 hf)]
  rw [List.map_congr_left fun s _ => narrowed_congr h]
  congr 1
  exact List.filter_congr fun s _ => decide_eq_decide.2 (stays_congr h)

end Switchboard.Client.Filter
