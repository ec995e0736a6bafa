import Switchboard.Client.Selector
import Switchboard.Proofs.Client.Filtering

/-! Which nodes a selection gives, and what it fails with when there are none. -/
namespace Switchboard.Client

open Discovery (Node Service)
open Rpc (CallError)

namespace Strategy

variable {ss : List Service} {t : Strategy} {i : Nat}

/-- One of those that a configuration can name. -/
def IsNamed (t : Strategy) : Prop := ∃ k : StrategyKind, t = k.strategy

/-- The named strategies are the two that the library brings. -/
theorem isNamed_iff : t.IsNamed ↔ t = random ∨ t = roundRobin := by
  constructor
  · rintro ⟨kind, rfl⟩
    cases kind with
    | random => exact .inl rfl
    | roundRobin => exact .inr rfl
  · rintro (rfl | rfl)
    · exact ⟨.random, rfl⟩
    · exact ⟨.roundRobin, rfl⟩

/-- Counted round a list that is not empty, every place has a node. -/
theorem pick_mem (h : nodes ss ≠ []) (i : Nat) : ∃ n ∈ nodes ss, pick ss i = .ok n := by
  have hi : i % (nodes ss).length < (nodes ss).length :=
    Nat.mod_lt i (List.length_pos_iff.2 h)
  exact ⟨_, List.getElem_mem hi, by rw [pick, List.getElem?_eq_getElem hi]⟩

theorem IsNamed.draws (ht : t.IsNamed) (h : nodes ss ≠ []) (choose : Nat → Nat) (k : Nat) :
    ∃ n ∈ nodes ss, t.select choose ss k = .ok n := by
  rcases isNamed_iff.1 ht with rfl | rfl
  · exact pick_mem h (choose k)
  · exact pick_mem h _

end Strategy

namespace Selector

variable {usual : Strategy} {choose : Nat → Nat} {service : String} {o : SelectOptions}
  {found : Except Discovery.Error (List Service)} {ss : List Service} {fs : List Filter}

/-- Some node is left that every filter lets through. -/
def HasSurvivor (fs : List Filter) (ss : List Service) : Prop :=
  ∃ s ∈ ss, ∃ n ∈ s.nodes, Filter.Survives fs s n

instance : Decidable (HasSurvivor fs ss) :=
  inferInstanceAs (Decidable (∃ s ∈ ss, ∃ n ∈ s.nodes, Filter.Survives fs s n))

/-- What the named filters do to a list of services. They do it together: neither their order nor
how often one is repeated matters. -/
structure Narrows (fs : List Filter) (ss : List Service) : Prop where
  order : ∀ gs, (∀ f, f ∈ gs ↔ f ∈ fs) → Filter.applyAll gs ss = Filter.applyAll fs ss
  services : Filter.applyAll fs ss =
    (ss.filter (Filter.Stays fs ·)).map fun s => { s with nodes := s.nodes.filter (Filter.Kept fs ·) }
  nodes : Strategy.nodes (Filter.applyAll fs ss) =
    ss.flatMap fun s => s.nodes.filter (Filter.Survives fs s ·)

/-- What comes of a selection, by what the lookup answered. -/
structure Selects (usual : Strategy) (choose : Nat → Nat) (service : String) (o : SelectOptions)
    (found : Except Discovery.Error (List Service)) : Prop where
  notFound : select usual choose service o found = .error (.notFound service) ↔
    (∃ name, found = .error (.serviceNotFound name)) ∨ found = .ok []
  noneAvailable : select usual choose service o found = .error (.noneAvailable service) ↔
    ∃ ss, found = .ok ss ∧ ss ≠ [] ∧ ¬ HasSurvivor o.filters ss
  registry : ∀ e, select usual choose service o found = .error (.registry e) ↔
    found = .error e ∧ ∀ name, e ≠ .serviceNotFound name
  chosen : (∃ next, select usual choose service o found = .ok next) ↔
    ∃ ss, found = .ok ss ∧ HasSurvivor o.filters ss
  no_other : ∀ e, select usual choose service o found = .error e →
    e = .notFound service ∨ e = .noneAvailable service ∨ ∃ cause, e = .registry cause
  draws : ∀ ss next, found = .ok ss → select usual choose service o found = .ok next →
    ∀ k, ∃ s ∈ ss, ∃ n ∈ s.nodes, Filter.Survives o.filters s n ∧ next k = .ok n

theorem mem_nodes_applyAll {n : Node} (hfs : ∀ f ∈ fs, f.IsNamed) :
    n ∈ Strategy.nodes (Filter.applyAll fs ss) ↔
      ∃ s ∈ ss, n ∈ s.nodes ∧ Filter.Survives fs s n := by
  simp [Filter.nodes_applyAll hfs]

/-- The nodes have all gone just when none survives. -/
theorem all_isEmpty_iff (hfs : ∀ f ∈ fs, f.IsNamed) :
    (Filter.applyAll fs ss).all (·.nodes.isEmpty) = true ↔ ¬ HasSurvivor fs ss := by
  have hnil : (Filter.applyAll fs ss).all (·.nodes.isEmpty) = true ↔
      Strategy.nodes (Filter.applyAll fs ss) = [] := by
    simp [Strategy.nodes, List.flatMap_eq_nil_iff]
  rw [hnil, List.eq_nil_iff_forall_not_mem]
  simp only [mem_nodes_applyAll hfs, HasSurvivor]
  grind

/-- The order of the filters, and how often one is given, are of no account. -/
theorem narrows (hfs : ∀ f ∈ fs, f.IsNamed) (ss : List Service) : Narrows fs ss where
  order _ hgs := (Filter.applyAll_congr (fun f => (hgs f).symm) hfs ss).symm
  services := Filter.applyAll_eq hfs ss
  nodes := Filter.nodes_applyAll hfs ss

theorem select_eq_noneAvailable (hfs : ∀ f ∈ o.filters, f.IsNamed) (hne : ss ≠ [])
    (h : ¬ HasSurvivor o.filters ss) :
    select usual choose service o (.ok ss) = .error (.noneAvailable service) := by
  cases ss with
  | nil => exact absurd rfl hne
  | cons s ss => exact if_pos ((all_isEmpty_iff hfs).2 h)

/-- Where the filters leave a node, the iterator draws from what they left. -/
theorem select_eq_ok (hfs : ∀ f ∈ o.filters, f.IsNamed) (h : HasSurvivor o.filters ss) :
    select usual choose service o (.ok ss) =
      .ok ((o.strategy.getD usual).select choose (Filter.applyAll o.filters ss)) := by
  cases ss with
  | nil => simp [HasSurvivor] at h
  | cons s ss => exact if_neg fun hall => (all_isEmpty_iff hfs).1 hall h

/-- So each draw gives a node that the registry lists and the filters spared. -/
theorem draws_of_hasSurvivor (hfs : ∀ f ∈ o.filters, f.IsNamed)
    (ht : (o.strategy.getD usual).IsNamed) (h : HasSurvivor o.filters ss) (k : Nat) :
    ∃ s ∈ ss, ∃ n ∈ s.nodes, Filter.Survives o.filters s n ∧
      (o.strategy.getD usual).select choose (Filter.applyAll o.filters ss) k = .ok n := by
  obtain ⟨s, hs, n, hn, hsn⟩ := h
  have hne : Strategy.nodes (Filter.applyAll o.filters ss) ≠ [] :=
    List.ne_nil_of_mem ((mem_nodes_applyAll hfs).2 ⟨s, hs, hn, hsn⟩)
  obtain ⟨m, hm, hk⟩ := ht.draws hne choose k
  obtain ⟨s', hs', hms', hsurv⟩ := (mem_nodes_applyAll hfs).1 hm
  exact ⟨s', hs', m, hms', hsurv, hk⟩

/-- A selection with named filters and a named strategy gives the nodes that survive the filters, or
says why there are none. -/
theorem select_exact (usual : Strategy) (choose : Nat → Nat) (service : String) (o : SelectOptions)
    (found : Except Discovery.Error (List Service)) (hfs : ∀ f ∈ o.filters, f.IsNamed)
    (ht : (o.strategy.getD usual).IsNamed) :
    (∀ ss, Narrows o.filters ss) ∧ Selects usual choose service o found := by
  refine ⟨narrows hfs, ?_⟩
  cases found with
  | error e =>
    cases e with
    | serviceNotFound name =>
      have h : select usual choose service o (.error (.serviceNotFound name)) =
        .error (.notFound service) := rfl
      constructor <;> simp [h]
    | _ => constructor <;> simp [select]
  | ok ss =>
    by_cases hnil : ss = []
    · subst hnil
      have h : select usual choose service o (.ok []) = .error (.notFound service) := rfl
      constructor <;> simp [h, HasSurvivor]
    · by_cases hsurv : HasSurvivor o.filters ss
      · have h : select usual choose service o (.ok ss) = .ok _ := select_eq_ok hfs hsurv
        constructor <;> simp [h, hnil, hsurv]
        exact draws_of_hasSurvivor hfs ht hsurv
      · have h : select usual choose service o (.ok ss) = .error (.noneAvailable service) :=
          select_eq_noneAvailable hfs hnil hsurv
        constructor <;> simp [h, hnil, hsurv]

/-- No node has both of two labels that differ. -/
theorem select_exact_opposed :
    let node (id zone : String) : Node := ⟨id, id, Dict.empty.insert "zone" zone⟩
    let ss : List Service := [{ name := "a", version := "1", nodes := [node "n" "x", node "m" "y"] },
      { name := "a", version := "2" }]
    let fs : List Filter := [.label "zone" "x", .version "1", .label "zone" "y", .label "zone" "x"]
    let o : SelectOptions := ⟨fs, some .roundRobin⟩
    (∀ f ∈ o.filters, f.IsNamed) ∧ (o.strategy.getD .random).IsNamed ∧
      Filter.applyAll [.version "1", .label "zone" "y", .label "zone" "x"] ss =
        Filter.applyAll fs ss ∧
      select .random id "a" o (.ok ss) = .error (.noneAvailable "a") := by
  intro node ss fs o
  have hfs : ∀ f ∈ o.filters, f.IsNamed := by simp [o, fs, Filter.IsNamed]
  have ht : (o.strategy.getD .random).IsNamed := Strategy.isNamed_iff.2 (.inr rfl)
  obtain ⟨hnarrows, hselects⟩ := select_exact .random id "a" o (.ok ss) hfs ht
  refine ⟨hfs, ht, (hnarrows ss).order _ fun f => ?_, ?_⟩
  · simp only [o, fs, List.mem_cons, List.not_mem_nil, or_false]
    grind
  · exact hselects.noneAvailable.2 ⟨ss, rfl, nofun, by decide +kernel⟩

end Selector
end Switchboard.Client
