import Switchboard.Proofs.Discovery.Contents

/-! Changes as writes to the cells of a board, of which the last one wins. -/
namespace Switchboard.Discovery

variable {s t : Service} {ss ts : List Service} {c : Change} {cs ds : List Change} {v id : String}

/-- What was last told of each version and of each node of a version. The facts of a version outlive
its last node, but do not show without one. -/
structure Board where
  facts : String → Dict String × List Endpoint
  nodes : String → String → Option Node

namespace Board

variable {b : Board}

def apply (b : Board) (c : Change) : Board :=
  let s := c.service
  if c.kind = .delete then
    { b with nodes := fun v id =>
        if s.version = v ∧ (nodeOf s.nodes id).isSome then none else b.nodes v id }
  else
    { facts := fun v => if s.version = v then (s.metadata, s.endpoints) else b.facts v
      nodes := fun v id =>
        if s.version = v then (nodeOf s.nodes id).or (b.nodes v id) else b.nodes v id }

def replay (b : Board) (cs : List Change) : Board := cs.foldl apply b

@[simp] theorem replay_nil : b.replay [] = b := rfl

@[simp] theorem replay_cons : b.replay (c :: cs) = (b.apply c).replay cs := rfl

theorem replay_append : b.replay (cs ++ ds) = (b.replay cs).replay ds := List.foldl_append

/-- A change sets a node whatever it was, or leaves it. -/
theorem nodes_apply_fixed_or_kept (c : Change) (v id : String) :
    (∃ x, ∀ b : Board, (b.apply c).nodes v id = x) ∨
      ∀ b : Board, (b.apply c).nodes v id = b.nodes v id := by
  unfold apply
  by_cases hv : c.service.version = v
  · cases hn : nodeOf c.service.nodes id with
    | none => exact .inr fun b => by by_cases hk : c.kind = .delete <;> simp [hv, hn, hk]
    | some n =>
      by_cases hk : c.kind = .delete
      · exact .inl ⟨none, fun b => by simp [hv, hn, hk]⟩
      · exact .inl ⟨some n, fun b => by simp [hv, hn, hk]⟩
  · exact .inr fun b => by by_cases hk : c.kind = .delete <;> simp [hv, hk]

theorem facts_apply_fixed_or_kept (c : Change) (v : String) :
    (∃ x, ∀ b : Board, (b.apply c).facts v = x) ∨ ∀ b : Board, (b.apply c).facts v = b.facts v := by
  unfold apply
  by_cases hk : c.kind = .delete
  · simp [hk]
  · by_cases hv : c.service.version = v
    · exact .inl ⟨(c.service.metadata, c.service.endpoints), fun b => by simp [hv, hk]⟩
    · simp [hv, hk]

/-- Changes either settle a cell, whatever it held, or leave it alone. -/
theorem cell_replay_fixed_or_kept {α : Type} {f : Board → α}
    (h : ∀ c, (∃ x, ∀ b : Board, f (b.apply c) = x) ∨ ∀ b : Board, f (b.apply c) = f b)
    (cs : List Change) :
    (∃ x, ∀ b : Board, f (b.replay cs) = x) ∨ ∀ b : Board, f (b.replay cs) = f b := by
  induction cs with
  | nil => exact .inr fun _ => rfl
  | cons c cs ih =>
    rcases ih with ⟨x, hx⟩ | hk
    · exact .inl ⟨x, fun b => hx _⟩
    · rcases h c with ⟨x, hx⟩ | hc
      · exact .inl ⟨x, fun b => (hk _).trans (hx b)⟩
      · exact .inr fun b => (hk _).trans (hc b)

/-- Of two boards told the same, each cell of the first is as on the second, or as if the earlier
part had never been told. -/
theorem replay_cell {α : Type} {f : Board → α}
    (h : ∀ c, (∃ x, ∀ b : Board, f (b.apply c) = x) ∨ ∀ b : Board, f (b.apply c) = f b)
    (b d : Board) (cs ds : List Change) :
    f ((b.replay cs).replay ds) = f ((d.replay cs).replay ds) ∨
      f ((b.replay cs).replay ds) = f (b.replay ds) := by
  rcases cell_replay_fixed_or_kept h ds with ⟨x, hx⟩ | hds
  · exact .inl ((hx _).trans (hx _).symm)
  · rcases cell_replay_fixed_or_kept h cs with ⟨x, hx⟩ | hcs
    · exact .inl (by rw [hds, hds, hx, hx])
    · exact .inr (by rw [hds, hds, hcs])

/-- The services are what the board shows: the versions that have nodes. -/
structure Shows (b : Board) (ss : List Service) : Prop where
  present : ∀ v s, serviceOf ss v = some s →
    s.nodes ≠ [] ∧ b.facts v = (s.metadata, s.endpoints) ∧ b.nodes v = nodeOf s.nodes
  absent : ∀ v, serviceOf ss v = none → ∀ id, b.nodes v id = none

/-- A board shows one map of services only. -/
theorem contentsOf_eq_of_shows (h : b.Shows ss) (h' : b.Shows ts) :
    contentsOf ss = contentsOf ts := by
  have clash {xs ys : List Service} (hx : b.Shows xs) (hy : b.Shows ys) {v : String} {x : Service}
      (hxv : serviceOf xs v = some x) : serviceOf ys v ≠ none := by
    intro hyv
    obtain ⟨hne, -, hns⟩ := hx.present v x hxv
    obtain ⟨id, n, hid⟩ := exists_nodeOf hne
    have := hy.absent v hyv id
    simp [hns, hid] at this
  funext v
  cases hs : serviceOf ss v with
  | none =>
    cases ht : serviceOf ts v with
    | none => simp [contentsOf, hs, ht]
    | some t => exact absurd hs (clash h' h ht)
  | some s =>
    cases ht : serviceOf ts v with
    | none => exact absurd ht (clash h h' hs)
    | some t =>
      obtain ⟨-, hfs, hns⟩ := h.present v s hs
      obtain ⟨-, hft, hnt⟩ := h'.present v t ht
      have hf := hfs.symm.trans hft
      have hn := hns.symm.trans hnt
      simp only [Prod.mk.injEq] at hf
      simp [contentsOf, hs, ht, Service.contents, hf, hn]

/-- And what has the same contents is shown as well. -/
theorem shows_of_contentsOf_eq (h : b.Shows ss) (he : contentsOf ss = contentsOf ts) :
    b.Shows ts where
  present v t ht := by
    have hv := congrFun he v
    simp only [contentsOf, ht, Option.map_some] at hv
    obtain ⟨s, hs, hst⟩ := Option.map_eq_some_iff.1 hv
    simp only [Service.contents, Contents.mk.injEq] at hst
    obtain ⟨hm, hend, hn⟩ := hst
    obtain ⟨hne, hf, hns⟩ := h.present v s hs
    obtain ⟨id, n, hid⟩ := exists_nodeOf hne
    rw [hn] at hid
    exact ⟨ne_nil_of_nodeOf hid, by rw [hf, hm, hend], hns.trans hn⟩
  absent v ht := by
    have hv := congrFun he v
    simp only [contentsOf, ht, Option.map_none, Option.map_eq_none_iff] at hv
    exact h.absent v hv

end Board
end Switchboard.Discovery
