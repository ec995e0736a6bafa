import Switchboard.Client.Tracing

/-! A trace goes on from hop to hop: its id and its flags stay, and each hop puts a span of its own.
-/
namespace Switchboard.Client

variable {σ : Type} {v t f : String} {ps : List String} {cs : List Char} {h : Dict String}
  {x : TraceContext} {info : AttemptInfo} {k n : Nat}

namespace TraceContext

/-- The parts of a text, none with a dash of its own. -/
def Divides (v : String) (ps : List String) : Prop :=
  v = "-".intercalate ps ∧ ∀ p ∈ ps, '-' ∉ p.toList

/-- The header has four parts or more, the second and the fourth of them as given. -/
def Incoming (h : Dict String) (trace flags : String) : Prop :=
  ∃ v version span rest, h.get? headerName = some v ∧
    Divides v (version :: trace :: span :: flags :: rest)

/-- The trace and the flags that an attempt goes on with. -/
def Follows (h : Dict String) (fresh trace flags : String) : Prop :=
  Incoming h trace flags ∨ (∀ t f, ¬ Incoming h t f) ∧ trace = fresh ∧ flags = "01"

/-- The parts of a header are what stands between its dashes. -/
theorem parts_eq_splitOn : parts cs = cs.splitOn '-' := by
  induction cs with
  | nil => rfl
  | cons c cs ih =>
    rw [parts, ih, List.splitOn_cons_eq_if_modifyHead]
    cases hp : cs.splitOn '-' with
    | nil => exact absurd hp (List.splitOn_ne_nil _ _)
    | cons p ps => cases c == '-' <;> rfl

theorem parts_of_divides (hv : Divides v ps) (hne : ps ≠ []) :
    parts v.toList = ps.map String.toList := by
  obtain ⟨rfl, hp⟩ := hv
  rw [parts_eq_splitOn, String.toList_intercalate]
  apply List.splitOn_intercalate
  · intro l hl
    obtain ⟨p, hm, rfl⟩ := List.mem_map.1 hl
    exact hp p hm
  · simpa using hne

/-- No part has a dash of its own. -/
theorem dash_notMem_of_mem_parts {p : List Char} (hp : p ∈ parts cs) : '-' ∉ p := by
  induction cs generalizing p with
  | nil => simp_all [parts]
  | cons c cs ih =>
    have hne : parts cs ≠ [] := by
      rw [parts_eq_splitOn]
      exact List.splitOn_ne_nil _ _
    obtain ⟨q, qs, hq⟩ := List.exists_cons_of_ne_nil hne
    rw [hq] at ih
    by_cases hc : c = '-'
    · subst hc
      rw [parts, hq] at hp
      rcases List.mem_cons.1 hp with rfl | hp
      · exact List.not_mem_nil
      · exact ih hp
    · have hcb : (c == '-') = false := beq_eq_false_iff_ne.2 hc
      rw [parts, hq, hcb] at hp
      rcases List.mem_cons.1 hp with rfl | hp
      · intro hm
        rcases List.mem_cons.1 hm with hm | hm
        · exact hc hm.symm
        · exact ih List.mem_cons_self hm
      · exact ih (List.mem_cons_of_mem _ hp)

/-- Every text is put together from its parts. -/
theorem divides_parts (v : String) : Divides v ((parts v.toList).map String.ofList) := by
  constructor
  · rw [← String.toList_inj, String.toList_intercalate, List.map_map, parts_eq_splitOn]
    simp [Function.comp_def, List.intercalate_splitOn]
  · intro p hp
    obtain ⟨q, hq, rfl⟩ := List.mem_map.1 hp
    rw [String.toList_ofList]
    exact dash_notMem_of_mem_parts hq

theorem ofText?_of_divides {a p : String} {rest : List String}
    (hv : Divides v (a :: t :: p :: f :: rest)) : ofText? v = some ⟨t, p, f⟩ := by
  rw [ofText?, parts_of_divides hv (List.cons_ne_nil _ _)]
  simp

/-- A header that gives a trace has four parts or more. -/
theorem divides_of_ofText? (hx : ofText? v = some x) :
    ∃ a rest, Divides v (a :: x.trace :: x.span :: x.flags :: rest) := by
  have hv := divides_parts v
  unfold ofText? at hx
  split at hx
  · rename_i a t p f rest hp
    cases hx
    rw [hp] at hv
    exact ⟨_, _, hv⟩
  · cases hx

/-- What a request brings is what its header gives. -/
theorem incoming_iff : Incoming h t f ↔ ∃ x, ofHeaders? h = some x ∧ x.trace = t ∧ x.flags = f := by
  constructor
  · rintro ⟨v, a, p, rest, hv, hd⟩
    refine ⟨⟨t, p, f⟩, ?_, rfl, rfl⟩
    rw [ofHeaders?, hv]
    exact ofText?_of_divides hd
  · rintro ⟨x, hx, rfl, rfl⟩
    obtain ⟨v, hv, hx⟩ := Option.bind_eq_some_iff.1 hx
    obtain ⟨a, rest, hd⟩ := divides_of_ofText? hx
    exact ⟨v, a, x.span, rest, hv, hd⟩

theorem Incoming.unique {t' f' : String} (hi : Incoming h t f) (hi' : Incoming h t' f') :
    t = t' ∧ f = f' := by
  obtain ⟨x, hx, rfl, rfl⟩ := incoming_iff.1 hi
  obtain ⟨y, hy, rfl, rfl⟩ := incoming_iff.1 hi'
  cases hx.symm.trans hy
  exact ⟨rfl, rfl⟩

/-! The ids that a hop makes. -/

/-- Neither id has a dash in it, nor have the flags. -/
structure Plain (x : TraceContext) : Prop where
  trace : '-' ∉ x.trace.toList
  span : '-' ∉ x.span.toList
  flags : '-' ∉ x.flags.toList

theorem Incoming.plain (hi : Incoming h t f) : '-' ∉ t.toList ∧ '-' ∉ f.toList := by
  obtain ⟨v, a, p, rest, -, -, hd⟩ := hi
  exact ⟨hd t (by simp), hd f (by simp)⟩

/-- The trace that a request continues is the one it follows. -/
theorem Follows.continued {fresh span : String} (hf : Follows h fresh t f) :
    continued h fresh span = ⟨t, span, f⟩ := by
  unfold TraceContext.continued
  rcases hf with hi | ⟨hno, rfl, rfl⟩
  · obtain ⟨x, hx, rfl, rfl⟩ := incoming_iff.1 hi
    rw [hx]
  · have hx : ofHeaders? h = none := by
      rw [Option.eq_none_iff_forall_ne_some]
      intro x hx
      exact hno _ _ (incoming_iff.2 ⟨x, hx, rfl, rfl⟩)
    rw [hx]

theorem Follows.plain {fresh : String} (hf : Follows h fresh t f) (hfresh : '-' ∉ fresh.toList) :
    '-' ∉ t.toList ∧ '-' ∉ f.toList := by
  rcases hf with hi | ⟨-, rfl, rfl⟩
  · exact hi.plain
  · exact ⟨hfresh, by decide⟩

end TraceContext

namespace Wrapper

open TraceContext

end Wrapper
end Switchboard.Client
