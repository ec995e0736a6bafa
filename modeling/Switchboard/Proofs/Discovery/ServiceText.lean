import Switchboard.Discovery.Service
import Switchboard.Proofs.Json.Sparing

/-! Services survive their JSON, written in full or with their empty fields left out, up to the
depth to which the shapes of their endpoints may be nested. -/
namespace Switchboard.Discovery

open Json Json.Value

variable {s : Service} {w : Value} {n : Nat}

namespace Shape

mutual

/-- What holds of a shape if it holds of the shapes in it, holds of all. -/
theorem induct {P : Shape → Prop} (h : ∀ name kind vs, (∀ v ∈ vs, P v) → P ⟨name, kind, vs⟩) :
    ∀ v, P v
  | ⟨name, kind, vs⟩ => h name kind vs (inductList h vs)

theorem inductList {P : Shape → Prop}
    (h : ∀ name kind vs, (∀ v ∈ vs, P v) → P ⟨name, kind, vs⟩) : ∀ vs : List Shape, ∀ v ∈ vs, P v
  | [], _, hm => by cases hm
  | u :: us, v, hm => by
    rcases List.mem_cons.1 hm with he | hm
    · rw [he]
      exact induct h u
    · exact inductList h us v hm

end

/-- How deep shapes are nested, one alone being one deep. -/
def height : Shape → Nat
  | ⟨_, _, vs⟩ => highest vs + 1
where
  highest : List Shape → Nat
    | [] => 0
    | v :: vs => max v.height (highest vs)

theorem list_eq (vs : List Shape) : toValue.list vs = vs.map toValue := by
  induction vs with
  | nil => rfl
  | cons v vs ih => rw [toValue.list, ih, List.map_cons]

theorem toValue_eq (name kind : String) (vs : List Shape) : toValue ⟨name, kind, vs⟩ =
    .object [("name", .string name), ("type", .string kind),
      ("values", .array (vs.map toValue))] := by
  rw [toValue, list_eq]

theorem exists_object (v : Shape) : ∃ ms, v.toValue = .object ms := by
  obtain ⟨name, kind, vs⟩ := v
  exact ⟨_, toValue_eq name kind vs⟩

theorem not_blank (v : Shape) : ¬ v.toValue.Blank := by
  obtain ⟨name, kind, vs⟩ := v
  rw [toValue_eq]
  intro h
  cases h

/-- Every shape takes two containers, its own and that of the shapes in it. -/
theorem nesting_toValue (v : Shape) : v.toValue.nesting = 2 * v.height := by
  induction v using induct with
  | h name kind vs ih =>
    have hlist : nesting.deepest (vs.map toValue) = 2 * height.highest vs := by
      induction vs with
      | nil => rfl
      | cons v vs ihs =>
        obtain ⟨hv, hvs⟩ := List.forall_mem_cons.1 ih
        rw [List.map_cons, nesting.deepest, height.highest, ihs hvs, hv]
        omega
    rw [toValue_eq, height]
    simp only [nesting, nesting.deepestMember, hlist]
    omega

theorem read_succ (d : Nat) (raw : Bytes) : read (d + 1) raw =
    (Fields.read? ["name", "type", "values"] (d + 1) raw).bind fun fs =>
      (fs.required 0 string?).bind fun name => (fs.required 1 string?).bind fun kind =>
        (fs.withDefault 2 [] (list read d)).bind fun values => some ⟨name, kind, values⟩ := by
  rw [read]
  cases d <;> rfl

theorem reads (v : Shape) : ReadsBack read v.toValue v := by
  induction v using induct with
  | h name kind vs ih =>
    intro w hw d b
    rw [toValue_eq] at hw
    obtain ⟨ps, rfl, h⟩ := hw.exists_written ["name", "type", "values"] rfl (by decide)
    cases d with
    | zero => simp [read, nesting]
    | succ d =>
      have hname := h.required (i := 0) rfl
      have hkind := h.required (i := 1) rfl
      have hvalues (xs : List Shape) :=
        h.withDefault (d := d) (b := xs) (i := 2) rfl (reads_list ih) blank_array
      rw [read_succ, h.read?, h.nesting_le, Option.bind_some, hname, Option.bind_some,
        hkind, Option.bind_some, Option.bind_eq_some_iff]
      constructor
      · rintro ⟨xs, hxs, he⟩
        obtain ⟨rfl, hn⟩ := (hvalues xs).1 hxs
        cases he
        simp [h.within_string (i := 0) rfl, h.within_string (i := 1) rfl, hn]
      · rintro ⟨rfl, hn⟩
        exact ⟨vs, (hvalues vs).2 ⟨rfl, hn "values" (by simp)⟩, rfl⟩

theorem sparing_self (v : Shape) : Sparing v.toValue v.toValue := by
  induction v using induct with
  | h name kind vs ih =>
    have hvs : ∀ x ∈ vs.map toValue, Sparing x x := by
      intro x hx
      obtain ⟨v, hv, rfl⟩ := List.mem_map.1 hx
      exact ih v hv
    rw [toValue_eq]
    apply sparing_object
    simp [Sparing.string, Sparing.array (items_self hvs)]

end Shape

namespace Node

theorem reads (n : Node) : ReadsBack read n.toValue n := by
  intro w hw d b
  obtain ⟨ps, rfl, h⟩ := hw.exists_written ["id", "address", "metadata"] rfl (by decide)
  cases d with
  | zero => simp [read, nesting]
  | succ d =>
    have hid := h.required (i := 0) rfl
    have haddress := h.required (i := 1) rfl
    have hmetadata (m : Dict String) :=
      h.withDefault (d := d) (b := m) (i := 2) rfl (reads_textMap n.metadata) blank_textMap
    rw [read, h.read?, h.nesting_le]
    simp only [Option.bind_eq_bind, Option.bind_some, hid, haddress, Option.bind_eq_some_iff]
    constructor
    · rintro ⟨m, hm, he⟩
      obtain ⟨rfl, hn⟩ := (hmetadata m).1 hm
      cases he
      simp [h.within_string (i := 0) rfl, h.within_string (i := 1) rfl, hn]
    · rintro ⟨rfl, hn⟩
      exact ⟨_, (hmetadata _).2 ⟨rfl, hn "metadata" (by simp)⟩, rfl⟩

theorem sparing_self (n : Node) : Sparing n.toValue n.toValue := by
  apply sparing_object
  simp [Sparing.string, sparing_textMap]

end Node

namespace Endpoint

theorem reads (e : Endpoint) : ReadsBack read e.toValue e := by
  intro w hw d b
  obtain ⟨ps, rfl, h⟩ :=
    hw.exists_written ["name", "request", "response", "metadata"] rfl (by decide)
  cases d with
  | zero => simp [read, nesting]
  | succ d =>
    have hshape (o : Option Shape) :
        ReadsBack (orNull Shape.read) ((o.map Shape.toValue).getD .null) o :=
      reads_orNull (fun v _ => v.reads) Shape.exists_object
    have hname := h.required (i := 0) rfl
    have hrequest (o : Option Shape) :=
      h.withDefault (d := d) (b := o) (i := 1) rfl (hshape e.request) (blank_orNull Shape.not_blank)
    have hresponse (o : Option Shape) :=
      h.withDefault (d := d) (b := o) (i := 2) rfl (hshape e.response) (blank_orNull Shape.not_blank)
    have hmetadata (m : Dict String) :=
      h.withDefault (d := d) (b := m) (i := 3) rfl (reads_textMap e.metadata) blank_textMap
    rw [read, h.read?, h.nesting_le]
    simp only [Option.bind_eq_bind, Option.bind_some, hname, Option.bind_eq_some_iff]
    constructor
    · rintro ⟨o, ho, p, hp, m, hm, he⟩
      obtain ⟨rfl, hno⟩ := (hrequest o).1 ho
      obtain ⟨rfl, hnp⟩ := (hresponse p).1 hp
      obtain ⟨rfl, hnm⟩ := (hmetadata m).1 hm
      cases he
      simp [h.within_string (i := 0) rfl, hno, hnp, hnm]
    · rintro ⟨rfl, hn⟩
      exact ⟨_, (hrequest _).2 ⟨rfl, hn "request" (by simp)⟩, _,
        (hresponse _).2 ⟨rfl, hn "response" (by simp)⟩, _,
        (hmetadata _).2 ⟨rfl, hn "metadata" (by simp)⟩, rfl⟩

theorem sparing_orNull (o : Option Shape) :
    Sparing ((o.map Shape.toValue).getD .null) ((o.map Shape.toValue).getD .null) := by
  cases o with
  | none => exact .null
  | some v => exact v.sparing_self

theorem sparing_self (e : Endpoint) : Sparing e.toValue e.toValue := by
  apply sparing_object
  simp [Sparing.string, sparing_textMap, sparing_orNull]

/-- The shapes of an endpoint, outermost. -/
def shapes (e : Endpoint) : List Shape := e.request.toList ++ e.response.toList

end Endpoint

namespace Service

theorem reads (s : Service) : ReadsBack read s.toValue s := by
  intro w hw d b
  obtain ⟨ps, rfl, h⟩ :=
    hw.exists_written ["name", "version", "metadata", "endpoints", "nodes"] rfl (by decide)
  cases d with
  | zero => simp [read, nesting]
  | succ d =>
    have hname := h.required (i := 0) rfl
    have hversion := h.required (i := 1) rfl
    have hmetadata (m : Dict String) :=
      h.withDefault (d := d) (b := m) (i := 2) rfl (reads_textMap s.metadata) blank_textMap
    have hendpoints (xs : List Endpoint) := h.withDefault (d := d) (b := xs) (i := 3) rfl
      (reads_list fun e _ => e.reads) blank_array
    have hnodes (xs : List Node) := h.withDefault (d := d) (b := xs) (i := 4) rfl
      (reads_list fun n _ => n.reads) blank_array
    rw [read, h.read?, h.nesting_le]
    simp only [Option.bind_eq_bind, Option.bind_some, hname, hversion, Option.bind_eq_some_iff]
    constructor
    · rintro ⟨m, hm, es, hes, ns, hns, he⟩
      obtain ⟨rfl, hnm⟩ := (hmetadata m).1 hm
      obtain ⟨rfl, hne⟩ := (hendpoints es).1 hes
      obtain ⟨rfl, hnn⟩ := (hnodes ns).1 hns
      cases he
      simp [h.within_string (i := 0) rfl, h.within_string (i := 1) rfl, hnm, hne, hnn]
    · rintro ⟨rfl, hn⟩
      exact ⟨_, (hmetadata _).2 ⟨rfl, hn "metadata" (by simp)⟩, _,
        (hendpoints _).2 ⟨rfl, hn "endpoints" (by simp)⟩, _,
        (hnodes _).2 ⟨rfl, hn "nodes" (by simp)⟩, rfl⟩

theorem sparing_map {α : Type} {f : α → Value} (h : ∀ a, Sparing (f a) (f a)) (as : List α) :
    Sparing (.array (as.map f)) (.array (as.map f)) := by
  apply Sparing.array
  apply items_self
  intro v hv
  obtain ⟨a, -, rfl⟩ := List.mem_map.1 hv
  exact h a

theorem sparing_self (s : Service) : Sparing s.toValue s.toValue := by
  have hes := sparing_map Endpoint.sparing_self s.endpoints
  have hns := sparing_map Node.sparing_self s.nodes
  apply sparing_object
  simp [Sparing.string, sparing_textMap, hes, hns]

/-- The shapes of all endpoints, outermost. -/
def shapes (s : Service) : List Shape := s.endpoints.flatMap Endpoint.shapes

/-! How deep the value of a service is nested: its own object, the list of its endpoints and the
object of an endpoint stand around each shape. -/

theorem nesting_orNull_le (o : Option Shape) :
    ((o.map Shape.toValue).getD .null).nesting ≤ n ↔ ∀ v ∈ o.toList, 2 * v.height ≤ n := by
  cases o with
  | none => simp [nesting]
  | some v => simp [v.nesting_toValue]

theorem nesting_endpoint_le (e : Endpoint) :
    e.toValue.nesting ≤ n + 2 ↔ ∀ v ∈ e.shapes, 2 * v.height ≤ n + 1 := by
  rw [Endpoint.toValue, nesting_object_le, Endpoint.shapes, List.forall_mem_append,
    ← nesting_orNull_le, ← nesting_orNull_le]
  simp [nesting, nesting_textMap]

theorem nesting_node_le (m : Node) : m.toValue.nesting ≤ n + 2 := by
  rw [Node.toValue, nesting_object_le]
  simp [nesting, nesting_textMap]

/-- How deep a service is nested goes by the shapes of its endpoints. -/
theorem nesting_le (s : Service) :
    s.toValue.nesting ≤ n + 4 ↔ ∀ v ∈ s.shapes, 2 * v.height ≤ n + 1 := by
  have hes : (array (s.endpoints.map Endpoint.toValue)).nesting ≤ n + 3 ↔
      ∀ v ∈ s.shapes, 2 * v.height ≤ n + 1 := by
    rw [nesting_array_le, List.forall_mem_map, shapes, List.forall_mem_flatMap]
    exact forall₂_congr fun e _ => nesting_endpoint_le e
  have hns : (array (s.nodes.map Node.toValue)).nesting ≤ n + 3 := by
    rw [nesting_array_le, List.forall_mem_map]
    intro m _
    exact nesting_node_le m
  rw [toValue, nesting_object_le, ← hes]
  constructor
  · intro h
    exact h ("endpoints", array (s.endpoints.map Endpoint.toValue)) (by simp)
  · intro h m hm
    simp only [List.mem_cons, List.not_mem_nil, or_false] at hm
    rcases hm with rfl | rfl | rfl | rfl | rfl
    · exact Nat.zero_le _
    · exact Nat.zero_le _
    · rw [nesting_textMap]
      omega
    · exact h
    · exact hns

/-- A text can be read if no shape is nested more than sixty-two deep, whatever it leaves out: the
levels of a shape are even in number, and at most one of them goes. -/
theorem nesting_sparing_le (hw : Sparing s.toValue w) :
    w.nesting ≤ maxDepth ↔ ∀ v ∈ s.shapes, v.height ≤ 62 := by
  have hle := hw.nesting_le
  constructor
  · intro hn v hv
    have hd : w.nesting ≤ 127 := hn
    have hs : s.toValue.nesting ≤ 124 + 4 := by omega
    have := (nesting_le s).1 hs v hv
    omega
  · intro hs
    have hd : s.toValue.nesting ≤ 123 + 4 := by
      rw [nesting_le]
      intro v hv
      have := hs v hv
      omega
    exact Nat.le_trans hle.1 hd

/-- A sparing text of a service is read as that service, as long as its shapes are not too high. -/
theorem parse?_octets (hw : Sparing s.toValue w) {t : Service} :
    parse? (Bytes.ofString w.text) = some t ↔ t = s ∧ ∀ v ∈ s.shapes, v.height ≤ 62 := by
  have hdoc : document? (Bytes.ofString w.text) = some w.octets :=
    document?_eq_self_iff.2 hw.isValue
  rw [parse?, parseAs?, hdoc, Option.bind_some, s.reads w hw, nesting_sparing_le hw]

/-- A service whose shapes are nested sixty-two deep at most is read back from its JSON as it was,
written in full or with any of its empty fields left out. Any other is refused. -/
theorem read_back_sparing (s : Service) : Sparing s.toValue s.toValue ∧
    ∀ w, Sparing s.toValue w → parse? (Bytes.ofString w.text) =
      if ∀ v ∈ s.shapes, v.height ≤ 62 then some s else none := by
  refine ⟨s.sparing_self, ?_⟩
  intro w hw
  split
  · rename_i hs
    exact (parse?_octets hw).2 ⟨rfl, hs⟩
  · rename_i hs
    rw [Option.eq_none_iff_forall_ne_some]
    intro t ht
    exact hs ((parse?_octets hw).1 ht).2

/-- One endpoint with a request that holds a shape, and everything empty left out. -/
theorem read_back_sparing_request :
    let v : Shape := ⟨"r", "\"", [⟨"é", "t", []⟩]⟩
    let s : Service :=
      { name := "a", version := "1", endpoints := [{ name := "e", request := some v }] }
    let leaf : Value := .object [("type", .string "t"), ("name", .string "é")]
    let shape : Value :=
      .object [("name", .string "r"), ("type", .string "\""), ("values", .array [leaf])]
    let w : Value := .object [("version", .string "1"), ("name", .string "a"),
      ("endpoints", .array [.object [("name", .string "e"), ("request", shape)]])]
    parse? (Bytes.ofString w.text) = some s := by
  intro v s leaf shape w
  have hleaf : Sparing (Shape.toValue ⟨"é", "t", []⟩) leaf :=
    .object (.kept (.string _) (.kept (.string _) (.left .array .nil))) (.swap _ _ _)
  have hshape : Sparing v.toValue shape :=
    .object (.kept (.string _) (.kept (.string _) (.kept (.array (.cons hleaf .nil)) .nil)))
      (.refl _)
  have hendpoint : Sparing (Endpoint.toValue { name := "e", request := some v })
      (.object [("name", .string "e"), ("request", shape)]) :=
    .object (.kept (.string _) (.kept hshape (.left .null (.left .object .nil)))) (.refl _)
  have hw : Sparing s.toValue w :=
    .object (.kept (.string _) (.kept (.string _) (.left .object
      (.kept (.array (.cons hendpoint .nil)) (.left .array .nil))))) (.swap _ _ _)
  rw [(read_back_sparing s).2 w hw]
  rfl

/-- Shapes so many deep below another. -/
def tower : Nat → Shape
  | 0 => ⟨"", "", []⟩
  | n + 1 => ⟨"", "", [tower n]⟩

theorem height_tower (n : Nat) : (tower n).height = n + 1 := by
  induction n with
  | zero => rfl
  | succ n ih => simp [tower, Shape.height, Shape.height.highest, ih]

/-- One endpoint whose request is a shape with sixty-two more below it. -/
def towering : Service :=
  { name := "a", version := "1", endpoints := [{ name := "e", request := some (tower 62) }] }

/-- It is written, and what is written is refused. -/
theorem towering_refused : parse? (Bytes.ofString towering.toValue.text) = none ∧
    ¬ ∀ s : Service, parse? (Bytes.ofString s.toValue.text) = some s := by
  have hdeep : ¬ ∀ v ∈ towering.shapes, v.height ≤ 62 := by
    intro h
    have hle := h (tower 62) (by simp [towering, shapes, Endpoint.shapes])
    rw [height_tower] at hle
    omega
  have hnone : parse? (Bytes.ofString towering.toValue.text) = none := by
    rw [Option.eq_none_iff_forall_ne_some]
    intro t ht
    exact hdeep ((parse?_octets towering.sparing_self).1 ht).2
  refine ⟨hnone, ?_⟩
  intro h
  cases hnone.symm.trans (h towering)

end Service

end Switchboard.Discovery
