import Switchboard.Proofs.Json.Parts
import Switchboard.Proofs.Rpc.Status

/-! The texts that say a status, and that all other text is taken as the detail of one. -/
namespace Switchboard.Rpc.Status

open Json

variable {s : Status} {b raw : Bytes} {t : String} {d i : Nat}

def fieldNames : List String := ["id", "code", "detail", "status"]

/-- A code is told by its decimal digits. -/
def SaysCode (c : Int32) (raw : Bytes) : Prop := raw = Bytes.ofString (toString c.toInt)

/-- A field has what its text says, and where there is no text the usual value. -/
def Given {α : Type} (tells : α → Bytes → Prop) (usual x : α) : Option Bytes → Prop
  | some raw => tells x raw
  | none => x = usual

/-- A status whose fields have these texts. -/
structure Filled (s : Status) (id code detail status : Option Bytes) : Prop where
  id : Given Says "" s.id id
  code : Given SaysCode 0 s.code code
  detail : Given Says "" s.detail detail
  status : Given Says "" s.status status

/-- The values that say a status: objects with some of the four fields, each at most once, and any
other members, and arrays of some of the fields in their order. -/
inductive Denotes (s : Status) : Bytes → Prop
  | object {b : Bytes} {ms : List (Bytes × Bytes)} {fs : List (String × Bytes)}
    (ho : IsObject b ms) (hn : List.Forall₂ Named fs ms) (hu : Once fieldNames fs)
    (hf : Filled s (fs.lookup "id") (fs.lookup "code") (fs.lookup "detail")
      (fs.lookup "status")) : Denotes s b
  | array {b : Bytes} {vs : List Bytes} (ha : IsArray b vs) (hl : vs.length ≤ 4)
    (hf : Filled s vs[0]? vs[1]? vs[2]? vs[3]?) : Denotes s b

/-- The texts that say a status, blanks around it left aside. -/
def TextOf (s : Status) (t : String) : Prop :=
  ∃ a v p, Bytes.ofString t = a ++ (v ++ p) ∧ Blank a ∧ Denotes s v ∧ Blank p

theorem code?_eq_some_iff {c : Int32} (hv : Derives .value raw) :
    code? raw = some c ↔ SaysCode c raw := by
  rw [SaysCode, ← int?_eq_some_iff hv, code?]
  constructor
  · intro h
    obtain ⟨n, hn, h⟩ := Option.bind_eq_some_iff.1 h
    split at h
    · rename_i hrange
      cases h
      rw [hn, Int32.toInt_ofInt_of_le (by omega) (by omega)]
    · cases h
  · intro h
    have hlo := Int32.le_toInt c
    have hhi := Int32.toInt_lt c
    rw [h, Option.bind_some, if_pos (by omega), Int32.ofInt_toInt]

theorem withDefault_eq_some_iff {α : Type} {tells : α → Bytes → Prop} {usual x : α}
    {look : Bytes → Option α} {f : Fields}
    (h : ∀ raw, f.get? i = some raw → (look raw = some x ↔ tells x raw)) :
    f.withDefault i usual look = some x ↔ Given tells usual x (f.get? i) := by
  rw [Fields.withDefault]
  cases hg : f.get? i with
  | none => simp [Given, eq_comm]
  | some raw => simpa [Given] using h raw hg

/-- A status is read from a value that tells its fields, with defaults for the rest. -/
theorem read_eq_some_iff (h : Derives .value b) : read (d + 1) b = some s ↔
    ∃ f, Tells fieldNames b f ∧ Filled s (f.get? 0) (f.get? 1) (f.get? 2) (f.get? 3) := by
  have text (f : Fields) (j : Nat) (x : String) :
      f.withDefault j "" string? = some x ↔ Given Says "" x (f.get? j) :=
    withDefault_eq_some_iff fun raw _ => string?_eq_some_iff
  have number {f : Fields} (hf : Tells fieldNames b f) (c : Int32) :
      f.withDefault 1 0 code? = some c ↔ Given SaysCode 0 c (f.get? 1) :=
    withDefault_eq_some_iff fun raw hraw => code?_eq_some_iff (hf.value hraw)
  constructor
  · intro hr
    obtain ⟨f, hf, hr⟩ := Option.bind_eq_some_iff.1 hr
    obtain ⟨id, hid, hr⟩ := Option.bind_eq_some_iff.1 hr
    obtain ⟨code, hcode, hr⟩ := Option.bind_eq_some_iff.1 hr
    obtain ⟨detail, hdetail, hr⟩ := Option.bind_eq_some_iff.1 hr
    obtain ⟨status, hstatus, hr⟩ := Option.bind_eq_some_iff.1 hr
    cases hr
    have hf := (read?_eq_some_iff h).1 hf
    exact ⟨f, hf, (text f 0 id).1 hid, (number hf code).1 hcode, (text f 2 detail).1 hdetail,
      (text f 3 status).1 hstatus⟩
  · rintro ⟨f, hf, hfill⟩
    rw [read, show Fields.read? ["id", "code", "detail", "status"] (d + 1) b = some f from
      (read?_eq_some_iff h).2 hf]
    simp [(text f 0 _).2 hfill.id, (number hf _).2 hfill.code, (text f 2 _).2 hfill.detail,
      (text f 3 _).2 hfill.status]

theorem denotes_iff : Denotes s b ↔
    ∃ f, Tells fieldNames b f ∧ Filled s (f.get? 0) (f.get? 1) (f.get? 2) (f.get? 3) := by
  constructor
  · intro h
    cases h with
    | object ho hn hu hf => exact ⟨_, .byName ho hn hu, hf⟩
    | array ha hl hf =>
      refine ⟨_, .byPlace ha hl, ?_⟩
      simpa only [get?_map_some] using hf
  · rintro ⟨f, hf, hfill⟩
    cases hf with
    | byName ho hn hu => exact .object ho hn hu hfill
    | byPlace ha hl =>
      simp only [get?_map_some] at hfill
      exact .array ha hl hfill

theorem Denotes.derives (h : Denotes s b) : Derives .value b := by
  cases h with
  | object ho hn hu hf =>
    cases ho with
    | empty ha => exact .emptyObject ha
    | full ha h => exact .object ha h.derives
  | array ha hl hf =>
    cases ha with
    | empty ha => exact .emptyArray ha
    | full ha h => exact .array ha h.derives

/-- A status is read of the texts that say it, and of no others. -/
theorem parseAs?_eq_some_iff : parseAs? read (Bytes.ofString t) = some s ↔ TextOf s t := by
  have hdepth : maxDepth = 126 + 1 := rfl
  rw [parseAs?, hdepth]
  constructor
  · intro h
    obtain ⟨v, hv, hr⟩ := Option.bind_eq_some_iff.1 h
    obtain ⟨⟨a, w, p, ht, ha, hw, hp⟩, rfl⟩ := document?_eq_some_iff.1 hv
    rw [ht, trim_eq ha hw hp] at hr
    exact ⟨a, w, p, ht, ha, denotes_iff.2 ((read_eq_some_iff hw).1 hr), hp⟩
  · rintro ⟨a, v, p, ht, ha, hv, hp⟩
    have hdoc : document? (Bytes.ofString t) = some v := by
      refine document?_eq_some_iff.2 ⟨⟨a, v, p, ht, ha, hv.derives, hp⟩, ?_⟩
      rw [ht, trim_eq ha hv.derives hp]
    rw [hdoc, Option.bind_some]
    exact (read_eq_some_iff hv.derives).2 (denotes_iff.1 hv)

/-- What is read of the text of a status, and of any other text. -/
structure Survives (s : Status) (t : String) : Prop where
  restored : parse s.text = s
  written : TextOf s s.text
  structured : TextOf s t → parse t = s
  plain : (¬ ∃ q, TextOf q t) → parse t = { id := "", code := 0, detail := t, status := "" }

/-- A status survives its text, and any other text is the detail of a status. -/
theorem survives_text (s : Status) (t : String) : s.Survives t where
  restored := parse_text s
  written := parseAs?_eq_some_iff.1 parseAs?_text
  structured h := by
    rw [parse, parseAs?_eq_some_iff.2 h, Option.getD_some]
  plain h := by
    have hnone : parseAs? read (Bytes.ofString t) = none := by
      rw [Option.eq_none_iff_forall_ne_some]
      intro q hq
      exact h ⟨q, parseAs?_eq_some_iff.1 hq⟩
    rw [parse, hnone, Option.getD_none]

end Switchboard.Rpc.Status
