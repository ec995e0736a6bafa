import Switchboard.Proofs.Json.Number
import Switchboard.Proofs.Json.Record
import Switchboard.Rpc.Status

/-! A status survives its text. -/
namespace Switchboard.Rpc.Status

open Json

variable {s : Status}

def fields (s : Status) : List (String × Bytes) :=
  [("id", Bytes.ofString (quote s.id)), ("code", Bytes.ofString (toString s.code.toInt)),
    ("detail", Bytes.ofString (quote s.detail)), ("status", Bytes.ofString (quote s.status))]

theorem ofString_text : Bytes.ofString s.text = objectText s.fields := by
  have h1 : Bytes.ofString "\x7b\"id\":" =
      Ascii.openBrace :: (Bytes.ofString (quote "id") ++ [Ascii.colon]) := by decide
  have h2 : Bytes.ofString ",\"code\":" =
      Ascii.comma :: (Bytes.ofString (quote "code") ++ [Ascii.colon]) := by decide
  have h3 : Bytes.ofString ",\"detail\":" =
      Ascii.comma :: (Bytes.ofString (quote "detail") ++ [Ascii.colon]) := by decide
  have h4 : Bytes.ofString ",\"status\":" =
      Ascii.comma :: (Bytes.ofString (quote "status") ++ [Ascii.colon]) := by decide
  have h5 : Bytes.ofString "\x7d" = [Ascii.closeBrace] := by decide
  simp [text, fields, h1, h2, h3, h4, h5, objectText, memberText, join_singleton, join_cons_cons]

theorem isValue_fields : ∀ f ∈ s.fields, IsValue f.2 := by
  have hc := isValue_toString s.code.toInt
  simpa [fields, isValue_quote] using hc

theorem code?_toString (c : Int32) : code? (Bytes.ofString (toString c.toInt)) = some c := by
  have hlo := Int32.le_toInt c
  have hhi := Int32.toInt_lt c
  rw [code?, int?_toString, Option.bind_some, if_pos (by omega), Int32.ofInt_toInt]

/-- A status is read from its own text. -/
theorem read_objectText {d : Nat} : read (d + 1) (objectText s.fields) = some s := by
  have hf : Fields.read? ["id", "code", "detail", "status"] (d + 1) (objectText s.fields) =
      some ⟨false, [some (Bytes.ofString (quote s.id)),
        some (Bytes.ofString (toString s.code.toInt)), some (Bytes.ofString (quote s.detail)),
        some (Bytes.ofString (quote s.status))]⟩ :=
    read?_objectText isValue_fields (by simp [fields]) (by simp [fields])
  have hc := code?_toString s.code
  rw [read, hf]
  simp_all [Fields.withDefault, Fields.get?, string?_quote]

theorem parseAs?_text : parseAs? read (Bytes.ofString s.text) = some s := by
  have hv : IsValue (objectText s.fields) := isValue_objectText isValue_fields
  have hdepth : maxDepth = 126 + 1 := rfl
  rw [ofString_text, parseAs?, document?_eq_self_iff.2 hv, Option.bind_some, hdepth,
    read_objectText]

/-- Parsing the text of a status gives the status back. -/
theorem parse_text (s : Status) : parse s.text = s := by
  rw [parse, parseAs?_text, Option.getD_some]

theorem text_ne_empty : s.text ≠ "" := by
  intro h
  have ht := congrArg Bytes.ofString h
  rw [ofString_text] at ht
  cases ht

end Switchboard.Rpc.Status
