import Switchboard.Client.ResponseCache
import Switchboard.Proofs.Json.Number
import Switchboard.Proofs.Json.Parts
import Switchboard.Proofs.Json.TextMap

/-! The list of a cache of responses as a JSON array, a row for each entry that has not expired. -/
namespace Switchboard.Client.ResponseCache

open Json

variable {c : ResponseCache} {now : Instant} {e : CachedResponse}

/-- What the row of an entry says: whose it is, how many milliseconds it has left, and what it
holds. -/
def rowFields (now : Instant) (e : CachedResponse) : List (String × Bytes) :=
  [("fingerprint", Bytes.ofString (quote e.key)),
    ("expires_in_ms", Bytes.ofString (toString (e.expires - now))),
    ("content_type", Bytes.ofString ((e.response.contentType?.map quote).getD "null")),
    ("size", Bytes.ofString (toString e.response.body.length))]

/-- A row is an object with these members. -/
def Shows (now : Instant) (e : CachedResponse) (v : Bytes) : Prop :=
  ∃ ms, IsObject v ms ∧ List.Forall₂ Named (rowFields now e) ms

theorem ofString_entryText : Bytes.ofString (entryText now e) = objectText (rowFields now e) := by
  have h1 : Bytes.ofString "\x7b\"fingerprint\":" =
      Ascii.openBrace :: (Bytes.ofString (quote "fingerprint") ++ [Ascii.colon]) := by decide +kernel
  have h2 : Bytes.ofString ",\"expires_in_ms\":" =
      Ascii.comma :: (Bytes.ofString (quote "expires_in_ms") ++ [Ascii.colon]) := by decide +kernel
  have h3 : Bytes.ofString ",\"content_type\":" =
      Ascii.comma :: (Bytes.ofString (quote "content_type") ++ [Ascii.colon]) := by decide +kernel
  have h4 : Bytes.ofString ",\"size\":" =
      Ascii.comma :: (Bytes.ofString (quote "size") ++ [Ascii.colon]) := by decide +kernel
  have h5 : Bytes.ofString "\x7d" = [Ascii.closeBrace] := by decide
  unfold entryText rowFields
  -- the digits stand for themselves, so that no rewriting looks into them
  generalize toString (e.expires - now) = left
  generalize toString e.response.body.length = size
  simp [h1, h2, h3, h4, h5, objectText, memberText, join_singleton, join_cons_cons]

theorem isValue_rowFields : ∀ f ∈ rowFields now e, IsValue f.2 := by
  have hends := isValue_toString (e.expires - now : Nat)
  have hsize := isValue_toString (e.response.body.length : Nat)
  have htype : IsValue (Bytes.ofString ((e.response.contentType?.map quote).getD "null")) := by
    cases e.response.contentType? with
    | none => exact derives_value_iff.1 (.word (.inl rfl))
    | some t => exact isValue_quote
  simpa [rowFields, isValue_quote] using ⟨hends, htype, hsize⟩

/-- A row of the list shows its entry, field by field. -/
theorem shows_objectText : Shows now e (objectText (rowFields now e)) := by
  have hv : Derives .value (objectText (rowFields now e)) :=
    derives_value_iff.2 (isValue_objectText isValue_rowFields)
  refine ⟨_, (members?_eq_some_iff hv).1 (members?_objectText isValue_rowFields), ?_⟩
  rw [List.forall₂_map_right_iff, List.forall₂_same]
  intro f hf
  exact ⟨string?_eq_some_iff.1 string?_quote, rfl⟩

/-- The list is the array of the rows of the entries that have not expired. -/
theorem ofString_listText : Bytes.ofString (c.listText now) =
    arrayText ((c.live now).map fun e => objectText (rowFields now e)) := by
  have h1 : Bytes.ofString "[" = [Ascii.openBracket] := by decide
  have h2 : Bytes.ofString "]" = [Ascii.closeBracket] := by decide
  rw [listText, Bytes.ofString_append, Bytes.ofString_append, ofString_intercalate, List.map_map,
    h1, h2]
  simp only [Function.comp_def, ofString_entryText]
  rfl

/-- The rows are those of the live entries in their order. -/
theorem exists_rows (c : ResponseCache) (now : Instant) :
    ∃ vs, IsArray (Bytes.ofString (c.listText now)) vs ∧
      List.Forall₂ (Shows now) (c.live now) vs := by
  have hrows : ∀ v ∈ (c.live now).map fun e => objectText (rowFields now e), IsValue v := by
    intro v hv
    obtain ⟨e, -, rfl⟩ := List.mem_map.1 hv
    exact isValue_objectText isValue_rowFields
  have hv : Derives .value (Bytes.ofString (c.listText now)) := by
    rw [ofString_listText]
    exact derives_value_iff.2 (isValue_arrayText hrows)
  refine ⟨(c.live now).map fun e => objectText (rowFields now e),
    (items?_eq_some_iff hv).1 ?_, ?_⟩
  · rw [ofString_listText]
    exact items?_arrayText hrows
  · rw [List.forall₂_map_right_iff, List.forall₂_same]
    exact fun e _ => shows_objectText

end Switchboard.Client.ResponseCache
