import Switchboard.Proofs.Json.Record

/-! Maps of texts survive their JSON, in whatever order their members are written. -/
namespace Switchboard

namespace Dict

variable {α : Type} {xs : List (String × α)} {d : Dict α} {k : String} {v : α}

theorem get?_foldl_insert (hx : (xs.map (·.1)).Nodup) :
    (xs.foldl (fun d (k, v) => d.insert k v) d).get? k = some v ↔
      (k, v) ∈ xs ∨ k ∉ xs.map (·.1) ∧ d.get? k = some v := by
  induction xs generalizing d with
  | nil => simp
  | cons x xs ih =>
    obtain ⟨j, w⟩ := x
    obtain ⟨hj, hxs⟩ := List.nodup_cons.1 hx
    rw [List.foldl_cons, ih hxs, get?_insert]
    by_cases hk : j = k
    · subst hk
      have hn : ∀ u, (j, u) ∉ xs := by
        intro u hm
        exact hj (List.mem_map.2 ⟨_, hm, rfl⟩)
      simp [hn, eq_comm]
    · have hk' : k ≠ j := by
        intro he
        exact hk he.symm
      simp [hk, hk']

/-- A map is made again from its entries, in any order. -/
theorem ofList_of_perm (h : xs.Perm d.entries) : ofList xs = d := by
  have hd : (d.entries.map (·.1)).Nodup := by
    rw [List.Nodup, List.pairwise_map]
    apply d.sorted.imp
    intro a b hlt he
    exact String.lt_irrefl a.1 (he ▸ hlt)
  have hx : (xs.map (·.1)).Nodup := (h.map _).nodup_iff.2 hd
  apply ext
  intro k
  apply Option.ext
  intro v
  rw [ofList, get?_foldl_insert hx, h.mem_iff, ← get?_eq_some_iff]
  simp

end Dict

namespace Json

variable {ms : List (String × String)} {ss : List String} {d : Dict String} {n : Nat}

theorem ofString_intercalate :
    Bytes.ofString (",".intercalate ss) = join (ss.map Bytes.ofString) := by
  induction ss with
  | nil => rfl
  | cons s ss ih =>
    have hc : Bytes.ofString "," = [Ascii.comma] := by decide
    cases ss with
    | nil => simp [join_singleton]
    | cons t ss =>
      rw [String.intercalate_cons_cons, Bytes.ofString_append, Bytes.ofString_append, ih]
      simp [join_cons_cons, hc]

/-- The members of a map of texts, as they are written. -/
def textMembers (ms : List (String × String)) : List (String × Bytes) :=
  ms.map fun m => (m.1, Bytes.ofString (quote m.2))

theorem ofString_textMap :
    Bytes.ofString (Value.object (ms.map fun (k, v) => (k, .string v))).text =
      objectText (textMembers ms) := by
  have hpairs : (Value.text.pairs (ms.map fun (k, v) => (k, .string v))).map Bytes.ofString =
      (textMembers ms).map memberText := by
    induction ms with
    | nil => rfl
    | cons m ms ih =>
      have hc : Bytes.ofString ":" = [Ascii.colon] := by decide
      rw [List.map_cons, Value.text.pairs, List.map_cons, ih]
      simp [textMembers, memberText, Value.text, hc]
  have h1 : Bytes.ofString "\x7b" = [Ascii.openBrace] := by decide
  have h2 : Bytes.ofString "\x7d" = [Ascii.closeBrace] := by decide
  rw [Value.text, Bytes.ofString_append, Bytes.ofString_append, ofString_intercalate, hpairs, h1, h2]
  rfl

theorem isValue_textMembers : ∀ f ∈ textMembers ms, IsValue f.2 := by
  intro f hf
  obtain ⟨m, -, rfl⟩ := List.mem_map.1 hf
  exact isValue_quote

theorem textMap_objectText :
    textMap (n + 1) (objectText (textMembers ms)) = some (Dict.ofList ms) := by
  have hread : ((textMembers ms).map fun f => (Bytes.ofString (quote f.1), f.2)).mapM
      (fun x => (string? x.1).bind fun k => (string? x.2).bind fun v => some (k, v)) = some ms := by
    rw [textMembers, List.map_map, List.mapM_map]
    induction ms with
    | nil => rfl
    | cons m ms ih =>
      rw [List.mapM_cons, ih]
      simp [string?_quote]
  have hmembers := members?_objectText (@isValue_textMembers ms)
  rw [textMap, hmembers]
  simp only [Option.bind_eq_bind, Option.bind_some, Option.pure_def, hread]

/-- A map of texts is read back from its members, in whatever order they were written. -/
theorem parseAs?_textMap (h : ms.Perm d.entries) :
    parseAs? textMap (Bytes.ofString (Value.object (ms.map fun (k, v) => (k, .string v))).text) =
      some d := by
  have hv : IsValue (objectText (textMembers ms)) := isValue_objectText isValue_textMembers
  have hdepth : maxDepth = 126 + 1 := rfl
  rw [ofString_textMap, parseAs?, document?_eq_self_iff.2 hv, Option.bind_some, hdepth,
    textMap_objectText, Dict.ofList_of_perm h]

end Json
end Switchboard
