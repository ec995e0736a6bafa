import Switchboard.Proofs.Json.Grammar
import Switchboard.Proofs.Rpc.Codec

/-! Which bodies go into JSON calls and replies, and what comes out of them. -/
namespace Switchboard.Rpc

open Json

variable {m k : Message} {a b p body data raw : Bytes} {c : UInt8} {e : Malformed}

/-! A text keeps being a text without the blanks around it. -/

theorem lt_of_isSpace (hc : isSpace c = true) : c < 128 := by
  rcases isSpace_cases hc with rfl | rfl | rfl | rfl <;> decide

theorem exists_text_behind (ha : Blank a) (h : ∃ s, Bytes.ofString s = a ++ b) :
    ∃ s, Bytes.ofString s = b := by
  induction a with
  | nil => exact h
  | cons c a ih =>
    obtain ⟨s, hs⟩ := h
    have hc := lt_of_isSpace (ha c List.mem_cons_self)
    exact ih (fun d hd => ha d (List.mem_cons_of_mem _ hd)) (Bytes.exists_ofString_of_cons hc hs)

theorem exists_text_before (hp : Blank p) (h : ∃ s, Bytes.ofString s = b ++ p) :
    ∃ s, Bytes.ofString s = b := by
  induction p using List.reverseRecOn with
  | nil => rwa [List.append_nil] at h
  | append_singleton p c ih =>
    obtain ⟨s, hs⟩ := h
    have hc := lt_of_isSpace (hp c (List.mem_append_right _ List.mem_cons_self))
    rw [← List.append_assoc] at hs
    exact ih (fun d hd => hp d (List.mem_append_left _ hd)) (Bytes.exists_ofString_of_concat hc hs)

namespace JsonRpc

/-- The bodies that are taken into an envelope: none, and UTF-8 text of one document. -/
def Takes (body : Bytes) : Prop := body = [] ∨ (∃ s, Bytes.ofString s = body) ∧ IsDocument body

/-- What an envelope holds of a body: a document as it was written, without the blanks around it. -/
def enclosed (body : Bytes) : Bytes := if body = [] then Bytes.ofString "null" else trim body

theorem isText_null : IsText (Bytes.ofString "null") := ⟨isValue_null, Bytes.isText_ofString⟩

theorem isText_trim (ht : ∃ s, Bytes.ofString s = body) (hd : IsDocument body) :
    IsText (trim body) := by
  obtain ⟨a, v, p, rfl, ha, hv, hp⟩ := hd
  obtain ⟨s, hs⟩ := exists_text_before hp (exists_text_behind ha ht)
  rw [trim_eq ha hv hp]
  refine ⟨derives_value_iff.1 hv, ?_⟩
  rw [← hs]
  exact Bytes.isText_ofString

theorem Takes.isText (h : Takes body) : IsText (enclosed body) := by
  unfold enclosed
  split
  · exact isText_null
  · rename_i hne
    rcases h with hnil | ⟨ht, hd⟩
    · exact absurd hnil hne
    · exact isText_trim ht hd

/-- With text for a body, all depends on whether it is read as a document. -/
theorem rawBody_of_text (hne : body ≠ []) (ht : ∃ s, Bytes.ofString s = body) :
    (∀ raw, document? body = some raw → rawBody body = .ok raw) ∧
      (document? body = none → rawBody body = .error .notJson) := by
  obtain ⟨s, rfl⟩ := ht
  constructor
  · intro raw hd
    simp [rawBody, hne, hd]
  · intro hd
    simp [rawBody, hne, hd]

/-- A body that is taken is enclosed as it was written. -/
theorem rawBody_of_takes (h : Takes body) : rawBody body = .ok (enclosed body) := by
  by_cases hnil : body = []
  · rw [hnil, rawBody_nil, enclosed, if_pos rfl]
  · obtain ⟨ht, hd⟩ := h.resolve_left hnil
    rw [enclosed, if_neg hnil]
    exact (rawBody_of_text hnil ht).1 _ (isDocument_iff.1 hd)

theorem rawBody_of_not_text (ht : ¬ ∃ s, Bytes.ofString s = body) :
    rawBody body = .error .notText := by
  have hne : body.isEmpty = false := by
    rw [← Bool.not_eq_true, List.isEmpty_iff]
    rintro rfl
    exact ht ⟨"", rfl⟩
  have hnone : Bytes.toString? body = none := by
    cases hs : Bytes.toString? body with
    | none => rfl
    | some s => exact absurd ⟨s, Bytes.ofString_of_toString? hs⟩ ht
  rw [rawBody, hne, if_neg Bool.false_ne_true, hnone]

theorem rawBody_of_not_document (hne : body ≠ []) (ht : ∃ s, Bytes.ofString s = body)
    (hd : ¬ IsDocument body) : rawBody body = .error .notJson := by
  have hnone : document? body = none := by
    cases hv : document? body with
    | none => rfl
    | some v => exact absurd (document?_eq_some_iff.1 hv).1 hd
  exact (rawBody_of_text hne ht).2 hnone

/-- Any other body is refused. -/
theorem not_takes (h : ¬ Takes body) : ∃ e, rawBody body = .error e := by
  have hne : body ≠ [] := fun hnil => h (.inl hnil)
  by_cases ht : ∃ s, Bytes.ofString s = body
  · exact ⟨_, rawBody_of_not_document hne ht fun hd => h (.inr ⟨ht, hd⟩)⟩
  · exact ⟨_, rawBody_of_not_text ht⟩

theorem marshal_of_error (h : rawBody m.body = .error e) : marshal m = .error e := by
  rw [marshal, h]
  rfl

/-! Envelopes around a body that is taken. -/

/-- The text before a body in the envelope of a call, and the text behind it. -/
theorem callFields_split (id method : String) : ∃ front back, ∀ body,
    objectText (callFields id method body) = front ++ (body ++ back) := by
  refine ⟨Ascii.openBrace :: (memberText ("id", Bytes.ofString (quote id)) ++
    Ascii.comma :: (memberText ("method", Bytes.ofString (quote method)) ++
      Ascii.comma :: (Bytes.ofString (quote "params") ++ [Ascii.colon, Ascii.openBracket]))),
    [Ascii.closeBracket, Ascii.closeBrace], ?_⟩
  intro body
  simp [objectText, callFields, memberText, arrayText, join_singleton, join_cons_cons]

theorem replyFields_split (id : String) (error : Bytes) : ∃ front back, ∀ body,
    objectText (replyFields id body error) = front ++ (body ++ back) := by
  refine ⟨Ascii.openBrace :: (memberText ("id", Bytes.ofString (quote id)) ++
    Ascii.comma :: (Bytes.ofString (quote "result") ++ [Ascii.colon])),
    Ascii.comma :: (memberText ("error", error) ++ [Ascii.closeBrace]), ?_⟩
  intro body
  simp [objectText, replyFields, memberText, join_singleton, join_cons_cons]

theorem Takes.call (h : Takes m.body) (hk : isCall m.kind = true) :
    marshal m = .ok (objectText (callFields m.id m.method (enclosed m.body))) :=
  marshal_call_of_rawBody hk (rawBody_of_takes h)

theorem Takes.reply (h : Takes m.body) (hk : isCall m.kind = false) (he : m.error = "") :
    marshal m =
      .ok (objectText (replyFields m.id (enclosed m.body) (Bytes.ofString "null"))) :=
  marshal_reply_of_rawBody hk he (rawBody_of_takes h)

theorem Takes.failure (h : Takes m.body) (hk : isCall m.kind = false) (he : m.error ≠ "") :
    marshal m = .ok (objectText
      (replyFields m.id (Bytes.ofString "null") (Bytes.ofString (quote m.error)))) :=
  marshal_error_of_rawBody hk he (rawBody_of_takes h)

theorem exists_marshal_of_takes (h : Takes m.body) : ∃ data, marshal m = .ok data := by
  cases hk : isCall m.kind with
  | true => exact ⟨_, h.call hk⟩
  | false =>
    by_cases he : m.error = ""
    · exact ⟨_, h.reply hk he⟩
    · exact ⟨_, h.failure hk he⟩

/-- What was enclosed was such a body. -/
theorem takes_of_marshal (h : marshal m = .ok data) : Takes m.body := by
  by_contra hn
  obtain ⟨e, he⟩ := not_takes hn
  cases h.symm.trans (marshal_of_error he)

theorem unmarshal_reply_enclosed (hk : isCall k.kind = false) (h : Takes body) (id : String) :
    unmarshal (objectText (replyFields id (enclosed body) (Bytes.ofString "null"))) k = .ok { k with
      id := id
      error := ""
      body := if enclosed body = Bytes.ofString "null" then [] else enclosed body } := by
  by_cases hn : enclosed body = Bytes.ofString "null"
  · rw [if_pos hn, hn, unmarshal_null hk]
  · rw [if_neg hn, unmarshal_reply hk h.isText hn]

end JsonRpc

namespace Codec

open JsonRpc

theorem marshal_jsonRpc_ok : jsonRpc.marshal m = .ok data ↔ JsonRpc.marshal m = .ok data := by
  change Except.mapError CallError.codec (JsonRpc.marshal m) = .ok data ↔ _
  cases JsonRpc.marshal m with
  | ok d => simp [Except.mapError]
  | error e => simp [Except.mapError]

theorem marshal_jsonRpc_error (h : rawBody m.body = .error e) :
    jsonRpc.marshal m = .error (.codec e) :=
  congrArg (Except.mapError CallError.codec) (marshal_of_error h)

theorem unmarshal_jsonRpc (h : JsonRpc.unmarshal data k = .ok m) :
    jsonRpc.unmarshal data k = (m, none) := by
  rw [unmarshal, h]

/-- How a message goes through a JSON envelope: if its body is taken, and then only, a message of the
same type has from the envelope what went in. The body is held as it was written, wherever the envelope
has one. -/
structure Encloses (m : Message) : Prop where
  taken : (∃ data, jsonRpc.marshal m = .ok data) ↔ Takes m.body
  notText : (¬ ∃ s, Bytes.ofString s = m.body) → jsonRpc.marshal m = .error (.codec .notText)
  notJson : m.body ≠ [] → (∃ s, Bytes.ofString s = m.body) → ¬ IsDocument m.body →
    jsonRpc.marshal m = .error (.codec .notJson)
  call : ∀ data k, jsonRpc.marshal m = .ok data → isCall k.kind = isCall m.kind →
    isCall m.kind = true → jsonRpc.unmarshal data k =
      ({ k with id := m.id, method := m.method, body := enclosed m.body }, none)
  reply : ∀ data k, jsonRpc.marshal m = .ok data → isCall k.kind = isCall m.kind →
    isCall m.kind = false → m.error = "" → jsonRpc.unmarshal data k = ({ k with
      id := m.id
      error := ""
      body := if enclosed m.body = Bytes.ofString "null" then [] else enclosed m.body }, none)
  failure : ∀ data k, jsonRpc.marshal m = .ok data → isCall k.kind = isCall m.kind →
    isCall m.kind = false → m.error ≠ "" →
      jsonRpc.unmarshal data k = ({ k with id := m.id, error := m.error, body := [] }, none)
  verbatim : isCall m.kind = true ∨ m.error = "" → ∃ front back, ∀ body data,
    jsonRpc.marshal { m with body } = .ok data → data = front ++ (enclosed body ++ back)

/-- A call encloses the body as it stands, between parts that do not depend on it. -/
theorem verbatim_call (hk : isCall m.kind = true) : ∃ front back, ∀ body data,
    jsonRpc.marshal { m with body } = .ok data → data = front ++ (enclosed body ++ back) := by
  obtain ⟨front, back, hsplit⟩ := callFields_split m.id m.method
  refine ⟨front, back, ?_⟩
  intro body data h
  have hm := marshal_jsonRpc_ok.1 h
  have hcall := (takes_of_marshal hm).call (m := { m with body }) hk
  rw [← hsplit]
  exact Except.ok.inj (hm.symm.trans hcall)

theorem verbatim_reply (hk : isCall m.kind = false) (he : m.error = "") :
    ∃ front back, ∀ body data, jsonRpc.marshal { m with body } = .ok data →
      data = front ++ (enclosed body ++ back) := by
  obtain ⟨front, back, hsplit⟩ := replyFields_split m.id (Bytes.ofString "null")
  refine ⟨front, back, ?_⟩
  intro body data h
  have hm := marshal_jsonRpc_ok.1 h
  have hreply := (takes_of_marshal hm).reply (m := { m with body }) hk he
  rw [← hsplit]
  exact Except.ok.inj (hm.symm.trans hreply)

/-- An envelope holds any body that is a document, and no other is taken. -/
theorem encloses (m : Message) : Encloses m where
  taken := by
    constructor
    · rintro ⟨data, h⟩
      exact takes_of_marshal (marshal_jsonRpc_ok.1 h)
    · intro h
      obtain ⟨data, hm⟩ := exists_marshal_of_takes h
      exact ⟨data, marshal_jsonRpc_ok.2 hm⟩
  notText ht := marshal_jsonRpc_error (rawBody_of_not_text ht)
  notJson hne ht hd := marshal_jsonRpc_error (rawBody_of_not_document hne ht hd)
  call data k h hsame hk := by
    have hm := marshal_jsonRpc_ok.1 h
    have ht := takes_of_marshal hm
    cases hm.symm.trans (ht.call hk)
    exact unmarshal_jsonRpc (unmarshal_call (hsame.trans hk) ht.isText)
  reply data k h hsame hk he := by
    have hm := marshal_jsonRpc_ok.1 h
    have ht := takes_of_marshal hm
    cases hm.symm.trans (ht.reply hk he)
    exact unmarshal_jsonRpc (unmarshal_reply_enclosed (hsame.trans hk) ht m.id)
  failure data k h hsame hk he := by
    have hm := marshal_jsonRpc_ok.1 h
    cases hm.symm.trans ((takes_of_marshal hm).failure hk he)
    exact unmarshal_jsonRpc (unmarshal_error (hsame.trans hk))
  verbatim h := by
    cases hk : isCall m.kind with
    | true => exact verbatim_call hk
    | false => exact verbatim_reply hk (h.resolve_left (by simp [hk]))

example : jsonRpc.marshal { id := "\"é", body := Bytes.ofString " [1.50e1, \"\\u00e9\"]\r\n" } =
    .ok (Bytes.ofString
      "\x7b\"id\":\"\\\"é\",\"method\":\"\",\"params\":[[1.50e1, \"\\u00e9\"]]\x7d") := by
  rfl

end Codec
end Switchboard.Rpc
