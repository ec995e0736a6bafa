import Switchboard.Proofs.Json.Record
import Switchboard.Rpc.Codec

/-! What a codec has written, it reads. -/
namespace Switchboard.Rpc

open Json

variable {m k : Message} {s : String} {b e r : Bytes} {w x y z : UInt8}

/-! JSON calls and replies. -/

namespace JsonRpc

/-- The text of one JSON value, without blanks around it. -/
structure IsText (b : Bytes) : Prop where
  value : IsValue b
  text : (Bytes.toString? b).isSome

theorem IsText.rawBody (h : IsText b) : rawBody b = .ok b := by
  obtain ⟨s, hs⟩ := Option.isSome_iff_exists.1 h.text
  have hb : b.isEmpty = false := by simpa using h.value.ne_nil
  rw [JsonRpc.rawBody, hb, if_neg Bool.false_ne_true, hs, document?_eq_self_iff.2 h.value]

theorem IsText.raw? (h : IsText b) : raw? b = some b := by
  obtain ⟨s, hs⟩ := Option.isSome_iff_exists.1 h.text
  rw [JsonRpc.raw?, hs, Option.map_some]

def callFields (id method : String) (body : Bytes) : List (String × Bytes) :=
  [("id", Bytes.ofString (quote id)), ("method", Bytes.ofString (quote method)),
    ("params", arrayText [body])]

def replyFields (id : String) (result error : Bytes) : List (String × Bytes) :=
  [("id", Bytes.ofString (quote id)), ("result", result), ("error", error)]

theorem marshal_call_of_rawBody (hk : isCall m.kind = true) (hb : rawBody m.body = .ok b) :
    marshal m = .ok (objectText (callFields m.id m.method b)) := by
  have h1 : Bytes.ofString "\x7b\"id\":" =
      Ascii.openBrace :: (Bytes.ofString (quote "id") ++ [Ascii.colon]) := by decide
  have h2 : Bytes.ofString ",\"method\":" =
      Ascii.comma :: (Bytes.ofString (quote "method") ++ [Ascii.colon]) := by decide
  have h3 : Bytes.ofString ",\"params\":[" =
    Ascii.comma :: (Bytes.ofString (quote "params") ++ [Ascii.colon, Ascii.openBracket]) := by
    decide
  have h4 : Bytes.ofString "]\x7d" = [Ascii.closeBracket, Ascii.closeBrace] := by decide
  rw [marshal, hb]
  show (if isCall m.kind then Except.ok _ else _) = _
  rw [if_pos hk]
  simp [h1, h2, h3, h4, callFields, objectText, arrayText, memberText, join_singleton,
    join_cons_cons]

/-- A call is written as an object of its three fields. -/
theorem marshal_call (hk : isCall m.kind = true) (hb : IsText m.body) :
    marshal m = .ok (objectText (callFields m.id m.method m.body)) :=
  marshal_call_of_rawBody hk hb.rawBody

theorem marshal_reply_of_rawBody (hk : isCall m.kind = false) (he : m.error = "")
    (hb : rawBody m.body = .ok b) :
    marshal m = .ok (objectText (replyFields m.id b (Bytes.ofString "null"))) := by
  have h1 : Bytes.ofString "\x7b\"id\":" =
      Ascii.openBrace :: (Bytes.ofString (quote "id") ++ [Ascii.colon]) := by decide
  have h2 : Bytes.ofString ",\"result\":" =
      Ascii.comma :: (Bytes.ofString (quote "result") ++ [Ascii.colon]) := by decide
  have h3 : Bytes.ofString ",\"error\":null\x7d" = Ascii.comma :: (Bytes.ofString (quote "error") ++
    Ascii.colon :: (Bytes.ofString "null" ++ [Ascii.closeBrace])) := by decide
  rw [marshal, hb]
  show (if isCall m.kind then _ else if m.error.isEmpty then Except.ok _ else _) = _
  rw [if_neg (by simp [hk]), if_pos (by simp [he])]
  simp [h1, h2, h3, replyFields, objectText, memberText, join_singleton, join_cons_cons]

/-- A reply is written with its body for a result. -/
theorem marshal_reply (hk : isCall m.kind = false) (he : m.error = "") (hb : IsText m.body) :
    marshal m = .ok (objectText (replyFields m.id m.body (Bytes.ofString "null"))) :=
  marshal_reply_of_rawBody hk he hb.rawBody

/-- A reply that reports an error has no result. -/
theorem marshal_error_of_rawBody (hk : isCall m.kind = false) (he : m.error ≠ "")
    (hb : rawBody m.body = .ok b) :
    marshal m = .ok (objectText
      (replyFields m.id (Bytes.ofString "null") (Bytes.ofString (quote m.error)))) := by
  have h1 : Bytes.ofString "\x7b\"id\":" =
      Ascii.openBrace :: (Bytes.ofString (quote "id") ++ [Ascii.colon]) := by decide
  have h2 : Bytes.ofString ",\"result\":null,\"error\":" =
      Ascii.comma :: (Bytes.ofString (quote "result") ++ Ascii.colon :: (Bytes.ofString "null" ++
        Ascii.comma :: (Bytes.ofString (quote "error") ++ [Ascii.colon]))) := by decide
  have h3 : Bytes.ofString "\x7d" = [Ascii.closeBrace] := by decide
  rw [marshal, hb]
  show (if isCall m.kind then _ else if m.error.isEmpty then _ else Except.ok _) = _
  rw [if_neg (by simp [hk]), if_neg (by simp [he])]
  simp [h1, h2, h3, replyFields, objectText, memberText, join_singleton, join_cons_cons]

theorem rawBody_nil : rawBody [] = .ok (Bytes.ofString "null") := rfl

/-- A reply with an error has that instead of a result. -/
theorem marshal_error (hk : isCall m.kind = false) (he : m.error ≠ "") (hb : m.body = []) :
    marshal m = .ok (objectText
      (replyFields m.id (Bytes.ofString "null") (Bytes.ofString (quote m.error)))) :=
  marshal_error_of_rawBody hk he (hb ▸ rawBody_nil)

/-- Calls and replies that have a text as their body, and replies that have an error and no body. -/
inductive Keeps (m : Message) : Prop
  | text (hb : IsText m.body)
      (hr : isCall m.kind = false → m.error = "" ∧ m.body ≠ Bytes.ofString "null")
  | error (hk : isCall m.kind = false) (he : m.error ≠ "") (hb : m.body = [])

theorem isValue_null : IsValue (Bytes.ofString "null") := rfl

theorem isValue_callFields {id method : String} (hb : IsValue b) :
    ∀ f ∈ callFields id method b, IsValue f.2 := by
  have ha : IsValue (arrayText [b]) := isValue_arrayText (by simpa using hb)
  simpa [callFields, isValue_quote] using ha

theorem isValue_replyFields {id : String} (hb : IsValue b) (he : IsValue e) :
    ∀ f ∈ replyFields id b e, IsValue f.2 := by
  simp [replyFields, isValue_quote, hb, he]

theorem call_objectText {id method : String} {d : Nat} (hb : IsText b) :
    call (d + 2) (objectText (callFields id method b)) = some (id, method, [b]) := by
  have hf : Fields.read? ["id", "method", "params"] (d + 2) (objectText (callFields id method b)) =
      some ⟨false, [some (Bytes.ofString (quote id)), some (Bytes.ofString (quote method)),
        some (arrayText [b])]⟩ :=
    read?_objectText (isValue_callFields hb.value) (by simp [callFields]) (by simp [callFields])
  have ha : list (fun _ => JsonRpc.raw?) (d + 1) (arrayText [b]) = some [b] := by
    rw [list, items?_arrayText (by simpa using hb.value)]
    simp [hb.raw?]
  rw [call, hf]
  simp [Fields.withDefault, Fields.required, Fields.get?, string?_quote, ha]

theorem read?_replyFields {id : String} {d : Nat} (hb : IsValue b) (he : IsValue e) :
    Fields.read? ["id", "result", "error"] (d + 1) (objectText (replyFields id b e)) =
      some ⟨false, [some (Bytes.ofString (quote id)), some b, some e]⟩ :=
  read?_objectText (isValue_replyFields hb he) (by simp [replyFields]) (by simp [replyFields])

theorem reply_objectText {id : String} {d : Nat} (hb : IsText b) (hn : b ≠ Bytes.ofString "null") :
    reply (d + 1) (objectText (replyFields id b (Bytes.ofString "null"))) =
      some (id, some b, none) := by
  rw [reply, read?_replyFields hb.value isValue_null]
  simp [Fields.withDefault, Fields.nullable, Fields.get?, string?_quote, isNull, hn,
    hb.raw?, orNull]

/-- A result that is null is none. -/
theorem reply_null {id : String} {d : Nat} :
    reply (d + 1) (objectText (replyFields id (Bytes.ofString "null") (Bytes.ofString "null"))) =
      some (id, none, none) := by
  rw [reply, read?_replyFields isValue_null isValue_null]
  simp [Fields.withDefault, Fields.nullable, Fields.get?, string?_quote, isNull, orNull]

theorem reply_error {id error : String} {d : Nat} :
    reply (d + 1)
        (objectText (replyFields id (Bytes.ofString "null") (Bytes.ofString (quote error)))) =
      some (id, none, some error) := by
  have hn : Bytes.ofString (quote error) ≠ Bytes.ofString "null" := by
    rw [ofString_quote]
    exact nofun
  rw [reply, read?_replyFields isValue_null isValue_quote]
  simp [Fields.withDefault, Fields.nullable, Fields.get?, string?_quote, isNull, hn, orNull]

/-- A call that was written is read back with its body as it was. -/
theorem unmarshal_call {id method : String} (hk : isCall k.kind = true) (hb : IsText b) :
    unmarshal (objectText (callFields id method b)) k = .ok { k with id, method, body := b } := by
  have hc : parseAs? call (objectText (callFields id method b)) = some (id, method, [b]) := by
    have hv : IsValue (objectText (callFields id method b)) :=
      isValue_objectText (isValue_callFields hb.value)
    have hdepth : maxDepth = 125 + 2 := rfl
    rw [parseAs?, document?_eq_self_iff.2 hv, Option.bind_some, hdepth, call_objectText hb]
  rw [unmarshal, if_pos hk, hc]
  rfl

theorem parseAs?_reply (id : String) (hb : IsValue b) (he : IsValue e) :
    parseAs? reply (objectText (replyFields id b e)) =
      reply maxDepth (objectText (replyFields id b e)) := by
  have hv : IsValue (objectText (replyFields id b e)) :=
    isValue_objectText (isValue_replyFields hb he)
  rw [parseAs?, document?_eq_self_iff.2 hv, Option.bind_some]

/-- A reply that was written is read back as well. -/
theorem unmarshal_reply {id : String} (hk : isCall k.kind = false) (hb : IsText b)
    (hn : b ≠ Bytes.ofString "null") :
    unmarshal (objectText (replyFields id b (Bytes.ofString "null"))) k =
      .ok { k with id, error := "", body := b } := by
  have hr := parseAs?_reply id hb.value isValue_null
  have hdepth : maxDepth = 126 + 1 := rfl
  rw [hdepth, reply_objectText hb hn] at hr
  rw [unmarshal, if_neg (by simp [hk]), hr]
  rfl

theorem unmarshal_null {id : String} (hk : isCall k.kind = false) :
    unmarshal (objectText (replyFields id (Bytes.ofString "null") (Bytes.ofString "null"))) k =
      .ok { k with id, error := "", body := [] } := by
  have hr := parseAs?_reply id isValue_null isValue_null
  have hdepth : maxDepth = 126 + 1 := rfl
  rw [hdepth, reply_null] at hr
  rw [unmarshal, if_neg (by simp [hk]), hr]
  rfl

theorem unmarshal_error {id error : String} (hk : isCall k.kind = false) :
    unmarshal (objectText
        (replyFields id (Bytes.ofString "null") (Bytes.ofString (quote error)))) k =
      .ok { k with id, error, body := [] } := by
  have hr := parseAs?_reply id isValue_null (isValue_quote (s := error))
  have hdepth : maxDepth = 126 + 1 := rfl
  rw [hdepth, reply_error] at hr
  rw [unmarshal, if_neg (by simp [hk]), hr]
  rfl

end JsonRpc

/-! Length-prefixed fields. -/

namespace ProtoRpc

theorem take_octets (h : Bytes.word32 w x y z = (Bytes.ofString s).length) :
    take (w :: x :: y :: z :: (Bytes.ofString s ++ r)) = .ok (s, r) := by
  simp only [take, h]
  rw [if_neg (by simp), List.take_left, List.drop_left, Bytes.toString?_ofString]

theorem take_put (h : (Bytes.ofString s).length < Bytes.words) : take (put s ++ r) = .ok (s, r) :=
  take_octets (Bytes.word32_be32 h)

theorem unmarshal_of_take {data r₁ r₂ r₃ : Bytes} {id method error : String}
    (h₁ : take data = .ok (id, r₁)) (h₂ : take r₁ = .ok (method, r₂))
    (h₃ : take r₂ = .ok (error, r₃)) :
    unmarshal data k = ({ k with id, method, error, body := r₃ }, none) := by
  simp only [unmarshal, h₁, h₂, h₃]

theorem unmarshal_marshal (hi : (Bytes.ofString m.id).length < Bytes.words)
    (hm : (Bytes.ofString m.method).length < Bytes.words)
    (he : (Bytes.ofString m.error).length < Bytes.words) :
    unmarshal (marshal m) k =
      ({ k with id := m.id, method := m.method, error := m.error, body := m.body }, none) := by
  rw [marshal, List.append_assoc, List.append_assoc]
  exact unmarshal_of_take (take_put hi) (take_put hm) (take_put he)

theorem length_take (h : take b = .ok (s, r)) : (Bytes.ofString s).length < Bytes.words := by
  unfold take at h
  split at h
  · rename_i w x y z q
    dsimp only at h
    split at h
    · cases h
    · split at h
      · rename_i u hu
        cases h
        have hlt := Bytes.word32_lt (w := w) (x := x) (y := y) (z := z)
        rw [Bytes.ofString_of_toString? hu, List.length_take]
        omega
      · cases h
  · cases h

/-- The texts of a message that has come with length prefixes. -/
theorem length_unmarshal (h : unmarshal b k = (m, none)) :
    (Bytes.ofString m.id).length < Bytes.words ∧
      (Bytes.ofString m.method).length < Bytes.words := by
  rw [unmarshal] at h
  split at h
  · cases h
  · rename_i hi
    dsimp only at h
    split at h
    · cases h
    · rename_i hm
      split at h
      · cases h
      · cases h
        exact ⟨length_take hi, length_take hm⟩

end ProtoRpc

namespace Grpc

theorem unmarshal_octets (h : Bytes.word32 w x y z = b.length) :
    unmarshal (0 :: w :: x :: y :: z :: b) = .ok b := by
  simp only [unmarshal, h]
  rw [if_neg (by simp), if_neg (by simp), List.take_length]

theorem unmarshal_marshal (h : b.length < Bytes.words) : unmarshal (marshal b) = .ok b :=
  unmarshal_octets (Bytes.word32_be32 h)

end Grpc
end Switchboard.Rpc
