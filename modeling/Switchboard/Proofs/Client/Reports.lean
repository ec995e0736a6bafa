import Switchboard.Client.Exchange
import Switchboard.Proofs.Rpc.Server
import Switchboard.Proofs.Rpc.Status

/-! Which of the failures at a node a client gets to know as such. -/
namespace Switchboard.Client.Exchange

open Rpc CodecSet
open Server (Party Faults Fits)

variable {s : CodecSet} {handler : Handler} {f : Frame} {c : Codec} {e : Status} {m : Message}
  {envelope : Envelope} {out : Outgoing} {t : String} {who : Party}

/-- What a client makes of a frame that answers its request. -/
def answer (out : Outgoing) (f : Frame) : Except CallError Response :=
  (decode out (.frame f)).bind accept

/-- A refusal has no body, and a codec that wants one cannot read it. -/
theorem answer_refusal (h : c.Fallible) (ho : out.envelope.codec = c) :
    ∃ cause, answer out (Server.refusal t e) = .error (.codec cause) := by
  obtain ⟨cause, hm⟩ := h.unmarshal_nil (k := { kind := .response }) rfl
  have hbody : (Server.refusal t e).body = [] := rfl
  refine ⟨cause, ?_⟩
  rw [answer, decode, Envelope.read, ho, hbody, hm]
  rfl

theorem carries_report (hc : s.codecFor (contentType f.header) = .ok c)
    (hr : Server.request? s f = .ok (envelope, m)) (hf : c = .protoRpc → Fits f e) :
    c.Carries (Server.response t m (.error e)) := by
  cases c with
  | jsonRpc => exact JsonRpc.Keeps.error rfl Status.text_ne_empty rfl
  | protoRpc => exact (hf rfl).response hc hr
  | grpc => exact (by decide : 0 < Bytes.words)
  | json | proto | bytes => trivial

/-- A status that the handler reports comes back as it was. -/
theorem answer_report (hc : s.codecFor (contentType f.header) = .ok c)
    (ho : out.envelope.codec = c) (hr : Server.request? s f = .ok (envelope, m))
    (he : handler m = .error e) (hf : c = .protoRpc → Fits f e) :
    answer out (Server.respond s handler f) = .error (.rpc e) := by
  have hcar : c.Carries (Server.response (contentType f.header) m (.error e)) :=
    carries_report hc hr hf
  obtain ⟨rfl, -⟩ := Server.request?_inv hc hr
  obtain ⟨g, hw, -, hg⟩ := Envelope.read_write (e := ⟨c, f.header.get? Header.stream⟩) hcar
  have hres : Server.respond s handler f = g := by
    rw [Server.respond, hr]
    simp only [he, hw]
  subst ho
  have hread : decode out (.frame g) = _ := hg out.envelope.stream .response rfl
  rw [hres, answer, hread]
  have herr : (Envelope.received ⟨out.envelope.codec, f.header.get? Header.stream⟩
      (Server.response (contentType f.header) m (.error e)) .response).error = e.text :=
    Envelope.received_error (.inl Status.text_ne_empty)
  show accept _ = _
  rw [accept, herr, if_neg Status.text_ne_empty, Status.parse_text]

/-- A client gets to know the status of a failure at the node exactly when the handler reports it: of
all that the server finds itself, it sees a reply that it cannot read. -/
theorem answer_respond (hc : s.codecFor (contentType f.header) = .ok c)
    (ho : out.envelope.codec = c) (h : Faults s handler f who e) (hf : c = .protoRpc → Fits f e) :
    (answer out (Server.respond s handler f) = .error (.rpc e) ↔ who = .handler) ∧
      (who = .server → ∃ cause, answer out (Server.respond s handler f) = .error (.codec cause)) := by
  have hserver : who = .server →
      ∃ cause, answer out (Server.respond s handler f) = .error (.codec cause) := by
    rintro rfl
    rw [h.refusal]
    exact answer_refusal (h.fallible hc) ho
  refine ⟨⟨fun ha => ?_, ?_⟩, hserver⟩
  · cases who with
    | handler => rfl
    | server =>
      obtain ⟨cause, hx⟩ := hserver rfl
      rw [hx] at ha
      cases ha
  · rintro rfl
    cases h with
    | handled hr he => exact answer_report hc ho hr he hf

/-- The answers to one request: what its handler refuses arrives, and a reply of the handler's that
is no JSON text makes an answer that is none either. -/
theorem answer_respond_asked :
    let f : Frame := ⟨Dict.empty.insert Header.contentType "application/json-rpc",
      Json.objectText (JsonRpc.callFields "1" "A.b" (Bytes.ofString "1"))⟩
    let out : Outgoing := ⟨f, ⟨.jsonRpc, none⟩, 0⟩
    let refused : Status := .notFound "a" "no b"
    answer out (Server.respond {} (fun _ => .error refused) f) = .error (.rpc refused) ∧
      ∃ cause, answer out (Server.respond {} (fun _ => .body (Bytes.ofString "no")) f) =
        .error (.codec cause) := by
  intro f out refused
  have hc : CodecSet.codecFor {} (contentType f.header) = .ok .jsonRpc := by
    have hm : CodecTable.modern.get? "application/json-rpc" = some .jsonRpc := by decide +kernel
    have ht : contentType f.header = "application/json-rpc" := rfl
    have hn : CodecTable.empty.get? "application/json-rpc" = none := rfl
    simp only [CodecSet.codecFor, ht, hn, hm]
  obtain ⟨envelope, m, hr⟩ : ∃ envelope m, Server.request? {} f = .ok (envelope, m) := by
    have hv : JsonRpc.IsText (Bytes.ofString "1") := ⟨rfl, Bytes.isText_ofString⟩
    rw [Server.request?_eq hc, Envelope.read, Codec.unmarshal, JsonRpc.unmarshal_call rfl hv]
    exact ⟨_, _, rfl⟩
  have hw : envelope.write (Server.response (contentType f.header) m (.body (Bytes.ofString "no"))) =
      .error (.codec .notJson) := by
    have hraw : JsonRpc.rawBody (Bytes.ofString "no") = .error .notJson := by
      have hd : Json.document? (Bytes.ofString "no") = none := by decide +kernel
      rw [JsonRpc.rawBody, Bytes.toString?_ofString, hd]
      rfl
    obtain ⟨rfl, -⟩ := Server.request?_inv hc hr
    show ((JsonRpc.marshal _).mapError CallError.codec).bind _ = _
    rw [JsonRpc.marshal]
    show (((JsonRpc.rawBody (Bytes.ofString "no")).bind _).mapError CallError.codec).bind _ = _
    rw [hraw]
    rfl
  have hf : ∀ e, Codec.jsonRpc = .protoRpc → Fits f e := by rintro e ⟨⟩
  have hrefused : Faults {} (fun _ => .error refused) f .handler refused := .handled hr rfl
  have hunwritten : Faults {} (fun _ => .body (Bytes.ofString "no")) f .server _ :=
    .unwritten hr hw
  exact ⟨(answer_respond hc rfl hrefused (hf _)).1.2 rfl,
    (answer_respond hc rfl hunwritten (hf _)).2 rfl⟩

end Switchboard.Client.Exchange
