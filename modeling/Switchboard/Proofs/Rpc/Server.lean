import Switchboard.Proofs.Rpc.Envelope
import Switchboard.Rpc.Server

/-! What a server finds wrong with a request, and where a codec can be the reason. -/
namespace Switchboard.Rpc

open CodecSet

variable {s : CodecSet} {handler : Handler} {f : Frame} {c : Codec} {e : Status} {x : CallError}
  {m k : Message} {envelope : Envelope} {b : Bytes}

namespace Codec

/-- Whether there are bodies that it cannot read. -/
def Fallible (c : Codec) : Prop := c = .jsonRpc ∨ c = .protoRpc ∨ c = .grpc

theorem fallible_of_unmarshal (h : c.unmarshal b k = (m, some x)) : c.Fallible := by
  cases c with
  | jsonRpc => exact .inl rfl
  | protoRpc => exact .inr (.inl rfl)
  | grpc => exact .inr (.inr rfl)
  | json | proto | bytes => cases h

theorem fallible_of_marshal (h : c.marshal m = .error x) : c.Fallible := by
  cases c with
  | jsonRpc => exact .inl rfl
  | protoRpc => exact .inr (.inl rfl)
  | grpc => exact .inr (.inr rfl)
  | json | proto | bytes => cases h

/-- An empty body is one of those. -/
theorem Fallible.unmarshal_nil (h : c.Fallible) (hk : k.kind = .response) :
    ∃ cause, c.unmarshal [] k = (k, some (.codec cause)) := by
  rcases h with rfl | rfl | rfl
  · refine ⟨.notJson, ?_⟩
    rw [Codec.unmarshal, JsonRpc.unmarshal, hk]
    rfl
  · exact ⟨.truncatedEnvelope, rfl⟩
  · exact ⟨.shortMessage, rfl⟩

end Codec

namespace Server

/-- Who finds fault with a request. -/
inductive Party
  | handler
  | server
deriving DecidableEq

/-- The faults that are found with the request in a frame, and what is to be reported of them: the
handler has an error to tell, or the server cannot read the request or cannot write the reply. -/
inductive Faults (s : CodecSet) (handler : Handler) (f : Frame) : Party → Status → Prop
  | handled {envelope : Envelope} {m : Message} {e : Status}
      (hr : request? s f = .ok (envelope, m)) (he : handler m = .error e) :
      Faults s handler f .handler e
  | unread {x : CallError} (hr : request? s f = .error x) :
      Faults s handler f .server (.badRequest name x.message)
  | unwritten {envelope : Envelope} {m : Message} {x : CallError}
      (hr : request? s f = .ok (envelope, m))
      (hw : envelope.write (response (contentType f.header) m (handler m)) = .error x) :
      Faults s handler f .server (.internalServerError name x.message)

theorem request?_eq (hc : s.codecFor (contentType f.header) = .ok c) :
    request? s f = (Envelope.read ⟨c, f.header.get? Header.stream⟩ f .request).map
      (Prod.mk ⟨c, f.header.get? Header.stream⟩) := by
  rw [request?, hc]
  rfl

/-- A request that was read was read by the codec of its content type. -/
theorem request?_inv (hc : s.codecFor (contentType f.header) = .ok c)
    (hr : request? s f = .ok (envelope, m)) :
    envelope = ⟨c, f.header.get? Header.stream⟩ ∧
      ∃ k, c.unmarshal f.body { kind := .request } = (k, none) ∧
        m = Envelope.addHeader f.header k := by
  rw [request?_eq hc, Envelope.read] at hr
  split at hr
  · cases hr
  · rename_i k hk
    cases hr
    exact ⟨rfl, k, hk, rfl⟩

theorem fallible_of_unread (hc : s.codecFor (contentType f.header) = .ok c)
    (hr : request? s f = .error x) : c.Fallible := by
  rw [request?_eq hc, Envelope.read] at hr
  split at hr
  · rename_i hu
    exact Codec.fallible_of_unmarshal hu
  · cases hr

theorem fallible_of_unwritten (hc : s.codecFor (contentType f.header) = .ok c)
    (hr : request? s f = .ok (envelope, m)) (hw : envelope.write k = .error x) : c.Fallible := by
  obtain ⟨rfl, -⟩ := request?_inv hc hr
  cases hm : c.marshal k with
  | error y => exact Codec.fallible_of_marshal hm
  | ok b =>
    rw [Envelope.write, hm] at hw
    cases hw

/-- What the server finds itself, it reports without a body. -/
theorem Faults.refusal (h : Faults s handler f .server e) :
    respond s handler f = Server.refusal (contentType f.header) e := by
  cases h with
  | unread hr => rw [respond, hr]
  | unwritten hr hw =>
    rw [respond, hr]
    dsimp only
    rw [hw]

/-- A server faults only by a codec that can fail. -/
theorem Faults.fallible (h : Faults s handler f .server e)
    (hc : s.codecFor (contentType f.header) = .ok c) : c.Fallible := by
  cases h with
  | unread hr => exact fallible_of_unread hc hr
  | unwritten hr hw => exact fallible_of_unwritten hc hr hw

/-- No text of the frame or of the status is too long for a length prefix. -/
def Fits (f : Frame) (e : Status) : Prop :=
  ∀ v ∈ e.text :: f.header.values, (Bytes.ofString v).length < Bytes.words

theorem Fits.response (hf : Fits f e) (hc : s.codecFor (contentType f.header) = .ok .protoRpc)
    (hr : request? s f = .ok (envelope, m)) {t : String} :
    Codec.protoRpc.Carries (response t m (.error e)) := by
  obtain ⟨-, k, hk, rfl⟩ := request?_inv hc hr
  replace hk : ((ProtoRpc.unmarshal f.body _).1, (ProtoRpc.unmarshal f.body _).2.map
    CallError.codec) = (k, none) := hk
  obtain ⟨hfst, hsnd⟩ := Prod.mk.inj hk
  have hread : ProtoRpc.unmarshal f.body { kind := .request } = (k, none) :=
    Prod.ext hfst (Option.map_eq_none_iff.1 hsnd)
  obtain ⟨hi, hm⟩ := ProtoRpc.length_unmarshal hread
  have hh : ∀ v ∈ f.header.values, (Bytes.ofString v).length < Bytes.words :=
    fun v hv => hf v (List.mem_cons_of_mem _ hv)
  exact ⟨Header.length_fill hi hh, Header.length_fill hm hh, hf _ List.mem_cons_self⟩

end Server
end Switchboard.Rpc
