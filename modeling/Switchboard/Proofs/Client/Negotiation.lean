import Switchboard.Client.Exchange
import Switchboard.Proofs.Rpc.Server

/-! Whether a client and a node read each other's frames. -/
namespace Switchboard.Client.Exchange

open Discovery (Node)
open Json (document?)
open Rpc CodecSet

variable {s : CodecSet} {n : Node} {t : String} {c d : Codec} {r : Request} {h : Dict String}
  {timeout : Duration} {a : Agreement} {seq : UInt64} {out : Outgoing} {b : Bytes} {e : Envelope}
  {rs : List (String × Codec)} {handler : Handler}

/-- The built-in tables, with codecs registered one after the other. -/
def registered (rs : List (String × Codec)) : CodecSet :=
  rs.foldl (fun s r => s.register r.1 r.2) {}

/-- The bodies that a codec carries, with the name of the endpoint that they are for. -/
def CarriesBody (endpoint : String) (b : Bytes) : Codec → Prop
  | .jsonRpc => document? b = some b ∧ (Bytes.toString? b).isSome ∧ b ≠ Bytes.ofString "null"
  | .protoRpc => (Bytes.ofString endpoint).length < Bytes.words
  | .grpc => b.length < Bytes.words
  | _ => True

/-- The handler is asked what the client asks, and the client reads what the handler replies. -/
def GetsThrough (s : CodecSet) (r : Request) (out : Outgoing) : Prop :=
  ∃ envelope m, Server.request? s out.frame = .ok (envelope, m) ∧
    m.target = r.service ∧ m.endpoint = r.endpoint ∧ m.body = r.body ∧
    ∀ handler b, handler m = .body b → CarriesBody r.endpoint b out.envelope.codec →
      ∃ reply, decode out (.frame (Server.respond s handler out.frame)) = .ok reply ∧
        reply.body = b ∧ reply.error = ""

/-- Every complete request of content type `t` gets through to the node and back. -/
def Agrees (s : CodecSet) (n : Node) (t : String) : Prop :=
  ∀ seq r h timeout a, r.contentType = t → r.service ≠ "" → r.endpoint ≠ "" →
    agree s r n h timeout = .ok a → CarriesBody r.endpoint r.body a.envelope.codec →
    ∃ out, (outgoing s seq r n h timeout).2 = .ok out ∧ GetsThrough s r out

/-- The node names a protocol, or its own codec for the type that it is told is the client's. -/
def Aligned (s : CodecSet) (n : Node) (t : String) : Prop :=
  hasProtocol n = true ∨ ∀ c, s.legacy.get? (legacyType t) = some c →
    s.codecFor (legacyType t) = .ok c

theorem contentType_insert {x : String} :
    contentType ((h.insert Header.contentType t).insert Header.timeout x) = t := by
  have hne : Header.timeout ≠ Header.contentType := by decide
  simp [contentType, Dict.getD, hne]

/-- What is agreed on is the codec of the content type, or the legacy one for a node that names no
protocol. -/
theorem agree_eq_ok (ha : agree s r n h timeout = .ok a) : ∃ c, s.codecFor r.contentType = .ok c ∧
    a.envelope.stream = none ∧
    a.header.get? Header.contentType =
      some (if hasProtocol n then r.contentType else legacyType r.contentType) ∧
    a.envelope.codec =
      if hasProtocol n then c else (s.legacy.get? (legacyType r.contentType)).getD c := by
  simp only [agree, negotiate, contentType_insert, bind, Except.bind, pure, Except.pure] at ha
  cases hc : s.codecFor r.contentType with
  | error e =>
    rw [hc] at ha
    cases ha
  | ok c =>
    rw [hc] at ha
    refine ⟨c, rfl, ?_⟩
    by_cases hp : hasProtocol n = true
    · simp only [hp, if_true] at ha ⊢
      cases ha
      simp
    · simp only [hp] at ha ⊢
      cases ha
      simp

theorem legacyType_of_none (h : CodecTable.legacy.get? (legacyType t) = none) :
    legacyType t = t := by
  have hj : CodecTable.legacy.get? "application/json-rpc" = some .jsonRpc := by decide +kernel
  have hp : CodecTable.legacy.get? "application/proto-rpc" = some .protoRpc := by decide +kernel
  unfold legacyType at *
  split at h
  · rw [hj] at h
    cases h
  · split at h
    · rw [hp] at h
      cases h
    · simp_all

/-- Aligned sides come to the same codec. -/
theorem codecFor_of_aligned (hs : s.legacy = .legacy) (ha : Aligned s n t)
    (hc : s.codecFor t = .ok c) :
    s.codecFor (if hasProtocol n then t else legacyType t) =
      .ok (if hasProtocol n then c else (s.legacy.get? (legacyType t)).getD c) := by
  by_cases hp : hasProtocol n = true
  · simp only [hp, if_true, hc]
  · simp only [hp]
    rw [if_neg Bool.false_ne_true, if_neg Bool.false_ne_true]
    cases hl : s.legacy.get? (legacyType t) with
    | some d => exact (ha.resolve_left hp) d hl
    | none => rw [legacyType_of_none (hs ▸ hl), hc, Option.getD_none]

/-- A codec that can carry the body can carry the message made of it. -/
theorem carries_message (hb : CarriesBody r.endpoint r.body c) : c.Carries (message seq r h) := by
  cases c with
  | jsonRpc =>
    obtain ⟨hd, ht, -⟩ := hb
    exact JsonRpc.Keeps.text ⟨Json.document?_eq_self_iff.1 hd, ht⟩ fun hk => by cases hk
  | protoRpc => exact ⟨Bytes.length_ofString_toString seq, hb, Nat.zero_lt_succ _⟩
  | grpc => exact hb
  | json | proto | bytes => trivial

/-- The message that a handler is asked with. -/
theorem request?_write {e : Envelope} {m : Message} {f : Frame} (hm : e.codec.Carries m)
    (hw : e.write m = .ok f) (hk : m.kind = .request)
    (ht : m.header.get? Header.contentType = some t) (hc : s.codecFor t = .ok e.codec) :
    Server.request? s f = .ok (⟨e.codec, f.header.get? Header.stream⟩, e.received m .request) := by
  obtain ⟨f', hw', hh, hr⟩ := Envelope.read_write hm
  cases hw.symm.trans hw'
  have hf : contentType f.header = t := by
    rw [contentType, Dict.getD, hh, Envelope.get?_header_contentType, ht]
    rfl
  rw [Server.request?_eq (by rw [hf, hc]), hr _ .request (by rw [hk])]
  rfl

/-- The reply to a request that the handler was asked. -/
theorem respond_body {f : Frame} {envelope : Envelope} {m : Message}
    (hr : Server.request? s f = .ok (envelope, m)) (hb : handler m = .body b)
    (hf : f.header.get? Header.contentType = some t)
    (hc : envelope.codec.Carries (Server.response t m (.body b))) :
    envelope.write (Server.response t m (.body b)) = .ok (Server.respond s handler f) := by
  obtain ⟨reply, hw, -⟩ := Envelope.read_write hc
  have ht : contentType f.header = t := by
    rw [contentType, Dict.getD, hf]
    rfl
  rw [Server.respond, hr]
  simp only [hb, ht, hw]

theorem carries_response {m : Message} (hi : m.id = toString seq.toNat) (hm : m.method = r.endpoint)
    (hb : CarriesBody r.endpoint b c) : c.Carries (Server.response t m (.body b)) := by
  cases c with
  | jsonRpc =>
    obtain ⟨hd, ht, hn⟩ := hb
    exact JsonRpc.Keeps.text ⟨Json.document?_eq_self_iff.1 hd, ht⟩ fun _ => ⟨rfl, hn⟩
  | protoRpc =>
    refine ⟨?_, ?_, Nat.zero_lt_succ _⟩
    · show (Bytes.ofString m.id).length < _
      rw [hi]
      exact Bytes.length_ofString_toString seq
    · show (Bytes.ofString m.method).length < _
      rw [hm]
      exact hb
  | grpc => exact hb
  | json | proto | bytes => trivial

/-- A request gets through to a node that has the client's codec for it. -/
theorem getsThrough (seq : UInt64) (timeout : Duration) (hc : s.codecFor t = .ok a.envelope.codec)
    (ht : a.header.get? Header.contentType = some t) (hs : r.service ≠ "") (he : r.endpoint ≠ "")
    (hb : CarriesBody r.endpoint r.body a.envelope.codec) :
    ∃ f, a.envelope.write (message seq r a.header) = .ok f ∧
      GetsThrough s r ⟨f, a.envelope, timeout⟩ := by
  have hcar : a.envelope.codec.Carries (message seq r a.header) := carries_message hb
  obtain ⟨f, hw, hh, -⟩ := Envelope.read_write hcar
  have hreq := request?_write hcar hw rfl ht hc
  refine ⟨f, hw, _, _, hreq, Envelope.received_target (.inl hs), Envelope.received_endpoint he,
    Envelope.received_body, ?_⟩
  intro handler b hbody hcb
  -- the answer is written with the codec that the request was read with
  have hct : f.header.get? Header.contentType = some t := by
    rw [hh, Envelope.get?_header_contentType]
    exact ht
  have hid : (a.envelope.received (message seq r a.header) .request).id = toString seq.toNat :=
    Envelope.received_id (.inl Bytes.toString_ne_empty)
  have hmethod : (a.envelope.received (message seq r a.header) .request).method = r.endpoint :=
    Envelope.received_method (.inl he)
  have hres := carries_response (t := t) hid hmethod hcb
  have hrep := respond_body hreq hbody hct hres
  obtain ⟨f', hw', -, hread⟩ := Envelope.read_write
    (e := ⟨a.envelope.codec, f.header.get? Header.stream⟩) hres
  cases hw'.symm.trans hrep
  refine ⟨_, hread a.envelope.stream .response rfl, Envelope.received_body,
    Envelope.received_error (.inr ?_)⟩
  have hne : Header.contentType ≠ Header.error := by decide
  show (Dict.empty.insert Header.contentType t).get? Header.error = none
  rw [Dict.get?_insert, if_neg hne, Dict.get?_empty]

/-- Where the codecs are aligned, every request gets through. -/
theorem agrees_of_aligned (hl : s.legacy = .legacy) (ha : Aligned s n t) : Agrees s n t := by
  intro seq r h timeout a hr hs he hag hb
  obtain ⟨c, hc, -, hct, hcodec⟩ := agree_eq_ok hag
  subst hr
  have hserver := codecFor_of_aligned hl ha hc
  rw [← hcodec] at hserver
  obtain ⟨f, hw, hf⟩ := getsThrough seq timeout hserver hct hs he hb
  refine ⟨⟨f, a.envelope, timeout⟩, ?_, hf⟩
  simp [outgoing, hag, hw, Except.map]

/-! A node that takes the type for another codec than the client's does not understand a word. -/

/-- A request that every codec carries. -/
def probe (t : String) : Request :=
  { service := "s", endpoint := "e", body := Bytes.ofString "1", contentType := t }

def written (c : Codec) : Bytes := (c.marshal (message 0 (probe "") .empty)).toOption.getD []

/-- A probe is written in each of the two enveloping codecs in its own way. -/
theorem marshal_probe (hc : c = .jsonRpc ∨ c = .protoRpc) :
    c.marshal (message 0 (probe t) h) = .ok (written c) := by
  rcases hc with rfl | rfl
  · have ht : JsonRpc.IsText (Bytes.ofString "1") := ⟨rfl, Bytes.isText_ofString⟩
    have hw : ∀ t h, Codec.jsonRpc.marshal (message 0 (probe t) h) =
        .ok (Json.objectText
          (JsonRpc.callFields (toString (0 : UInt64).toNat) "e" (Bytes.ofString "1"))) :=
      fun t h => congrArg (Except.mapError CallError.codec) (JsonRpc.marshal_call rfl ht)
    rw [written, hw, hw]
    rfl
  · rfl

theorem carries_probe (hc : c = .jsonRpc ∨ c = .protoRpc) :
    CarriesBody "e" (Bytes.ofString "1") c := by
  rcases hc with rfl | rfl
  · exact ⟨rfl, Bytes.isText_ofString, by decide⟩
  · show (Bytes.ofString "e").length < Bytes.words
    decide

theorem probe_complete : (probe t).service ≠ "" ∧ (probe t).endpoint ≠ "" :=
  (by decide : "s" ≠ "" ∧ "e" ≠ "")

/-- No codec reads the probe of another one as the request that was sent. -/
theorem misread : ∀ c ∈ [Codec.jsonRpc, .protoRpc], ∀ d ∈ Codec.all, d ≠ c →
    (d.unmarshal (written c) { kind := .request }).2 = none →
      (d.unmarshal (written c) { kind := .request }).1.body ≠ (probe "").body := by
  decide +kernel

theorem legacy_entries : ∀ p ∈ CodecTable.legacy.codecs.entries,
    (p.2 = .jsonRpc ∨ p.2 = .protoRpc) ∧ (CodecTable.modern.get? p.1).isSome := by
  decide +kernel

theorem codecFor_of_modern (hm : s.modern = .modern) (ht : (CodecTable.modern.get? t).isSome) :
    ∃ c, s.codecFor t = .ok c := by
  obtain ⟨c, hc⟩ := Option.isSome_iff_exists.1 ht
  unfold codecFor
  cases s.custom.get? t with
  | some d => exact ⟨d, rfl⟩
  | none => exact ⟨c, by rw [hm, hc]⟩

/-- A client agrees on every content type that it has a codec for. -/
theorem exists_agree (hc : s.codecFor r.contentType = .ok c) :
    ∃ a, agree s r n h timeout = .ok a := by
  simp only [agree, negotiate, contentType_insert, hc, bind, Except.bind, pure, Except.pure]
  split
  · rename_i h
    split at h <;> cases h
  · exact ⟨_, rfl⟩

theorem request?_body {f : Frame} {envelope : Envelope} {m : Message}
    (hd : s.codecFor (contentType f.header) = .ok d)
    (hr : Server.request? s f = .ok (envelope, m)) :
    ∃ k, d.unmarshal f.body { kind := .request } = (k, none) ∧ m.body = k.body := by
  obtain ⟨-, k, hk, rfl⟩ := Server.request?_inv hd hr
  exact ⟨k, hk, rfl⟩

theorem not_getsThrough (hc : c = .jsonRpc ∨ c = .protoRpc) {f : Frame} (hb : f.body = written c)
    (hd : s.codecFor (contentType f.header) = .ok d) (hne : d ≠ c) :
    ¬ GetsThrough s (probe t) ⟨f, e, timeout⟩ := by
  rintro ⟨envelope, m, hreq, -, -, hbody, -⟩
  obtain ⟨k, hk, hm⟩ := request?_body hd hreq
  have hmis := misread c (by simpa using hc) d (by cases d <;> decide) hne
  rw [← hb, hk] at hmis
  exact hmis rfl (hm.symm.trans hbody)

theorem isSome_of_legacyType (h : (CodecTable.modern.get? (legacyType t)).isSome) :
    (CodecTable.modern.get? t).isSome := by
  unfold legacyType at h
  split at h
  · rename_i ht
    rw [ht]
    decide +kernel
  · split at h
    · rename_i ht
      rw [ht]
      decide +kernel
    · exact h

/-- If all requests get through, the codecs are aligned: the probe tells. -/
theorem aligned_of_agrees (hl : s.legacy = .legacy) (hm : s.modern = .modern) (h : Agrees s n t) :
    Aligned s n t := by
  by_cases hp : hasProtocol n = true
  · exact .inl hp
  refine .inr ?_
  intro c hc
  obtain ⟨hcc, hmod⟩ := legacy_entries _ (Dict.get?_eq_some_iff.1 (hl ▸ hc))
  obtain ⟨d, hd⟩ := codecFor_of_modern hm hmod
  by_cases hdc : d = c
  · rwa [← hdc]
  exfalso
  -- The probe goes out by one codec and is read by the other.
  obtain ⟨c₀, hc₀⟩ := codecFor_of_modern (t := t) hm (isSome_of_legacyType hmod)
  obtain ⟨a, ha⟩ : ∃ a, agree s (probe t) n .empty 0 = .ok a := exists_agree hc₀
  obtain ⟨_, -, -, hct, hcodec⟩ := agree_eq_ok ha
  rw [if_neg hp] at hct hcodec
  have hcodec : a.envelope.codec = c := by rw [hcodec]; exact (congrArg (Option.getD · _) hc)
  have hcar : CarriesBody (probe t).endpoint (probe t).body a.envelope.codec := by
    rw [hcodec]
    exact carries_probe hcc
  obtain ⟨out, hout, hthrough⟩ :=
    h 0 (probe t) .empty 0 a rfl probe_complete.1 probe_complete.2 ha hcar
  have hw : a.envelope.write (message 0 (probe t) a.header) =
      .ok ⟨a.envelope.header (message 0 (probe t) a.header), written c⟩ := by
    rw [Envelope.write, hcodec, marshal_probe hcc]
    rfl
  simp only [outgoing, ha, hw, Except.map] at hout
  cases hout
  have hf : contentType (a.envelope.header (message 0 (probe t) a.header)) = legacyType t := by
    rw [contentType, Dict.getD, Envelope.get?_header_contentType]
    show (a.header.get? Header.contentType).getD _ = _
    rw [hct]
    rfl
  refine not_getsThrough hcc rfl ?_ hdc hthrough
  show s.codecFor (contentType (a.envelope.header _)) = _
  rw [hf]
  exact hd

theorem registered_tables (rs : List (String × Codec)) :
    (registered rs).modern = .modern ∧ (registered rs).legacy = .legacy := by
  have h : ∀ s : CodecSet, s.modern = .modern ∧ s.legacy = .legacy →
      let s' := rs.foldl (fun s r => s.register r.1 r.2) s
      s'.modern = .modern ∧ s'.legacy = .legacy := by
    induction rs with
    | nil =>
      intro _ h
      exact h
    | cons r rs ih =>
      intro s h
      exact ih (s.register r.1 r.2) h
  exact h {} ⟨rfl, rfl⟩

/-- To a node that names no protocol, octets go in an envelope under a name that promises none: it
takes a registration to be understood. -/
theorem aligned_octetStream_iff (hp : hasProtocol n = false) :
    Aligned (registered rs) n "application/octet-stream" ↔
      (registered rs).custom.get? "application/octet-stream" = some .protoRpc := by
  obtain ⟨hm, hl⟩ := registered_tables rs
  have ht : legacyType "application/octet-stream" = "application/octet-stream" := by decide
  have hc : CodecTable.legacy.get? "application/octet-stream" = some .protoRpc := by decide +kernel
  have hb : CodecTable.modern.get? "application/octet-stream" = some .bytes := by decide +kernel
  simp only [Aligned, hp, ht, hl, hc, codecFor, hm, hb]
  cases (registered rs).custom.get? "application/octet-stream" <;> simp

/-- A client and a node read each other exactly when the node names a protocol, or the codec that
the client takes for the node's type is also the one that is registered for it. -/
theorem agrees_iff_aligned (rs : List (String × Codec)) (n : Node) (t : String) :
    Agrees (registered rs) n t ↔ Aligned (registered rs) n t := by
  obtain ⟨hm, hl⟩ := registered_tables rs
  exact ⟨aligned_of_agrees hl hm, agrees_of_aligned hl⟩

end Switchboard.Client.Exchange
