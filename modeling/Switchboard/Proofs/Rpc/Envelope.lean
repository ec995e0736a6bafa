import Switchboard.Proofs.Rpc.Codec
import Switchboard.Rpc.Envelope

/-! Messages survive their frames, as far as their codec carries them. -/
namespace Switchboard.Rpc

variable {c : Codec} {e : Envelope} {m k : Message} {h : Dict String} {kind : MessageKind}
  {x v j key : String}

namespace Codec

/-- The messages that a codec writes without loss. -/
def Carries (m : Message) : Codec → Prop
  | jsonRpc => JsonRpc.Keeps m
  | protoRpc =>
    (Bytes.ofString m.id).length < Bytes.words ∧ (Bytes.ofString m.method).length < Bytes.words ∧
      (Bytes.ofString m.error).length < Bytes.words
  | grpc => m.body.length < Bytes.words
  | _ => True

/-- What a codec makes of a message that is read into another one. -/
def restore (m k : Message) : Codec → Message
  | jsonRpc =>
    if JsonRpc.isCall m.kind then { k with id := m.id, method := m.method, body := m.body }
    else { k with id := m.id, error := m.error, body := m.body }
  | protoRpc => { k with id := m.id, method := m.method, error := m.error, body := m.body }
  | _ => { k with body := m.body }

/-- A codec restores what it carries. -/
theorem unmarshal_marshal (hm : c.Carries m) (hk : JsonRpc.isCall k.kind = JsonRpc.isCall m.kind) :
    ∃ data, c.marshal m = .ok data ∧ c.unmarshal data k = (c.restore m k, none) := by
  cases c with
  | jsonRpc =>
    cases (hm : JsonRpc.Keeps m) with
    | text hb hr =>
      cases hc : JsonRpc.isCall m.kind with
      | true =>
        have hw := JsonRpc.marshal_call hc hb
        refine ⟨_, congrArg (Except.mapError CallError.codec) hw, ?_⟩
        rw [unmarshal, JsonRpc.unmarshal_call (hk.trans hc) hb, restore, if_pos hc]
      | false =>
        obtain ⟨he, hn⟩ := hr hc
        have hw := JsonRpc.marshal_reply hc he hb
        refine ⟨_, congrArg (Except.mapError CallError.codec) hw, ?_⟩
        rw [unmarshal, JsonRpc.unmarshal_reply (hk.trans hc) hb hn, restore,
          if_neg (by simp [hc]), he]
    | error hc he hb =>
      have hw := JsonRpc.marshal_error hc he hb
      refine ⟨_, congrArg (Except.mapError CallError.codec) hw, ?_⟩
      rw [unmarshal, JsonRpc.unmarshal_error (hk.trans hc), restore, if_neg (by simp [hc]), hb]
  | protoRpc =>
    obtain ⟨hi, hm, he⟩ := hm
    refine ⟨_, rfl, ?_⟩
    rw [unmarshal, ProtoRpc.unmarshal_marshal hi hm he]
    rfl
  | grpc =>
    refine ⟨_, rfl, ?_⟩
    rw [unmarshal, Grpc.unmarshal_marshal hm]
    rfl
  | json => exact ⟨_, rfl, rfl⟩
  | proto => exact ⟨_, rfl, rfl⟩
  | bytes => exact ⟨_, rfl, rfl⟩

theorem restore_body : (c.restore m k).body = m.body := by
  cases c <;> first | rfl | (simp only [restore]; split <;> rfl)

theorem restore_target : (c.restore m k).target = k.target := by
  cases c <;> first | rfl | (simp only [restore]; split <;> rfl)

theorem restore_endpoint : (c.restore m k).endpoint = k.endpoint := by
  cases c <;> first | rfl | (simp only [restore]; split <;> rfl)

theorem restore_kind : (c.restore m k).kind = k.kind := by
  cases c <;> first | rfl | (simp only [restore]; split <;> rfl)

theorem restore_id : (c.restore m k).id = m.id ∨ (c.restore m k).id = k.id := by
  cases c <;> first
    | exact .inl rfl
    | exact .inr rfl
    | (simp only [restore]; split <;> exact .inl rfl)

theorem restore_method : (c.restore m k).method = m.method ∨ (c.restore m k).method = k.method := by
  cases c with
  | jsonRpc =>
    simp only [restore]
    split
    · exact .inl rfl
    · exact .inr rfl
  | protoRpc => exact .inl rfl
  | _ => exact .inr rfl

theorem restore_error : (c.restore m k).error = m.error ∨ (c.restore m k).error = k.error := by
  cases c with
  | jsonRpc =>
    simp only [restore]
    split
    · exact .inr rfl
    · exact .inl rfl
  | protoRpc => exact .inl rfl
  | _ => exact .inr rfl

end Codec

namespace Header

/-- The keys under which a message speaks of itself. -/
def own : List String := [id, service, method, endpoint, error, stream]

def setAll (h : Dict String) (fs : List (String × String)) : Dict String :=
  fs.foldl (fun h f => set h f.1 f.2) h

theorem get?_set : (set h key v).get? j = if v ≠ "" ∧ key = j then some v else h.get? j := by
  unfold set
  by_cases hv : v = "" <;> simp [hv]

theorem get?_setAll_of_notMem {fs : List (String × String)} (hk : ∀ f ∈ fs, f.1 ≠ key) :
    (setAll h fs).get? key = h.get? key := by
  induction fs generalizing h with
  | nil => rfl
  | cons f fs ih =>
    rw [setAll, List.foldl_cons]
    refine (ih fun g hg => hk g (List.mem_cons_of_mem _ hg)).trans ?_
    rw [get?_set, if_neg fun hf => hk f List.mem_cons_self hf.2]

theorem get?_setAll {fs : List (String × String)} (hd : (fs.map (·.1)).Nodup) (hf : (key, v) ∈ fs) :
    (setAll h fs).get? key = if v = "" then h.get? key else some v := by
  induction fs generalizing h with
  | nil => cases hf
  | cons f fs ih =>
    rw [List.map_cons, List.nodup_cons] at hd
    rw [setAll, List.foldl_cons]
    rcases List.mem_cons.1 hf with rfl | hf
    · have hrest : ∀ g ∈ fs, g.1 ≠ key := by
        intro g hg hgk
        exact hd.1 (List.mem_map.2 ⟨g, hg, hgk⟩)
      refine (get?_setAll_of_notMem hrest).trans ?_
      by_cases hv : v = "" <;> simp [get?_set, hv]
    · refine (ih hd.2 hf).trans ?_
      have hne : f.1 ≠ key := by
        intro hk
        exact hd.1 (List.mem_map.2 ⟨_, hf, hk.symm⟩)
      have hs : (set h f.1 f.2).get? key = h.get? key := by
        rw [get?_set, if_neg fun hk => hne hk.2]
      rw [hs]

theorem length_fill (hv : (Bytes.ofString v).length < Bytes.words)
    (hh : ∀ w ∈ h.values, (Bytes.ofString w).length < Bytes.words) :
    (Bytes.ofString (fill h key v)).length < Bytes.words := by
  unfold fill
  split
  · rw [Dict.getD]
    cases hk : h.get? key with
    | none => exact (by decide : (Bytes.ofString "").length < Bytes.words)
    | some w =>
      have hm : (key, w) ∈ h.entries := Dict.get?_eq_some_iff.1 hk
      exact hh w (List.mem_map.2 ⟨_, hm, rfl⟩)
  · exact hv

end Header

namespace Envelope

/-- What a message says of itself in its headers. -/
def fields (e : Envelope) (m : Message) : List (String × String) :=
  [(Header.id, m.id), (Header.service, m.target), (Header.method, m.method),
    (Header.endpoint, m.endpoint), (Header.error, m.error), (Header.stream, e.stream.getD "")]

theorem header_eq : e.header m = Header.setAll m.header (e.fields m) := rfl

theorem nodup_fields : ((e.fields m).map (·.1)).Nodup := by
  show Header.own.Nodup
  decide

/-- A field that has a text stands in the header under its name. -/
theorem get?_header (hf : (key, v) ∈ e.fields m) :
    (e.header m).get? key = if v = "" then m.header.get? key else some v :=
  Header.get?_setAll nodup_fields hf

theorem get?_header_contentType :
    (e.header m).get? Header.contentType = m.header.get? Header.contentType := by
  rw [header_eq]
  refine Header.get?_setAll_of_notMem fun f hf => ?_
  have : f.1 ∈ (e.fields m).map (·.1) := List.mem_map.2 ⟨f, hf, rfl⟩
  have hne : ∀ k ∈ Header.own, k ≠ Header.contentType := by decide
  exact hne _ this

/-- What a reader takes from the headers, if the body did not say it. -/
theorem fill_header (hf : (key, v) ∈ e.fields m) (hx : x = v ∨ x = "")
    (hv : v ≠ "" ∨ m.header.get? key = none) : Header.fill (e.header m) key x = v := by
  unfold Header.fill
  by_cases h0 : v = ""
  · have hk := hv.resolve_left (absurd h0)
    have hempty : x = "" := by rcases hx with rfl | rfl <;> simp [h0]
    rw [if_pos hempty, Dict.getD, get?_header hf, if_pos h0, hk, h0]
    rfl
  · rcases hx with rfl | rfl
    · rw [if_neg h0]
    · rw [if_pos rfl, Dict.getD, get?_header hf, if_neg h0]
      rfl

/-- What is read of a written message. -/
def received (e : Envelope) (m : Message) (kind : MessageKind) : Message :=
  addHeader (e.header m) (e.codec.restore m { kind })

theorem received_body : (e.received m kind).body = m.body := Codec.restore_body

theorem received_id (h : m.id ≠ "" ∨ m.header.get? Header.id = none) :
    (e.received m kind).id = m.id :=
  fill_header (by simp [fields]) Codec.restore_id h

theorem received_target (h : m.target ≠ "" ∨ m.header.get? Header.service = none) :
    (e.received m kind).target = m.target :=
  fill_header (by simp [fields]) (.inr Codec.restore_target) h

theorem received_method (h : m.method ≠ "" ∨ m.header.get? Header.method = none) :
    (e.received m kind).method = m.method :=
  fill_header (v := m.method) (by simp [fields]) Codec.restore_method h

theorem received_error (h : m.error ≠ "" ∨ m.header.get? Header.error = none) :
    (e.received m kind).error = m.error :=
  fill_header (v := m.error) (by simp [fields]) Codec.restore_error h

theorem received_endpoint (h : m.endpoint ≠ "") : (e.received m kind).endpoint = m.endpoint := by
  have hf :
      Header.fill (e.header m) Header.endpoint (e.codec.restore m { kind }).endpoint =
        m.endpoint :=
    fill_header (v := m.endpoint) (by simp [fields]) (.inr Codec.restore_endpoint) (.inl h)
  show (if Header.fill _ _ _ = "" then _ else Header.fill _ _ _) = _
  rw [hf, if_neg h]

/-- A method would be taken for the endpoint that is missing. -/
theorem received_no_endpoint (h : m.endpoint = "" ∧ m.method = "")
    (hf : ∀ key ∈ Header.own, m.header.get? key = none) : (e.received m kind).endpoint = "" := by
  have hm : (e.received m kind).method = m.method :=
    received_method (.inr (hf _ (by simp [Header.own])))
  have hfill : Header.fill (e.header m) Header.endpoint (e.codec.restore m { kind }).endpoint =
      m.endpoint :=
    fill_header (v := m.endpoint) (by simp [fields]) (.inr Codec.restore_endpoint)
      (.inr (hf _ (by simp [Header.own])))
  show (if Header.fill _ _ _ = "" then (e.received m kind).method else Header.fill _ _ _) = _
  rw [hfill, if_pos h.1, hm, h.2]

/-- The header is the message's own, with the fields that have a text. -/
theorem get?_header_eq_some_iff (hf : ∀ key ∈ Header.own, m.header.get? key = none) :
    (e.header m).get? key = some v ↔
      m.header.get? key = some v ∨ v ≠ "" ∧ (key, v) ∈ e.fields m := by
  have hown : ∀ f ∈ e.fields m, m.header.get? f.1 = none := by
    intro f hm
    exact hf _ (List.mem_map.2 ⟨f, hm, rfl⟩ : f.1 ∈ (e.fields m).map (·.1))
  constructor
  · intro h
    by_cases hk : ∃ f ∈ e.fields m, f.1 = key
    · obtain ⟨⟨_, w⟩, hw, rfl⟩ := hk
      rw [get?_header hw, hown _ hw] at h
      split at h
      · cases h
      · rename_i hne
        cases h
        exact .inr ⟨hne, hw⟩
    · rw [header_eq, Header.get?_setAll_of_notMem fun f hm hk' => hk ⟨f, hm, hk'⟩] at h
      exact .inl h
  · rintro (h | ⟨hne, hv⟩)
    · have hn : ∀ f ∈ e.fields m, f.1 ≠ key := by
        rintro f hm rfl
        rw [hown f hm] at h
        cases h
      rw [header_eq, Header.get?_setAll_of_notMem hn, h]
    · rw [get?_header hv, if_neg hne]

/-- What is written is read by any envelope of the codec. -/
theorem read_write (hm : e.codec.Carries m) : ∃ f, e.write m = .ok f ∧ f.header = e.header m ∧
    ∀ st kind, JsonRpc.isCall kind = JsonRpc.isCall m.kind →
      Envelope.read ⟨e.codec, st⟩ f kind = .ok (e.received m kind) := by
  obtain ⟨data, hw, -⟩ := Codec.unmarshal_marshal (k := m) hm rfl
  refine ⟨⟨e.header m, data⟩, ?_, rfl, ?_⟩
  · rw [write, hw]
    rfl
  · intro st kind hk
    obtain ⟨data', hw', hr⟩ := Codec.unmarshal_marshal (k := { kind }) hm hk
    cases hw.symm.trans hw'
    rw [read, hr]
    rfl

/-- A message with no fields of its own in its header arrives as it was sent. -/
theorem received_eq (hf : ∀ key ∈ Header.own, m.header.get? key = none)
    (he : m.endpoint ≠ "" ∨ m.method = "") :
    e.received m m.kind = { m with header := e.header m } := by
  let r := e.received m m.kind
  have hid : r.id = m.id := received_id (.inr (hf _ (by simp [Header.own])))
  have htarget : r.target = m.target :=
    received_target (.inr (hf _ (by simp [Header.own])))
  have hmethod : r.method = m.method :=
    received_method (.inr (hf _ (by simp [Header.own])))
  have herror : r.error = m.error :=
    received_error (.inr (hf _ (by simp [Header.own])))
  have hendpoint : r.endpoint = m.endpoint := by
    by_cases h : m.endpoint = ""
    · rw [h, received_no_endpoint ⟨h, he.resolve_left (absurd h)⟩ hf]
    · exact received_endpoint h
  have hkind : r.kind = m.kind := Codec.restore_kind
  show (⟨r.id, r.target, r.method, r.endpoint, r.error, e.header m, r.body, r.kind⟩ : Message) = _
  rw [hid, htarget, hmethod, hendpoint, herror, hkind, received_body]

/-- A message comes out of its frame as it went in, and its header has got all of its fields that
are not empty: provided that it had none of them before, and no method is taken for an endpoint. -/
theorem read_write_eq (e : Envelope) (m : Message) (hm : e.codec.Carries m)
    (hf : ∀ key ∈ Header.own, m.header.get? key = none) (he : m.endpoint ≠ "" ∨ m.method = "") :
    ∃ f, e.write m = .ok f ∧
      (∀ st, Envelope.read ⟨e.codec, st⟩ f m.kind = .ok { m with header := f.header }) ∧
      ∀ key v, f.header.get? key = some v ↔
        m.header.get? key = some v ∨ v ≠ "" ∧ (key, v) ∈ e.fields m := by
  obtain ⟨f, hw, hh, hr⟩ := read_write hm
  refine ⟨f, hw, fun st => ?_, fun key v => ?_⟩
  · rw [hr st m.kind rfl, received_eq hf he, hh]
  · rw [hh, get?_header_eq_some_iff hf]

theorem read_write_eq_error_reply :
    let m : Message :=
      { id := "7", method := "A.b", endpoint := "A.b", error := "no \"b\"", kind := .error }
    ∃ f, Envelope.write ⟨.jsonRpc, some "s"⟩ m = .ok f ∧
      Envelope.read ⟨.jsonRpc, none⟩ f .error = .ok { m with header := f.header } ∧
      f.header.get? Header.stream = some "s" := by
  intro m
  have hm : Codec.Carries m .jsonRpc := JsonRpc.Keeps.error rfl (by decide) rfl
  obtain ⟨f, hw, hr, hh⟩ :=
    read_write_eq ⟨.jsonRpc, some "s"⟩ m hm (fun _ _ => rfl) (.inl (by decide))
  exact ⟨f, hw, hr none, (hh _ _).2 (.inr ⟨by decide, by simp [fields]⟩)⟩

end Envelope
end Switchboard.Rpc
