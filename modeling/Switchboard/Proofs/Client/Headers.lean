import Switchboard.Client
import Switchboard.Client.Metrics
import Switchboard.Client.Tracing
import Switchboard.Proofs.Client.Negotiation
import Switchboard.Proofs.Json.TextMap

/-! The header of a frame that an attempt sends: what the client says itself, and what it passes on
of the context, the request and the wrappers. -/
namespace Switchboard

namespace Dict

variable {α : Type} {d e : Dict α} {k : String}

theorem nodup_keys (d : Dict α) : (d.entries.map (·.1)).Nodup := by
  rw [List.Nodup, List.pairwise_map]
  refine d.sorted.imp ?_
  intro a b hlt he
  exact String.lt_irrefl a.1 (he ▸ hlt)

/-- Headers that are added win over those there before. -/
theorem get?_union : (d.union e).get? k = (e.get? k).or (d.get? k) := by
  apply Option.ext
  intro v
  rw [union, get?_foldl_insert (nodup_keys e), ← get?_eq_some_iff]
  have hkeys : k ∉ e.entries.map (·.1) ↔ e.get? k = none := by
    constructor
    · intro hk
      refine Option.eq_none_iff_forall_ne_some.2 fun w hw => hk ?_
      exact List.mem_map.2 ⟨_, get?_eq_some_iff.1 hw, rfl⟩
    · intro hk hmem
      obtain ⟨⟨_, w⟩, hw, rfl⟩ := List.mem_map.1 hmem
      rw [get?_eq_some_iff.2 hw] at hk
      cases hk
  rw [hkeys]
  cases e.get? k <;> simp

/-- Of maps put into one after the other, the last one that has a key tells its value. -/
theorem get?_foldl_union {ds : List (Dict α)} :
    (ds.foldl union d).get? k = (ds.reverse.findSome? (·.get? k)).or (d.get? k) := by
  induction ds generalizing d with
  | nil => rfl
  | cons e ds ih =>
    rw [List.foldl_cons, ih, get?_union, List.reverse_cons, List.findSome?_append, Option.or_assoc]
    simp

end Dict

namespace Client

open Discovery (Node)
open Rpc

variable {σ : Type} {ws : Chain σ} {w : Wrapper σ} {now : Instant} {info info' : AttemptInfo}
  {s s' : σ} {adds : List (Dict String)}

/-- A wrapper that puts headers in, and takes none out. -/
def Wrapper.Inserts (w : Wrapper σ) : Prop :=
  ∀ now info s, ∃ add : Dict String, (w.onRequest now info s).2.1.headers = info.headers.union add

/-- What the wrappers of a chain put into the headers, one after the other. -/
inductive Chain.Adds (now : Instant) : Chain σ → AttemptInfo → σ → List (Dict String) →
    AttemptInfo → Prop
  | nil (info : AttemptInfo) (s : σ) : Adds now [] info s [] info
  | cons (w : Wrapper σ) (ws : Chain σ) (info info' info'' : AttemptInfo) (s s' : σ)
    (add : Dict String) (adds : List (Dict String))
    (hw : w.onRequest now info s = (s', info', .ok ()))
    (ha : info'.headers = info.headers.union add) (h : Adds now ws info' s' adds info'') :
    Adds now (w :: ws) info s (add :: adds) info''

theorem Wrapper.inserts_logging : (logging : Wrapper σ).Inserts :=
  fun _ _ _ => ⟨.empty, rfl⟩

theorem Wrapper.inserts_metrics (get : σ → Metrics) (put : Metrics → σ → σ) :
    (metrics get put).Inserts :=
  fun _ _ _ => ⟨.empty, rfl⟩

theorem Wrapper.inserts_tracing (fresh : σ → σ × String × String) : (tracing fresh).Inserts := by
  intro now info s
  exact ⟨Dict.empty.insert TraceContext.headerName
    (TraceContext.continued info.headers (fresh s).2.1 (fresh s).2.2).text, rfl⟩

/-- A pass of the wrappers that none refuses adds a header map for each. -/
theorem Chain.exists_adds (hw : ∀ w ∈ ws, Wrapper.Inserts w)
    (h : ws.onRequest now info s = (s', info', .ok ())) :
    ∃ adds, Chain.Adds now ws info s adds info' := by
  induction ws generalizing info s with
  | nil =>
    cases h
    exact ⟨[], .nil _ _⟩
  | cons w ws ih =>
    obtain ⟨hfirst, hrest⟩ := List.forall_mem_cons.1 hw
    obtain ⟨add, hadd⟩ := hfirst now info s
    rw [Chain.onRequest] at h
    split at h
    · rename_i s₁ info₁ hone
      rw [hone] at hadd
      obtain ⟨adds, hadds⟩ := ih hrest h
      exact ⟨add :: adds, .cons w ws info info₁ info' s s₁ add adds hone hadd hadds⟩
    · cases h

/-- The headers are those of the request and what the wrappers added, in their order. -/
theorem Chain.Adds.headers (h : Chain.Adds now ws info s adds info') :
    info'.headers = adds.foldl Dict.union info.headers := by
  induction h with
  | nil => rfl
  | cons w ws info info' info'' s s' add adds hw ha h ih => rw [ih, ha, List.foldl_cons]

/-- The headers that a client does not pass on but says itself. -/
def reserved : List String :=
  [Header.id, Header.service, Header.method, Header.endpoint, Header.contentType, Header.timeout]

/-- What the frame of a unary attempt says in its header, when this was given for it. -/
structure Heads (call : Call) (now : Instant) (n : Node) (id : UInt64)
    (given h : Dict String) : Prop where
  id : h.get? Header.id = some (toString id.toNat)
  service : call.request.service ≠ "" → h.get? Header.service = some call.request.service
  method : call.request.endpoint ≠ "" → h.get? Header.method = some call.request.endpoint
  endpoint : call.request.endpoint ≠ "" → h.get? Header.endpoint = some call.request.endpoint
  contentType : h.get? Header.contentType = some
    (if CodecSet.hasProtocol n then call.request.contentType
      else CodecSet.legacyType call.request.contentType)
  unlimited : call.context.deadline = none →
    h.get? Header.timeout = some (toString call.options.requestTimeout)
  limited : ∀ t, call.context.deadline = some t →
    h.get? Header.timeout = some (toString (min (t - now) call.options.requestTimeout))
  others : ∀ key, key ∉ reserved → h.get? key = given.get? key

namespace Exchange

variable {codecs : CodecSet} {r : Request} {n : Node} {h : Dict String} {timeout : Duration}
  {a : Agreement} {seq id : UInt64} {out : Outgoing} {key : String}

/-- The content type and the timeout are set last, whatever the caller wrote there. -/
theorem agree_header (ha : agree codecs r n h timeout = .ok a) : a.envelope.stream = none ∧
    a.header = ((h.insert Header.contentType r.contentType).insert Header.timeout
      (toString timeout)).insert Header.contentType
        (if CodecSet.hasProtocol n then r.contentType else CodecSet.legacyType r.contentType) := by
  simp only [agree, CodecSet.negotiate, contentType_insert, bind, Except.bind, pure,
    Except.pure] at ha
  cases hc : codecs.codecFor r.contentType with
  | error e =>
    rw [hc] at ha
    cases ha
  | ok c =>
    rw [hc] at ha
    by_cases hp : CodecSet.hasProtocol n = true
    · simp only [hp, if_true] at ha ⊢
      cases ha
      exact ⟨rfl, rfl⟩
    · simp only [hp] at ha ⊢
      cases ha
      exact ⟨rfl, rfl⟩

/-- A message takes the number after the one given, and the header agreed on. -/
theorem outgoing_eq_ok (ho : outgoing codecs id r n h timeout = (seq, .ok out)) :
    seq = id + 1 ∧ ∃ a, agree codecs r n h timeout = .ok a ∧
      out.frame.header = a.envelope.header (message id r a.header) := by
  unfold outgoing at ho
  split at ho
  · cases ho
  · rename_i a ha
    obtain ⟨rfl, hout⟩ := Prod.mk.inj ho
    refine ⟨rfl, a, ha, ?_⟩
    cases hm : a.envelope.codec.marshal (message id r a.header) with
    | error e =>
      simp only [Envelope.write, hm] at hout
      cases hout
    | ok body =>
      simp only [Envelope.write, hm] at hout
      cases hout
      rfl

theorem seq_outgoing {x : Except CallError Outgoing}
    (ho : outgoing codecs id r n h timeout = (seq, x)) : seq = id ∨ seq = id + 1 := by
  unfold outgoing at ho
  split at ho
  · exact .inl (Prod.mk.inj ho).1.symm
  · exact .inr (Prod.mk.inj ho).1.symm

/-- The envelope of a request says nothing under other keys than these. -/
theorem get?_header_message {e : Envelope} (hs : e.stream = none)
    (hk : key ∉ [Header.id, Header.service, Header.method, Header.endpoint]) :
    (e.header (message id r h)).get? key = h.get? key := by
  by_cases herror : key = Header.error
  · rw [Envelope.get?_header (v := "") (by simp [Envelope.fields, message, herror]), if_pos rfl]
    rfl
  by_cases hstream : key = Header.stream
  · rw [Envelope.get?_header (v := "") (by simp [Envelope.fields, hs, hstream]), if_pos rfl]
    rfl
  rw [Envelope.header_eq, Header.get?_setAll_of_notMem]
  · rfl
  · intro f hf hfk
    subst hfk
    have hown : f.1 ∈ Header.own := List.mem_map.2 ⟨f, hf, rfl⟩
    simp only [Header.own, List.mem_cons, List.not_mem_nil, or_false] at hown hk
    grind

/-- Reserved headers have the client's values, all others those of the attempt. -/
theorem heads_outgoing {call : Call} {now : Instant} (ho : outgoing codecs id call.request n h
      (Exchange.timeout call.context now call.options) = (seq, .ok out)) :
    Heads call now n id h out.frame.header := by
  obtain ⟨-, a, ha, hheader⟩ := outgoing_eq_ok ho
  obtain ⟨hstream, hagreed⟩ := agree_header ha
  rw [hheader]
  have own (k v : String) (hv : v ≠ "")
      (hf : (k, v) ∈ a.envelope.fields (message id call.request a.header)) :
      (a.envelope.header (message id call.request a.header)).get? k = some v := by
    rw [Envelope.get?_header hf, if_neg hv]
  have htimeout : (a.envelope.header (message id call.request a.header)).get? Header.timeout =
      some (toString (Exchange.timeout call.context now call.options)) := by
    rw [get?_header_message hstream (by decide), hagreed]
    have hne : Header.contentType ≠ Header.timeout := by decide
    simp [hne]
  exact {
    id := own _ _ Bytes.toString_ne_empty (by simp [Envelope.fields, message])
    service := fun hs => own _ _ hs (by simp [Envelope.fields, message])
    method := fun he => own _ _ he (by simp [Envelope.fields, message])
    endpoint := fun he => own _ _ he (by simp [Envelope.fields, message])
    contentType := by
      rw [get?_header_message hstream (by decide), hagreed, Dict.get?_insert_self]
    unlimited := by
      intro hd
      simp only [htimeout, Exchange.timeout, Context.remaining, hd, Option.map_none]
    limited := by
      intro t hd
      simp only [htimeout, Exchange.timeout, Context.remaining, hd, Option.map_some]
    others := by
      intro key hk
      simp only [reserved, List.mem_cons, List.not_mem_nil, or_false, not_or] at hk
      obtain ⟨hid, hservice, hmethod, hendpoint, htype, htime⟩ := hk
      rw [get?_header_message hstream (by simp [hid, hservice, hmethod, hendpoint]), hagreed]
      simp [Ne.symm htype, Ne.symm htime] }

end Exchange
end Client
end Switchboard
