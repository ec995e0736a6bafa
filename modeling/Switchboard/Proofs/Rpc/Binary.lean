import Switchboard.Proofs.Rpc.Codec

/-! The octets of binary envelopes: those that are written are read, and no others. -/
namespace Switchboard.Rpc

variable {m k : Message} {s : String} {b f r data : Bytes}

/-! Counted texts. -/

namespace ProtoRpc

/-- A length in four octets, most significant first, and that many octets of text. -/
inductive Counted (s : String) : Bytes → Prop
  | mk (w x y z : UInt8) (h : Bytes.word32 w x y z = (Bytes.ofString s).length) :
    Counted s (w :: x :: y :: z :: Bytes.ofString s)

/-- Three counted texts and a body behind them. -/
inductive Layout (id method error : String) (body : Bytes) : Bytes → Prop
  | mk {i m e : Bytes} (hi : Counted id i) (hm : Counted method m) (he : Counted error e) :
    Layout id method error body (i ++ (m ++ (e ++ body)))

theorem Counted.take (h : Counted s f) : take (f ++ r) = .ok (s, r) := by
  cases h with
  | mk w x y z h => exact take_octets h

theorem Counted.eq_put (h : Counted s f) : f = put s := by
  cases h with
  | mk w x y z h =>
    rw [put, ← h, Bytes.be32_word32]
    rfl

theorem exists_counted (h : ProtoRpc.take b = .ok (s, r)) : ∃ f, Counted s f ∧ b = f ++ r := by
  unfold ProtoRpc.take at h
  split at h
  · rename_i w x y z q
    dsimp only at h
    split at h
    · cases h
    · rename_i hlen
      split at h
      · rename_i t ht
        cases h
        have hs := Bytes.ofString_of_toString? ht
        refine ⟨_, .mk w x y z ?_, ?_⟩
        · rw [hs, List.length_take]
          omega
        · rw [hs, List.cons_append, List.cons_append, List.cons_append, List.cons_append,
            List.take_append_drop]
      · cases h
  · cases h

theorem Layout.unmarshal {id method error : String} {body : Bytes}
    (h : Layout id method error body data) :
    unmarshal data k = ({ k with id, method, error, body }, none) := by
  cases h with
  | mk hi hm he => exact unmarshal_of_take hi.take hm.take he.take

theorem Layout.eq_marshal (h : Layout m.id m.method m.error m.body data) : data = marshal m := by
  cases h with
  | mk hi hm he =>
    rw [hi.eq_put, hm.eq_put, he.eq_put, marshal, List.append_assoc, List.append_assoc]

/-- What is decoded was laid out as it is encoded. -/
theorem layout_of_unmarshal (h : ProtoRpc.unmarshal data k = (m, none)) :
    Layout m.id m.method m.error m.body data := by
  rw [ProtoRpc.unmarshal] at h
  split at h
  · cases h
  · rename_i hi
    dsimp only at h
    split at h
    · cases h
    · rename_i hm
      split at h
      · cases h
      · rename_i he
        cases h
        obtain ⟨i, hid, rfl⟩ := exists_counted hi
        obtain ⟨j, hmethod, rfl⟩ := exists_counted hm
        obtain ⟨e, herror, rfl⟩ := exists_counted he
        exact .mk hid hmethod herror

end ProtoRpc

/-! A flag, a length and a body. -/

namespace Grpc

/-- A zero, a length in four octets and at least so many more, of which the first are the body. -/
inductive Layout (body : Bytes) : Bytes → Prop
  | mk (w x y z : UInt8) (rest : Bytes) (h : Bytes.word32 w x y z = body.length) :
    Layout body (0 :: w :: x :: y :: z :: (body ++ rest))

theorem Layout.unmarshal (h : Layout b data) : unmarshal data = .ok b := by
  cases h with
  | mk w x y z rest h =>
    simp only [Grpc.unmarshal, h]
    rw [if_neg (by simp), if_neg (by simp), List.take_left]

theorem layout_take {w x y z : UInt8} (h : Bytes.word32 w x y z ≤ r.length) :
    Layout (r.take (Bytes.word32 w x y z)) (0 :: w :: x :: y :: z :: r) := by
  have hlayout : Layout (r.take (Bytes.word32 w x y z)) (0 :: w :: x :: y :: z ::
      (r.take (Bytes.word32 w x y z) ++ r.drop (Bytes.word32 w x y z))) := by
    refine .mk w x y z _ ?_
    rw [List.length_take]
    omega
  rwa [List.take_append_drop] at hlayout

theorem layout_of_unmarshal (h : Grpc.unmarshal data = .ok b) : Layout b data := by
  unfold Grpc.unmarshal at h
  split at h
  · rename_i flag w x y z r
    split at h
    · cases h
    · rename_i hflag
      dsimp only at h
      split at h
      · cases h
      · rename_i hlen
        cases h
        obtain rfl : flag = 0 := Classical.not_not.1 hflag
        exact layout_take (Nat.not_lt.1 hlen)
  · cases h

theorem unmarshal_eq_ok_iff : Grpc.unmarshal data = .ok b ↔ Layout b data :=
  ⟨layout_of_unmarshal, fun h => h.unmarshal⟩

/-- The octets that are read: at least five, the first of them zero, and as many behind the five as
the others say. -/
theorem exists_layout_iff : (∃ b, Layout b data) ↔
    ∃ w x y z r, data = 0 :: w :: x :: y :: z :: r ∧ Bytes.word32 w x y z ≤ r.length := by
  constructor
  · rintro ⟨b, ⟨w, x, y, z, rest, h⟩⟩
    refine ⟨w, x, y, z, b ++ rest, rfl, ?_⟩
    rw [h, List.length_append]
    omega
  · rintro ⟨w, x, y, z, r, rfl, h⟩
    exact ⟨_, layout_take h⟩

theorem length_marshal : (marshal b).length = 5 + b.length := by
  simp only [marshal, Bytes.be32, List.length_append, List.length_cons, List.length_nil]

/-- What begins as a message does is as long as the message at least. -/
theorem Layout.length_le (h : Layout f r) (hp : r <+: marshal b)
    (hb : b.length < Bytes.words) : (marshal b).length ≤ r.length := by
  cases h with
  | mk w x y z rest h =>
    obtain ⟨t, ht⟩ := hp
    simp only [marshal, Bytes.be32, List.cons_append, List.cons.injEq] at ht
    obtain ⟨-, rfl, rfl, rfl, rfl, -⟩ := ht
    rw [Bytes.word32_be32 hb] at h
    rw [length_marshal]
    simp only [List.length_cons, List.length_append]
    omega

end Grpc

namespace Codec

/-- What is written with counted texts, and what is read of octets that come for a message `k`. -/
structure Counts (m k : Message) (data : Bytes) : Prop where
  restored : (Bytes.ofString m.id).length < Bytes.words →
    (Bytes.ofString m.method).length < Bytes.words →
    (Bytes.ofString m.error).length < Bytes.words →
      ∃ b, protoRpc.marshal m = .ok b ∧ protoRpc.unmarshal b k =
        ({ k with id := m.id, method := m.method, error := m.error, body := m.body }, none)
  rewritten : protoRpc.unmarshal data k = (m, none) → protoRpc.marshal m = .ok data
  accepted : ∀ id method error body,
    protoRpc.unmarshal data k = ({ k with id, method, error, body }, none) ↔
      ProtoRpc.Layout id method error body data
  refused : (¬ ∃ id method error body, ProtoRpc.Layout id method error body data) →
    ∃ e, (protoRpc.unmarshal data k).2 = some e

/-- What is written with a flag and a length, and what is read of octets that come for a message. -/
structure Prefixes (m k : Message) (data : Bytes) : Prop where
  restored : m.body.length < Bytes.words → ∃ b, grpc.marshal m = .ok b ∧
    grpc.unmarshal b k = ({ k with body := m.body }, none) ∧
    ∀ p, p <+: b → p ≠ b → ∃ e, (grpc.unmarshal p k).2 = some e
  read : ∀ body, grpc.unmarshal data k = ({ k with body }, none) ↔ Grpc.Layout body data
  accepted : (grpc.unmarshal data k).2 = none ↔
    ∃ w x y z r, data = 0 :: w :: x :: y :: z :: r ∧ Bytes.word32 w x y z ≤ r.length

theorem unmarshal_protoRpc_iff :
    protoRpc.unmarshal data k = (m, none) ↔ ProtoRpc.unmarshal data k = (m, none) := by
  simp only [Codec.unmarshal, Option.map_eq_none_iff, Prod.ext_iff]

theorem counts (m k : Message) (data : Bytes) : Counts m k data where
  restored hi hm he := by
    refine ⟨_, rfl, unmarshal_protoRpc_iff.2 ?_⟩
    exact ProtoRpc.unmarshal_marshal hi hm he
  rewritten h := by
    have hlayout := ProtoRpc.layout_of_unmarshal (unmarshal_protoRpc_iff.1 h)
    rw [hlayout.eq_marshal]
    rfl
  accepted id method error body := by
    rw [unmarshal_protoRpc_iff]
    constructor
    · intro h
      exact ProtoRpc.layout_of_unmarshal h
    · intro h
      exact h.unmarshal
  refused h := by
    refine Option.ne_none_iff_exists'.1 ?_
    intro hnone
    have hread : protoRpc.unmarshal data k = ((protoRpc.unmarshal data k).1, none) :=
      Prod.ext rfl hnone
    exact h ⟨_, _, _, _, ProtoRpc.layout_of_unmarshal (unmarshal_protoRpc_iff.1 hread)⟩

theorem unmarshal_grpc_iff :
    grpc.unmarshal data k = ({ k with body := b }, none) ↔ Grpc.unmarshal data = .ok b := by
  rw [Codec.unmarshal]
  cases Grpc.unmarshal data with
  | ok c => simp
  | error e => simp

theorem unmarshal_grpc_none_iff :
    (grpc.unmarshal data k).2 = none ↔ ∃ b, Grpc.unmarshal data = .ok b := by
  rw [Codec.unmarshal]
  cases Grpc.unmarshal data with
  | ok c => simp
  | error e => simp

theorem prefixes (m k : Message) (data : Bytes) : Prefixes m k data where
  restored h := by
    refine ⟨_, rfl, unmarshal_grpc_iff.2 (Grpc.unmarshal_marshal h), ?_⟩
    intro p hp hne
    refine Option.ne_none_iff_exists'.1 ?_
    intro hnone
    obtain ⟨b, hb⟩ := unmarshal_grpc_none_iff.1 hnone
    have hlen := (Grpc.unmarshal_eq_ok_iff.1 hb).length_le hp h
    exact hne (hp.eq_of_length_le hlen)
  read body := unmarshal_grpc_iff.trans Grpc.unmarshal_eq_ok_iff
  accepted := by
    rw [unmarshal_grpc_none_iff, ← Grpc.exists_layout_iff]
    simp only [Grpc.unmarshal_eq_ok_iff]

/-- What the binary codecs write, and what they read of any octets, exactly. -/
theorem binary_exact (m k : Message) (data : Bytes) : Counts m k data ∧ Prefixes m k data :=
  ⟨counts m k data, prefixes m k data⟩

end Codec
end Switchboard.Rpc
