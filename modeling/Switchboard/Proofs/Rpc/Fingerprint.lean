import Switchboard.Proofs.Bytes
import Switchboard.Rpc.Fingerprint

/-! What is digested of a request tells its service, endpoint and body, and requests with one
fingerprint are alike as far as digests do not collide. -/
namespace Switchboard

/-- Two octet strings of one digest. -/
def Sha256.Collide (a b : Bytes) : Prop := a ≠ b ∧ digest a = digest b

namespace Bytes

variable {a b x y : Bytes} {m n : Nat}

theorem be32_inj (h : be32 m = be32 n) : m % words = n % words := by
  simp only [be32, List.cons.injEq, and_true, ← UInt8.toNat_inj, UInt8.toNat_ofNat'] at h
  unfold words
  omega

theorem be64_inj (hm : m < UInt64.size) (hn : n < UInt64.size) (h : be64 m = be64 n) : m = n := by
  obtain ⟨hhigh, hlow⟩ := List.append_inj h rfl
  have hhigh := be32_inj hhigh
  have hlow := be32_inj hlow
  unfold words at hhigh hlow
  unfold UInt64.size at hm hn
  omega

theorem hexDigit_inj : ∀ m, m < 16 → ∀ n, n < 16 → hexDigit m = hexDigit n → m = n := by decide

theorem toHex_inj (h : toHex a = toHex b) : a = b := by
  have hdigits := String.ofList_injective h
  induction a generalizing b with
  | nil =>
    cases b with
    | nil => rfl
    | cons y b => cases hdigits
  | cons x a ih =>
    cases b with
    | nil => cases hdigits
    | cons y b =>
      simp only [List.flatMap_cons, List.cons_append, List.nil_append, List.cons.injEq] at hdigits
      obtain ⟨hhigh, hlow, hrest⟩ := hdigits
      have hx := x.toNat_lt
      have hy := y.toNat_lt
      have hdiv := hexDigit_inj _ (by omega) _ (by omega) hhigh
      have hmod := hexDigit_inj _ (by omega) _ (by omega) hlow
      have hxy : x = y := UInt8.toNat_inj.1 (by omega)
      rw [hxy, ih (congrArg String.ofList hrest) hrest]

end Bytes

namespace Rpc.Request

variable {r q : Request} {rs : List Request} {a b x y : Bytes}

/-- The length of each part can be told in eight octets. -/
structure Fits (r : Request) : Prop where
  service : (Bytes.ofString r.service).length < UInt64.size
  endpoint : (Bytes.ofString r.endpoint).length < UInt64.size
  body : r.body.length < UInt64.size

/-- Requests that differ at most in what is not asked for. -/
structure Alike (r q : Request) : Prop where
  service : r.service = q.service
  endpoint : r.endpoint = q.endpoint
  body : r.body = q.body

/-- The digests of these requests do not collide. -/
def NoCollision (rs : List Request) : Prop :=
  ∀ r ∈ rs, ∀ q ∈ rs, Sha256.digest r.identity = Sha256.digest q.identity → r.identity = q.identity

/-- A text with its length before it can be told from what follows. -/
theorem lengthPrefixed_append_inj (ha : a.length < UInt64.size) (hb : b.length < UInt64.size)
    (h : lengthPrefixed a ++ x = lengthPrefixed b ++ y) : a = b ∧ x = y := by
  simp only [lengthPrefixed, List.append_assoc] at h
  obtain ⟨hlength, hrest⟩ := List.append_inj h rfl
  exact List.append_inj hrest (Bytes.be64_inj ha hb hlength)

/-- The parts are told apart by their lengths, whatever comes after them. -/
theorem alike_of_identity_append (hr : r.Fits) (hq : q.Fits)
    (h : r.identity ++ x = q.identity ++ y) : r.Alike q ∧ x = y := by
  simp only [identity, List.append_assoc] at h
  obtain ⟨hservice, h⟩ := lengthPrefixed_append_inj hr.service hq.service h
  obtain ⟨hendpoint, h⟩ := lengthPrefixed_append_inj hr.endpoint hq.endpoint h
  obtain ⟨hbody, hrest⟩ := lengthPrefixed_append_inj hr.body hq.body h
  exact ⟨⟨Bytes.ofString_injective hservice, Bytes.ofString_injective hendpoint, hbody⟩, hrest⟩

/-- What is hashed tells requests apart that differ in a field that counts. -/
theorem alike_of_identity (hr : r.Fits) (hq : q.Fits) (h : r.identity = q.identity) :
    r.Alike q := by
  have happend : r.identity ++ [] = q.identity ++ [] := by rw [h]
  exact (alike_of_identity_append hr hq happend).1

theorem Alike.identity (h : r.Alike q) : r.identity = q.identity := by
  rw [Request.identity, h.service, h.endpoint, h.body, Request.identity]

theorem identity_eq_iff (hr : r.Fits) (hq : q.Fits) : r.identity = q.identity ↔ r.Alike q :=
  ⟨alike_of_identity hr hq, Alike.identity⟩

theorem identity_prefix_iff (hr : r.Fits) (hq : q.Fits) :
    r.identity <+: q.identity ↔ r.Alike q := by
  constructor
  · rintro ⟨rest, h⟩
    have happend : r.identity ++ rest = q.identity ++ [] := by rw [h, List.append_nil]
    exact (alike_of_identity_append hr hq happend).1
  · intro h
    exact ⟨[], by rw [h.identity, List.append_nil]⟩

theorem Alike.fingerprint (h : r.Alike q) : r.fingerprint = q.fingerprint := by
  rw [Request.fingerprint, h.identity, Request.fingerprint]

/-- A fingerprint has all the digits of the digest. -/
theorem fingerprint_eq_iff :
    r.fingerprint = q.fingerprint ↔ Sha256.digest r.identity = Sha256.digest q.identity :=
  ⟨Bytes.toHex_inj, congrArg Bytes.toHex⟩

theorem alike_of_fingerprint (hc : NoCollision rs) (hf : ∀ r ∈ rs, r.Fits) (hr : r ∈ rs)
    (hq : q ∈ rs) (h : r.fingerprint = q.fingerprint) : r.Alike q :=
  alike_of_identity (hf r hr) (hf q hq) (hc r hr q hq (fingerprint_eq_iff.1 h))

/-- Fingerprints agree of like requests, and by a collision. -/
theorem fingerprint_eq_iff_alike_or_collide (hr : r.Fits) (hq : q.Fits) :
    r.fingerprint = q.fingerprint ↔ r.Alike q ∨ Sha256.Collide r.identity q.identity := by
  rw [fingerprint_eq_iff, ← identity_eq_iff hr hq]
  constructor
  · intro h
    by_cases he : r.identity = q.identity
    · exact .inl he
    · exact .inr ⟨he, h⟩
  · rintro (he | ⟨-, h⟩)
    · rw [he]
    · exact h

/-- What is digested of one request is not that of another, nor the beginning of it, unless they are
alike; so they have one fingerprint only if they are alike or their digests collide. -/
structure Separated (r q : Request) : Prop where
  identity : r.identity = q.identity ↔ r.Alike q
  begins : r.identity <+: q.identity ↔ r.Alike q
  fingerprint : r.fingerprint = q.fingerprint ↔
    r.Alike q ∨ Sha256.Collide r.identity q.identity
  noCollision : ¬ Sha256.Collide r.identity q.identity →
    (r.fingerprint = q.fingerprint ↔ r.Alike q)
  others : ∀ contentType stream header,
    { r with contentType, stream, header }.fingerprint = r.fingerprint

/-- Requests of any size that can be are told apart by what is hashed. -/
theorem separated_of_fits (hr : r.Fits) (hq : q.Fits) : r.Separated q where
  identity := identity_eq_iff hr hq
  begins := identity_prefix_iff hr hq
  fingerprint := fingerprint_eq_iff_alike_or_collide hr hq
  noCollision hc := by
    rw [fingerprint_eq_iff_alike_or_collide hr hq]
    exact or_iff_left hc
  others contentType stream header := by
    have halike : Alike { r with contentType, stream, header } r := ⟨rfl, rfl, rfl⟩
    exact halike.fingerprint

/-- A letter goes over from the service to the endpoint, and the body looks like a length. -/
theorem separated_of_fits_shifted :
    let r : Request := { service := "ab", endpoint := "c", body := Bytes.be64 0 }
    let q : Request := { service := "a", endpoint := "bc", body := Bytes.be64 0 }
    r.Fits ∧ q.Fits ∧ r.Separated q ∧ r.fingerprint ≠ q.fingerprint := by
  intro r q
  have hr : r.Fits := ⟨by decide, by decide, by decide⟩
  have hq : q.Fits := ⟨by decide, by decide, by decide⟩
  have hseparated : r.Separated q := separated_of_fits hr hq
  have hcollide : ¬ Sha256.Collide r.identity q.identity := by
    rintro ⟨-, h⟩
    revert h
    decide +kernel
  refine ⟨hr, hq, hseparated, fun h => ?_⟩
  have hservice : r.service = q.service := ((hseparated.noCollision hcollide).1 h).service
  revert hservice
  decide

end Rpc.Request
end Switchboard
