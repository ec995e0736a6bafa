import Switchboard.Proofs.Bytes
import Switchboard.Proofs.Json.TextMap
import Switchboard.Transport.Framing

/-! What is sent is what is received, in whatever pieces it arrives and wherever it is cut off. -/
namespace Switchboard.Transport

open Rpc (Frame)

variable {s : List Bytes} {b h r : Bytes} {w x y z : UInt8} {d : Draft} {ds : List Draft} {m n : Nat}
  {header : Dict String}

/-! Octets off the front of a stream. -/

theorem takeExact_of_le (h : n ≤ s.flatten.length) :
    ∃ s', takeExact n s = (some (s.flatten.take n), s') ∧ s'.flatten = s.flatten.drop n := by
  induction s generalizing n with
  | nil =>
    have hn : n = 0 := by simpa using h
    subst hn
    exact ⟨[], rfl, rfl⟩
  | cons p ps ih =>
    rw [List.flatten_cons, List.length_append] at h
    unfold takeExact
    by_cases hp : n ≤ p.length
    · refine ⟨p.drop n :: ps, ?_, ?_⟩
      · simp [hp, List.take_append_of_le_length]
      · simp [List.drop_append_of_le_length, hp]
    · obtain ⟨s', hs', hr⟩ := ih (n := n - p.length) (by omega)
      refine ⟨s', ?_, ?_⟩
      · have ht : p.take n = p := List.take_of_length_le (by omega)
        simp [hp, hs', List.take_append, ht]
      · have ht : p.drop n = [] := List.drop_of_length_le (by omega)
        simp [hr, List.drop_append, ht]

theorem takeExact_append (h : s.flatten = b ++ r) :
    ∃ s', takeExact b.length s = (some b, s') ∧ s'.flatten = r := by
  have hle : b.length ≤ s.flatten.length := by
    rw [h, List.length_append]
    omega
  obtain ⟨s', hs', hr⟩ := takeExact_of_le hle
  rw [h, List.take_left] at hs'
  rw [h, List.drop_left] at hr
  exact ⟨s', hs', hr⟩

theorem takeExact_of_lt (h : s.flatten.length < n) : takeExact n s = (none, []) := by
  induction s generalizing n with
  | nil =>
    have hn : n ≠ 0 := by
      intro h0
      simp [h0] at h
    simp [takeExact, hn]
  | cons p ps ih =>
    rw [List.flatten_cons, List.length_append] at h
    have hp : ¬ n ≤ p.length := by omega
    have hps := ih (n := n - p.length) (by omega)
    simp [takeExact, hp, hps]

/-! Blocks. -/

/-- A block behind its length. -/
def prefixed (b : Bytes) : Bytes := Bytes.be32 b.length ++ b

theorem length_prefixed : (prefixed b).length = 4 + b.length := List.length_append

theorem block_of_le (hb : b.length ≤ maxBlock) : block b = .ok (prefixed b) :=
  if_neg (Nat.not_lt.2 hb)

theorem takeBlock_tooLarge (hs : s.flatten = w :: x :: y :: z :: r)
    (hn : maxBlock < Bytes.word32 w x y z) :
    ∃ s', takeBlock s = (.error (.frame (.tooLarge (Bytes.word32 w x y z))), s') ∧
      s'.flatten = r := by
  obtain ⟨s', hs', hr⟩ := takeExact_append (b := [w, x, y, z]) hs
  refine ⟨s', ?_, hr⟩
  change takeExact 4 s = _ at hs'
  simp only [takeBlock, hs', if_pos hn]

/-- Behind the length of a block that is not too long, the block is taken, or the stream ends. -/
theorem takeBlock_of_length (hb : b.length ≤ maxBlock)
    (hs : s.flatten = Bytes.be32 b.length ++ r) :
    ∃ s', s'.flatten = r ∧
      (∀ q t, takeExact b.length s' = (some q, t) → takeBlock s = (.ok q, t)) ∧
      ∀ t, takeExact b.length s' = (none, t) → takeBlock s = (.error cut, t) := by
  have hw : b.length < Bytes.words := Nat.lt_of_le_of_lt hb (by decide)
  obtain ⟨s', hs', hr⟩ := takeExact_append (b := Bytes.be32 b.length) hs
  change takeExact 4 s = _ at hs'
  refine ⟨s', hr, ?_, ?_⟩
  · intro q t ht
    simp only [takeBlock, hs', Bytes.be32, Bytes.word32_be32 hw, if_neg (Nat.not_lt.2 hb), ht]
  · intro t ht
    simp only [takeBlock, hs', Bytes.be32, Bytes.word32_be32 hw, if_neg (Nat.not_lt.2 hb), ht]

theorem takeBlock_prefixed (hb : b.length ≤ maxBlock) (hs : s.flatten = prefixed b ++ r) :
    ∃ s', takeBlock s = (.ok b, s') ∧ s'.flatten = r := by
  rw [prefixed, List.append_assoc] at hs
  obtain ⟨s', hr, hok, -⟩ := takeBlock_of_length hb hs
  obtain ⟨s'', hs'', hr'⟩ := takeExact_append hr
  exact ⟨s'', hok b s'' hs'', hr'⟩

/-- A stream that ends within the length of a block or within the block. -/
theorem takeBlock_cut (hb : b.length ≤ maxBlock) (hs : s.flatten <+: prefixed b)
    (hlt : s.flatten.length < (prefixed b).length) : (takeBlock s).1 = .error .closed := by
  by_cases h4 : s.flatten.length < 4
  · simp only [takeBlock, takeExact_of_lt h4]
    rfl
  · have hle : (Bytes.be32 b.length).length ≤ s.flatten.length := Nat.not_lt.1 h4
    obtain ⟨q, hq⟩ := List.prefix_of_prefix_length_le (List.prefix_append _ b) hs hle
    obtain ⟨s', hr, -, hcut⟩ := takeBlock_of_length hb hq.symm
    have hlen : s'.flatten.length < b.length := by
      rw [length_prefixed, ← hq, List.length_append, ← hr] at hlt
      change 4 + _ < _ at hlt
      omega
    rw [hcut [] (takeExact_of_lt hlen)]
    rfl

/-! Frames. -/

/-- Neither block is too long. -/
def Draft.Fits (d : Draft) : Prop :=
  d.headerBlock.length ≤ maxBlock ∧ d.frame.body.length ≤ maxBlock

theorem Draft.Fits.send (hd : d.Fits) :
    d.send = (prefixed d.headerBlock ++ prefixed d.frame.body, .ok ()) := by
  simp only [Draft.send, block_of_le hd.1, block_of_le hd.2]

theorem parseAs?_headerBlock (d : Draft) :
    Json.parseAs? Json.textMap d.headerBlock = some d.frame.header := Json.parseAs?_textMap d.perm

theorem receive_of_error {e : Error} (h : (takeBlock s).1 = .error e) :
    (receive s).1 = .error e := by
  unfold receive
  split
  · rename_i hb
    rw [hb] at h
    cases h
    rfl
  · rename_i hb
    rw [hb] at h
    cases h

/-- Behind a header block that can be read, the body is taken. -/
theorem receive_of_header (hh : h.length ≤ maxBlock) (hp : Json.parseAs? Json.textMap h = some header)
    (hs : s.flatten = prefixed h ++ r) :
    ∃ s', s'.flatten = r ∧
      (∀ q t, takeBlock s' = (.ok q, t) → receive s = (.ok ⟨header, q⟩, t)) ∧
      ∀ e t, takeBlock s' = (.error e, t) → receive s = (.error e, t) := by
  obtain ⟨s', hs', hr⟩ := takeBlock_prefixed hh hs
  refine ⟨s', hr, ?_, ?_⟩
  · intro q t ht
    simp only [receive, hs', hp, ht]
  · intro e t ht
    simp only [receive, hs', hp, ht]

theorem receive_send (hd : d.Fits) (hs : s.flatten = d.send.1 ++ r) :
    ∃ s', receive s = (.ok d.frame, s') ∧ s'.flatten = r := by
  rw [hd.send, List.append_assoc] at hs
  obtain ⟨s', hr, hok, -⟩ := receive_of_header hd.1 (parseAs?_headerBlock d) hs
  obtain ⟨s'', hs'', hr'⟩ := takeBlock_prefixed hd.2 hr
  exact ⟨s'', hok _ s'' hs'', hr'⟩

/-- A stream that ends within a frame, wherever that is. -/
theorem receive_cut (hd : d.Fits) (hs : s.flatten <+: d.send.1)
    (hlt : s.flatten.length < d.send.1.length) : (receive s).1 = .error .closed := by
  rw [hd.send] at hs hlt
  by_cases hh : s.flatten.length < (prefixed d.headerBlock).length
  · apply receive_of_error
    apply takeBlock_cut hd.1 _ hh
    exact List.prefix_of_prefix_length_le hs (List.prefix_append _ _) (Nat.le_of_lt hh)
  · obtain ⟨q, hq⟩ := List.prefix_of_prefix_length_le (List.prefix_append _ _) hs (Nat.not_lt.1 hh)
    obtain ⟨s', hr, -, herror⟩ := receive_of_header hd.1 (parseAs?_headerBlock d) hq.symm
    have hpre : s'.flatten <+: prefixed d.frame.body := by
      rw [← hq, List.prefix_append_right_inj] at hs
      exact hr ▸ hs
    have hlen : s'.flatten.length < (prefixed d.frame.body).length := by
      rw [← hq, hr.symm, List.length_append, List.length_append] at hlt
      omega
    have hcut : takeBlock s' = (.error .closed, (takeBlock s').2) :=
      Prod.ext (takeBlock_cut hd.2 hpre hlen) rfl
    rw [herror _ _ hcut]

/-- What the sends of a sequence of frames put on the stream. -/
def stream (ds : List Draft) : Bytes := ds.flatMap fun d => d.send.1

theorem stream_cons : stream (d :: ds) = d.send.1 ++ stream ds := rfl

/-- A frame that is received comes before all that is received behind it. -/
theorem receiveFrom_of_ok {f : Frame} {s' : List Bytes} (h : receive s = (.ok f, s')) :
    receiveFrom (n + 1) s = (f :: (receiveFrom n s').1, (receiveFrom n s').2) := by
  simp only [receiveFrom, h]

theorem receiveFrom_of_error {e : Error} (h : (receive s).1 = .error e) :
    receiveFrom (n + 1) s = ([], e) := by
  unfold receiveFrom
  split
  · rename_i hr
    rw [hr] at h
    cases h
    rfl
  · rename_i hr
    rw [hr] at h
    cases h

/-- As many frames come out as are complete, then the end of the stream is noticed. -/
theorem receiveFrom_take (hd : ∀ d ∈ ds, d.Fits) (hs : s.flatten = (stream ds).take m)
    (hn : ds.length < n) :
    ∃ k ≤ ds.length, receiveFrom n s = ((ds.take k).map Draft.frame, .closed) ∧
      ∀ i ≤ ds.length, (stream (ds.take i)).length ≤ m ↔ i ≤ k := by
  induction ds generalizing s m n with
  | nil =>
    obtain ⟨n, rfl⟩ : ∃ j, n = j + 1 := ⟨n - 1, by omega⟩
    have hnil : s.flatten = [] := by simpa [stream] using hs
    have he : (receive s).1 = .error .closed := by
      apply receive_of_error
      simp only [takeBlock, takeExact_of_lt (n := 4) (s := s) (by simp [hnil])]
      rfl
    refine ⟨0, Nat.le_refl _, receiveFrom_of_error he, ?_⟩
    intro i hi
    have h0 : i = 0 := Nat.le_zero.1 hi
    simp [h0, stream]
  | cons d ds ih =>
    obtain ⟨n, rfl⟩ : ∃ j, n = j + 1 := ⟨n - 1, by omega⟩
    have hfits := hd d List.mem_cons_self
    rw [stream_cons] at hs
    -- The cut comes after the first frame, or within it.
    by_cases hm : d.send.1.length ≤ m
    · rw [List.take_append, List.take_of_length_le hm] at hs
      obtain ⟨s', hs', hr⟩ := receive_send hfits hs
      rw [List.length_cons] at hn
      obtain ⟨k, hk, hk', hi⟩ :=
        ih (fun d hd' => hd d (List.mem_cons_of_mem _ hd')) hr (n := n) (by omega)
      refine ⟨k + 1, by simpa using hk, ?_, ?_⟩
      · rw [receiveFrom_of_ok hs', hk']
        rfl
      · intro i hle
        cases i with
        | zero => simp [stream]
        | succ i =>
          have := hi i (by simpa using hle)
          rw [List.take_succ_cons, stream_cons, List.length_append]
          omega
    · have hlt : m < d.send.1.length := Nat.not_le.1 hm
      rw [List.take_append_of_le_length (Nat.le_of_lt hlt)] at hs
      have hpre : s.flatten <+: d.send.1 := hs ▸ List.take_prefix _ _
      have hlen : s.flatten.length < d.send.1.length := by
        rw [hs, List.length_take]
        omega
      refine ⟨0, Nat.zero_le _, receiveFrom_of_error (receive_cut hfits hpre hlen), ?_⟩
      intro i hle
      cases i with
      | zero => simp [stream]
      | succ i =>
        rw [List.take_succ_cons, stream_cons, List.length_append]
        omega

theorem receiveFrom_stream (hd : ∀ d ∈ ds, d.Fits) (hs : s.flatten = stream ds)
    (hn : ds.length < n) : receiveFrom n s = (ds.map Draft.frame, .closed) := by
  have htake : s.flatten = (stream ds).take (stream ds).length := by rw [List.take_length, hs]
  obtain ⟨k, hk, hr, hi⟩ := receiveFrom_take hd htake hn
  have hall : ds.length ≤ k := by
    have := hi ds.length (Nat.le_refl _)
    rw [List.take_length] at this
    omega
  rw [hr, List.take_of_length_le hall]

theorem receive_tooLarge (hn : maxBlock < Bytes.word32 w x y z)
    (hs : s.flatten = w :: x :: y :: z :: r ∨
      ∃ h header, h.length ≤ maxBlock ∧ Json.parseAs? Json.textMap h = some header ∧
        s.flatten = prefixed h ++ w :: x :: y :: z :: r) :
    ∃ s', receive s = (.error (.frame (.tooLarge (Bytes.word32 w x y z))), s') ∧
      s'.flatten = r := by
  rcases hs with hs | ⟨h, header, hh, hp, hs⟩
  · obtain ⟨s', ht, hr⟩ := takeBlock_tooLarge hs hn
    refine ⟨s', ?_, hr⟩
    simp only [receive, ht]
  · obtain ⟨s', hr, -, herror⟩ := receive_of_header hh hp hs
    obtain ⟨s'', ht', hr'⟩ := takeBlock_tooLarge hr hn
    exact ⟨s'', herror _ s'' ht', hr'⟩

/-- Frames that are not too long come out of the stream as they went in, each leaving what is behind
it, in whatever order their headers are written and in whatever pieces the stream arrives. Of a stream
that is cut off the complete frames come out, then it counts as closed. A length that is too long, of
a header or of a body, is refused with the block unread. -/
theorem received_as_sent (ds : List Draft) (hd : ∀ d ∈ ds, d.Fits) :
    (∀ d ∈ ds, d.send.2 = .ok ()) ∧
    (∀ d ∈ ds, ∀ s r, s.flatten = d.send.1 ++ r →
      ∃ s', receive s = (.ok d.frame, s') ∧ s'.flatten = r) ∧
    (∀ s n, s.flatten = stream ds → ds.length < n →
      receiveFrom n s = (ds.map Draft.frame, .closed)) ∧
    (∀ s m n, s.flatten = (stream ds).take m → m < (stream ds).length → ds.length < n →
      ∃ k < ds.length, receiveFrom n s = ((ds.take k).map Draft.frame, .closed) ∧
        ∀ i ≤ ds.length, (stream (ds.take i)).length ≤ m ↔ i ≤ k) ∧
    ∀ s w x y z r, maxBlock < Bytes.word32 w x y z →
      (s.flatten = w :: x :: y :: z :: r ∨
        ∃ h header, h.length ≤ maxBlock ∧ Json.parseAs? Json.textMap h = some header ∧
          s.flatten = prefixed h ++ w :: x :: y :: z :: r) →
      ∃ s', receive s = (.error (.frame (.tooLarge (Bytes.word32 w x y z))), s') ∧
        s'.flatten = r := by
  refine ⟨?_, ?_, ?_, ?_, ?_⟩
  · intro d hm
    rw [(hd d hm).send]
  · intro d hm s r hs
    exact receive_send (hd d hm) hs
  · intro s n hs hn
    exact receiveFrom_stream hd hs hn
  · intro s m n hs hm hn
    obtain ⟨k, hk, hr, hi⟩ := receiveFrom_take hd hs hn
    have hne : ¬ ds.length ≤ k := by
      intro hle
      have := (hi ds.length (Nat.le_refl _)).2 hle
      rw [List.take_length] at this
      omega
    exact ⟨k, by omega, hr, hi⟩
  · intro s w x y z r hn hs
    exact receive_tooLarge hn hs

/-- The second of two frames is cut off within its first length. -/
theorem received_as_sent_cut :
    let d : Draft := ⟨⟨.ofList [("a", "\"é\n"), ("b", "")], [1, 2]⟩, [("b", ""), ("a", "\"é\n")],
      by decide⟩
    let e : Draft := .ofFrame ⟨.empty, []⟩
    (∀ f ∈ [d, e], f.Fits) ∧
      receiveFrom 3 [d.send.1.take 7, d.send.1.drop 7 ++ [0], [0]] = ([d.frame], .closed) := by
  intro d e
  have hfits : ∀ f ∈ [d, e], f.Fits := by
    intro f hf
    simp only [List.mem_cons, List.not_mem_nil, or_false] at hf
    rcases hf with rfl | rfl
    · exact ⟨by decide, by decide⟩
    · exact ⟨by decide, by decide⟩
  refine ⟨hfits, ?_⟩
  obtain ⟨-, -, -, hcut, -⟩ := received_as_sent [d, e] hfits
  obtain ⟨k, hk, hr, hi⟩ := hcut [d.send.1.take 7, d.send.1.drop 7 ++ [0], [0]]
    (d.send.1.length + 2) 3 (by decide) (by decide) (by decide)
  have h1 : 1 ≤ k := (hi 1 (by decide)).1 (by decide)
  have hk1 : k = 1 := Nat.le_antisymm (Nat.le_of_lt_succ hk) h1
  rw [hr, hk1]
  rfl

end Switchboard.Transport
