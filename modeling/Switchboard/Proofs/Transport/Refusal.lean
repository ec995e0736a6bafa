import Switchboard.Proofs.Transport.Framing

/-! What the peer receives when messages are refused: a header block that is too long leaves no
trace on the stream, a body that is too long leaves its header block there. -/
namespace Switchboard.Transport

open Rpc (Frame)

variable {s : List Bytes} {b h : Bytes} {bs : List Bytes} {d e : Draft} {ds : List Draft} {n : Nat}

/-! Blocks that came whole, two and two. -/

/-- What is received of a stream of blocks. -/
def paired : List Bytes → List Frame × Error
  | [] => ([], .closed)
  | [h] => ([], if (Json.parseAs? Json.textMap h).isSome then .closed else .frame .badHeader)
  | h :: b :: bs =>
    match Json.parseAs? Json.textMap h with
    | some header => (⟨header, b⟩ :: (paired bs).1, (paired bs).2)
    | none => ([], .frame .badHeader)

namespace Draft

instance : Decidable d.Fits := inferInstanceAs (Decidable (_ ∧ _))

/-- Only the body is too long. -/
def Halved (d : Draft) : Prop :=
  d.headerBlock.length ≤ maxBlock ∧ maxBlock < d.frame.body.length

/-- The blocks that a send writes. -/
def blocks (d : Draft) : List Bytes :=
  if maxBlock < d.headerBlock.length then []
  else if maxBlock < d.frame.body.length then [d.headerBlock]
  else [d.headerBlock, d.frame.body]

theorem Fits.blocks (hd : d.Fits) : d.blocks = [d.headerBlock, d.frame.body] := by
  rw [Draft.blocks, if_neg (Nat.not_lt.2 hd.1), if_neg (Nat.not_lt.2 hd.2)]

theorem Halved.blocks (hd : d.Halved) : d.blocks = [d.headerBlock] := by
  rw [Draft.blocks, if_neg (Nat.not_lt.2 hd.1), if_pos hd.2]

end Draft

/-- The messages that were not refused. -/
def delivered (ds : List Draft) : List Frame := (ds.filter (decide ·.Fits)).map Draft.frame

/-- What is received of the messages sent, in whatever pieces the stream arrives. -/
def Receives (ds : List Draft) (fs : List Frame) (e : Error) : Prop :=
  ∀ s n, s.flatten = stream ds → ds.length < n → receiveFrom n s = (fs, e)

end Switchboard.Transport
