import Switchboard.Json.Record
import Switchboard.Rpc.Message
import Switchboard.Transport.Error

/-! Frames on a byte stream: two blocks each, a JSON map of headers and a body, every block behind its
length in four octets. -/
namespace Switchboard.Transport

open Rpc (Frame)

/-- The longest block that is written or read. -/
def maxBlock : Nat := 64 * 1024 * 1024

/-- A frame as its sender holds it: the members of its header come in some order, and go out in it. -/
structure Draft where
  frame : Frame
  members : List (String × String)
  perm : members.Perm frame.header.entries

namespace Draft

/-- The members in the order of their keys. -/
def ofFrame (f : Frame) : Draft := ⟨f, f.header.entries, .refl _⟩

def headerBlock (d : Draft) : Bytes :=
  Bytes.ofString (Json.Value.object (d.members.map fun (k, v) => (k, .string v))).text

end Draft

def block (b : Bytes) : Except Error Bytes :=
  if maxBlock < b.length then .error (.frame (.tooLarge b.length))
  else .ok (Bytes.be32 b.length ++ b)

/-- What a send puts on the stream, and how it ends. A block that is too long is not written at all,
the blocks before it are. -/
def Draft.send (d : Draft) : Bytes × Except Error Unit :=
  match block d.headerBlock with
  | .error e => ([], .error e)
  | .ok h =>
    match block d.frame.body with
    | .error e => (h, .error e)
    | .ok b => (h ++ b, .ok ())

def send (f : Frame) : Bytes × Except Error Unit := (Draft.ofFrame f).send

/-- Frame after frame, whatever becomes of them. -/
def sendAll (fs : List Frame) : Bytes × List (Except Error Unit) :=
  ((fs.map fun f => (send f).1).flatten, fs.map fun f => (send f).2)

/-! Reading. A stream is the pieces in which its octets arrive, to its end. -/

/-- So many octets, put together from as many pieces as they take, and what has not been read. A stream
that ends before has nothing left. -/
def takeExact (n : Nat) : List Bytes → Option Bytes × List Bytes
  | [] => (if n = 0 then some [] else none, [])
  | p :: ps =>
    if n ≤ p.length then (some (p.take n), p.drop n :: ps)
    else
      let (b, rest) := takeExact (n - p.length) ps
      (b.map (p ++ ·), rest)

/-- The stream has ended where octets were due. -/
def cut : Error := .ofIo .endOfFile "early eof"

/-- The length stands before the block, and is judged before the block is read. -/
def takeBlock (s : List Bytes) : Except Error Bytes × List Bytes :=
  match takeExact 4 s with
  | (some [a, b, c, d], s) =>
    let n := Bytes.word32 a b c d
    if maxBlock < n then (.error (.frame (.tooLarge n)), s)
    else
      match takeExact n s with
      | (some body, s) => (.ok body, s)
      | (none, s) => (.error cut, s)
  | (_, s) => (.error cut, s)

/-- The blocks of a stream, and what is left over when no whole block follows. -/
def blocks : Nat → Bytes → List Bytes × Bytes
  | 0, r => ([], r)
  | n + 1, stream =>
    match takeBlock [stream] with
    | (.error _, _) => ([], stream)
    | (.ok b, s) =>
      let (bs, r) := blocks n s.flatten
      (b :: bs, r)

def receive (s : List Bytes) : Except Error Frame × List Bytes :=
  match takeBlock s with
  | (.error e, s) => (.error e, s)
  | (.ok h, s) =>
    match Json.parseAs? Json.textMap h with
    | none => (.error (.frame .badHeader), s)
    | some header =>
      match takeBlock s with
      | (.error e, s) => (.error e, s)
      | (.ok body, s) => (.ok ⟨header, body⟩, s)

/-- Frame after frame to the error that ends the stream. -/
def receiveFrom : Nat → List Bytes → List Frame × Error
  | 0, _ => ([], .closed)
  | n + 1, s =>
    match receive s with
    | (.error e, _) => ([], e)
    | (.ok f, s) =>
      let (fs, e) := receiveFrom n s
      (f :: fs, e)

def receiveAll (n : Nat) (stream : Bytes) : List Frame × Error := receiveFrom n [stream]

end Switchboard.Transport
