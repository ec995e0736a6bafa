import Switchboard.Bench.World
import Switchboard.Greeter

/-! One node that greets, and a client that calls it. -/
namespace Switchboard.Bench

open Client Rpc

namespace World

/-- Runs one call to its end, which is missing only if its patience is. -/
def call (w : World) (t : Task) : World × Option (Except CallError Outcome) :=
  let (w, ts) := w.run patience [t]
  (w, ts.head?.bind (·.call.result?))

/-- Sends each message on a stream and waits for what comes back. -/
def talk (w : World) (k : Nat) : List Bytes → World × List (Except CallError Response)
  | [] => (w, [])
  | b :: bs =>
    match w.streams[k]? with
    | none => (w, [])
    | some s =>
      let (w, sent) := w.streamSend k s b
      let (w, r) := match sent, w.streams[k]? with
        | .ok (), some s => w.streamReceive k s
        | .ok (), none => (w, .error .streamClosed)
        | .error e, _ => (w, .error e)
      let (w, rs) := talk w k bs
      (w, r :: rs)

end World

namespace Demo

def world (config : Config) (node : String) (protocol : Option String) : World :=
  let metadata := .ofList (protocol.map fun p => (CodecSet.protocolKey, p)).toList
  let s : Discovery.Service :=
    { name := Greeter.service, version := "1.0.0", nodes := [⟨node, "127.0.0.1:1", metadata⟩] }
  { client := .ofConfig config {} [Hooks.tracing, .logging, Hooks.counting] {}
    directory := (Directory.register { hub := .new config.cacheTtl } s none).1
    network := { usual := Greeter.handle node }
    strategy := config.strategy.strategy }

inductive Answer
  | single (r : Except CallError Response)
  | talk (rs : List (Except CallError Response))

namespace Answer

def line : Except CallError Response → String
  | .ok r => (Bytes.toString? r.body).getD (Bytes.toHex r.body)
  | .error e => e.message

def lines : Answer → List String
  | single r => [line r]
  | talk rs => rs.map line

end Answer

/-- A call of the node, or a talk over a stream when there are messages for one. -/
def call (w : World) (r : Request) (bodies : Option (List Bytes)) : World × Answer :=
  let r := { r with service := Greeter.service, stream := bodies.isSome }
  let (cancellation, ctx) := Context.new w.cancellation
  let c := Call.new ctx r w.client.options bodies.isSome
  match { w with cancellation }.call { call := c } with
  | (w, some (.ok (.channel ch))) =>
    let (w, k) := w.keepStream c ch
    let (w, rs) := w.talk k (bodies.getD [])
    (w.streams[k]?.elim w fun s => (w.streamClose k s).1, .talk rs)
  | (w, some (.ok (.response r))) => (w, .single (.ok r))
  | (w, some (.error e)) => (w, .single (.error e))
  | (w, none) => (w, .single (.error .streamClosed))

/-- Calls one after the other. -/
def calls (w : World) : List (Request × Option (List Bytes)) → World × List Answer
  | [] => (w, [])
  | (r, bodies) :: rs =>
    let (w, a) := call w r bodies
    let (w, as) := calls w rs
    (w, a :: as)

def request (config : Config) (endpoint body : String) : Request :=
  ⟨Greeter.service, endpoint, Bytes.ofString body, config.contentType, false, .empty⟩

def greeting (config : Config) (name : String) : Request × Option (List Bytes) :=
  (request config "Greeter.Hello" (Json.Value.object [("name", .string name)]).text, none)

def script (config : Config) : List (Request × Option (List Bytes)) :=
  ["John", "Jane", "Joe"].map (greeting config) ++
    [(request config "Greeter.Missing" "\x7b\x7d", none),
      (request config "Greeter.Echo" "", some (["hello", "stream", "bye"].map fun w => Bytes.ofString (Json.quote w)))]

/-- What the node says, and what the client counted. -/
def transcript (config : Config) : List String :=
  let (w, as) := calls (world config "greeter-1" (some "mucp")) (script config)
  as.flatMap Answer.lines ++ [w.client.hooks.metrics.text]

end Demo
end Switchboard.Bench
