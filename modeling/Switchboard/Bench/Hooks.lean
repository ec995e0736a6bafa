import Switchboard.Client.Metrics
import Switchboard.Client.Tracing

/-! Wrappers that write down what they see. -/
namespace Switchboard.Bench

open Client Rpc

structure Hooks where
  lines : List String := []
  metrics : Metrics := {}

structure Recorder where
  tag : String := ""
  headers : Dict String := .empty
  metadata : Dict String := .empty
  failRequest : Option CallError := none
  failResponse : Option CallError := none
  failError : Option CallError := none

namespace Hooks

def write (h : Hooks) (line : String) : Hooks := { h with lines := h.lines ++ [line] }

def outcome : Option CallError → Except CallError Unit
  | some e => .error e
  | none => .ok ()

def attemptText (info : AttemptInfo) : String := " #" ++ toString info.attempt.toNat

def elapsedText (info : AttemptInfo) (now : Instant) : String :=
  attemptText info ++ " " ++ toString (now - info.started) ++ "ms "

/-- Adds its headers and metadata, writes a line, and fails where it is told to. -/
def recorder (r : Recorder) : Wrapper Hooks where
  name := "Recorder"
  onRequest := fun _ info h =>
    let info := { info with
      headers := info.headers.union r.headers
      metadata := info.metadata.union r.metadata }
    (h.write ("request " ++ info.service ++ " " ++ info.endpoint ++ " @" ++ info.address ++
      attemptText info ++ " " ++ r.tag), info, outcome r.failRequest)
  onResponse := fun now info response h =>
    (h.write ("response " ++ toString response.body.length ++ " bytes" ++ elapsedText info now ++ r.tag),
      outcome r.failResponse)
  onError := fun now info e h => (h.write ("error " ++ e.kind ++ elapsedText info now ++ r.tag), outcome r.failError)

/-- Ids that show only their form. -/
def tracing : Wrapper Hooks := .tracing fun h => (h, "<32 hex>", "<16 hex>")

def counting : Wrapper Hooks := .metrics (·.metrics) fun m h => { h with metrics := m }

end Hooks
end Switchboard.Bench
