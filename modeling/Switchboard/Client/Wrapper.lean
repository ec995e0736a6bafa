import Switchboard.Rpc.Request
import Switchboard.Rpc.Error
import Switchboard.Time

/-! Hooks around every attempt of a call. -/
namespace Switchboard.Client

open Rpc (CallError Response)

/-- What hooks know of an attempt. They may change the headers that will be sent and leave notes for each
other in the metadata. -/
structure AttemptInfo where
  service : String
  endpoint : String
  address : String := ""
  attempt : UInt32 := 0
  headers : Dict String := .empty
  metadata : Dict String := .empty
  started : Instant := 0
deriving DecidableEq

/-- Hooks run at an instant and may change the state that all wrappers of a chain share. -/
structure Wrapper (σ : Type) where
  name : String := "UnnamedWrapper"
  onRequest : Instant → AttemptInfo → σ → σ × AttemptInfo × Except CallError Unit :=
    fun _ info s => (s, info, .ok ())
  onResponse : Instant → AttemptInfo → Response → σ → σ × Except CallError Unit := fun _ _ _ s => (s, .ok ())
  onError : Instant → AttemptInfo → CallError → σ → σ × Except CallError Unit := fun _ _ _ s => (s, .ok ())

/-- Wrappers in the order in which they see a request. -/
abbrev Chain (σ : Type) := List (Wrapper σ)

namespace Chain
variable {σ : Type}

/-- The first failure ends the pass. -/
def onRequest (ws : Chain σ) (now : Instant) (info : AttemptInfo) (s : σ) :
    σ × AttemptInfo × Except CallError Unit :=
  match ws with
  | [] => (s, info, .ok ())
  | w :: ws =>
    match w.onRequest now info s with
    | (s, info, .ok ()) => onRequest ws now info s
    | (s, info, .error e) => (s, info, .error e)

/-- The last wrapper first; what a hook returns changes nothing. -/
def onResponse (ws : Chain σ) (now : Instant) (info : AttemptInfo) (r : Response) (s : σ) : σ :=
  ws.foldr (fun w s => (w.onResponse now info r s).1) s

def onError (ws : Chain σ) (now : Instant) (info : AttemptInfo) (e : CallError) (s : σ) : σ :=
  ws.foldl (fun s w => (w.onError now info e s).1) s

end Chain

namespace Wrapper
variable {σ : Type}

/-- Reports attempts to a log that nothing else depends on. -/
def logging : Wrapper σ := { name := "LoggingWrapper" }

end Wrapper
end Switchboard.Client
