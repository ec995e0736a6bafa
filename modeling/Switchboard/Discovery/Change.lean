import Switchboard.Discovery.Service
import Switchboard.Timestamp

/-! Changes that a registry reports, and the record of one as an event. -/
namespace Switchboard.Discovery

open Json

inductive ChangeKind
  | create
  | delete
  | update
deriving DecidableEq

namespace ChangeKind

def word : ChangeKind → String
  | create => "create"
  | delete => "delete"
  | update => "update"

def ofWord? (s : String) : Option ChangeKind := [create, delete, update].find? (·.word = s)

end ChangeKind

structure Change where
  kind : ChangeKind
  service : Service
deriving DecidableEq

/-- A change with the identity and the time it was given when it was published. -/
structure Event where
  id : String
  change : Change
  time : Timestamp
deriving DecidableEq

namespace Event

def toValue (e : Event) : Value :=
  .object [("id", .string e.id), ("type", .string e.change.kind.word),
    ("service", e.change.service.toValue), ("timestamp", .string e.time.text)]

def read : Reader Event
  | 0, _ => none
  | d + 1, raw => do
    let fs ← Fields.read? ["id", "type", "service", "timestamp"] (d + 1) raw
    let id ← fs.required 0 string?
    let kind ← fs.required 1 (word d)
    let kind ← ChangeKind.ofWord? kind
    let service ← fs.required 2 (Service.read d)
    let time ← fs.required 3 string?
    let time ← Timestamp.ofText? time
    pure ⟨id, ⟨kind, service⟩, time⟩

def parse? (text : Bytes) : Option Event := parseAs? read text

end Event
end Switchboard.Discovery
