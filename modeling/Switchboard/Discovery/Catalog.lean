import Switchboard.Discovery.Change
import Switchboard.Discovery.Error
import Switchboard.Time

/-! What is registered: versions by service name, records by version, nodes that may expire. -/
namespace Switchboard.Discovery

/-- A registered version; a node without an entry in `expiry` stays until it is removed. -/
structure Record where
  service : Service
  expiry : Dict Instant

namespace Record
variable {r : Record} {now : Instant} {n : Node}

def fresh (s : Service) : Record := ⟨{ s with nodes := [] }, .empty⟩

def isLive (r : Record) (now : Instant) (n : Node) : Bool :=
  match r.expiry.get? n.id with
  | some ends => now < ends
  | none => true

/-- The service without the nodes that have expired. -/
def live (r : Record) (now : Instant) : Service :=
  { r.service with nodes := r.service.nodes.filter (r.isLive now) }

/-- A node of a known id takes the place of the old one, a new one goes to the end. -/
def placeNode (n : Node) : List Node → List Node
  | [] => [n]
  | m :: ms => if m.id = n.id then n :: ms else m :: placeNode n ms

def addNode (now : Instant) (ttl : Option Duration) (r : Record) (n : Node) : Record where
  service := { r.service with nodes := placeNode n r.service.nodes }
  expiry := match ttl with
    | some ttl => r.expiry.insert n.id (now + ttl)
    | none => r.expiry.erase n.id

def merge (r : Record) (now : Instant) (s : Service) (ttl : Option Duration) : Record :=
  s.nodes.foldl (addNode now ttl)
    { r with service := { r.service with metadata := s.metadata, endpoints := s.endpoints } }

def hasId (ns : List Node) (n : Node) : Bool := ns.any (·.id == n.id)

def removeNodes (r : Record) (ns : List Node) : Record where
  service := { r.service with nodes := r.service.nodes.filter fun n => !hasId ns n }
  expiry := ns.foldl (fun e n => e.erase n.id) r.expiry

end Record

/-- Every name present has a version, every version is stored under its own name. -/
structure Catalog where
  versions : Dict (Dict Record)

namespace Catalog

def empty : Catalog := ⟨.empty⟩

instance : Inhabited Catalog := ⟨empty⟩

def versionsOf (c : Catalog) (name : String) : Dict Record := c.versions.getD name .empty

def record? (c : Catalog) (name version : String) : Option Record := (c.versionsOf name).get? version

def size (c : Catalog) : Nat := c.versions.size

/-- A name without versions is not kept. -/
def setVersions (c : Catalog) (name : String) (vs : Dict Record) : Catalog :=
  ⟨if vs.isEmpty then c.versions.erase name else c.versions.insert name vs⟩

def register (c : Catalog) (now : Instant) (s : Service) (ttl : Option Duration) :
    Except Error (Catalog × Change) :=
  if s.name = "" then .error (.invalidConfiguration "service name is empty")
  else
    let vs := c.versionsOf s.name
    let (kind, r) := match vs.get? s.version with
      | some r => (ChangeKind.update, r)
      | none => (ChangeKind.create, Record.fresh s)
    .ok (⟨c.versions.insert s.name (vs.insert s.version (r.merge now s ttl))⟩, ⟨kind, s⟩)

/-- Without nodes the whole version goes, and the change names every node that went with it. An unknown
name changes nothing and reports nothing. -/
def deregister (c : Catalog) (s : Service) : Catalog × Option Change :=
  match c.versions.get? s.name with
  | none => (c, none)
  | some vs =>
    match vs.get? s.version with
    | none => (c, some ⟨.delete, s⟩)
    | some r =>
      if s.nodes.isEmpty then
        (c.setVersions s.name (vs.erase s.version), some ⟨.delete, { s with nodes := r.service.nodes }⟩)
      else
        let r := r.removeNodes s.nodes
        let vs := if r.service.nodes.isEmpty then vs.erase s.version else vs.insert s.version r
        (c.setVersions s.name vs, some ⟨.delete, s⟩)

/-- The versions with a live node. -/
def lookup (c : Catalog) (now : Instant) (name : String) : Except Error (List Service) :=
  match ((c.versionsOf name).values.map (·.live now)).filter (!·.nodes.isEmpty) with
  | [] => .error (.serviceNotFound name)
  | ss => .ok ss

def list (c : Catalog) (now : Instant) : List Service :=
  c.versions.values.flatMap fun vs => vs.values.map (·.live now)

end Catalog
end Switchboard.Discovery
