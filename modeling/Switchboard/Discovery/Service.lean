import Switchboard.Json.Record

/-! Services, their nodes and endpoints, and their JSON form. -/
namespace Switchboard.Discovery

open Json

/-- The shape of an endpoint's request or response. -/
inductive Shape
  | mk (name kind : String) (values : List Shape)

structure Endpoint where
  name : String
  request : Option Shape := none
  response : Option Shape := none
  metadata : Dict String := .empty

structure Node where
  id : String
  address : String
  metadata : Dict String := .empty
deriving DecidableEq

structure Service where
  name : String
  version : String
  metadata : Dict String := .empty
  endpoints : List Endpoint := []
  nodes : List Node := []

instance : Inhabited Node := ⟨⟨"", "", .empty⟩⟩

namespace Shape

mutual
def decEq : (s t : Shape) → Decidable (s = t)
  | ⟨n, k, vs⟩, ⟨m, l, ws⟩ =>
    match decEqList vs ws with
    | isTrue h => if hn : n = m ∧ k = l then isTrue (by rw [hn.1, hn.2, h]) else
        isFalse fun e => hn (by cases e; exact ⟨rfl, rfl⟩)
    | isFalse h => isFalse fun e => h (by cases e; rfl)

def decEqList : (vs ws : List Shape) → Decidable (vs = ws)
  | [], [] => isTrue rfl
  | [], _ :: _ => isFalse fun e => by cases e
  | _ :: _, [] => isFalse fun e => by cases e
  | v :: vs, w :: ws =>
    match decEq v w, decEqList vs ws with
    | isTrue h, isTrue h' => isTrue (by rw [h, h'])
    | isFalse h, _ => isFalse fun e => h (by cases e; rfl)
    | _, isFalse h => isFalse fun e => h (by cases e; rfl)
end

instance : DecidableEq Shape := decEq

def toValue : Shape → Value
  | ⟨name, kind, values⟩ =>
    .object [("name", .string name), ("type", .string kind), ("values", .array (list values))]
where
  list : List Shape → List Value
    | [] => []
    | s :: ss => s.toValue :: list ss

def read : Reader Shape
  | 0, _ => none
  | d + 1, raw => do
    let fs ← Fields.read? ["name", "type", "values"] (d + 1) raw
    let name ← fs.required 0 string?
    let kind ← fs.required 1 string?
    let values ← fs.withDefault 2 [] fun raw =>
      match d with
      | 0 => none
      | e + 1 => (items? raw).bind (·.mapM (read e))
    pure ⟨name, kind, values⟩

end Shape

deriving instance DecidableEq for Endpoint
deriving instance DecidableEq for Service

namespace Endpoint

def toValue (e : Endpoint) : Value :=
  let shape := fun s : Option Shape => (s.map Shape.toValue).getD .null
  .object [("name", .string e.name), ("request", shape e.request), ("response", shape e.response),
    ("metadata", ofTextMap e.metadata)]

def read : Reader Endpoint
  | 0, _ => none
  | d + 1, raw => do
    let fs ← Fields.read? ["name", "request", "response", "metadata"] (d + 1) raw
    let name ← fs.required 0 string?
    let request ← fs.withDefault 1 none (orNull Shape.read d)
    let response ← fs.withDefault 2 none (orNull Shape.read d)
    let metadata ← fs.withDefault 3 .empty (textMap d)
    pure ⟨name, request, response, metadata⟩

end Endpoint

namespace Node

def toValue (n : Node) : Value :=
  .object [("id", .string n.id), ("address", .string n.address), ("metadata", ofTextMap n.metadata)]

def read : Reader Node
  | 0, _ => none
  | d + 1, raw => do
    let fs ← Fields.read? ["id", "address", "metadata"] (d + 1) raw
    let id ← fs.required 0 string?
    let address ← fs.required 1 string?
    let metadata ← fs.withDefault 2 .empty (textMap d)
    pure ⟨id, address, metadata⟩

end Node

namespace Service

def withNode (s : Service) (n : Node) : Service := { s with nodes := s.nodes ++ [n] }

def withEndpoint (s : Service) (e : Endpoint) : Service := { s with endpoints := s.endpoints ++ [e] }

def toValue (s : Service) : Value :=
  .object [("name", .string s.name), ("version", .string s.version), ("metadata", ofTextMap s.metadata),
    ("endpoints", .array (s.endpoints.map Endpoint.toValue)), ("nodes", .array (s.nodes.map Node.toValue))]

def read : Reader Service
  | 0, _ => none
  | d + 1, raw => do
    let fs ← Fields.read? ["name", "version", "metadata", "endpoints", "nodes"] (d + 1) raw
    let name ← fs.required 0 string?
    let version ← fs.required 1 string?
    let metadata ← fs.withDefault 2 .empty (textMap d)
    let endpoints ← fs.withDefault 3 [] (list Endpoint.read d)
    let nodes ← fs.withDefault 4 [] (list Node.read d)
    pure ⟨name, version, metadata, endpoints, nodes⟩

def parse? (text : Bytes) : Option Service := parseAs? read text

end Service
end Switchboard.Discovery
