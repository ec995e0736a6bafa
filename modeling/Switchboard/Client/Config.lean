import Switchboard.Client.Options
import Switchboard.Client.Pool
import Switchboard.Client.ResponseCache
import Switchboard.Yaml.Node

/-! What a client is set up with, as read from a YAML mapping. -/
namespace Switchboard.Client

open Rpc (CallError)
open Yaml (Document)
open Yaml.Node (Target)

structure Config where
  contentType : String := Rpc.defaultContentType
  poolSize : Nat := Pool.defaultSize
  poolTtlSecs : Nat := 60
  cacheTtlSecs : Nat := 60
  retries : UInt32 := 5
  requestTimeoutMs : Nat := 30000
  streamTimeoutMs : Nat := 30000
  dialTimeoutMs : Nat := 5000
  strategy : StrategyKind := .random
  responseCacheCapacity : Nat := ResponseCache.defaultCapacity
deriving DecidableEq

namespace Config

def digits? (radix : Nat) (cs : List Char) : Option Nat :=
  if cs.isEmpty then none
  else cs.foldlM (fun n c => (Bytes.hexValue? c).bind fun d => if d < radix then some (n * radix + d) else none) 0

/-- A decimal number has no leading zero; other bases are marked by one and a letter. -/
def natural? (cs : List Char) : Option Nat :=
  let cs := match cs with
    | '+' :: r => r
    | r => r
  match cs with
  | '0' :: 'x' :: r => digits? 16 r
  | '0' :: 'o' :: r => digits? 8 r
  | '0' :: 'b' :: r => digits? 2 r
  | '0' :: _ :: _ => none
  | r => digits? 10 r

def intTag : Bytes := Bytes.ofString "tag:yaml.org,2002:int"

/-- A number below `limit`, written plainly or as a block that is tagged as one. -/
def number? (limit : Nat) : Target → Option Nat
  | .scalar tag style text =>
    if style == .plain || (style == .literal && tag == some intTag) then
      (natural? text).bind fun n => if n < limit then some n else none
    else none
  | _ => none

def text? : Target → Option String
  | .scalar _ _ text => some (.ofList text)
  | _ => none

def isNull (style : Yaml.ScalarStyle) (text : List Char) : Bool :=
  style == .plain && ["", "~", "null", "Null", "NULL"].contains (String.ofList text)

/-- What a tag spells behind its mark; a tag that is no text or has no mark spells nothing. -/
def variant? : Option Bytes → Option String
  | some (c :: tag) => if [c] = Yaml.Lexer.bareTag then Bytes.toString? tag else none
  | _ => none

/-- The name of a strategy, or a tag of that name with nothing behind it. -/
def strategy? : Target → Option StrategyKind
  | .scalar tag style text =>
    match variant? tag with
    | some name => if isNull style text then StrategyKind.ofName? name else none
    | none => StrategyKind.ofName? (.ofList text)
  | .collection => none

def words : Nat := Nat.pow 2 64

def fieldNames : List String :=
  ["content_type", "pool_size", "pool_ttl_secs", "cache_ttl_secs", "retries", "request_timeout_ms",
    "stream_timeout_ms", "dial_timeout_ms", "strategy", "response_cache_capacity"]

def setField (c : Config) (name : String) (v : Target) : Option Config :=
  if name = "content_type" then (text? v).map fun s => { c with contentType := s }
  else if name = "pool_size" then (number? words v).map fun n => { c with poolSize := n }
  else if name = "pool_ttl_secs" then (number? words v).map fun n => { c with poolTtlSecs := n }
  else if name = "cache_ttl_secs" then (number? words v).map fun n => { c with cacheTtlSecs := n }
  else if name = "retries" then (number? (Nat.pow 2 32) v).map fun n => { c with retries := UInt32.ofNat n }
  else if name = "request_timeout_ms" then (number? words v).map fun n => { c with requestTimeoutMs := n }
  else if name = "stream_timeout_ms" then (number? words v).map fun n => { c with streamTimeoutMs := n }
  else if name = "dial_timeout_ms" then (number? words v).map fun n => { c with dialTimeoutMs := n }
  else if name = "strategy" then (strategy? v).map fun s => { c with strategy := s }
  else if name = "response_cache_capacity" then
    (number? words v).map fun n => { c with responseCacheCapacity := n }
  else some c

/-- Unknown names are passed over; a known one may stand once. -/
def setFields (c : Config) (seen : List String) : List (Target × Target) → Option Config
  | [] => some c
  | (k, v) :: kvs => do
    let name ← text? k
    if seen.contains name then none
    else
      let c ← c.setField name v
      c.setFields (if fieldNames.contains name then name :: seen else seen) kvs

def ofDocument? (d : Document) : Option Config :=
  match d.root with
  | .mapping kvs => setFields {} [] (kvs.map fun (k, v) => (d.follow k, d.follow v))
  | .scalar _ .plain [] => some {}
  | _ => none

def emptyContentType : String := "content_type must not be empty"

def emptyPool : String := "pool_size must be positive"

def validate (c : Config) : Except CallError Config :=
  if c.contentType = "" then .error (.invalidConfiguration emptyContentType)
  else if c.poolSize = 0 then .error (.invalidConfiguration emptyPool)
  else .ok c

def unreadable : CallError := .invalidConfiguration "not a YAML document of the expected form"

def ofText (yaml : String) : Except CallError Config :=
  match Document.ofText? yaml with
  | some (some d) => ((ofDocument? d).map validate).getD (.error unreadable)
  | some none => validate {}
  | none => .error unreadable

/-- The configuration in a file of the given content, if there is such a file. -/
def ofFile (content : Option Bytes) : Except CallError Config :=
  match content.bind Bytes.toString? with
  | some yaml => ofText yaml
  | none => .error (.invalidConfiguration "no text file")

def toValue (c : Config) : Json.Value := .object [
  ("content_type", .string c.contentType), ("pool_size", .nat c.poolSize), ("pool_ttl_secs", .nat c.poolTtlSecs),
  ("cache_ttl_secs", .nat c.cacheTtlSecs), ("retries", .nat c.retries.toNat),
  ("request_timeout_ms", .nat c.requestTimeoutMs), ("stream_timeout_ms", .nat c.streamTimeoutMs),
  ("dial_timeout_ms", .nat c.dialTimeoutMs), ("strategy", .string c.strategy.name),
  ("response_cache_capacity", .nat c.responseCacheCapacity)]

def callOptions (c : Config) : Options where
  retries := c.retries
  requestTimeout := c.requestTimeoutMs
  streamTimeout := c.streamTimeoutMs
  dialTimeout := c.dialTimeoutMs

def pool (c : Config) : Pool where
  size := c.poolSize
  ttl := Duration.seconds c.poolTtlSecs

def responseCache (c : Config) : ResponseCache := .new c.responseCacheCapacity

def cacheTtl (c : Config) : Duration := Duration.seconds c.cacheTtlSecs

end Config
end Switchboard.Client
