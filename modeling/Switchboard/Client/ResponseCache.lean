import Switchboard.Rpc.Fingerprint
import Switchboard.Time

/-! Responses kept for a while, the least recently used making room for new ones. -/
namespace Switchboard.Client

open Rpc (Request Response)

structure CachedResponse where
  key : String
  response : Response
  expires : Instant
deriving DecidableEq

/-- Entries stand in order of use, the latest first. -/
structure ResponseCache where
  capacity : Nat
  entries : List CachedResponse := []

namespace ResponseCache

def defaultCapacity : Nat := 1024

/-- There is room for one response at least. -/
def new (capacity : Nat) : ResponseCache := ⟨max capacity 1, []⟩

def entry? (c : ResponseCache) (key : String) : Option CachedResponse := c.entries.find? (·.key == key)

def without (c : ResponseCache) (key : String) : List CachedResponse := c.entries.filter (·.key != key)

/-- A hit is a use; an entry found expired goes. -/
def get (c : ResponseCache) (now : Instant) (r : Request) : ResponseCache × Option Response :=
  match c.entry? r.fingerprint with
  | none => (c, none)
  | some e =>
    let rest := c.without r.fingerprint
    if now < e.expires then ({ c with entries := e :: rest }, some e.response)
    else ({ c with entries := rest }, none)

def set (c : ResponseCache) (now : Instant) (r : Request) (response : Response) (ttl : Duration) :
    ResponseCache :=
  let e : CachedResponse := ⟨r.fingerprint, response, now + ttl⟩
  { c with entries := e :: (c.without r.fingerprint).take (c.capacity - 1) }

def size (c : ResponseCache) : Nat := c.entries.length

def isEmpty (c : ResponseCache) : Bool := c.entries.isEmpty

def live (c : ResponseCache) (now : Instant) : List CachedResponse :=
  c.entries.filter fun e => now < e.expires

def entryText (now : Instant) (e : CachedResponse) : String :=
  "\x7b\"fingerprint\":" ++ Json.quote e.key ++ ",\"expires_in_ms\":" ++ toString (e.expires - now) ++
    ",\"content_type\":" ++ (e.response.contentType?.map Json.quote).getD "null" ++
    ",\"size\":" ++ toString e.response.body.length ++ "\x7d"

/-- The live entries as JSON, the latest used first. -/
def listText (c : ResponseCache) (now : Instant) : String :=
  "[" ++ ",".intercalate ((c.live now).map (entryText now)) ++ "]"

end ResponseCache
end Switchboard.Client
