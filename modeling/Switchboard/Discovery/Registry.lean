import Switchboard.Discovery.Catalog
import Switchboard.Discovery.Feed

/-! A registry in memory: a catalog that publishes its changes. -/
namespace Switchboard.Discovery

structure Registry where
  catalog : Catalog := .empty
  feed : Feed := {}

namespace Registry

instance : Inhabited Registry := ⟨{}⟩

def name : String := "memory"

def register (r : Registry) (now : Instant) (s : Service) (ttl : Option Duration) :
    Except Error Registry :=
  (r.catalog.register now s ttl).map fun (c, change) => ⟨c, r.feed.publish change⟩

def deregister (r : Registry) (s : Service) : Registry :=
  match r.catalog.deregister s with
  | (c, some change) => ⟨c, r.feed.publish change⟩
  | (c, none) => ⟨c, r.feed⟩

def lookup (r : Registry) (now : Instant) (name : String) : Except Error (List Service) :=
  r.catalog.lookup now name

def list (r : Registry) (now : Instant) : List Service := r.catalog.list now

def watch (r : Registry) (service : Option String) : Watcher := r.feed.subscribe service

end Registry
end Switchboard.Discovery
