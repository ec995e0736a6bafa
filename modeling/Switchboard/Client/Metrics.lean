import Switchboard.Client.Wrapper
import Switchboard.Decimal

/-! Counts and latencies of attempts, and their text form for collectors. -/
namespace Switchboard.Client

structure Series (α : Type) where
  labels : List (String × String)
  value : α

/-- Series by the joined text of their label values; labels that join alike share the first one's series. -/
abbrev Family (α : Type) := Dict (Series α)

namespace Family
variable {α : Type}

def update (f : Family α) (key : String) (labels : List (String × String)) (zero : α) (g : α → α) : Family α :=
  let s := f.getD key ⟨labels, zero⟩
  f.insert key { s with value := g s.value }

end Family

structure Metrics where
  /-- Successful calls by service and endpoint. -/
  calls : Family Nat := .empty
  /-- Attempts by service, retries included. -/
  attempts : Family Nat := .empty
  /-- Failed attempts by service and status code. -/
  errors : Family Nat := .empty
  /-- What attempts took, in the order they ended. -/
  durations : Family (List Duration) := .empty

namespace Metrics

def perEndpoint (info : AttemptInfo) : List (String × String) :=
  [("endpoint", info.endpoint), ("service", info.service)]

def endpointKey (info : AttemptInfo) : String := info.service ++ info.endpoint

def requested (m : Metrics) (info : AttemptInfo) : Metrics :=
  { m with attempts := Family.update m.attempts info.service [("service", info.service)] 0 (· + 1) }

def timed (m : Metrics) (info : AttemptInfo) (now : Instant) : Metrics := { m with
  durations := Family.update m.durations (endpointKey info) (perEndpoint info) [] (· ++ [now - info.started]) }

def succeeded (m : Metrics) (info : AttemptInfo) (now : Instant) : Metrics :=
  let m := { m with calls := Family.update m.calls (endpointKey info) (perEndpoint info) 0 (· + 1) }
  m.timed info now

def codeText (e : Rpc.CallError) : String := toString ((e.code?.getD 0).toInt)

def failed (m : Metrics) (info : AttemptInfo) (e : Rpc.CallError) (now : Instant) : Metrics :=
  let labels := [("code", codeText e), ("service", info.service)]
  let m := { m with errors := Family.update m.errors (info.service ++ codeText e) labels 0 (· + 1) }
  m.timed info now

/-- Upper ends of the latency buckets, in milliseconds. -/
def buckets : List Duration := [5, 10, 25, 50, 100, 250, 500, 1000, 2500, 5000, 10000]

def secondsOf (d : Duration) : Float :=
  Float.ofNat (d / 1000) + Float.ofNat (d % 1000 * 1000000) / 1000000000

def escape (c : Char) : List Char :=
  if c = '\\' then ['\\', '\\'] else if c = '\n' then ['\\', 'n'] else if c = '"' then ['\\', '"'] else [c]

def labelText (labels : List (String × String)) : String :=
  "\x7b" ++ ",".intercalate (labels.map fun (k, v) =>
    k ++ "=\"" ++ String.ofList (v.toList.flatMap escape) ++ "\"") ++ "\x7d"

def lineText (name : String) (labels : List (String × String)) (value : String) : String :=
  name ++ labelText labels ++ " " ++ value ++ "\n"

def counterText (name : String) (s : Series Nat) : String := lineText name s.labels (toString s.value)

def histogramText (name : String) (s : Series (List Duration)) : String :=
  let count := toString s.value.length
  String.join (buckets.map fun b =>
      lineText (name ++ "_bucket") (s.labels ++ [("le", Decimal.positional (secondsOf b))])
        (toString (s.value.filter (· ≤ b)).length)) ++
    lineText (name ++ "_bucket") (s.labels ++ [("le", "+Inf")]) count ++
    lineText (name ++ "_sum") s.labels
      (Decimal.positional (s.value.foldl (fun x d => x + secondsOf d) 0)) ++
    lineText (name ++ "_count") s.labels count

/-- The order of lists of texts, the first difference decides. -/
def textsBefore : List String → List String → Bool
  | [], _ => true
  | _ :: _, [] => false
  | a :: as, b :: bs => if a = b then textsBefore as bs else a < b

def before {α : Type} (s t : Series α) : Bool := textsBefore (s.labels.map (·.2)) (t.labels.map (·.2))

/-- A family without series is left out. -/
def familyText {α : Type} (name kind help : String) (text : String → Series α → String) (f : Family α) :
    String :=
  if f.isEmpty then ""
  else "# HELP " ++ name ++ " " ++ help ++ "\n# TYPE " ++ name ++ " " ++ kind ++ "\n" ++
    String.join ((f.values.mergeSort before).map (text name))

def text (m : Metrics) : String :=
  familyText "rpc_call_attempts_total" "counter" "Total RPC call attempts" counterText m.attempts ++
    familyText "rpc_call_duration_seconds" "histogram" "RPC call latency in seconds" histogramText m.durations ++
    familyText "rpc_call_errors_total" "counter" "Total failed RPC call attempts" counterText m.errors ++
    familyText "rpc_calls_total" "counter" "Total successful RPC calls" counterText m.calls

end Metrics

namespace Wrapper
variable {σ : Type}

/-- Feeds the metrics that the shared state holds. -/
def metrics (get : σ → Metrics) (put : Metrics → σ → σ) : Wrapper σ where
  name := "MetricsWrapper"
  onRequest := fun _ info s => (put ((get s).requested info) s, info, .ok ())
  onResponse := fun now info _ s => (put ((get s).succeeded info now) s, .ok ())
  onError := fun now info e s => (put ((get s).failed info e now) s, .ok ())

end Wrapper
end Switchboard.Client
