import Switchboard.Client.Wrapper

/-! Trace contexts in the headers of a call: version, trace, span and flags with dashes between. -/
namespace Switchboard.Client

structure TraceContext where
  trace : String
  span : String
  flags : String
deriving DecidableEq

namespace TraceContext

def headerName : String := "traceparent"

def text (t : TraceContext) : String := "00-" ++ t.trace ++ "-" ++ t.span ++ "-" ++ t.flags

/-- The parts of a text between dashes; there is always one. -/
def parts : List Char → List (List Char)
  | [] => [[]]
  | c :: cs =>
    match c == '-', parts cs with
    | true, ps => [] :: ps
    | false, p :: ps => (c :: p) :: ps
    | false, [] => [[c]]

def ofText? (s : String) : Option TraceContext :=
  match parts s.toList with
  | _ :: t :: p :: f :: _ => some ⟨.ofList t, .ofList p, .ofList f⟩
  | _ => none

def ofHeaders? (h : Dict String) : Option TraceContext := (h.get? headerName).bind ofText?

/-- The incoming trace with a span of its own, or a new trace. -/
def continued (h : Dict String) (trace span : String) : TraceContext :=
  match ofHeaders? h with
  | some t => { t with span }
  | none => ⟨trace, span, "01"⟩

end TraceContext

namespace Wrapper
variable {σ : Type}

def traced (info : AttemptInfo) (t : TraceContext) : AttemptInfo := { info with
  headers := info.headers.insert TraceContext.headerName t.text
  metadata := (info.metadata.insert "trace_id" t.trace).insert "span_id" t.span }

/-- `fresh` makes the ids of a trace and of a span. -/
def tracing (fresh : σ → σ × String × String) : Wrapper σ where
  name := "TracingWrapper"
  onRequest := fun _ info s =>
    let (s, trace, span) := fresh s
    (s, traced info (.continued info.headers trace span), .ok ())

end Wrapper
end Switchboard.Client
