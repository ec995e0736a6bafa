import Switchboard.Client.Metrics
import Switchboard.Proofs.Client.Pool

/-! What the series of a client's metrics add up to, service by service. -/
namespace Switchboard.Client

namespace Family

variable {α : Type} {f : Family α} {fits : String → String → Prop} {key : String}
  {labels : List (String × String)} {zero : α} {g : α → α}

/-- The service that a series is about. -/
def serviceOf (labels : List (String × String)) : String := (labels.lookup "service").getD ""

/-- What the series of some services add up to. -/
def total (mine : String → Bool) (weigh : α → Nat) (f : Family α) : Nat :=
  (f.values.map fun s => if mine (serviceOf s.labels) then weigh s.value else 0).sum

/-- Each series has a key that one of its service may have. -/
def Filed (fits : String → String → Prop) (f : Family α) : Prop :=
  ∀ key s, f.get? key = some s → fits key (serviceOf s.labels)

theorem Filed.getD (zero : α) (hf : Filed fits f) (hk : fits key (serviceOf labels)) :
    fits key (serviceOf (f.getD key ⟨labels, zero⟩).labels) := by
  unfold Dict.getD
  cases hs : f.get? key with
  | none => exact hk
  | some s => exact hf key s hs

/-- A sample filed under its own key keeps the family filed. -/
theorem Filed.update (hf : Filed fits f) (hk : fits key (serviceOf labels)) :
    Filed fits (Family.update f key labels zero g) := by
  intro j s hs
  unfold Family.update at hs
  rw [Dict.get?_insert] at hs
  split at hs
  · rename_i hj
    cases hs
    subst hj
    exact hf.getD zero hk
  · exact hf j s hs

/-- One more for a service, when all services that may have the key count alike. -/
theorem total_update (mine : String → Bool) (weigh : α → Nat) (zero : α) (g : α → α)
    (hf : Filed fits f) (hk : fits key (serviceOf labels))
    (ha : ∀ a b, fits key a → fits key b → mine a = mine b) (hz : weigh zero = 0)
    (hg : ∀ v, weigh (g v) = weigh v + 1) :
    total mine weigh (Family.update f key labels zero g) =
      total mine weigh f + (mine (serviceOf labels)).toNat := by
  have hmine := ha _ _ (hf.getD zero hk) hk
  have hsum := sum_put (k := key)
    (fun s : Series α => if mine (serviceOf s.labels) then weigh s.value else 0)
    (v := { f.getD key ⟨labels, zero⟩ with value := g (f.getD key ⟨labels, zero⟩).value }) f.sorted
  simp only [hmine, hg] at hsum
  have hold : ((Dict.lookup key f.entries).map fun s : Series α =>
      if mine (serviceOf s.labels) then weigh s.value else 0).getD 0 =
      if mine (serviceOf labels) then weigh (f.getD key ⟨labels, zero⟩).value else 0 := by
    rw [← hmine]
    unfold Dict.getD Dict.get?
    cases Dict.lookup key f.entries with
    | none => simp [hz]
    | some s => rfl
  rw [hold] at hsum
  simp only [total, Family.update, Dict.insert, Dict.values, List.map_map, Function.comp_def]
  cases hm : mine (serviceOf labels) with
  | true =>
    simp only [hm, if_true, Bool.toNat_true] at hsum ⊢
    omega
  | false =>
    simp only [hm, if_false, Bool.false_eq_true, Bool.toNat_false, Nat.add_zero] at hsum ⊢
    exact hsum

end Family

namespace Metrics

/-- Which service a series is about can be told from its key, as far as it matters. -/
structure Apart (named : String → String → Prop) (mine : String → Bool) : Prop where
  endpoints : ∀ s e s' e', named s e → named s' e' → s ++ e = s' ++ e' → mine s = mine s'
  codes : ∀ s e s' e' x x', named s e → named s' e' → s ++ codeText x = s' ++ codeText x' →
    mine s = mine s'

/-- A series of a service and one of its endpoints may have this key. -/
def FitsEndpoint (named : String → String → Prop) (key service : String) : Prop :=
  ∃ endpoint, named service endpoint ∧ key = service ++ endpoint

/-- A series of a service and a code may have this key. -/
def FitsCode (named : String → String → Prop) (key service : String) : Prop :=
  ∃ endpoint e, named service endpoint ∧ key = service ++ codeText e

/-- All series are about attempts with such names. -/
structure Filed (named : String → String → Prop) (m : Metrics) : Prop where
  attempts : Family.Filed (fun key service => key = service) m.attempts
  calls : Family.Filed (FitsEndpoint named) m.calls
  errors : Family.Filed (FitsCode named) m.errors
  durations : Family.Filed (FitsEndpoint named) m.durations

/-- What was counted for some services. -/
structure Counts where
  attempts : Nat := 0
  calls : Nat := 0
  errors : Nat := 0
  timed : Nat := 0
deriving DecidableEq

def counts (m : Metrics) (mine : String → Bool) : Counts where
  attempts := Family.total mine id m.attempts
  calls := Family.total mine id m.calls
  errors := Family.total mine id m.errors
  timed := Family.total mine List.length m.durations

variable {named : String → String → Prop} {mine : String → Bool} {m : Metrics}
  {info : AttemptInfo} {now : Instant} {e : Rpc.CallError}

theorem Apart.of_endpoints (h : Apart named mine) {key a b : String} (ha : FitsEndpoint named key a)
    (hb : FitsEndpoint named key b) : mine a = mine b := by
  obtain ⟨e, hn, rfl⟩ := ha
  obtain ⟨e', hn', heq⟩ := hb
  exact h.endpoints a e b e' hn hn' heq

theorem Apart.of_codes (h : Apart named mine) {key a b : String} (ha : FitsCode named key a)
    (hb : FitsCode named key b) : mine a = mine b := by
  obtain ⟨e, x, hn, rfl⟩ := ha
  obtain ⟨e', x', hn', heq⟩ := hb
  exact h.codes a e b e' x x' hn hn' heq

theorem fits_perEndpoint (hn : named info.service info.endpoint) :
    FitsEndpoint named (endpointKey info) (Family.serviceOf (perEndpoint info)) :=
  ⟨info.endpoint, hn, rfl⟩

/-- A request adds to the attempts of its own service and to nothing else. -/
theorem requested_spec (mine : String → Bool) (hf : m.Filed named) (info : AttemptInfo) :
    (m.requested info).Filed named ∧ (m.requested info).counts mine = { m.counts mine with
      attempts := (m.counts mine).attempts + (mine info.service).toNat } := by
  have hk : info.service = Family.serviceOf [("service", info.service)] := rfl
  have htotal := Family.total_update mine id 0 (· + 1) hf.attempts hk
    (fun a b ha hb => by rw [← ha, ← hb]) rfl fun _ => rfl
  refine ⟨⟨hf.attempts.update rfl, hf.calls, hf.errors, hf.durations⟩, ?_⟩
  simp only [counts, requested, htotal]
  rfl

/-- Timing an attempt adds one reading of its duration. -/
theorem timed_spec (ha : Apart named mine) (hf : m.Filed named)
    (hn : named info.service info.endpoint) (now : Instant) :
    (m.timed info now).Filed named ∧ (m.timed info now).counts mine = { m.counts mine with
      timed := (m.counts mine).timed + (mine info.service).toNat } := by
  have htotal := Family.total_update mine List.length [] (· ++ [now - info.started]) hf.durations
    (fits_perEndpoint hn) (fun _ _ => ha.of_endpoints) rfl fun _ => List.length_append
  refine ⟨⟨hf.attempts, hf.calls, hf.errors, hf.durations.update (fits_perEndpoint hn)⟩, ?_⟩
  simp only [counts, timed, htotal]
  rfl

/-- An answer adds to the calls, and is timed. -/
theorem succeeded_spec (ha : Apart named mine) (hf : m.Filed named)
    (hn : named info.service info.endpoint) (now : Instant) :
    (m.succeeded info now).Filed named ∧ (m.succeeded info now).counts mine =
      { m.counts mine with
        calls := (m.counts mine).calls + (mine info.service).toNat
        timed := (m.counts mine).timed + (mine info.service).toNat } := by
  have htotal := Family.total_update mine id 0 (· + 1) hf.calls (fits_perEndpoint hn)
    (fun _ _ => ha.of_endpoints) rfl fun _ => rfl
  have hcalls : Filed named { m with
      calls := Family.update m.calls (endpointKey info) (perEndpoint info) 0 (· + 1) } :=
    ⟨hf.attempts, hf.calls.update (fits_perEndpoint hn), hf.errors, hf.durations⟩
  obtain ⟨hfiled, hcounts⟩ := timed_spec ha hcalls hn now
  refine ⟨hfiled, hcounts.trans ?_⟩
  simp only [counts, htotal]
  rfl

/-- A failure adds to the errors, whatever its code, and is timed. -/
theorem failed_spec (ha : Apart named mine) (hf : m.Filed named)
    (hn : named info.service info.endpoint) (e : Rpc.CallError) (now : Instant) :
    (m.failed info e now).Filed named ∧ (m.failed info e now).counts mine =
      { m.counts mine with
        errors := (m.counts mine).errors + (mine info.service).toNat
        timed := (m.counts mine).timed + (mine info.service).toNat } := by
  have hk : FitsCode named (info.service ++ codeText e)
      (Family.serviceOf [("code", codeText e), ("service", info.service)]) :=
    ⟨info.endpoint, e, hn, rfl⟩
  have htotal := Family.total_update mine id 0 (· + 1) hf.errors hk
    (fun _ _ => ha.of_codes) rfl fun _ => rfl
  have herrors : Filed named { m with
      errors := Family.update m.errors (info.service ++ codeText e)
        [("code", codeText e), ("service", info.service)] 0 (· + 1) } :=
    ⟨hf.attempts, hf.calls, hf.errors.update hk, hf.durations⟩
  obtain ⟨hfiled, hcounts⟩ := timed_spec ha herrors hn now
  refine ⟨hfiled, hcounts.trans ?_⟩
  simp only [counts, htotal]
  rfl

/-- Two services with an endpoint each, whose joined names are the same: one has all the calls. -/
example :
    let m := (({} : Metrics).succeeded ⟨"a", "bc", "", 0, .empty, .empty, 0⟩ 0).succeeded
      ⟨"ab", "c", "", 0, .empty, .empty, 0⟩ 0
    ((m.counts (· == "a")).calls, (m.counts (· == "ab")).calls) = (2, 0) := by
  decide +kernel

end Metrics
end Switchboard.Client
