import Mathlib.Data.List.Induction
import Switchboard.Proofs.Client.Answering
import Switchboard.Proofs.Client.CallLoop
import Switchboard.Proofs.Client.ResponseCache
import Switchboard.Proofs.Client.Traffic
import Switchboard.Proofs.Rpc.Fingerprint
import Switchboard.Proofs.Runs

/-! A response out of the cache is the latest that was stored for such a request, and has come to a
call before. -/
namespace Switchboard.Client.Traffic

open Rpc

variable {σ : Type} {s s' s₀ : Traffic σ} {mv : Move} {ms : List Move} {i j : Nat}
  {m : Client.Moment} {call call' : Call} {e : CallEvent} {r r' : Response} {a : Request}
  {rs : List Request} {earned : Nat → Response → Prop} {cache cache' : ResponseCache}

def calls (s : Traffic σ) : List Call := s.parties.map (·.call)

/-- The reply that a call is given next is one with this response. -/
inductive Receives (s : Traffic σ) (i : Nat) (r : Response) : Prop
  | mk (call : Call) (conn : Connection) (frame : Frame) (k : Nat) (l : Line) (place : Nat)
    (f : Frame) (loop : Retry Outcome) (a : Attempt) (out : Outgoing)
    (hp : s.parties[i]? = some ⟨call, some (.exchange conn frame), some k⟩)
    (hl : s.lines[conn.id]? = some l) (hr : l.replies[l.received]? = some (place, f))
    (hs : call.stage = .exchanging loop a out conn)
    (hd : (Exchange.decode out (.frame f)).bind Exchange.accept = .ok r)

/-- A running call has a response after this move. -/
structure Answers (s : Traffic σ) (mv : Move) (i : Nat) (call : Call) (r : Response) : Prop where
  asks : s.calls[i]? = some call
  running : call.result? = none
  answer : ∃ call', (s.step mv).calls[i]? = some call' ∧ call'.stage.Answered r

/-- Calls that have begun leave their responses in the cache if they are told to. -/
def Stores (a : Request) (r : Response) (ends : Instant) (s : Traffic σ) (mv : Move) : Prop :=
  ∃ i m call ttl, mv = .proceed i m ∧ s.Answers mv i call r ∧ call.stage ≠ .fresh ∧
    call.options.cacheFor = some ttl ∧ call.request = a ∧ ends = m.now + ttl

/-- A response has come to a call. -/
def Earned (s₀ : Traffic σ) (ms : List Move) (i : Nat) (r : Response) : Prop :=
  ∃ j, Runs.At step (fun s mv => (∃ m, mv = .deliver i m) ∧ s.Receives i r) s₀ ms j

/-- The requests of all calls. -/
def asked (ms : List Move) : List Request :=
  ms.filterMap fun
    | .call _ r _ _ => some r
    | _ => none

/-- What a move does to the calls and to the responses kept. -/
inductive Goes (s : Traffic σ) : Move → Traffic σ → Prop
  | rests (mv : Move) (s' : Traffic σ) (hc : s'.client.cache = s.client.cache)
    (hs : s'.calls = s.calls) : Goes s mv s'
  | comes (context : Context) (a : Request) (o : Options) (opens : Bool) (s' : Traffic σ)
    (hc : s'.client.cache = s.client.cache)
    (hs : s'.calls = s.calls ++ [Call.new context a o opens]) : Goes s (.call context a o opens) s'
  | steps (mv : Move) (i : Nat) (m : Client.Moment) (call : Call) (e : CallEvent) (s' : Traffic σ)
    (hi : s.calls[i]? = some call) (hp : e = .proceed → mv = .proceed i m)
    (hx : ∀ x loop a out conn r, e = .arrived x → call.stage = .exchanging loop a out conn →
      (Exchange.decode out x).bind Exchange.accept = .ok r →
        (∃ m, mv = .deliver i m) ∧ s.Receives i r)
    (hc : s'.client.cache = (s.client.step m call e).1.cache)
    (hs : s'.calls = s.calls.set i (s.client.step m call e).2.1) : Goes s mv s'

theorem calls_getElem? {wait : Option Wait} {posted : Option Nat}
    (hp : s.parties[i]? = some ⟨call, wait, posted⟩) : s.calls[i]? = some call := by
  rw [calls, List.getElem?_map, hp]
  rfl

theorem set_of_getElem? {α : Type} {xs : List α} {x : α} (h : xs[i]? = some x) :
    xs.set i x = xs := by
  obtain ⟨hi, rfl⟩ := List.getElem?_eq_some_iff.1 h
  exact List.set_getElem_self hi

theorem goes_happen {s₁ : Traffic σ} {wait : Option Wait} {posted : Option Nat}
    (hp : s.parties[i]? = some ⟨call, wait, posted⟩) (hc : s₁.client = s.client)
    (hs : s₁.parties = s.parties) (he : e = .proceed → mv = .proceed i m)
    (hx : ∀ x loop a out conn r, e = .arrived x → call.stage = .exchanging loop a out conn →
      (Exchange.decode out x).bind Exchange.accept = .ok r →
        (∃ m, mv = .deliver i m) ∧ s.Receives i r) :
    Goes s mv (s₁.happen i m call e) := by
  refine .steps mv i m call e _ (calls_getElem? hp) he hx ?_ ?_
  · rw [happen, hc]
  · rw [happen, hc, calls, hs, List.map_set]
    rfl

/-- What comes to a call but brings it no answer. -/
theorem goes_happen_unanswered {s₁ : Traffic σ} {wait : Option Wait} {posted : Option Nat}
    (hp : s.parties[i]? = some ⟨call, wait, posted⟩) (hc : s₁.client = s.client)
    (hs : s₁.parties = s.parties) (he : e = .proceed → mv = .proceed i m)
    (hx : ∀ x out, e = .arrived x → (Exchange.decode out x).isOk = false) :
    Goes s mv (s₁.happen i m call e) := by
  refine goes_happen hp hc hs he ?_
  intro x loop a out conn r hx' hstage hd
  have hbad := hx x out hx'
  cases hdecode : Exchange.decode out x with
  | error er =>
    rw [hdecode] at hd
    cases hd
  | ok message =>
    rw [hdecode] at hbad
    cases hbad

/-- All that a move can do to the calls and the response cache. -/
theorem goes_step (hf : s.Fits) (mv : Move) : Goes s mv (s.step mv) := by
  have idle : Goes s mv s := .rests mv s rfl rfl
  cases mv with
  | call context a o opens =>
    refine .comes context a o opens _ rfl ?_
    rw [step, calls, List.map_append]
    rfl
  | proceed i m =>
    simp only [step]
    split
    · rename_i hp
      exact goes_happen_unanswered hp rfl rfl (fun _ => rfl) (by rintro x out ⟨⟩)
    · exact idle
  | selected i m x =>
    simp only [step]
    split
    · rename_i hp
      exact goes_happen_unanswered hp rfl rfl (by rintro ⟨⟩) (by rintro x out ⟨⟩)
    · exact idle
  | dialled i m x =>
    simp only [step]
    split
    · rename_i hp
      exact goes_happen_unanswered hp rfl rfl (by rintro ⟨⟩) (by rintro x out ⟨⟩)
    · rename_i hp
      exact goes_happen_unanswered hp rfl rfl (by rintro ⟨⟩) (by rintro x out ⟨⟩)
    · exact idle
  | post i =>
    simp only [step]
    split
    · rename_i call conn frame hp
      split
      · refine .rests _ _ rfl ?_
        change (s.parties.set i _).map (·.call) = s.parties.map (·.call)
        rw [List.map_set]
        exact set_of_getElem? (calls_getElem? hp)
      · exact idle
    · exact idle
  | deliver i m =>
    simp only [step]
    split
    · rename_i call conn frame k hp
      split
      · rename_i l hl
        split
        · rename_i place f hr
          -- The frame is decoded for what the call sent, since the call waits for an answer to it.
          refine goes_happen hp rfl rfl (by rintro ⟨⟩) ?_
          intro x loop a out conn' r hx hstage hd
          cases hx
          have hwait := hf.wait hp
          rw [hstage] at hwait
          cases hwait
          exact ⟨⟨m, rfl⟩, .mk call conn _ k l place f loop a out hp hl hr hstage hd⟩
        · exact idle
      · exact idle
    · exact idle
  | fail i m x =>
    simp only [step]
    split
    · rename_i hp
      refine goes_happen_unanswered hp rfl rfl (by rintro ⟨⟩) ?_
      rintro x out ⟨⟩
      rfl
    · exact idle
  | expire i m =>
    simp only [step]
    split
    · rename_i hp
      refine goes_happen_unanswered hp rfl rfl (by rintro ⟨⟩) ?_
      rintro x out ⟨⟩
      rfl
    · exact idle
  | reply n place f =>
    simp only [step]
    split
    · split
      · exact .rests _ _ rfl rfl
      · exact idle
    · exact idle
  | say n i f =>
    simp only [step]
    split
    · split
      · exact .rests _ _ rfl rfl
      · exact idle
    · exact idle
  | hear n =>
    simp only [step]
    split
    · split
      · exact .rests _ _ rfl rfl
      · exact idle
    · exact idle
  | close => exact .rests _ _ rfl rfl

/-- A call, and no other, has its response by this move. -/
structure Gives (s : Traffic σ) (mv : Move) (i : Nat) (call : Call) (r : Response) : Prop where
  answers : s.Answers mv i call r
  alone : ∀ j call' r', s.Answers mv j call' r' → j = i

theorem Gives.unique (h : s.Gives mv i call r) (h' : s.Answers mv j call' r') :
    j = i ∧ call' = call ∧ r' = r := by
  obtain rfl := h.alone j call' r' h'
  obtain ⟨⟨hcall, -, d, hd, hr⟩, -⟩ := h
  obtain ⟨hcall', -, d', hd', hr'⟩ := h'
  cases hcall.symm.trans hcall'
  cases hd.symm.trans hd'
  cases hr.symm.trans hr'
  exact ⟨rfl, rfl, rfl⟩

/-- All that a move can do to the responses kept, with the response that it gives. -/
inductive Tends (earned : Nat → Response → Prop) (s : Traffic σ) : Move → ResponseCache → Prop
  | leaves (mv : Move) (hn : ∀ i call r, ¬ s.Answers mv i call r) :
    Tends earned s mv s.client.cache
  | looks (i : Nat) (m : Client.Moment) (call : Call) (ttl : Duration)
    (hi : s.calls[i]? = some call) (hf : call.stage = .fresh) (ho : call.opens = false)
    (hc : call.options.cacheFor = some ttl)
    (hg : (s.client.cache.get m.now call.request).2 = none)
    (hn : ∀ j call' r, ¬ s.Answers (.proceed i m) j call' r) :
    Tends earned s (.proceed i m) (s.client.cache.get m.now call.request).1
  | hits (i : Nat) (m : Client.Moment) (call : Call) (r : Response) (ttl : Duration)
    (ha : s.Gives (.proceed i m) i call r) (hf : call.stage = .fresh) (ho : call.opens = false)
    (hc : call.options.cacheFor = some ttl)
    (hg : (s.client.cache.get m.now call.request).2 = some r) :
    Tends earned s (.proceed i m) (s.client.cache.get m.now call.request).1
  | stores (i : Nat) (m : Client.Moment) (call : Call) (r : Response) (ttl : Duration)
    (ha : s.Gives (.proceed i m) i call r) (hf : call.stage ≠ .fresh) (ho : call.opens = false)
    (hr : earned i r) (hc : call.options.cacheFor = some ttl) :
    Tends earned s (.proceed i m) (s.client.cache.set m.now call.request r ttl)
  | gives (i : Nat) (m : Client.Moment) (call : Call) (r : Response)
    (ha : s.Gives (.proceed i m) i call r) (hf : call.stage ≠ .fresh) (ho : call.opens = false)
    (hr : earned i r) (hc : call.options.cacheFor = none) :
    Tends earned s (.proceed i m) s.client.cache

/-- What the calls ask for, and what they have come to. -/
def Orderly (rs : List Request) (earned : Nat → Response → Prop) (s : Traffic σ) : Prop :=
  ∀ i (call : Call), s.calls[i]? = some call →
    call.request ∈ rs ∧ call.stage.Sound call.opens (earned i)

/-- No response is given where the calls that have one had it before. -/
theorem not_answers (h : ∀ (j : Nat) (d : Call) r, (s.step mv).calls[j]? = some d →
    d.stage.Answered r → ∃ d' : Call, s.calls[j]? = some d' ∧ d.stage = d'.stage) (i : Nat)
    (call : Call) (r : Response) : ¬ s.Answers mv i call r := by
  rintro ⟨hcall, hrun, d, hd, hr⟩
  obtain ⟨d', hd', hstage⟩ := h i d r hd hr
  cases hcall.symm.trans hd'
  rw [Call.result?, ← hstage, hr] at hrun
  cases hrun

theorem not_answers_set {x : Call} (hs : (s.step mv).calls = s.calls.set i x)
    (hi : s.calls[i]? = some call) (hx : ∀ r, x.stage.Answered r → x.stage = call.stage) :
    ∀ j d r, ¬ s.Answers mv j d r := by
  refine not_answers ?_
  intro j d r hd hr
  rw [hs] at hd
  rcases getElem?_set_inv hd with ⟨rfl, rfl⟩ | ⟨-, hold⟩
  · exact ⟨call, hi, hx r hr⟩
  · exact ⟨d, hold, rfl⟩

theorem gives_set {x : Call} (hs : (s.step mv).calls = s.calls.set i x)
    (hi : s.calls[i]? = some call) (hr : call.result? = none) (hx : x.stage.Answered r) :
    s.Gives mv i call r := by
  refine ⟨⟨hi, hr, x, ?_, hx⟩, ?_⟩
  · rw [hs]
    exact List.getElem?_set_self (List.getElem?_eq_some_iff.1 hi).1
  · rintro j call' r' ⟨hcall, hrun, d, hd, hr'⟩
    rw [hs] at hd
    rcases getElem?_set_inv hd with ⟨rfl, -⟩ | ⟨-, hold⟩
    · rfl
    · cases hcall.symm.trans hold
      rw [Call.result?, hr'] at hrun
      cases hrun

theorem Orderly.mono {earned' : Nat → Response → Prop} {rs' : List Request}
    (hs : Orderly rs earned s) (hr : rs ⊆ rs') (he : ∀ i r, earned i r → earned' i r) :
    Orderly rs' earned' s :=
  fun i call hcall => ⟨hr (hs i call hcall).1, (hs i call hcall).2.mono (he i)⟩

theorem Orderly.set {x : Call} (hs : Orderly rs earned s) (hi : s.calls[i]? = some call)
    (he : s'.calls = s.calls.set i x) (hr : x.request = call.request)
    (hx : x.stage.Sound x.opens (earned i)) : Orderly rs earned s' := by
  intro j d hd
  rw [he] at hd
  rcases getElem?_set_inv hd with ⟨rfl, rfl⟩ | ⟨-, hd⟩
  · exact ⟨hr ▸ (hs i call hi).1, hx⟩
  · exact hs j d hd

theorem tends_of_yields {x : Call} (hs : Orderly rs earned s) (hi : s.calls[i]? = some call)
    (hp : e = .proceed → mv = .proceed i m) (hcalls : (s.step mv).calls = s.calls.set i x)
    (hy : Yields (earned i) s.client.cache m call e cache x) :
    Tends earned s mv cache ∧ Orderly rs earned (s.step mv) := by
  have done (r : Response) : Stage.Answered (.done (.ok (.response r))) r := rfl
  cases hy with
  | passes e stage next hstage hn =>
    exact ⟨.leaves mv (not_answers_set hcalls hi hn), hs.set hi hcalls rfl hstage⟩
  | misses stage next ttl hstage hn hfresh ho hcf hg =>
    cases hp rfl
    refine ⟨.looks i m call ttl hi hfresh ho hcf hg ?_, hs.set hi hcalls rfl hstage⟩
    exact not_answers_set hcalls hi fun r hr => absurd hr (hn r)
  | hits r ttl hfresh ho hcf hg =>
    cases hp rfl
    have hrun : call.result? = none := by rw [Call.result?, hfresh]
    have hgives := gives_set hcalls hi hrun (done r)
    exact ⟨.hits i m call r ttl hgives hfresh ho hcf hg, hs.set hi hcalls rfl trivial⟩
  | stores r ttl hfresh hrun ho hr hcf =>
    cases hp rfl
    have hgives := gives_set hcalls hi hrun (done r)
    exact ⟨.stores i m call r ttl hgives hfresh ho hr hcf, hs.set hi hcalls rfl trivial⟩
  | gives r hfresh hrun ho hr hcf =>
    cases hp rfl
    have hgives := gives_set hcalls hi hrun (done r)
    exact ⟨.gives i m call r hgives hfresh ho hr hcf, hs.set hi hcalls rfl trivial⟩

/-- What a move does to the response cache is to answer from it, to store in it, or to drop from it.
-/
theorem tends_step (hs : Orderly rs earned s) (hf : s.Fits)
    (ha : ∀ context a o opens, mv = .call context a o opens → a ∈ rs)
    (he : ∀ i m r, mv = .deliver i m → s.Receives i r → earned i r) :
    Tends earned s mv (s.step mv).client.cache ∧ Orderly rs earned (s.step mv) := by
  have hgoes := goes_step hf mv
  generalize hst : s.step mv = s' at hgoes
  cases hgoes with
  | rests mv s' hc hcalls =>
    rw [hc]
    refine ⟨.leaves mv (not_answers ?_), ?_⟩
    · intro j d r hd _
      rw [hst, hcalls] at hd
      exact ⟨d, hd, rfl⟩
    · intro j d hd
      exact hs j d (hcalls ▸ hd)
  | comes context a o opens s' hc hcalls =>
    rw [hc]
    have old {j : Nat} {d : Call} (hd : s'.calls[j]? = some d) :
        s.calls[j]? = some d ∨ d = Call.new context a o opens := by
      rw [hcalls] at hd
      exact (getElem?_snoc hd).imp And.right And.right
    refine ⟨.leaves _ (not_answers ?_), ?_⟩
    · intro j d r hd hr
      rw [hst] at hd
      rcases old hd with hd | rfl
      · exact ⟨d, hd, rfl⟩
      · cases hr
    · intro j d hd
      rcases old hd with hd | rfl
      · exact hs j d hd
      · exact ⟨ha context _ o opens rfl, trivial⟩
  | steps mv i m call e s' hi hp hx hc hcalls =>
    have hy : Yields (earned i) s.client.cache m call e (s.client.step m call e).1.cache
        (s.client.step m call e).2.1 := by
      refine yields_step (hs i call hi).2 ?_
      intro x loop a out conn r he' hstage hd
      obtain ⟨⟨m', hmv⟩, hr⟩ := hx x loop a out conn r he' hstage hd
      exact he i m' r hmv hr
    rw [hc]
    exact hst ▸ tends_of_yields hs hi hp (hst ▸ hcalls) hy

/-! What the calls of a run have left. -/

/-- A response kept was left by the last call to leave one under its key. -/
def Traced (s₀ : Traffic σ) (ms : List Move) (cache : ResponseCache) : Prop :=
  ∀ key e, cache.entry? key = some e →
    ∃ j a, a ∈ asked ms ∧ a.fingerprint = key ∧
      Runs.At step (Stores a e.response e.expires) s₀ ms j ∧
      ∀ k b r ends, j < k → Runs.At step (Stores b r ends) s₀ ms k → b.fingerprint ≠ key

structure Kept (s₀ : Traffic σ) (ms : List Move) : Prop where
  fits : (s₀.run ms).Fits
  orderly : Orderly (asked ms) (Earned s₀ ms) (s₀.run ms)
  traced : Traced s₀ ms (s₀.run ms).client.cache

theorem run_snoc : s₀.run (ms ++ [mv]) = (s₀.run ms).step mv := by
  rw [run, List.foldl_append]
  rfl

theorem asked_snoc : asked ms ⊆ asked (ms ++ [mv]) := by
  rw [asked, asked, List.filterMap_append]
  exact List.subset_append_left _ _

/-- A response that a call has earned it has earned for good. -/
theorem Earned.snoc (h : Earned s₀ ms i r) : Earned s₀ (ms ++ [mv]) i r := by
  obtain ⟨j, hj⟩ := h
  exact ⟨j, Runs.at_snoc.2 (.inl hj)⟩

theorem earned_snoc (hm : mv = .deliver i m) (hr : (s₀.run ms).Receives i r) :
    Earned s₀ (ms ++ [mv]) i r :=
  ⟨ms.length, Runs.at_snoc.2 (.inr ⟨rfl, ⟨m, hm⟩, hr⟩)⟩

theorem Traced.snoc (h : Traced s₀ ms cache)
    (hc : ∀ key e, cache'.entry? key = some e →
      cache.entry? key = some e ∧
        (∀ b r ends, Stores b r ends (s₀.run ms) mv → b.fingerprint ≠ key) ∨
      ∃ a ∈ asked ms, a.fingerprint = key ∧ Stores a e.response e.expires (s₀.run ms) mv) :
    Traced s₀ (ms ++ [mv]) cache' := by
  intro key e he
  rcases hc key e he with ⟨hold, hnone⟩ | ⟨a, ha, hkey, hstore⟩
  · obtain ⟨j, a, ha, hkey, hj, hlast⟩ := h key e hold
    refine ⟨j, a, asked_snoc ha, hkey, Runs.at_snoc.2 (.inl hj), ?_⟩
    intro k b r ends hk hb
    rcases Runs.at_snoc.1 hb with hb | ⟨-, hb⟩
    · exact hlast k b r ends hk hb
    · exact hnone b r ends hb
  · refine ⟨ms.length, a, asked_snoc ha, hkey, Runs.at_snoc.2 (.inr ⟨rfl, hstore⟩), ?_⟩
    intro k b r ends hk hb
    have hlt := hb.lt
    rw [List.length_append, List.length_singleton] at hlt
    omega

/-- Of the calls, only one that has just stored a response brings it in. -/
theorem Traced.step (h : Traced s₀ ms (s₀.run ms).client.cache)
    (ho : Orderly (asked ms) (Earned s₀ ms) (s₀.run ms)) (ht : Tends earned (s₀.run ms) mv cache) :
    Traced s₀ (ms ++ [mv]) cache := by
  refine h.snoc ?_
  intro key e he
  cases ht with
  | leaves mv hn =>
    refine .inl ⟨he, ?_⟩
    rintro b r ends ⟨i, m, call, ttl, -, ha, -⟩
    exact absurd ha (hn i call r)
  | looks i m call ttl hi hf hopens hc hg hn =>
    refine .inl ⟨ResponseCache.entry?_get he, ?_⟩
    rintro b r ends ⟨i', m', call', ttl', -, ha, -⟩
    exact absurd ha (hn i' call' r)
  | hits i m call r ttl ha hf hopens hc hg =>
    -- A call that is fresh gives a response, but leaves none.
    refine .inl ⟨ResponseCache.entry?_get he, ?_⟩
    rintro b r' ends ⟨i', m', call', ttl', -, ha', hf', -⟩
    obtain ⟨-, rfl, -⟩ := ha.unique ha'
    exact absurd hf hf'
  | stores i m call r ttl ha hf hopens hr hc =>
    rcases ResponseCache.entry?_set he with ⟨hkey, rfl, hends⟩ | ⟨hkey, hold⟩
    · have hasked := (ho i call ha.answers.asks).1
      exact .inr ⟨call.request, hasked, hkey, i, m, call, ttl, rfl, ha.answers, hf, hc, rfl, hends⟩
    · refine .inl ⟨hold, ?_⟩
      rintro b r' ends ⟨i', m', call', ttl', -, ha', -, -, rfl, -⟩
      obtain ⟨-, rfl, -⟩ := ha.unique ha'
      exact hkey
  | gives i m call r ha hf hopens hr hc =>
    refine .inl ⟨he, ?_⟩
    rintro b r' ends ⟨i', m', call', ttl', -, ha', -, hc', -⟩
    obtain ⟨-, rfl, -⟩ := ha.unique ha'
    rw [hc] at hc'
    cases hc'

theorem Kept.tends (h : Kept s₀ ms) (mv : Move) :
    Tends (Earned s₀ (ms ++ [mv])) (s₀.run ms) mv ((s₀.run ms).step mv).client.cache ∧
      Orderly (asked (ms ++ [mv])) (Earned s₀ (ms ++ [mv])) ((s₀.run ms).step mv) := by
  refine tends_step (h.orderly.mono asked_snoc fun _ _ => Earned.snoc) h.fits ?_ ?_
  · rintro context a o opens rfl
    rw [asked, List.filterMap_append]
    exact List.mem_append_right _ List.mem_cons_self
  · intro i m r hm hr
    exact earned_snoc hm hr

/-- An entry of the response cache goes back to the call that stored it. -/
theorem Kept.snoc (h : Kept s₀ ms) (mv : Move) : Kept s₀ (ms ++ [mv]) := by
  obtain ⟨ht, ho⟩ := h.tends mv
  rw [← run_snoc] at ho
  refine ⟨?_, ho, ?_⟩
  · rw [run_snoc]
    exact h.fits.step (step_trans h.fits mv)
  · rw [run_snoc]
    exact h.traced.step h.orderly ht

theorem kept_run (config : Config) (codecs : CodecSet) (wrappers : Chain σ) (hooks : σ)
    (ms : List Move) : Kept (new config codecs wrappers hooks) ms := by
  induction ms using List.reverseRecOn with
  | nil =>
    refine ⟨fits_new config codecs wrappers hooks, ?_, ?_⟩
    · intro i call hcall
      cases hcall
    · intro key e he
      cases he
  | append_singleton ms mv ih => exact ih.snoc mv


/-- A hit touches nothing but the cache. -/
theorem Answers.skips (h : s.Answers (.proceed i m) i call r) (hf : s.Fits)
    (hs : call.stage = .fresh) : (s.step (.proceed i m)).lines = s.lines ∧
      (s.step (.proceed i m)).client =
        { s.client with cache := (s.client.cache.get m.now call.request).1 } := by
  obtain ⟨hcall, -, call', hcall', hr⟩ := h
  rw [calls, List.getElem?_map, Option.map_eq_some_iff] at hcall
  obtain ⟨⟨call, wait, posted⟩, hp, rfl⟩ := hcall
  have hfresh : call.stage = .fresh := hs
  obtain rfl : wait = none := by
    rw [← hf.wait hp, hfresh]
    rfl
  have hmove : s.step (.proceed i m) = s.happen i m call .proceed := by simp only [step, hp]
  have hstart : s.client.step m call .proceed = s.client.start m call := by
    simp only [Client.step, Client.proceed, hfresh]
  rw [hmove, happen, hstart] at hcall' ⊢
  have hlt : i < s.parties.length := (List.getElem?_eq_some_iff.1 hp).1
  rw [calls, List.getElem?_map, List.getElem?_set_self hlt] at hcall'
  cases hcall'
  exact ⟨rfl, (start_answered hr).1⟩

/-- A call without a response has looked one up that had expired, so that it goes. -/
def Drops (s : Traffic σ) (mv : Move) : Prop :=
  ∃ i m call ttl e, mv = .proceed i m ∧ s.calls[i]? = some call ∧ call.stage = .fresh ∧
    call.opens = false ∧ call.options.cacheFor = some ttl ∧
    s.client.cache.entry? call.request.fingerprint = some e ∧ e.expires ≤ m.now ∧
    (s.step mv).client.cache =
      { s.client.cache with entries := s.client.cache.without call.request.fingerprint }

/-- A call before has left this response for such a request, for longer than until now, and none has
left another since. -/
def Left (s₀ : Traffic σ) (ms : List Move) (now : Instant) (a : Request) (r : Response) : Prop :=
  ∃ j b ends, b.Alike a ∧ now < ends ∧ Runs.At step (Stores b r ends) s₀ ms j ∧
    ∀ k b' r' ends', j < k → Runs.At step (Stores b' r' ends') s₀ ms k → ¬ b'.Alike a

/-- Where the responses of calls come from, and what becomes of the responses kept. -/
structure Recalls (s₀ : Traffic σ) (ms : List Move) (mv : Move) : Prop where
  proceeds : ∀ i call r, (s₀.run ms).Answers mv i call r →
    call.opens = false ∧ ∃ m, mv = .proceed i m
  recalled : ∀ i m call r, mv = .proceed i m → (s₀.run ms).Answers mv i call r →
    call.stage = .fresh →
      (∃ ttl, call.options.cacheFor = some ttl) ∧ Left s₀ ms m.now call.request r ∧
      ((s₀.run ms).step mv).lines = (s₀.run ms).lines ∧
      ((s₀.run ms).step mv).client = { (s₀.run ms).client with
        cache := ((s₀.run ms).client.cache.get m.now call.request).1 }
  earned : ∀ i call r, (s₀.run ms).Answers mv i call r → call.stage ≠ .fresh → Earned s₀ ms i r
  stored : ∀ i m call r ttl, mv = .proceed i m → (s₀.run ms).Answers mv i call r →
    call.stage ≠ .fresh → call.options.cacheFor = some ttl →
      ((s₀.run ms).step mv).client.cache =
        (s₀.run ms).client.cache.set m.now call.request r ttl
  touched : ((s₀.run ms).step mv).client.cache ≠ (s₀.run ms).client.cache →
    ∃ i m call ttl, mv = .proceed i m ∧ (s₀.run ms).calls[i]? = some call ∧
      call.opens = false ∧ call.options.cacheFor = some ttl
  dropped : ((s₀.run ms).step mv).client.cache ≠ (s₀.run ms).client.cache →
    (∀ i call r, ¬ (s₀.run ms).Answers mv i call r) → (s₀.run ms).Drops mv

/-- A response found in the cache was left by a call for such a request, and has not expired. -/
theorem Kept.left (h : Kept s₀ ms) (hsize : ∀ r ∈ asked ms, r.Fits)
    (hsha : Request.NoCollision (asked ms)) (ha : a ∈ asked ms) {now : Instant}
    (hg : ((s₀.run ms).client.cache.get now a).2 = some r) : Left s₀ ms now a r := by
  rcases ResponseCache.get_cases (s₀.run ms).client.cache now a with
    ⟨-, hget⟩ | ⟨e, -, -, hget⟩ | ⟨e, he, hlt, hget⟩
  · rw [hget] at hg
    cases hg
  · rw [hget] at hg
    cases hg
  · rw [hget] at hg
    cases hg
    obtain ⟨j, b, hb, hkey, hj, hlast⟩ := h.traced _ e he
    refine ⟨j, b, e.expires, Request.alike_of_fingerprint hsha hsize hb ha hkey, hlt, hj, ?_⟩
    intro k b' r' ends' hk hb' halike
    exact hlast k b' r' ends' hk hb' halike.fingerprint

/-- A call is answered from the cache when it begins, or with what it earned, and then that is
stored. -/
theorem Tends.answered (ht : Tends earned s mv cache)
    (ha : s.Answers mv i call r) : call.opens = false ∧ ∃ m, mv = .proceed i m ∧
      (call.stage = .fresh → (∃ ttl, call.options.cacheFor = some ttl) ∧
        (s.client.cache.get m.now call.request).2 = some r) ∧
      (call.stage ≠ .fresh → earned i r ∧ ∀ ttl, call.options.cacheFor = some ttl →
        cache = s.client.cache.set m.now call.request r ttl) := by
  cases ht with
  | leaves mv hn => exact absurd ha (hn i call r)
  | looks i' m call' ttl hi hf ho hc hg hn => exact absurd ha (hn i call r)
  | hits i' m call' r' ttl hgives hf ho hc hg =>
    obtain ⟨rfl, rfl, rfl⟩ := hgives.unique ha
    exact ⟨ho, m, rfl, fun _ => ⟨⟨ttl, hc⟩, hg⟩, fun hne => absurd hf hne⟩
  | stores i' m call' r' ttl hgives hf ho hr hc =>
    obtain ⟨rfl, rfl, rfl⟩ := hgives.unique ha
    refine ⟨ho, m, rfl, fun hfresh => absurd hfresh hf, fun _ => ⟨hr, ?_⟩⟩
    intro ttl' hc'
    cases hc.symm.trans hc'
    rfl
  | gives i' m call' r' hgives hf ho hr hc =>
    obtain ⟨rfl, rfl, rfl⟩ := hgives.unique ha
    refine ⟨ho, m, rfl, fun hfresh => absurd hfresh hf, fun _ => ⟨hr, ?_⟩⟩
    intro ttl' hc'
    cases hc.symm.trans hc'

/-- Only calls that ask for it touch the response cache. -/
theorem Tends.touched (ht : Tends earned s mv cache)
    (hne : cache ≠ s.client.cache) : ∃ i m call ttl, mv = .proceed i m ∧
      s.calls[i]? = some call ∧ call.opens = false ∧ call.options.cacheFor = some ttl := by
  cases ht with
  | leaves | gives => exact absurd rfl hne
  | looks i m call ttl hi hf ho hc => exact ⟨i, m, call, ttl, rfl, hi, ho, hc⟩
  | hits i m call r ttl ha hf ho hc => exact ⟨i, m, call, ttl, rfl, ha.answers.asks, ho, hc⟩
  | stores i m call r ttl ha hf ho hr hc => exact ⟨i, m, call, ttl, rfl, ha.answers.asks, ho, hc⟩

/-- Where no call is answered the cache can do nothing but drop an entry. -/
theorem Tends.drops (ht : Tends earned s mv (s.step mv).client.cache)
    (hne : (s.step mv).client.cache ≠ s.client.cache) (hn : ∀ i call r, ¬ s.Answers mv i call r) :
    s.Drops mv := by
  generalize hcache : (s.step mv).client.cache = cache at ht hne
  cases ht with
  | leaves => exact absurd rfl hne
  | hits i m call r ttl ha => exact absurd ha.answers (hn i call r)
  | stores i m call r ttl ha => exact absurd ha.answers (hn i call r)
  | gives i m call r ha => exact absurd ha.answers (hn i call r)
  | looks i m call ttl hi hf ho hc hg =>
    rcases ResponseCache.get_cases s.client.cache m.now call.request with
      ⟨-, hget⟩ | ⟨e, he, hle, hget⟩ | ⟨e, -, -, hget⟩
    · rw [hget] at hne
      exact absurd rfl hne
    · rw [hget] at hcache
      exact ⟨i, m, call, ttl, e, rfl, hi, hf, ho, hc, he, hle, hcache⟩
    · rw [hget] at hg
      cases hg

/-- In every run a response that a call has from the cache was left there by a like request. -/
theorem recalls_run (config : Config) (codecs : CodecSet) (wrappers : Chain σ) (hooks : σ)
    (ms : List Move) (mv : Move) (hsize : ∀ r ∈ asked ms, r.Fits)
    (hsha : Request.NoCollision (asked ms)) :
    Recalls (new config codecs wrappers hooks) ms mv := by
  have hk := kept_run config codecs wrappers hooks ms
  obtain ⟨ht, -⟩ := hk.tends mv
  refine ⟨?_, ?_, ?_, ?_, ht.touched, ht.drops⟩
  · intro i call r ha
    obtain ⟨ho, m, hm, -⟩ := ht.answered ha
    exact ⟨ho, m, hm⟩
  · rintro i m call r rfl ha hs
    obtain ⟨-, m', hm, hfresh, -⟩ := ht.answered ha
    cases hm
    obtain ⟨hc, hg⟩ := hfresh hs
    exact ⟨hc, hk.left hsize hsha (hk.orderly i call ha.asks).1 hg, ha.skips hk.fits hs⟩
  · intro i call r ha hs
    obtain ⟨-, m, rfl, -, hrest⟩ := ht.answered ha
    obtain ⟨j, hj⟩ := (hrest hs).1
    rcases Runs.at_snoc.1 hj with hj | ⟨-, ⟨m', hm'⟩, -⟩
    · exact ⟨j, hj⟩
    · cases hm'
  · rintro i m call r ttl rfl ha hs hc
    obtain ⟨-, m', hm, -, hrest⟩ := ht.answered ha
    cases hm
    exact (hrest hs).2 ttl hc

/-- A second call that asks the same has the response of the first, one millisecond before that
runs out. -/
theorem recalls_run_again :
    let a : Request := { service := "a", endpoint := "b", body := [1] }
    let o : Options := { addresses := ["n:1"], cacheFor := some 1000 }
    let at' (now : Instant) : Client.Moment := ⟨now, {}, fun _ => 0⟩
    let ask : Move := .call { token := ⟨0, []⟩ } a o false
    let ms : List Move := [ask, .proceed 0 (at' 0), .proceed 0 (at' 0), .dialled 0 (at' 0) (.ok ()),
      .post 0, .reply 0 0 ⟨.empty, [7]⟩, .deliver 0 (at' 1), .proceed 0 (at' 1), ask]
    let s₀ : Traffic Unit := new {} {} [] ()
    (∀ r ∈ asked ms, r.Fits) ∧ Request.NoCollision (asked ms) ∧
      Recalls s₀ ms (.proceed 1 (at' 1000)) ∧
      (((s₀.run ms).step (.proceed 1 (at' 1000))).calls.filterMap fun
        | { stage := .done (.ok (.response r)), .. } => some r.body
        | _ => none) = [[7], [7]] := by
  intro a o at' ask ms s₀
  have hasked : asked ms = [a, a] := rfl
  have hsize : ∀ r ∈ asked ms, r.Fits := by
    simp only [hasked, List.mem_cons, List.not_mem_nil, or_false, or_self, forall_eq]
    exact ⟨by decide, by decide, by decide⟩
  have hsha : Request.NoCollision (asked ms) := by
    simp [Request.NoCollision, hasked]
  exact ⟨hsize, hsha, recalls_run {} {} [] () ms _ hsize hsha, by decide +kernel⟩

end Switchboard.Client.Traffic
