import Switchboard.Proofs.Client.Headers
import Switchboard.Proofs.Client.Recall
import Switchboard.Proofs.Json.Number

/-! The frames that the calls of a client send, and the attempts that they come from. -/
namespace Switchboard.Client

open Discovery (Node)
open Rpc

variable {σ : Type} {c c' : Client σ} {m : Client.Moment} {call : Call} {loop : Retry Outcome}
  {n : Node} {info : AttemptInfo} {out : Outgoing} {e : CallEvent} {stage : Stage}

/-- What an attempt has to send, or has sent. -/
def Stage.outgoing? : Stage → Option Outgoing
  | .dialling _ a => a.outgoing.getLeft?
  | .exchanging _ _ out _ => some out
  | _ => none

/-- A unary attempt begins when the loop of the call is ready, and comes to a node. -/
def Call.begins (call : Call) (m : Client.Moment) : Bool :=
  match call.stage with
  | .looping loop =>
    match loop.phase, (loop.start call.rules (Client.check m call)).phase with
    | .ready, .trying _ => !call.opens
    | _, _ => false
  | _ => false

/-- A unary attempt begins on a node and has something to send; the wrappers make `info` of what
they are told of it. -/
inductive Drafts (c : Client σ) (m : Client.Moment) (call : Call) (n : Node) (info : AttemptInfo)
    (out : Outgoing) : Prop
  | mk (loop : Retry Outcome) (hooks : σ) (seq : UInt64) (ho : call.opens = false)
    (hs : call.stage = .looping loop) (hr : loop.phase = .ready)
    (hn : (loop.start call.rules (Client.check m call)).phase = .trying n)
    (hw : c.wrappers.onRequest m.now
      (call.info m.now n (loop.start call.rules (Client.check m call)).attempt) c.hooks =
        (hooks, info, .ok ()))
    (hd : Exchange.outgoing c.codecs c.seq call.request n info.headers
      (Exchange.timeout call.context m.now call.options) = (seq, .ok out))

/-- All that a step of a call can do to the numbers of messages and to what the call sends. -/
inductive Sends (c : Client σ) (m : Client.Moment) (call : Call) :
    CallEvent → Client σ → Call → Prop
  | rests (e : CallEvent) (c' : Client σ) (stage : Stage) (next : Next) (hs : c'.seq = c.seq)
    (hw : c'.wrappers = c.wrappers)
    (ho : ∀ out, stage.outgoing? = some out → call.stage.outgoing? = some out) :
    Sends c m call e c' { call with stage, next }
  | begins (c' : Client σ) (stage : Stage) (hb : call.begins m = true)
    (hs : c'.seq = c.seq ∨ c'.seq = c.seq + 1) (hw : c'.wrappers = c.wrappers)
    (ho : ∀ out, stage.outgoing? = some out → ∃ n info, Drafts c m call n info out) :
    Sends c m call .proceed c' { call with stage }

theorem sends_idle : Sends c m call e c call := .rests e c call.stage call.next rfl rfl fun _ => id

theorem Sends.quiet {next : Next} (hs : c'.seq = c.seq) (hw : c'.wrappers = c.wrappers)
    (ho : stage.outgoing? = none) : Sends c m call e c' { call with stage, next } := by
  refine .rests e c' stage next hs hw ?_
  intro out hout
  rw [ho] at hout
  cases hout

theorem sends_resume (hs : c'.seq = c.seq) (hw : c'.wrappers = c.wrappers) :
    Sends c m call e (c'.resume m call loop).1 (c'.resume m call loop).2 := by
  unfold Client.resume
  split
  · unfold Client.settle
    dsimp only
    split
    · exact .quiet hs hw rfl
    · exact .quiet hs hw rfl
  · exact .quiet hs hw rfl

theorem cached?_keeps (c : Client σ) (m : Client.Moment) (call : Call) :
    (c.cached? m call).1.seq = c.seq ∧ (c.cached? m call).1.wrappers = c.wrappers := by
  unfold Client.cached?
  split <;> exact ⟨rfl, rfl⟩

theorem sends_start : Sends c m call e (c.start m call).1 (c.start m call).2.1 := by
  obtain ⟨hs, hw⟩ := cached?_keeps c m call
  unfold Client.start
  split
  · exact .quiet rfl rfl rfl
  · split
    · rename_i c' r hc
      rw [hc] at hs hw
      exact .quiet hs hw rfl
    · rename_i c' hc
      rw [hc] at hs hw
      split
      · exact .quiet hs hw rfl
      · exact .quiet hs hw rfl

/-- A number is used up by an attempt at most, and by every one that has something to send. -/
theorem sends_transmit (hb : call.begins m = true) (hs : c'.seq = c.seq)
    (hw : c'.wrappers = c.wrappers)
    (hd : ∀ seq out, Exchange.outgoing c'.codecs c'.seq call.request n info.headers
      (Exchange.timeout call.context m.now call.options) = (seq, .ok out) →
        Drafts c m call n info out) :
    Sends c m call .proceed (c'.transmit m call loop n info).1
      (c'.transmit m call loop n info).2.1 := by
  unfold Client.transmit
  dsimp only
  split
  · rename_i seq e ho
    exact .begins _ _ hb (hs ▸ Exchange.seq_outgoing ho) hw (by rintro out ⟨⟩)
  · rename_i seq out ho
    obtain ⟨rfl, -⟩ := Exchange.outgoing_eq_ok ho
    have hdraft : ∀ out', some out = some out' → ∃ n info, Drafts c m call n info out' := by
      rintro out' ⟨⟩
      exact ⟨n, info, hd _ _ ho⟩
    unfold Client.connect
    dsimp only
    split
    · exact .begins _ _ hb (.inr (by rw [hs])) hw hdraft
    · exact .begins _ _ hb (.inr (by rw [hs])) hw hdraft

theorem sends_openChannel (hs : c'.seq = c.seq) (hw : c'.wrappers = c.wrappers) :
    Sends c m call e (c'.openChannel call loop n info).1 (c'.openChannel call loop n info).2.1 := by
  unfold Client.openChannel
  split
  · exact .quiet hs hw rfl
  · exact .quiet hs hw rfl

/-- An attempt draws a number where it composes a message, and nowhere else. -/
theorem sends_attempt (hs : call.stage = .looping loop) (hr : loop.phase = .ready)
    (hn : (loop.start call.rules (Client.check m call)).phase = .trying n) :
    Sends c m call .proceed
      (c.attempt m call (loop.start call.rules (Client.check m call)) n).1
      (c.attempt m call (loop.start call.rules (Client.check m call)) n).2.1 := by
  unfold Client.attempt
  dsimp only
  split
  · exact .quiet rfl rfl rfl
  · rename_i hw
    cases ho : call.opens with
    | true => exact sends_openChannel rfl rfl
    | false =>
      have hb : call.begins m = true := by simp [Call.begins, hs, hr, hn, ho]
      refine sends_transmit hb rfl rfl ?_
      intro seq out hd
      exact .mk loop _ seq ho hs hr hn (Prod.ext rfl (Prod.ext rfl hw)) hd

theorem report_keeps (c : Client σ) (m : Client.Moment) (info : AttemptInfo)
    (r : Except CallError Outcome) : (c.report m info r).seq = c.seq ∧
      (c.report m info r).wrappers = c.wrappers := by
  unfold Client.report
  split <;> exact ⟨rfl, rfl⟩

theorem sends_proceed (c : Client σ) (m : Client.Moment) (call : Call) :
    Sends c m call .proceed (c.proceed m call).1 (c.proceed m call).2.1 := by
  unfold Client.proceed
  cases hs : call.stage with
  | fresh => exact sends_start
  | looping loop =>
    dsimp only
    split
    · rename_i hr
      split
      · rename_i n hn
        exact sends_attempt hs hr hn
      · exact sends_resume rfl rfl
    · exact sends_resume rfl rfl
  | judging loop info r =>
    obtain ⟨hseq, hwrappers⟩ := report_keeps c m info r
    exact sends_resume hseq hwrappers
  | selecting | dialling | exchanging | done => exact sends_idle

theorem sends_dialled {a : Attempt} (hs : call.stage = .dialling loop a)
    (r : Except Transport.Error Nat) :
    Sends c m call e (c.dialled m call loop a r).1 (c.dialled m call loop a r).2.1 := by
  unfold Client.dialled
  split
  · exact .quiet rfl rfl rfl
  · split
    · rename_i out hout
      refine .rests _ _ _ call.next rfl rfl ?_
      rintro out' ⟨⟩
      rw [hs, Stage.outgoing?, hout]
      rfl
    · exact .quiet rfl rfl rfl

/-- An event makes a call compose one message at most, with a number of its own. -/
theorem sends_step (c : Client σ) (m : Client.Moment) (call : Call) (e : CallEvent) :
    Sends c m call e (c.step m call e).1 (c.step m call e).2.1 := by
  unfold Client.step
  split
  · exact sends_proceed c m call
  · exact .quiet rfl rfl rfl
  · exact .quiet rfl rfl rfl
  · rename_i hs
    exact sends_dialled hs _
  · exact .quiet rfl rfl rfl
  · exact sends_idle

/-- An attempt that has something to send has a number of its own. -/
theorem Drafts.step (h : Drafts c m call n info out) : call.begins m = true ∧
    (c.step m call .proceed).1.seq = c.seq + 1 := by
  obtain ⟨loop, hooks, seq, ho, hs, hr, hn, hw, hd⟩ := h
  refine ⟨by simp [Call.begins, hs, hr, hn, ho], ?_⟩
  obtain ⟨rfl, -⟩ := Exchange.outgoing_eq_ok hd
  simp only [Client.step, Client.proceed, hs, hr, hn, Client.attempt, hw, ho, Client.transmit, hd,
    Client.connect, Bool.false_eq_true, if_false]
  split <;> rfl

namespace Traffic

variable {s s' s₀ s₁ : Traffic σ} {mv mv' : Move} {ms ns : List Move} {i j k : Nat} {p : Party}
  {l l' : Line} {frame : Frame}

/-- A unary attempt begins by this move. -/
def begins (s : Traffic σ) : Move → Bool
  | .proceed i m =>
    match s.parties[i]? with
    | some ⟨call, none, _⟩ => call.begins m
    | _ => false
  | _ => false

/-- How many unary attempts begin. -/
def attempts : Traffic σ → List Move → Nat
  | _, [] => 0
  | s, mv :: ms => (s.begins mv).toNat + attempts (s.step mv) ms

/-- A unary attempt of call `i` begins by this move, and has something to send. -/
def Composes (i : Nat) (m : Client.Moment) (call : Call) (n : Node) (info : AttemptInfo)
    (out : Outgoing) (s : Traffic σ) (mv : Move) : Prop :=
  mv = .proceed i m ∧ (∃ posted, s.parties[i]? = some ⟨call, none, posted⟩) ∧
    Drafts s.client m call n info out

/-- Call `i` has sent a frame, and expects one reply to it. -/
def Sent (s : Traffic σ) (i : Nat) (frame : Frame) : Prop :=
  ∃ (n : Nat) (l : Line), s.lines[n]? = some l ∧ l.stream = false ∧ (i, frame) ∈ l.sent

/-- What a move does to the calls and to the numbers of their messages. -/
inductive Does (s : Traffic σ) : Move → Traffic σ → Prop
  | rests (mv : Move) (s' : Traffic σ) (hs : s'.client.seq = s.client.seq)
    (hw : s'.client.wrappers = s.client.wrappers) (hc : s'.calls = s.calls) : Does s mv s'
  | comes (context : Context) (r : Request) (o : Options) (opens : Bool) (s' : Traffic σ)
    (hs : s'.client.seq = s.client.seq) (hw : s'.client.wrappers = s.client.wrappers)
    (hc : s'.calls = s.calls ++ [Call.new context r o opens]) :
    Does s (.call context r o opens) s'
  | moves (mv : Move) (i : Nat) (call : Call) (stage : Stage) (next : Next) (s' : Traffic σ)
    (hi : s.calls[i]? = some call) (hs : s'.client.seq = s.client.seq)
    (hw : s'.client.wrappers = s.client.wrappers)
    (hc : s'.calls = s.calls.set i { call with stage, next })
    (ho : ∀ out, stage.outgoing? = some out → call.stage.outgoing? = some out) : Does s mv s'
  | attempts (i : Nat) (m : Client.Moment) (call : Call) (posted : Option Nat) (stage : Stage)
    (s' : Traffic σ) (hp : s.parties[i]? = some ⟨call, none, posted⟩)
    (hb : call.begins m = true)
    (hs : s'.client.seq = s.client.seq ∨ s'.client.seq = s.client.seq + 1)
    (hw : s'.client.wrappers = s.client.wrappers)
    (hc : s'.calls = s.calls.set i { call with stage })
    (ho : ∀ out, stage.outgoing? = some out → ∃ n info, Drafts s.client m call n info out) :
    Does s (.proceed i m) s'

/-- The call whose turn it is by this move, if any. -/
def turn? (s : Traffic σ) : Move → Option (Nat × Client.Moment × Call)
  | .proceed i m =>
    match s.parties[i]? with
    | some ⟨call, none, _⟩ => some (i, m, call)
    | _ => none
  | _ => none

/-- A move changes no call, brings a new one, or is a step of one call. -/
inductive Acts (s : Traffic σ) : Move → Traffic σ → Prop
  | rests (mv : Move) (s' : Traffic σ) (pool : Pool) (ht : s.turn? mv = none)
    (hc : s'.client = { s.client with pool }) (hs : s'.calls = s.calls) : Acts s mv s'
  | comes (context : Context) (r : Request) (o : Options) (opens : Bool) (s' : Traffic σ)
    (hc : s'.client = s.client) (hs : s'.calls = s.calls ++ [Call.new context r o opens]) :
    Acts s (.call context r o opens) s'
  | steps (mv : Move) (i : Nat) (m : Client.Moment) (call : Call) (e : CallEvent) (s' : Traffic σ)
    (hi : s.calls[i]? = some call)
    (ht : e = .proceed ∧ s.turn? mv = some (i, m, call) ∨ e ≠ .proceed ∧ s.turn? mv = none)
    (hc : s'.client = (s.client.step m call e).1)
    (hs : s'.calls = s.calls.set i (s.client.step m call e).2.1) : Acts s mv s'

theorem exists_of_turn? (h : s.turn? mv = some (i, m, call)) :
    mv = .proceed i m ∧ ∃ posted, s.parties[i]? = some ⟨call, none, posted⟩ := by
  unfold turn? at h
  split at h
  · split at h
    · rename_i hp
      cases h
      exact ⟨rfl, _, hp⟩
    · cases h
  · cases h

theorem acts_happen {wait : Option Wait} {posted : Option Nat}
    (hp : s.parties[i]? = some ⟨call, wait, posted⟩) (hl : s₁.client = s.client)
    (hs : s₁.parties = s.parties)
    (ht : e = .proceed ∧ s.turn? mv = some (i, m, call) ∨ e ≠ .proceed ∧ s.turn? mv = none) :
    Acts s mv (s₁.happen i m call e) := by
  refine .steps mv i m call e _ (calls_getElem? hp) ht ?_ ?_
  · rw [happen, hl]
  · rw [happen, hl, calls, hs, List.map_set]
    rfl

/-- What a move composes is composed by the call whose turn it is. -/
theorem acts_step (s : Traffic σ) (mv : Move) : Acts s mv (s.step mv) := by
  have idle (ht : s.turn? mv = none) : Acts s mv s := .rests mv s s.client.pool ht rfl rfl
  cases mv with
  | call context r o opens =>
    refine .comes context r o opens _ rfl ?_
    rw [step, calls, List.map_append]
    rfl
  | proceed i m =>
    simp only [step]
    split
    · rename_i hp
      exact acts_happen hp rfl rfl (.inl ⟨rfl, by simp only [turn?, hp]⟩)
    · exact idle (by simp only [turn?])
  | selected | fail | expire =>
    simp only [step]
    split
    · rename_i hp
      exact acts_happen hp rfl rfl (.inr ⟨by simp, rfl⟩)
    · exact idle rfl
  | dialled i m r =>
    simp only [step]
    split
    · rename_i hp
      exact acts_happen hp rfl rfl (.inr ⟨by simp, rfl⟩)
    · rename_i hp
      exact acts_happen hp rfl rfl (.inr ⟨by simp, rfl⟩)
    · exact idle rfl
  | post i =>
    simp only [step]
    split
    · rename_i call conn frame hp
      split
      · refine .rests _ _ s.client.pool rfl rfl ?_
        change (s.parties.set i _).map (·.call) = s.parties.map (·.call)
        rw [List.map_set]
        exact set_of_getElem? (calls_getElem? hp)
      · exact idle rfl
    · exact idle rfl
  | deliver i m =>
    simp only [step]
    split
    · rename_i hp
      split
      · split
        · exact acts_happen hp rfl rfl (.inr ⟨by simp, rfl⟩)
        · exact idle rfl
      · exact idle rfl
    · exact idle rfl
  | reply | say | hear =>
    simp only [step]
    split
    · split
      · exact .rests _ _ s.client.pool rfl rfl rfl
      · exact idle rfl
    · exact idle rfl
  | close => exact .rests _ _ _ rfl rfl rfl

/-- All that a move can do to the frames of the calls. -/
theorem does_step (s : Traffic σ) (mv : Move) : Does s mv (s.step mv) := by
  have h := acts_step s mv
  generalize s.step mv = s' at h
  cases h with
  | rests mv s' pool ht hc hs => exact .rests mv s' (by rw [hc]) (by rw [hc]) hs
  | comes context r o opens s' hc hs =>
    exact .comes context r o opens s' (by rw [hc]) (by rw [hc]) hs
  | steps mv i m call e s' hi ht hc hs =>
    have hsends := sends_step s.client m call e
    rw [← hc] at hsends
    generalize (s.client.step m call e).2.1 = call' at hsends hs
    generalize hc' : s'.client = c' at hsends
    cases hsends with
    | rests e c' stage next hseq hw ho =>
      exact .moves mv i call stage next s' hi (hc' ▸ hseq) (hc' ▸ hw) hs ho
    | begins c' stage hb hseq hw ho =>
      rcases ht with ⟨-, ht⟩ | ⟨he, -⟩
      · obtain ⟨rfl, posted, hp⟩ := exists_of_turn? ht
        exact .attempts i m call posted stage s' hp hb (hc' ▸ hseq) (hc' ▸ hw) hs ho
      · exact absurd rfl he

theorem begins_proceed {posted : Option Nat} (hp : s.parties[i]? = some ⟨call, none, posted⟩) :
    s.begins (.proceed i m) = call.begins m := by
  simp only [begins, hp]

/-- The counter grows by one at most, and not without an attempt. -/
theorem seq_step (s : Traffic σ) (mv : Move) : ∃ d ≤ (s.begins mv).toNat,
    (s.step mv).client.seq = s.client.seq + UInt64.ofNat d := by
  have same (x : UInt64) (hx : x = s.client.seq) :
      ∃ d ≤ (s.begins mv).toNat, x = s.client.seq + UInt64.ofNat d :=
    ⟨0, Nat.zero_le _, by rw [hx]; simp⟩
  have h := does_step s mv
  generalize s.step mv = s' at h
  cases h with
  | rests mv s' hs => exact same _ hs
  | comes context r o opens s' hs => exact same _ hs
  | moves mv i call stage next s' hi hs => exact same _ hs
  | attempts i m call posted stage s' hp hb hs =>
    rcases hs with hs | hs
    · exact same _ hs
    · refine ⟨1, ?_, hs⟩
      rw [begins_proceed hp, hb]
      exact Nat.le_refl 1

theorem wrappers_step (s : Traffic σ) (mv : Move) :
    (s.step mv).client.wrappers = s.client.wrappers := by
  have h := does_step s mv
  generalize s.step mv = s' at h
  cases h <;> assumption

theorem wrappers_run (s : Traffic σ) (ms : List Move) :
    (s.run ms).client.wrappers = s.client.wrappers := by
  induction ms generalizing s with
  | nil => rfl
  | cons mv ms ih => exact (ih (s.step mv)).trans (wrappers_step s mv)

/-- What a call is told does not change. -/
theorem getElem?_calls_step {stage : Stage} {next : Next}
    (h : s.calls[i]? = some { call with stage, next }) (mv : Move) :
    ∃ stage next, (s.step mv).calls[i]? = some { call with stage, next } := by
  have hd := does_step s mv
  generalize s.step mv = s' at hd
  have set {d : Call} {stage' : Stage} {next' : Next} {j : Nat} (hj : s.calls[j]? = some d)
      (hc : s'.calls = s.calls.set j { d with stage := stage', next := next' }) :
      ∃ stage next, s'.calls[i]? = some { call with stage, next } := by
    rw [hc]
    by_cases hij : j = i
    · subst hij
      cases h.symm.trans hj
      exact ⟨_, _, List.getElem?_set_self (List.getElem?_eq_some_iff.1 hj).1⟩
    · exact ⟨_, _, (List.getElem?_set_ne hij).trans h⟩
  cases hd with
  | rests mv s' hs hw hc => exact ⟨stage, next, hc ▸ h⟩
  | comes context r o opens s' hs hw hc =>
    refine ⟨stage, next, ?_⟩
    rw [hc, List.getElem?_append_left (List.getElem?_eq_some_iff.1 h).1, h]
  | moves mv j d stage' next' s' hj hs hw hc => exact set hj hc
  | attempts j m d posted stage' s' hp hb hs hw hc => exact set (calls_getElem? hp) hc

theorem getElem?_calls_run {stage : Stage} {next : Next}
    (h : s.calls[i]? = some { call with stage, next }) (ms : List Move) :
    ∃ stage next, (s.run ms).calls[i]? = some { call with stage, next } := by
  induction ms generalizing s stage next with
  | nil => exact ⟨stage, next, h⟩
  | cons mv ms ih =>
    obtain ⟨stage', next', h'⟩ := getElem?_calls_step h mv
    exact ih h'

/-- The counter has grown by no more than the attempts that were made. -/
theorem seq_run (s : Traffic σ) (ms : List Move) : ∃ d ≤ s.attempts ms,
    (s.run ms).client.seq = s.client.seq + UInt64.ofNat d := by
  induction ms generalizing s with
  | nil => exact ⟨0, Nat.le_refl 0, by simp [run]⟩
  | cons mv ms ih =>
    obtain ⟨d, hd, hseq⟩ := seq_step s mv
    obtain ⟨d', hd', hseq'⟩ := ih (s.step mv)
    refine ⟨d + d', Nat.add_le_add hd hd', ?_⟩
    show ((s.step mv).run ms).client.seq = _
    rw [hseq', hseq, UInt64.ofNat_add, UInt64.add_assoc]

theorem attempts_append (s : Traffic σ) (ms ns : List Move) :
    s.attempts (ms ++ ns) = s.attempts ms + (s.run ms).attempts ns := by
  induction ms generalizing s with
  | nil => simp [attempts, run]
  | cons mv ms ih =>
    rw [List.cons_append, attempts, ih, attempts, Nat.add_assoc]
    rfl

/-- A frame is new on its line when its call has just put it there. -/
theorem sent_setLine {f : Frame} (h : (s.setLine k l').Sent i f) :
    s.Sent i f ∨ l'.stream = false ∧ (i, f) ∈ l'.sent := by
  obtain ⟨n, l, hl, hstream, hmem⟩ := h
  rcases getElem?_set_inv hl with ⟨-, rfl⟩ | ⟨-, hl⟩
  · exact .inr ⟨hstream, hmem⟩
  · exact .inl ⟨n, l, hl, hstream, hmem⟩

theorem sent_addLine {stream : Bool} {ps : List Party} {f : Frame}
    (h : Sent { s with parties := ps, lines := s.lines ++ [Line.new stream] } i f) :
    s.Sent i f := by
  obtain ⟨n, l, hl, hstream, hmem⟩ := h
  rcases getElem?_snoc hl with ⟨-, hl⟩ | ⟨-, rfl⟩
  · exact ⟨n, l, hl, hstream, hmem⟩
  · cases hmem

/-- A frame on the wire was one that its call had composed. -/
theorem sent_step (hf : s.Fits) {f : Frame} (h : (s.step mv).Sent i f) :
    s.Sent i f ∨ ∃ call out, s.calls[i]? = some call ∧ call.stage.outgoing? = some out ∧
      out.frame = f := by
  have ht := step_trans hf mv
  generalize s.step mv = s' at h ht
  have old {n : Nat} {l : Line} (hl : s.lines[n]? = some l) (hs : l.stream = false)
      (hm : (i, f) ∈ l.sent) : s.Sent i f := ⟨n, l, hl, hs, hm⟩
  cases ht with
  | idle | called | turned | closed => exact .inl h
  | opened | connected => exact .inl (sent_addLine h)
  | posted j call conn frame l hp hl =>
    rcases sent_setLine h with h | ⟨hs, hm⟩
    · exact .inl h
    · rcases List.mem_append.1 hm with hm | hm
      · exact .inl (old hl hs hm)
      · cases List.mem_singleton.1 hm
        obtain ⟨loop, a, out, hstage, hframe⟩ := exists_exchanging (hf.wait hp)
        exact .inr ⟨call, out, calls_getElem? hp, by rw [hstage]; rfl, hframe⟩
  | replied n place frame l hl hp hr =>
    rcases sent_setLine h with h | ⟨hs, hm⟩
    · exact .inl h
    · exact .inl (old hl hs hm)
  | spoken mv n l l' hl hs hs' =>
    rcases sent_setLine h with h | ⟨hs, hm⟩
    · exact .inl h
    · rw [hs'] at hs
      cases hs
  | delivered j m p q conn frame l k failed client hp hw hk hl =>
    rcases sent_setLine h with h | ⟨hs, hm⟩
    · exact .inl h
    · exact .inl (old hl hs hm)

/-- An attempt of call `i` has had this to send. -/
def Composed (s₀ : Traffic σ) (ms : List Move) (i : Nat) (out : Outgoing) : Prop :=
  ∃ j m call n info, Runs.At step (Composes i m call n info out) s₀ ms j

/-- Whatever a call sends, or has yet to send, one of its attempts has composed. -/
structure Sourced (s₀ : Traffic σ) (ms : List Move) : Prop where
  fits : (s₀.run ms).Fits
  pending : ∀ i (call : Call) out, (s₀.run ms).calls[i]? = some call →
    call.stage.outgoing? = some out → Composed s₀ ms i out
  sent : ∀ i frame, (s₀.run ms).Sent i frame → ∃ out, Composed s₀ ms i out ∧ out.frame = frame

theorem Composed.snoc (h : Composed s₀ ms i out) : Composed s₀ (ms ++ [mv]) i out := by
  obtain ⟨j, m, call, n, info, hj⟩ := h
  exact ⟨j, m, call, n, info, Runs.at_snoc.2 (.inl hj)⟩

theorem composed_snoc (h : Composes i m call n info out (s₀.run ms) mv) :
    Composed s₀ (ms ++ [mv]) i out :=
  ⟨ms.length, m, call, n, info, Runs.at_snoc.2 (.inr ⟨rfl, h⟩)⟩

theorem Sourced.pending_snoc (h : Sourced s₀ ms) (hi : ((s₀.run ms).step mv).calls[i]? = some call)
    (ho : call.stage.outgoing? = some out) : Composed s₀ (ms ++ [mv]) i out := by
  have hd := does_step (s₀.run ms) mv
  generalize hs' : (s₀.run ms).step mv = s' at hi hd
  cases hd with
  | rests mv s' hs hw hc => exact (h.pending i call out (hc ▸ hi) ho).snoc
  | comes context r o opens s' hs hw hc =>
    rw [hc] at hi
    rcases getElem?_snoc hi with ⟨-, hi⟩ | ⟨-, rfl⟩
    · exact (h.pending i call out hi ho).snoc
    · cases ho
  | moves mv j d stage next s' hj hs hw hc hkeep =>
    rw [hc] at hi
    rcases getElem?_set_inv hi with ⟨rfl, rfl⟩ | ⟨-, hi⟩
    · exact (h.pending j d out hj (hkeep out ho)).snoc
    · exact (h.pending i call out hi ho).snoc
  | attempts j m d posted stage s' hp hb hs hw hc hdraft =>
    rw [hc] at hi
    rcases getElem?_set_inv hi with ⟨rfl, rfl⟩ | ⟨-, hi⟩
    · obtain ⟨n, info, hdrafts⟩ := hdraft out ho
      exact composed_snoc ⟨rfl, ⟨posted, hp⟩, hdrafts⟩
    · exact (h.pending i call out hi ho).snoc

/-- A frame sent or to be sent was composed by its own call in an attempt of the run. -/
theorem Sourced.snoc (h : Sourced s₀ ms) (mv : Move) : Sourced s₀ (ms ++ [mv]) where
  fits := by
    rw [run_snoc]
    exact h.fits.step (step_trans h.fits mv)
  pending i call out hi ho := by
    rw [run_snoc] at hi
    exact h.pending_snoc hi ho
  sent i frame hsent := by
    rw [run_snoc] at hsent
    rcases sent_step h.fits hsent with hsent | ⟨call, out, hi, ho, hframe⟩
    · obtain ⟨out, hout, hframe⟩ := h.sent i frame hsent
      exact ⟨out, hout.snoc, hframe⟩
    · exact ⟨out, (h.pending i call out hi ho).snoc, hframe⟩

theorem sourced_run (config : Config) (codecs : CodecSet) (wrappers : Chain σ) (hooks : σ)
    (ms : List Move) : Sourced (new config codecs wrappers hooks) ms := by
  induction ms using List.reverseRecOn with
  | nil =>
    refine ⟨fits_new config codecs wrappers hooks, ?_, ?_⟩
    · rintro i call out ⟨⟩
    · rintro i frame ⟨n, l, hl, -⟩
      cases hl
  | append_singleton ms mv ih => exact ih.snoc mv

/-- The moves before a place and those from it on. -/
theorem take_append_cons (h : ms[j]? = some mv) : ms = ms.take j ++ mv :: ms.drop (j + 1) := by
  obtain ⟨hlt, rfl⟩ := List.getElem?_eq_some_iff.1 h
  rw [List.getElem_cons_drop hlt, List.take_append_drop]

theorem Composes.begins {m : Client.Moment} (h : Composes i m call n info out s mv) :
    s.begins mv = true ∧ (s.step mv).client.seq = s.client.seq + 1 := by
  obtain ⟨rfl, ⟨posted, hp⟩, hd⟩ := h
  obtain ⟨hb, hseq⟩ := hd.step
  refine ⟨by rw [begins_proceed hp, hb], ?_⟩
  simp only [step, hp, happen, hseq]

/-- The number of a later attempt is ahead by those of the attempts between. -/
theorem exists_seq_between {m m' : Client.Moment} {call' : Call} {n' : Node}
    {info' : AttemptInfo} {out' : Outgoing} {i' : Nat}
    (hj : Runs.At step (Composes i m call n info out) s₀ ms j)
    (hk : Runs.At step (Composes i' m' call' n' info' out') s₀ ms k) (hjk : j < k) :
    ∃ d, d + 2 ≤ s₀.attempts ms ∧ (Runs.stage step s₀ ms k).client.seq =
      (Runs.stage step s₀ ms j).client.seq + UInt64.ofNat (1 + d) := by
  obtain ⟨mv, hmv, hc⟩ := hj
  obtain ⟨mv', hmv', hc'⟩ := hk
  obtain ⟨hb, hnext⟩ := hc.begins
  have hsplit : ms = ms.take k ++ mv' :: ms.drop (k + 1) := take_append_cons hmv'
  have hmid : ms.take k = ms.take j ++ mv :: (ms.take k).drop (j + 1) := by
    have hget : (ms.take k)[j]? = some mv := by rw [List.getElem?_take_of_lt hjk, hmv]
    have h := take_append_cons hget
    rwa [List.take_take, Nat.min_eq_left (Nat.le_of_lt hjk)] at h
  obtain ⟨d, hd, hseq⟩ := seq_run ((s₀.run (ms.take j)).step mv) ((ms.take k).drop (j + 1))
  refine ⟨d, ?_, ?_⟩
  · have hfirst := (congrArg s₀.attempts hmid).trans (attempts_append s₀ _ _)
    have hall := (congrArg s₀.attempts hsplit).trans (attempts_append s₀ _ _)
    have hone : (s₀.run (ms.take j)).begins mv = true := hb
    have hlast : (s₀.run (ms.take k)).begins mv' = true := hc'.begins.1
    rw [attempts, hone, Bool.toNat_true] at hfirst
    rw [attempts, hlast, Bool.toNat_true] at hall
    omega
  · have hstage : s₀.run (ms.take k) =
        ((s₀.run (ms.take j)).step mv).run ((ms.take k).drop (j + 1)) :=
      (congrArg s₀.run hmid).trans List.foldl_append
    calc (s₀.run (ms.take k)).client.seq
        = ((s₀.run (ms.take j)).step mv).client.seq + UInt64.ofNat d := by rw [hstage, hseq]
      _ = (s₀.run (ms.take j)).client.seq + 1 + UInt64.ofNat d := congrArg (· + _) hnext
      _ = (s₀.run (ms.take j)).client.seq + UInt64.ofNat (1 + d) := by
        rw [UInt64.ofNat_add, UInt64.add_assoc]
        rfl

/-- The numbers of two attempts differ, as long as they have not all been used up between. -/
theorem seq_ne (hn : s₀.attempts ms ≤ UInt64.size) {m m' : Client.Moment} {call' : Call} {n' : Node}
    {info' : AttemptInfo} {out' : Outgoing} {i' : Nat}
    (hj : Runs.At step (Composes i m call n info out) s₀ ms j)
    (hk : Runs.At step (Composes i' m' call' n' info' out') s₀ ms k) (hjk : j < k) :
    (Runs.stage step s₀ ms j).client.seq ≠ (Runs.stage step s₀ ms k).client.seq := by
  obtain ⟨d, hd, hseq⟩ := exists_seq_between hj hk hjk
  intro heq
  rw [hseq] at heq
  have hzero : UInt64.ofNat (1 + d) = 0 := UInt64.left_eq_add.1 heq
  have hmod : (1 + d) % UInt64.size = 0 := by
    have h := congrArg UInt64.toNat hzero
    rwa [UInt64.toNat_ofNat'] at h
  rw [Nat.mod_eq_of_lt (by omega)] at hmod
  omega

/-- What the calls of a client send, whatever the context, the request and the wrappers put into the
headers. -/
structure Dispatches (s₀ : Traffic σ) (ms : List Move) : Prop where
  composed : ∀ i frame, (s₀.run ms).Sent i frame → ∃ j m call n info out,
    Runs.At step (Composes i m call n info out) s₀ ms j ∧ out.frame = frame
  told : ∀ j i m call n info out, Runs.At step (Composes i m call n info out) s₀ ms j →
    ∃ stage next, (s₀.run ms).calls[i]? = some { call with stage, next }
  heads : ∀ j i m call n info out, Runs.At step (Composes i m call n info out) s₀ ms j →
    Heads call m.now n (Runs.stage step s₀ ms j).client.seq info.headers out.frame.header
  passes : (∀ w ∈ s₀.client.wrappers, Wrapper.Inserts w) → ∀ j i m call n info out,
    Runs.At step (Composes i m call n info out) s₀ ms j → ∃ attempt hooks adds,
      Chain.Adds m.now s₀.client.wrappers (call.info m.now n attempt) hooks adds info ∧
      ∀ key, key ∉ reserved → out.frame.header.get? key =
        ((adds.reverse.findSome? (·.get? key)).or (call.request.header.get? key)).or
          (call.context.metadata.get? key)
  apart : s₀.attempts ms ≤ UInt64.size → ∀ j k i i' m m' call call' n n' info info' out out',
    Runs.At step (Composes i m call n info out) s₀ ms j →
    Runs.At step (Composes i' m' call' n' info' out') s₀ ms k → j ≠ k →
      out.frame.header.get? Header.id ≠ out'.frame.header.get? Header.id

variable {m : Client.Moment}

theorem heads_of_at (h : Runs.At step (Composes i m call n info out) s₀ ms j) :
    Heads call m.now n (Runs.stage step s₀ ms j).client.seq info.headers out.frame.header := by
  obtain ⟨mv, -, -, -, loop, hooks, seq, ho, hs, hr, hn, hw, hd⟩ := h
  exact Exchange.heads_outgoing hd

theorem told_of_at (h : Runs.At step (Composes i m call n info out) s₀ ms j) :
    ∃ stage next, (s₀.run ms).calls[i]? = some { call with stage, next } := by
  obtain ⟨mv, -, -, ⟨posted, hp⟩, -⟩ := h
  have hcall : (s₀.run (ms.take j)).calls[i]? =
      some { call with stage := call.stage, next := call.next } := calls_getElem? hp
  obtain ⟨stage, next, hlast⟩ := getElem?_calls_run hcall (ms.drop j)
  refine ⟨stage, next, ?_⟩
  rwa [run, run, ← List.foldl_append, List.take_append_drop] at hlast

/-- The headers that wrappers only add to have the last value that anyone gave them. -/
theorem passes_of_at (hw : ∀ w ∈ s₀.client.wrappers, Wrapper.Inserts w)
    (h : Runs.At step (Composes i m call n info out) s₀ ms j) : ∃ attempt hooks adds,
    Chain.Adds m.now s₀.client.wrappers (call.info m.now n attempt) hooks adds info ∧
    ∀ key, key ∉ reserved → out.frame.header.get? key =
      ((adds.reverse.findSome? (·.get? key)).or (call.request.header.get? key)).or
        (call.context.metadata.get? key) := by
  have hheads := heads_of_at h
  obtain ⟨mv, -, -, -, loop, hooks, seq, -, -, -, -, hhooks, -⟩ := h
  have hwrappers : (Runs.stage step s₀ ms j).client.wrappers = s₀.client.wrappers :=
    wrappers_run s₀ (ms.take j)
  rw [hwrappers] at hhooks
  obtain ⟨adds, hadds⟩ := Chain.exists_adds hw hhooks
  refine ⟨_, _, adds, hadds, ?_⟩
  intro key hk
  rw [hheads.others key hk, hadds.headers, Dict.get?_foldl_union, Call.info, Dict.get?_union,
    Option.or_assoc]

/-- Two attempts have two numbers until the counter has gone round its word. -/
theorem apart_of_at (hn : s₀.attempts ms ≤ UInt64.size) {m' : Client.Moment} {call' : Call}
    {n' : Node}
    {info' : AttemptInfo} {out' : Outgoing} {i' : Nat}
    (hj : Runs.At step (Composes i m call n info out) s₀ ms j)
    (hk : Runs.At step (Composes i' m' call' n' info' out') s₀ ms k) (hjk : j ≠ k) :
    out.frame.header.get? Header.id ≠ out'.frame.header.get? Header.id := by
  rw [(heads_of_at hj).id, (heads_of_at hk).id]
  intro heq
  have hseq : (Runs.stage step s₀ ms j).client.seq = (Runs.stage step s₀ ms k).client.seq :=
    UInt64.toNat_inj.1 (Json.toString_injective (Option.some.inj heq))
  rcases Nat.lt_or_gt_of_ne hjk with h | h
  · exact seq_ne hn hj hk h hseq
  · exact seq_ne hn hk hj h hseq.symm

/-- Every run dispatches its frames by the rules. -/
theorem dispatches_run (config : Config) (codecs : CodecSet) (wrappers : Chain σ) (hooks : σ)
    (ms : List Move) : Dispatches (new config codecs wrappers hooks) ms where
  composed i frame hs := by
    obtain ⟨out, ⟨j, m, call, n, info, hj⟩, hframe⟩ :=
      (sourced_run config codecs wrappers hooks ms).sent i frame hs
    exact ⟨j, m, call, n, info, out, hj, hframe⟩
  told _ _ _ _ _ _ _ hj := told_of_at hj
  heads _ _ _ _ _ _ _ hj := heads_of_at hj
  passes hw _ _ _ _ _ _ _ hj := passes_of_at hw hj
  apart hn _ _ _ _ _ _ _ _ _ _ _ _ _ _ hj hk hjk := apart_of_at hn hj hk hjk

/-- An attempt and the one after it, in a context and with a request and a wrapper that would have
other headers for the reserved ones. -/
theorem dispatches_run_spoofed :
    let dict (xs : List (String × String)) : Dict String := .ofList xs
    let spoof : Wrapper Unit := { onRequest := fun _ info s =>
      (s, { info with headers := info.headers.union (dict [("Micro-Id", "7"), ("a", "3")]) },
        .ok ()) }
    let r : Request :=
      { service := "s", endpoint := "e", body := [1],
        header := dict [("Content-Type", "text"), ("a", "2"), ("b", "2")] }
    let o : Options := { addresses := ["n:1"], backoff := fun _ => 0 }
    let context : Context :=
      { token := ⟨0, []⟩, deadline := some 100,
        metadata := dict [("Micro-Service", "t"), ("a", "1"), ("b", "1"), ("c", "1")] }
    let at' (now : Instant) : Client.Moment := ⟨now, {}, fun _ => 0⟩
    let ms : List Move := [.call context r o false, .proceed 0 (at' 0), .proceed 0 (at' 10),
      .dialled 0 (at' 10) (.ok ()), .post 0, .fail 0 (at' 20) .closed, .proceed 0 (at' 20),
      .proceed 0 (at' 30), .dialled 0 (at' 30) (.ok ()), .post 0]
    let s₀ : Traffic Unit := new {} {} [spoof] ()
    Dispatches s₀ ms ∧ s₀.attempts ms = 2 ∧
      (s₀.run ms).lines.map (fun l => l.sent.map fun x => x.2.header.entries) =
        [("0", "90"), ("1", "70")].map fun x => [[("Content-Type", "application/json"),
          ("Micro-Endpoint", "e"), ("Micro-Id", x.1), ("Micro-Method", "e"),
          ("Micro-Service", "s"), ("Timeout", x.2), ("a", "3"), ("b", "2"), ("c", "1")]] := by
  intro dict spoof r o context at' ms s₀
  exact ⟨dispatches_run {} {} [spoof] () ms, by decide +kernel, by decide +kernel⟩

end Traffic
end Switchboard.Client
