import Switchboard.Client.Stream
import Switchboard.Proofs.Client.CallLoop
import Switchboard.Proofs.Rpc.Envelope

/-! A stream at work: its operations, and all that may come between them and while they wait. -/
namespace Switchboard.Client

open Rpc

/-- What an operation of a stream came to. -/
inductive Upshot
  | sent (body : Bytes) (result : Except CallError Unit)
  | received (result : Except CallError Response)

namespace Upshot

def error? : Upshot → Option CallError
  | sent _ (.error e) => some e
  | received (.error e) => some e
  | _ => none

def body? : Upshot → Option Bytes
  | sent body (.ok _) => some body
  | _ => none

def response? : Upshot → Option Response
  | received (.ok r) => some r
  | _ => none

theorem body?_of_error {u : Upshot} {e : CallError} (h : u.error? = some e) : u.body? = none := by
  cases u with
  | sent body result => cases result <;> first | rfl | cases h
  | received result => rfl

theorem response?_of_error {u : Upshot} {e : CallError} (h : u.error? = some e) :
    u.response? = none := by
  cases u with
  | sent body result => rfl
  | received result => cases result <;> first | rfl | cases h

end Upshot

/-- The frame carries a body as the message of a stream with this number, counted from zero. -/
def Stream.Writes (s : Stream) (k : Nat) (body : Bytes) (f : Frame) : Prop :=
  s.envelope.write ({ s with sent := UInt64.ofNat (k + 1) }.message body) = .ok f

/-- A frame of the peer's, read as a message. -/
def Stream.Reads (s : Stream) (f : Frame) (r : Response) : Prop :=
  ∃ m, s.envelope.read f .response = .ok m ∧ m.error = "" ∧ r = ⟨m.header, m.body⟩

/-- An operation may wait for the connection. -/
inductive StreamPhase
  | idle
  | sending (body : Bytes)
  | receiving (since : Instant)

/-- The body that is on its way. -/
def StreamPhase.body? : StreamPhase → Option Bytes
  | sending body => some body
  | idle | receiving _ => none

/-- The connection has been given the frames of `outbox`, and has handed over the first of those
that the peer sent. -/
structure StreamSession where
  stream : Stream
  cancellation : Cancellation
  now : Instant
  phase : StreamPhase := .idle
  inbox : List Frame := []
  taken : Nat := 0
  outbox : List Frame := []
  closes : Nat := 0
  upshots : List Upshot := []

namespace StreamSession

inductive Move
  | send (body : Bytes)
  | sent (result : Except Transport.Error Unit)
  | receive
  | arrive
  | broke (e : Transport.Error)
  | expire
  | interrupt (e : CallError)
  | close
  | peer (f : Frame)
  | tick (d : Duration)
  | cancel (k : Token)

variable {s : Stream} {t t' : StreamSession} {m : Move} {ms : List Move} {body : Bytes} {f : Frame}
  {e : CallError} {u : Upshot} {r : Response} {c : Cancellation} {x k : Token} {i : Nat}
  {ch : Channel} {id : String} {rq : Request} {caller : Context} {now : Instant}

/-- A stream is opened in a context of its own. -/
def new (caller : Context) (c : Cancellation) (now : Instant) (id : String) (r : Request)
    (ch : Channel) : StreamSession :=
  let (cancellation, context) := caller.child c
  { stream := Stream.new id context r ch, cancellation, now }

/-- An operation ends. -/
def tell (t : StreamSession) (s : Stream) (u : Upshot) : StreamSession :=
  { t with stream := s, phase := .idle, upshots := t.upshots ++ [u] }

def hear (t : StreamSession) (a : StreamArrival) : StreamSession :=
  let (s, r) := t.stream.received a
  t.tell s (.received r)

/-- A move that does not fit the state changes nothing. -/
def step (t : StreamSession) : Move → StreamSession
  | .send body =>
    match t.phase with
    | .idle =>
      match t.stream.outgoing (t.stream.context.check t.cancellation t.now) body with
      | (s, .error e) => t.tell s (.sent body (.error e))
      | (s, .ok f) => { t with stream := s, phase := .sending body, outbox := t.outbox ++ [f] }
    | _ => t
  | .sent result =>
    match t.phase with
    | .sending body =>
      let (s, r) := t.stream.delivered result
      t.tell s (.sent body r)
    | _ => t
  | .receive =>
    match t.phase with
    | .idle =>
      match t.stream.failure with
      | some e => t.tell t.stream (.received (.error e))
      | none => { t with phase := .receiving t.now }
    | _ => t
  | .arrive =>
    match t.phase, t.inbox[t.taken]? with
    | .receiving _, some f => { t with taken := t.taken + 1 }.hear (.arrived (.frame f))
    | _, _ => t
  | .broke e =>
    match t.phase with
    | .receiving _ => t.hear (.arrived (.failed e))
    | _ => t
  | .expire =>
    match t.phase with
    | .receiving since =>
      if since + t.stream.timeout ≤ t.now then t.hear (.arrived .timedOut) else t
    | _ => t
  | .interrupt e =>
    match t.phase with
    | .receiving _ =>
      if e ∈ t.stream.context.endings t.cancellation t.now then t.hear (.ended e) else t
    | _ => t
  | .close =>
    match t.phase with
    | .idle =>
      let (cancellation, stream) := t.stream.close t.cancellation
      { t with cancellation, stream, closes := t.closes + 1 }
    | _ => t
  | .peer f => { t with inbox := t.inbox ++ [f] }
  | .tick d => { t with now := t.now + d }
  | .cancel k => { t with cancellation := t.cancellation.cancel k }

def run (t : StreamSession) (ms : List Move) : StreamSession := ms.foldl step t

/-- The bodies that were sent. -/
def bodies (t : StreamSession) : List Bytes := t.upshots.filterMap Upshot.body?

/-- The bodies of the frames that the connection was given, but for one that it failed to send. -/
def given (t : StreamSession) : List Bytes := t.bodies ++ t.phase.body?.toList

/-- The answers that were received. -/
def responses (t : StreamSession) : List Response := t.upshots.filterMap Upshot.response?

/-- All that a move can do to a session in which no operation waits on a stream that has failed. -/
inductive Trans (t : StreamSession) : Move → StreamSession → Prop
  | idle (m : Move) (hm : ∀ k, m ≠ .cancel k) : Trans t m t
  | refused (m : Move) (u : Upshot) (e : CallError) (hm : ∀ k, m ≠ .cancel k)
    (hf : t.stream.failure = some e) (hu : u.error? = some e) : Trans t m (t.tell t.stream u)
  | failed (m : Move) (u : Upshot) (e : CallError) (sent : UInt64) (taken : Nat)
    (hm : ∀ k, m ≠ .cancel k) (hf : t.stream.failure = none) (hu : u.error? = some e) :
    Trans t m ({ t with taken }.tell { t.stream with sent, failure := some e } u)
  | sending (body : Bytes) (f : Frame) (hp : t.phase = .idle) (hf : t.stream.failure = none)
    (hw : t.stream.envelope.write ({ t.stream with sent := t.stream.sent + 1 }.message body) =
      .ok f) :
    Trans t (.send body) { t with
      stream := { t.stream with sent := t.stream.sent + 1 }
      phase := .sending body
      outbox := t.outbox ++ [f] }
  | sent (body : Bytes) (hp : t.phase = .sending body) :
    Trans t (.sent (.ok ())) (t.tell t.stream (.sent body (.ok ())))
  | receiving (hp : t.phase = .idle) (hf : t.stream.failure = none) :
    Trans t .receive { t with phase := .receiving t.now }
  | received (since : Instant) (f : Frame) (m : Message) (hp : t.phase = .receiving since)
    (hf : t.inbox[t.taken]? = some f) (hr : t.stream.envelope.read f .response = .ok m)
    (he : m.error = "") :
    Trans t .arrive ({ t with taken := t.taken + 1 }.tell t.stream
      (.received (.ok ⟨m.header, m.body⟩)))
  | closed (hp : t.phase = .idle) : Trans t .close { t with
      cancellation := t.cancellation.cancel t.stream.context.token
      stream := { t.stream with failure := some (t.stream.failure.getD .streamClosed) }
      closes := t.closes + 1 }
  | peer (f : Frame) : Trans t (.peer f) { t with inbox := t.inbox ++ [f] }
  | tick (d : Duration) : Trans t (.tick d) { t with now := t.now + d }
  | cancel (k : Token) : Trans t (.cancel k) { t with cancellation := t.cancellation.cancel k }

/-- Waiting ends in an error, or in a message of the peer's. -/
theorem received_cases (s : Stream) (a : StreamArrival) :
    (∃ e, s.received a = (s.fail e, .error e)) ∨
      ∃ f m, a = .arrived (.frame f) ∧ s.envelope.read f .response = .ok m ∧ m.error = "" ∧
        s.received a = (s, .ok ⟨m.header, m.body⟩) := by
  cases a with
  | ended e => exact .inl ⟨e, rfl⟩
  | arrived a =>
    cases a with
    | failed e => exact .inl ⟨_, rfl⟩
    | timedOut => exact .inl ⟨_, rfl⟩
    | frame f =>
      cases hr : s.envelope.read f .response with
      | error e => exact .inl ⟨e, by simp only [Stream.received, hr, Stream.refuse]⟩
      | ok m =>
        simp only [Stream.received, hr, Stream.accept]
        split
        · rename_i he
          exact .inr ⟨f, m, rfl, hr, he, rfl⟩
        · split <;> exact .inl ⟨_, rfl⟩

theorem hear_trans (hm : ∀ k, m ≠ .cancel k) (hf : t.stream.failure = none) {a : StreamArrival}
    (ha : ∀ f, a ≠ .arrived (.frame f)) : Trans t m (t.hear a) := by
  rcases received_cases t.stream a with ⟨e, he⟩ | ⟨f, -, rfl, -⟩
  · rw [hear, he]
    exact .failed m (.received (.error e)) e t.stream.sent t.taken hm hf rfl
  · exact absurd rfl (ha f)

/-- Sending ends in an error, or in a frame for the connection. -/
theorem outgoing_cases (s : Stream) (check : Except CallError Unit) (body : Bytes) :
    (∃ e, s.failure = some e ∧ s.outgoing check body = (s, .error e)) ∨
      s.failure = none ∧
        ((∃ e sent, s.outgoing check body = ({ s with sent, failure := some e }, .error e)) ∨
          ∃ f, s.envelope.write ({ s with sent := s.sent + 1 }.message body) = .ok f ∧
            s.outgoing check body = ({ s with sent := s.sent + 1 }, .ok f)) := by
  unfold Stream.outgoing
  split
  · rename_i e hf
    exact .inl ⟨e, hf, rfl⟩
  · rename_i hf
    refine .inr ⟨hf, ?_⟩
    split
    · rename_i e
      exact .inl ⟨e, s.sent, rfl⟩
    · dsimp only
      split
      · rename_i f hw
        exact .inr ⟨f, hw, rfl⟩
      · rename_i e hw
        exact .inl ⟨e, s.sent + 1, rfl⟩

/-- What one move does to a session, by the phase it finds it in. -/
theorem step_trans (hb : t.phase ≠ .idle → t.stream.failure = none) (m : Move) :
    Trans t m (t.step m) := by
  cases m with
  | send body =>
    simp only [step]
    split
    · rename_i hp
      rcases outgoing_cases t.stream (t.stream.context.check t.cancellation t.now) body with
        ⟨e, hf, he⟩ | ⟨hf, ⟨e, sent, he⟩ | ⟨f, hw, he⟩⟩
      · rw [he]
        exact .refused _ _ e nofun hf rfl
      · rw [he]
        exact .failed _ _ e sent t.taken nofun hf rfl
      · rw [he]
        exact .sending body f hp hf hw
    · exact .idle _ nofun
  | sent result =>
    simp only [step]
    split
    · rename_i body hp
      cases result with
      | ok _ => exact .sent body hp
      | error e =>
        exact .failed _ _ _ t.stream.sent t.taken nofun (hb (by simp [hp])) rfl
    · exact .idle _ nofun
  | receive =>
    simp only [step]
    split
    · rename_i hp
      split
      · rename_i e hf
        exact .refused _ _ e nofun hf rfl
      · rename_i hf
        exact .receiving hp hf
    · exact .idle _ nofun
  | arrive =>
    simp only [step]
    split
    · rename_i since f hp hf
      have hnone : t.stream.failure = none := hb (by simp [hp])
      rcases received_cases t.stream (.arrived (.frame f)) with ⟨e, he⟩ | ⟨g, m, hg, hr, hm, he⟩
      · rw [hear, he]
        exact .failed _ _ e t.stream.sent (t.taken + 1) nofun hnone rfl
      · cases hg
        rw [hear, he]
        exact .received since f m hp hf hr hm
    · exact .idle _ nofun
  | broke e =>
    simp only [step]
    split
    · rename_i since hp
      exact hear_trans (m := .broke e) nofun (hb (by simp [hp])) nofun
    · exact .idle _ nofun
  | expire =>
    simp only [step]
    split
    · rename_i since hp
      split
      · exact hear_trans (m := .expire) nofun (hb (by simp [hp])) nofun
      · exact .idle _ nofun
    · exact .idle _ nofun
  | interrupt e =>
    simp only [step]
    split
    · rename_i since hp
      split
      · exact hear_trans (m := .interrupt e) nofun (hb (by simp [hp])) nofun
      · exact .idle _ nofun
    · exact .idle _ nofun
  | close =>
    simp only [step]
    split
    · rename_i hp
      exact .closed hp
    · exact .idle _ nofun
  | peer f => exact .peer f
  | tick d => exact .tick d
  | cancel k => exact .cancel k

theorem getElem?_append_of_some {α : Type} {xs ys : List α} {a : α} (h : xs[i]? = some a) :
    (xs ++ ys)[i]? = some a := by
  rw [List.getElem?_append_left (List.getElem?_eq_some_iff.1 h).1, h]

/-- What a session on a stream keeps. -/
structure Sound (t : StreamSession) (s : Stream) : Prop where
  busy : t.phase ≠ .idle → t.stream.failure = none
  same : t.stream = { s with sent := t.stream.sent, failure := t.stream.failure }
  told : ∀ u ∈ t.upshots, ∀ e, u.error? = some e → t.stream.failure = some e
  count : t.stream.failure = none → t.stream.sent = UInt64.ofNat t.outbox.length
  length : t.stream.failure = none → t.outbox.length = t.given.length
  frames : ∀ k f, t.outbox[k]? = some f → ∃ body, s.Writes k body f
  wrote : ∀ k body, t.given[k]? = some body → ∃ f, t.outbox[k]? = some f ∧ s.Writes k body f
  taken : t.stream.failure = none → t.taken = t.responses.length
  read : ∀ (k : Nat) r, t.responses[k]? = some r → ∃ f, t.inbox[k]? = some f ∧ s.Reads f r

theorem sound_new (caller : Context) (c : Cancellation) (now : Instant) (id : String)
    (rq : Request) (ch : Channel) :
    (new caller c now id rq ch).Sound (new caller c now id rq ch).stream where
  busy h := absurd rfl h
  same := rfl
  told _ h := nomatch h
  count _ := rfl
  length _ := rfl
  frames _ _ h := nomatch h
  wrote _ _ h := nomatch h
  taken _ := rfl
  read _ _ h := nomatch h

theorem bodies_tell (t : StreamSession) (s : Stream) (u : Upshot) :
    (t.tell s u).bodies = t.bodies ++ u.body?.toList := by
  simp only [bodies, tell, List.filterMap_append, List.filterMap_cons, List.filterMap_nil]
  cases u.body? <;> rfl

theorem given_tell (t : StreamSession) (s : Stream) (u : Upshot) :
    (t.tell s u).given = t.bodies ++ u.body?.toList := by
  change (t.tell s u).bodies ++ [] = _
  rw [List.append_nil, bodies_tell]

theorem given_of_body? (h : t.phase.body? = none) : t.given = t.bodies := by
  rw [given, h, Option.toList_none, List.append_nil]

theorem responses_tell (t : StreamSession) (s : Stream) (u : Upshot) :
    (t.tell s u).responses = t.responses ++ u.response?.toList := by
  simp only [responses, tell, List.filterMap_append, List.filterMap_cons, List.filterMap_nil]
  cases u.response? <;> rfl

theorem Sound.message (hs : t.Sound s) (n : UInt64) (body : Bytes) :
    { t.stream with sent := n }.message body = { s with sent := n }.message body := by
  rw [hs.same]
  rfl

theorem Sound.envelope (hs : t.Sound s) : t.stream.envelope = s.envelope := by rw [hs.same]

/-- An operation that fails records its error, or had it from the record. -/
theorem Sound.failed (hs : t.Sound s) (hu : u.error? = some e)
    (hf : ∀ e', t.stream.failure = some e' → e' = e) (sent : UInt64) (taken : Nat) :
    ({ t with taken }.tell { t.stream with sent, failure := some e } u).Sound s where
  busy h := absurd rfl h
  same := by
    rw [hs.same]
    rfl
  told v hv e' he := by
    rcases List.mem_append.1 hv with hv | hv
    · rw [hf e' (hs.told v hv e' he)]
      rfl
    · rw [List.mem_singleton.1 hv, hu] at he
      exact he
  count := nofun
  length := nofun
  frames := hs.frames
  wrote k body hk := by
    rw [given_tell, Upshot.body?_of_error hu, Option.toList_none, List.append_nil] at hk
    exact hs.wrote k body (getElem?_append_of_some hk)
  taken := nofun
  read k r hr := by
    rw [responses_tell, Upshot.response?_of_error hu, Option.toList_none, List.append_nil] at hr
    exact hs.read k r hr

/-- A frame for the connection has the next place on the stream. -/
theorem Sound.writes (hs : t.Sound s) (hf : t.stream.failure = none)
    (hw : t.stream.envelope.write ({ t.stream with sent := t.stream.sent + 1 }.message body) =
      .ok f) : s.Writes t.outbox.length body f := by
  have hn : UInt64.ofNat (t.outbox.length + 1) = t.stream.sent + 1 := by
    rw [hs.count hf, UInt64.ofNat_add]
    rfl
  rw [Stream.Writes, hn, ← hs.message, ← hs.envelope]
  exact hw

theorem Sound.sending (hs : t.Sound s) (hp : t.phase = .idle) (hf : t.stream.failure = none)
    (hw : t.stream.envelope.write ({ t.stream with sent := t.stream.sent + 1 }.message body) =
      .ok f) : Sound { t with
        stream := { t.stream with sent := t.stream.sent + 1 }
        phase := .sending body
        outbox := t.outbox ++ [f] } s := by
  have hgiven : t.given = t.bodies := given_of_body? (by rw [hp, StreamPhase.body?])
  have hlen : t.outbox.length = t.bodies.length := by rw [hs.length hf, hgiven]
  have hwrites := hs.writes hf hw
  refine ⟨fun _ => hf, ?_, hs.told, ?_, ?_, ?_, ?_, hs.taken, hs.read⟩
  · rw [hs.same]
  · intro _
    rw [hs.count hf, List.length_append, List.length_singleton, UInt64.ofNat_add]
    rfl
  · intro _
    change (t.outbox ++ [f]).length = (t.bodies ++ [body]).length
    rw [List.length_append, hlen, List.length_append]
    rfl
  · intro k g hk
    rcases getElem?_snoc hk with ⟨-, hk⟩ | ⟨rfl, rfl⟩
    · exact hs.frames k g hk
    · exact ⟨body, hwrites⟩
  · intro k b hk
    change (t.bodies ++ [body])[k]? = some b at hk
    change ∃ g, (t.outbox ++ [f])[k]? = some g ∧ s.Writes k b g
    rcases getElem?_snoc hk with ⟨-, hk⟩ | ⟨rfl, rfl⟩
    · obtain ⟨g, hg, hw⟩ := hs.wrote k b (hgiven ▸ hk)
      exact ⟨g, getElem?_append_of_some hg, hw⟩
    · rw [← hlen]
      exact ⟨f, List.getElem?_concat_length, hwrites⟩

/-- A body that was on its way has been sent. -/
theorem Sound.sent (hs : t.Sound s) (hp : t.phase = .sending body) :
    (t.tell t.stream (.sent body (.ok ()))).Sound s := by
  have hgiven : (t.tell t.stream (.sent body (.ok ()))).given = t.given := by
    rw [given_tell, given, hp]
    rfl
  have hresponses : (t.tell t.stream (.sent body (.ok ()))).responses = t.responses := by
    rw [responses_tell]
    exact List.append_nil _
  refine ⟨fun h => absurd rfl h, hs.same, ?_, hs.count, ?_, hs.frames, ?_, ?_, ?_⟩
  · intro u hu e he
    rcases List.mem_append.1 hu with hu | hu
    · exact hs.told u hu e he
    · rw [List.mem_singleton.1 hu] at he
      cases he
  · rw [hgiven]
    exact hs.length
  · rw [hgiven]
    exact hs.wrote
  · rw [hresponses]
    exact hs.taken
  · rw [hresponses]
    exact hs.read

/-- The next frame of the peer's has been read. -/
theorem Sound.received (hs : t.Sound s) (hf : t.stream.failure = none)
    (hi : t.inbox[t.taken]? = some f) (hr : s.Reads f r) (hp : t.phase.body? = none) :
    ({ t with taken := t.taken + 1 }.tell t.stream (.received (.ok r))).Sound s := by
  have hgiven : ({ t with taken := t.taken + 1 }.tell t.stream (.received (.ok r))).given =
      t.given := by
    rw [given_tell, given_of_body? hp]
    exact List.append_nil _
  have hresponses : ({ t with taken := t.taken + 1 }.tell t.stream (.received (.ok r))).responses =
      t.responses ++ [r] := responses_tell ..
  refine ⟨fun h => absurd rfl h, hs.same, ?_, hs.count, ?_, hs.frames, ?_, ?_, ?_⟩
  · intro u hu e he
    rcases List.mem_append.1 hu with hu | hu
    · exact hs.told u hu e he
    · rw [List.mem_singleton.1 hu] at he
      cases he
  · rw [hgiven]
    exact hs.length
  · rw [hgiven]
    exact hs.wrote
  · intro _
    rw [hresponses, List.length_append, ← hs.taken hf]
    rfl
  · intro k q hq
    rw [hresponses] at hq
    rcases getElem?_snoc hq with ⟨-, hq⟩ | ⟨rfl, rfl⟩
    · exact hs.read k q hq
    · exact ⟨f, hs.taken hf ▸ hi, hr⟩

/-- No move breaks what a session keeps. -/
theorem Sound.step (hs : t.Sound s) (ht : Trans t m t') : t'.Sound s := by
  cases ht with
  | idle => exact hs
  | refused m u e hm hf hu =>
    have hsame : t.stream = { t.stream with failure := some e } := by rw [← hf]
    rw [hsame]
    refine hs.failed hu ?_ t.stream.sent t.taken
    intro e' he'
    exact Option.some.inj (he'.symm.trans hf)
  | failed m u e sent taken hm hf hu =>
    refine hs.failed hu ?_ sent taken
    intro e' he'
    cases hf.symm.trans he'
  | sending body f hp hf hw => exact hs.sending hp hf hw
  | sent body hp => exact hs.sent hp
  | receiving hp hf =>
    have hgiven : StreamSession.given { t with phase := .receiving t.now } = t.given := by
      rw [given_of_body? (t := t) (by rw [hp, StreamPhase.body?])]
      exact given_of_body? rfl
    refine ⟨fun _ => hf, hs.same, hs.told, hs.count, ?_, hs.frames, ?_, hs.taken, hs.read⟩
    · rw [hgiven]
      exact hs.length
    · rw [hgiven]
      exact hs.wrote
  | received since f m hp hf hr he =>
    refine hs.received (hs.busy (by simp [hp])) hf ⟨m, hs.envelope ▸ hr, he, rfl⟩ ?_
    rw [hp, StreamPhase.body?]
  | closed hp =>
    refine ⟨fun h => absurd hp h, ?_, ?_, nofun, nofun, hs.frames, hs.wrote, nofun, hs.read⟩
    · rw [hs.same]
    · intro u hu e he
      have hf := hs.told u hu e he
      simp only [hf, Option.getD_some]
  | peer f =>
    refine ⟨hs.busy, hs.same, hs.told, hs.count, hs.length, hs.frames, hs.wrote, hs.taken, ?_⟩
    intro k r hr
    obtain ⟨g, hg, hread⟩ := hs.read k r hr
    exact ⟨g, getElem?_append_of_some hg, hread⟩
  | tick | cancel =>
    exact ⟨hs.busy, hs.same, hs.told, hs.count, hs.length, hs.frames, hs.wrote, hs.taken, hs.read⟩

theorem Sound.run (hs : t.Sound s) (ms : List Move) : (t.run ms).Sound s := by
  induction ms generalizing t with
  | nil => exact hs
  | cons m ms ih => exact ih (hs.step (step_trans hs.busy m))

/-! A stream that has failed. -/

theorem failure_step (ht : Trans t m t') (hf : t.stream.failure = some e) :
    t'.stream.failure = some e := by
  cases ht with
  | failed m u e' sent taken hm hn hu => cases hn.symm.trans hf
  | sending body f hp hn hw => exact hf
  | closed hp => simp only [hf, Option.getD_some]
  | idle | refused | sent | receiving | received | peer | tick | cancel => exact hf

/-- The first failure stays for the rest of the session. -/
theorem failure_run (hs : t.Sound s) (ms : List Move) (hf : t.stream.failure = some e) :
    (t.run ms).stream.failure = some e := by
  induction ms generalizing t with
  | nil => exact hf
  | cons m ms ih =>
    have ht := step_trans hs.busy m
    exact ih (hs.step ht) (failure_step ht hf)

theorem Sound.idle (hs : t.Sound s) (hf : t.stream.failure = some e) : t.phase = .idle := by
  cases hp : t.phase with
  | idle => rfl
  | sending | receiving => cases (hs.busy (by simp [hp])).symm.trans hf

/-- After a failure, a send tells of that failure and writes nothing. -/
theorem step_send_of_failure (hs : t.Sound s) (hf : t.stream.failure = some e) :
    t.step (.send body) = t.tell t.stream (.sent body (.error e)) := by
  simp only [step, hs.idle hf, Stream.outgoing, hf]

/-- After a failure, a receive tells of it and reads nothing. -/
theorem step_receive_of_failure (hs : t.Sound s) (hf : t.stream.failure = some e) :
    t.step .receive = t.tell t.stream (.received (.error e)) := by
  simp only [step, hs.idle hf, hf]

/-! The frames that are sent. -/

/-- What a frame of a stream says of itself, and what it has from the header agreed on. -/
structure Bears (s : Stream) (i : Nat) (f : Frame) : Prop where
  number : f.header.get? Header.id = some (toString ((i + 1) % UInt64.size))
  stream : f.header.get? Header.stream = some s.id
  rest : ∀ key, key ∉ Header.own → f.header.get? key = s.header.get? key

theorem header_of_write {v : Envelope} {m : Message} (hw : v.write m = .ok f) :
    f.header = v.header m := by
  unfold Envelope.write at hw
  cases hm : v.codec.marshal m with
  | error e =>
    rw [hm] at hw
    cases hw
  | ok data =>
    rw [hm] at hw
    cases hw
    rfl

/-- A frame that was written bears the stream's id and its own number. -/
theorem bears_of_writes (hw : s.Writes i body f) (hid : s.id ≠ "")
    (hs : s.envelope.stream = some s.id) : Bears s i f := by
  have hh := header_of_write hw
  generalize hm : { s with sent := UInt64.ofNat (i + 1) }.message body = m at hh
  have hnumber : m.id = toString ((i + 1) % UInt64.size) := by
    rw [← hm, ← UInt64.toNat_ofNat']
    rfl
  have hheader : m.header = s.header := by rw [← hm]; rfl
  have hin : (Header.id, m.id) ∈ s.envelope.fields m := by simp [Envelope.fields]
  have hstream : (Header.stream, s.id) ∈ s.envelope.fields m := by simp [Envelope.fields, hs]
  constructor
  · rw [hh, Envelope.get?_header hin, hnumber, if_neg Bytes.toString_ne_empty]
  · rw [hh, Envelope.get?_header hstream, if_neg hid]
  · intro key hkey
    rw [hh, Envelope.header_eq, ← hheader]
    refine Header.get?_setAll_of_notMem ?_
    intro g hg hgk
    have hown : g.1 ∈ (s.envelope.fields m).map (·.1) := List.mem_map.2 ⟨g, hg, rfl⟩
    exact hkey (hgk ▸ hown)

/-! Who is cancelled. -/

theorem isCancelled_cancel : (c.cancel k).isCancelled x = true ↔
    k.own ∈ x.own :: x.ancestors ∨ c.isCancelled x = true := by
  simp only [Cancellation.isCancelled, Cancellation.cancel, List.any_eq_true, List.contains_cons,
    Bool.or_eq_true, beq_iff_eq]
  constructor
  · rintro ⟨n, hn, rfl | hc⟩
    · exact .inl hn
    · exact .inr ⟨n, hn, hc⟩
  · rintro (hk | ⟨n, hn, hc⟩)
    · exact ⟨_, hk, .inl rfl⟩
    · exact ⟨n, hn, .inr hc⟩

/-- A session cancels no context but those that descend from its own. -/
theorem isCancelled_step (hs : t.Sound s) (ht : Trans t m t')
    (hx : s.context.token.own ∉ x.own :: x.ancestors) : t'.cancellation.isCancelled x = true ↔
      t.cancellation.isCancelled x = true ∨ ∃ k, m = .cancel k ∧ k.own ∈ x.own :: x.ancestors := by
  have other (hm : ∀ k, m ≠ .cancel k) : t.cancellation.isCancelled x = true ↔
      t.cancellation.isCancelled x = true ∨ ∃ k, m = .cancel k ∧ k.own ∈ x.own :: x.ancestors :=
    ⟨.inl, fun h => h.resolve_right fun ⟨k, hk, _⟩ => hm k hk⟩
  cases ht with
  | idle m hm => exact other hm
  | refused m u e hm hf hu => exact other hm
  | failed m u e sent taken hm hf hu => exact other hm
  | sending | sent | receiving | received | peer | tick => exact other nofun
  | closed hp =>
    have hown : t.stream.context = s.context := by rw [hs.same]
    rw [isCancelled_cancel, hown, or_iff_right hx]
    exact other nofun
  | cancel k =>
    rw [isCancelled_cancel, or_comm]
    refine or_congr_right ⟨fun h => ⟨k, rfl, h⟩, ?_⟩
    rintro ⟨k', hk', h⟩
    cases hk'
    exact h

/-- A token that does not come from the stream's is cancelled by no operation of the stream. -/
theorem isCancelled_run (hs : t.Sound s) (hx : s.context.token.own ∉ x.own :: x.ancestors)
    (ms : List Move) : (t.run ms).cancellation.isCancelled x = true ↔
      t.cancellation.isCancelled x = true ∨
        ∃ k, Move.cancel k ∈ ms ∧ k.own ∈ x.own :: x.ancestors := by
  induction ms generalizing t with
  | nil => simp [run]
  | cons m ms ih =>
    have ht := step_trans hs.busy m
    have hrun := ih (hs.step ht)
    rw [isCancelled_step hs ht hx, or_assoc] at hrun
    refine hrun.trans (or_congr_right ?_)
    constructor
    · rintro (⟨k, rfl, hk⟩ | ⟨k, hmem, hk⟩)
      · exact ⟨k, List.mem_cons_self, hk⟩
      · exact ⟨k, List.mem_cons_of_mem _ hmem, hk⟩
    · rintro ⟨k, hmem, hk⟩
      rcases List.mem_cons.1 hmem with rfl | hmem
      · exact .inl ⟨k, rfl, hk⟩
      · exact .inr ⟨k, hmem, hk⟩

/-- What a stream keeps to after any moves. The first failure is the last, and leaves the connection
alone; up to then frames go out under consecutive numbers, and come in in the peer's order. -/
structure Keeps (t₀ : StreamSession) (caller : Token) (ms : List Move) (t : StreamSession) :
    Prop where
  sticky : ∀ e, t.stream.failure = some e → ∀ ns, (t.run ns).stream.failure = some e
  refused : ∀ e, t.stream.failure = some e →
    (∀ body, t.step (.send body) = t.tell t.stream (.sent body (.error e))) ∧
      t.step .receive = t.tell t.stream (.received (.error e))
  failing : ∀ u ∈ t.upshots, ∀ e, u.error? = some e → t.stream.failure = some e
  closed : t.phase = .idle → (t.step .close).stream.failure =
    some (t.stream.failure.getD .streamClosed)
  frames : ∀ i f, t.outbox[i]? = some f → Bears t₀.stream i f
  sent : ∀ i body, t.bodies[i]? = some body →
    ∃ f, t.outbox[i]? = some f ∧ t₀.stream.Writes i body f
  received : ∀ (i : Nat) r, t.responses[i]? = some r →
    ∃ f, t.inbox[i]? = some f ∧ t₀.stream.Reads f r
  next : t.stream.failure = none →
    t.outbox.length = t.given.length ∧ t.taken = t.responses.length
  caller : t.cancellation.isCancelled caller = true ↔
    t₀.cancellation.isCancelled caller = true ∨
      ∃ k, Move.cancel k ∈ ms ∧ k.own ∈ caller.own :: caller.ancestors

/-- The caller's token has been given out before, like those that it comes from. -/
theorem keeps_run (hid : id ≠ "")
    (hc : ∀ n ∈ caller.token.own :: caller.token.ancestors, n < c.next) (ms : List Move) :
    Keeps (new caller c now id rq ch) caller.token ms ((new caller c now id rq ch).run ms) := by
  have hs := sound_new caller c now id rq ch
  have hrun := hs.run ms
  refine ⟨fun e hf ns => failure_run hrun ns hf,
    fun e hf => ⟨fun body => step_send_of_failure hrun hf, step_receive_of_failure hrun hf⟩,
    hrun.told, ?_, ?_, ?_, hrun.read, fun hf => ⟨hrun.length hf, hrun.taken hf⟩, ?_⟩
  · intro hp
    simp only [step, hp, Stream.close]
  · intro i f hf
    obtain ⟨body, hw⟩ := hrun.frames i f hf
    exact bears_of_writes hw hid rfl
  · intro i body hb
    exact hrun.wrote i body (getElem?_append_of_some hb)
  · refine isCancelled_run hs ?_ ms
    intro hmem
    exact absurd (hc _ hmem) (Nat.lt_irrefl _)

/-- Sent, answered, closed, and used once more. -/
theorem keeps_run_closed :
    let ch : Channel :=
      { agreement := ⟨.empty, ⟨.json, none⟩⟩, connection := 0, address := "n:1", timeout := 5000 }
    let ms : List Move := [.send [1], .sent (.ok ()), .peer ⟨.empty, [2]⟩, .receive, .arrive,
      .close, .receive]
    let rq : Request := { service := "a", endpoint := "b", body := [] }
    let t₀ := new { token := ⟨0, []⟩ } { next := 1 } 0 "s" rq ch
    Keeps t₀ ⟨0, []⟩ ms (t₀.run ms) ∧ (t₀.run ms).bodies = [[1]] ∧
      (t₀.run ms).responses = [⟨.empty, [2]⟩] ∧ (t₀.run ms).stream.failure = some .streamClosed :=
  ⟨keeps_run (by decide) (by decide) _, by rfl, by rfl, by rfl⟩

end StreamSession
end Switchboard.Client
