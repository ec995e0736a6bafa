import Switchboard.Proofs.Client.Pool
import Switchboard.Proofs.Client.Turns

/-! Calls of one client, in any number and order, with the frames on their connections. -/
namespace Switchboard.Client

open Rpc

/-- A connection as the network has it: what was sent on it and by which call, and which of these
frames the peer has replied to so far. Frames are known by their places. -/
structure Line where
  stream : Bool
  sent : List (Nat × Frame) := []
  replies : List (Nat × Frame) := []
  received : Nat := 0

namespace Line

def new (stream : Bool) : Line where
  stream

/-- The peer replies once to a frame, if at all, and in the order of the frames. -/
def InOrder (l : Line) : Prop :=
  l.replies.Pairwise (·.1 < ·.1) ∧ ∀ r ∈ l.replies, r.1 < l.sent.length

/-- Nothing is outstanding but the frame of the call `i`, if that has been sent. -/
def Awaits (l : Line) (i : Nat) (frame : Frame) : Option Nat → Prop
  | none => l.received = l.sent.length
  | some k => k = l.received ∧ l.sent.length = l.received + 1 ∧ l.sent[k]? = some (i, frame)

def Clear (l : Line) : Prop := l.stream = false ∧ l.received = l.sent.length

variable {l : Line} {i k place : Nat} {f frame : Frame} {posted : Option Nat}

/-- The k-th reply on a line answers no frame before the k-th. -/
theorem le_place {rs : List (Nat × Frame)} (hp : rs.Pairwise (·.1 < ·.1))
    (hr : rs[k]? = some (place, f)) : k ≤ place := by
  induction k generalizing place f with
  | zero => exact Nat.zero_le _
  | succ k ih =>
    obtain ⟨hlt, hget⟩ := List.getElem?_eq_some_iff.1 hr
    have hk : k < rs.length := Nat.lt_of_succ_lt hlt
    have hle := ih (List.getElem?_eq_getElem hk)
    have hbelow : rs[k].1 < rs[k + 1].1 :=
      List.pairwise_iff_getElem.1 hp k (k + 1) hk hlt (Nat.lt_succ_self k)
    rw [hget] at hbelow
    exact Nat.succ_le_of_lt (Nat.lt_of_le_of_lt hle hbelow)

/-- The next reply on a line that a call waits on is to the call's own frame. -/
theorem InOrder.awaited (ho : l.InOrder) (ha : l.Awaits i frame posted)
    (hr : l.replies[l.received]? = some (place, f)) :
    posted = some place ∧ l.sent[place]? = some (i, frame) := by
  have hle := le_place ho.1 hr
  have hlt := ho.2 _ (List.mem_of_getElem? hr)
  cases posted with
  | none =>
    have hreceived : l.received = l.sent.length := ha
    dsimp only at hlt
    omega
  | some k =>
    obtain ⟨hk, hlen, hsent⟩ := ha
    have hplace : place = k := by
      dsimp only at hlt
      omega
    exact ⟨by rw [hplace], by rw [hplace]; exact hsent⟩

theorem InOrder.sent {x : Nat × Frame} (h : l.InOrder) :
    InOrder { l with sent := l.sent ++ [x] } := by
  refine ⟨h.1, ?_⟩
  intro r hr
  have hlt := h.2 r hr
  simp only [List.length_append, List.length_singleton]
  omega

/-- A reply to a later frame than all replies so far keeps the order. -/
theorem InOrder.reply (h : l.InOrder) (hp : place < l.sent.length)
    (hr : ∀ r ∈ l.replies, r.1 < place) :
    InOrder { l with replies := l.replies ++ [(place, f)] } := by
  constructor
  · refine List.pairwise_append.2 ⟨h.1, List.pairwise_singleton _ _, ?_⟩
    intro r hmem x hx
    rw [List.mem_singleton.1 hx]
    exact hr r hmem
  · intro r hmem
    rcases List.mem_append.1 hmem with hmem | hmem
    · exact h.2 r hmem
    · rw [List.mem_singleton.1 hmem]
      exact hp

end Line

/-- A call and what it waits for. `posted` is the place of its frame on the connection, once the
frame is sent. -/
structure Party where
  call : Call
  wait : Option Wait := none
  posted : Option Nat := none

/-- The connection that a call exchanges frames on. -/
def Party.line? (p : Party) : Option Nat :=
  match p.wait with
  | some (.exchange conn _) => some conn.id
  | _ => none

structure Traffic (σ : Type) where
  client : Client σ
  parties : List Party := []
  lines : List Line := []

namespace Traffic

/-- Calls of every kind come and go on in any order, at any moments. A peer replies to a frame once
at most, and in order; on a stream anything may be said. -/
inductive Move
  | call (context : Context) (r : Request) (o : Options) (opens : Bool)
  | proceed (i : Nat) (m : Client.Moment)
  | selected (i : Nat) (m : Client.Moment) (r : Except CallError Next)
  | dialled (i : Nat) (m : Client.Moment) (r : Except Transport.Error Unit)
  | post (i : Nat)
  | reply (n place : Nat) (f : Frame)
  | deliver (i : Nat) (m : Client.Moment)
  | fail (i : Nat) (m : Client.Moment) (e : Transport.Error)
  | expire (i : Nat) (m : Client.Moment)
  | say (n i : Nat) (f : Frame)
  | hear (n : Nat)
  | close

variable {σ : Type}

/-- Something happens to a call, and it asks for what it needs next. -/
def happen (s : Traffic σ) (i : Nat) (m : Client.Moment) (call : Call) (e : CallEvent) : Traffic σ :=
  let x := s.client.step m call e
  { s with client := x.1, parties := s.parties.set i ⟨x.2.1, x.2.2.findSome? Action.wait?, none⟩ }

def setLine (s : Traffic σ) (n : Nat) (l : Line) : Traffic σ := { s with lines := s.lines.set n l }

def step (s : Traffic σ) : Move → Traffic σ
  | .call context r o opens =>
    { s with parties := s.parties ++ [⟨Call.new context r o opens, none, none⟩] }
  | .proceed i m =>
    match s.parties[i]? with
    | some ⟨call, none, _⟩ => s.happen i m call .proceed
    | _ => s
  | .selected i m r =>
    match s.parties[i]? with
    | some ⟨call, some .nodes, _⟩ => s.happen i m call (.selected r)
    | _ => s
  | .dialled i m r =>
    match s.parties[i]?, r with
    | some ⟨call, some (.dial _ stream), _⟩, .ok () =>
      { s with lines := s.lines ++ [Line.new stream] }.happen i m call (.dialled (.ok s.lines.length))
    | some ⟨call, some (.dial _ _), _⟩, .error e => s.happen i m call (.dialled (.error e))
    | _, _ => s
  | .post i =>
    match s.parties[i]? with
    | some ⟨call, some (.exchange conn frame), none⟩ =>
      match s.lines[conn.id]? with
      | some l =>
        { s with parties := s.parties.set i ⟨call, some (.exchange conn frame), some l.sent.length⟩
          }.setLine conn.id { l with sent := l.sent ++ [(i, frame)] }
      | none => s
    | _ => s
  | .reply n place f =>
    match s.lines[n]? with
    | some l =>
      if l.stream ∨ place < l.sent.length ∧ ∀ r ∈ l.replies, r.1 < place then
        s.setLine n { l with replies := l.replies ++ [(place, f)] }
      else s
    | none => s
  | .deliver i m =>
    match s.parties[i]? with
    | some ⟨call, some (.exchange conn _), some _⟩ =>
      match s.lines[conn.id]? with
      | some l =>
        match l.replies[l.received]? with
        | some (_, f) =>
          (s.setLine conn.id { l with received := l.received + 1 }).happen i m call
            (.arrived (.frame f))
        | none => s
      | none => s
    | _ => s
  | .fail i m e =>
    match s.parties[i]? with
    | some ⟨call, some (.exchange _ _), _⟩ => s.happen i m call (.arrived (.failed e))
    | _ => s
  | .expire i m =>
    match s.parties[i]? with
    | some ⟨call, some (.exchange _ _), _⟩ => s.happen i m call (.arrived .timedOut)
    | _ => s
  | .say n i f =>
    match s.lines[n]? with
    | some l => if l.stream then s.setLine n { l with sent := l.sent ++ [(i, f)] } else s
    | none => s
  | .hear n =>
    match s.lines[n]? with
    | some l => if l.stream then s.setLine n { l with received := l.received + 1 } else s
    | none => s
  | .close => { s with client := s.client.close.1 }

def run (s : Traffic σ) (ms : List Move) : Traffic σ := ms.foldl step s

/-- What a call waits for is what it asked for. -/
def Fits (s : Traffic σ) : Prop := ∀ p ∈ s.parties, p.wait = p.call.stage.wait?

variable {s s' : Traffic σ} {i j k n : Nat} {p q : Party} {l l' : Line} {conn : Connection}
  {frame : Frame} {client : Client σ} {mv : Move}

/-- All that a move can do to a traffic. -/
inductive Trans (s : Traffic σ) : Move → Traffic σ → Prop
  | idle (mv : Move) : Trans s mv s
  | called (context : Context) (r : Request) (o : Options) (opens : Bool) :
    Trans s (.call context r o opens)
      { s with parties := s.parties ++ [⟨Call.new context r o opens, none, none⟩] }
  | turned (mv : Move) (i : Nat) (p q : Party) (client : Client σ) (hp : s.parties[i]? = some p)
    (hq : q.wait = q.call.stage.wait?) (hn : q.posted = none)
    (ht : Turn s.client.pool client.pool q.wait) :
    Trans s mv { s with client, parties := s.parties.set i q }
  | opened (mv : Move) (i : Nat) (p q : Party) (hp : s.parties[i]? = some p)
    (hq : q.wait = q.call.stage.wait?) (hw : q.wait = none) :
    Trans s mv
      { s with parties := s.parties.set i q, lines := s.lines ++ [Line.new true] }
  | connected (mv : Move) (i : Nat) (p q : Party) (conn : Connection) (frame : Frame)
    (hp : s.parties[i]? = some p) (hq : q.wait = q.call.stage.wait?) (hn : q.posted = none)
    (hw : q.wait = some (.exchange conn frame)) (hc : conn.id = s.lines.length) :
    Trans s mv
      { s with parties := s.parties.set i q, lines := s.lines ++ [Line.new false] }
  | posted (i : Nat) (call : Call) (conn : Connection) (frame : Frame) (l : Line)
    (hp : s.parties[i]? = some ⟨call, some (.exchange conn frame), none⟩)
    (hl : s.lines[conn.id]? = some l) :
    Trans s (.post i)
      ({ s with parties := s.parties.set i ⟨call, some (.exchange conn frame), some l.sent.length⟩
        }.setLine conn.id { l with sent := l.sent ++ [(i, frame)] })
  | replied (n place : Nat) (f : Frame) (l : Line) (hl : s.lines[n]? = some l)
    (hp : place < l.sent.length) (hr : ∀ r ∈ l.replies, r.1 < place) :
    Trans s (.reply n place f) (s.setLine n { l with replies := l.replies ++ [(place, f)] })
  | spoken (mv : Move) (n : Nat) (l l' : Line) (hl : s.lines[n]? = some l) (hs : l.stream = true)
    (hs' : l'.stream = true) : Trans s mv (s.setLine n l')
  | delivered (i : Nat) (m : Client.Moment) (p q : Party) (conn : Connection) (frame : Frame)
    (l : Line) (k : Nat) (failed : Bool) (client : Client σ) (hp : s.parties[i]? = some p)
    (hw : p.wait = some (.exchange conn frame)) (hk : p.posted = some k)
    (hl : s.lines[conn.id]? = some l) (hq : q.wait = q.call.stage.wait?) (hn : q.wait = none)
    (hc : client.pool = (s.client.pool.release conn failed).1) :
    Trans s (.deliver i m)
      ({ s with client, parties := s.parties.set i q }.setLine conn.id
        { l with received := l.received + 1 })
  | closed : Trans s .close { s with client := s.client.close.1 }

/-- What happens to a call changes its own party, and the pool as the call's turn allows. -/
theorem trans_happen {m : Client.Moment} {call : Call} {wait : Option Wait} {posted : Option Nat}
    {e : CallEvent} (hp : s.parties[i]? = some ⟨call, wait, posted⟩)
    (ha : (s.client.step m call e).2.2.findSome? Action.wait? =
      (s.client.step m call e).2.1.stage.wait?)
    (ht : Turn s.client.pool (s.client.step m call e).1.pool
      (s.client.step m call e).2.1.stage.wait?) :
    Trans s mv (s.happen i m call e) :=
  .turned mv i _ _ _ hp ha rfl (ha.symm ▸ ht)

theorem Fits.wait (hs : s.Fits) {call : Call} {wait : Option Wait} {posted : Option Nat}
    (hp : s.parties[i]? = some ⟨call, wait, posted⟩) : call.stage.wait? = wait :=
  (hs _ (List.mem_of_getElem? hp)).symm

theorem exists_exchanging {stage : Stage} (hw : stage.wait? = some (.exchange conn frame)) :
    ∃ loop a out, stage = .exchanging loop a out conn ∧ out.frame = frame := by
  cases stage with
  | exchanging loop a out conn' =>
    simp only [Stage.wait?, Option.some.injEq, Wait.exchange.injEq] at hw
    obtain ⟨rfl, rfl⟩ := hw
    exact ⟨loop, a, out, rfl, rfl⟩
  | fresh | selecting | looping | dialling | judging | done => simp [Stage.wait?] at hw

theorem wait?_discarded (c : Option Connection) :
    (c.toList.map Action.close).findSome? Action.wait? = none := wait?_closes _

/-- An exchange that came to nothing leaves the pool as it is. -/
theorem trans_missed (hs : s.Fits) {m : Client.Moment} {call : Call} {posted : Option Nat}
    (hp : s.parties[i]? = some ⟨call, some (.exchange conn frame), posted⟩) {x : Arrival}
    (hx : ∀ out, (Exchange.decode out x).isOk = false) :
    Trans s mv (s.happen i m call (.arrived x)) := by
  obtain ⟨loop, a, out, hstage, -⟩ := exists_exchanging (hs.wait hp)
  have hstep := step_arrived (c := s.client) (m := m) hstage x
  rw [hx out, Bool.not_false, Pool.release_failed] at hstep
  refine trans_happen hp ?_ ?_
  · rw [hstep]
    exact wait?_discarded _
  · rw [hstep]
    exact .rests

/-- Being given nodes changes nothing but the party. -/
theorem trans_selected (hs : s.Fits) {m : Client.Moment} {call : Call} {posted : Option Nat}
    (hp : s.parties[i]? = some ⟨call, some .nodes, posted⟩)
    (r : Except CallError Next) :
    Trans s mv (s.happen i m call (.selected r)) := by
  obtain ⟨hpool, hwait, has⟩ := turns_selected (c := s.client) (m := m) (hs.wait hp) r
  refine trans_happen hp ?_ ?_
  · rw [has, hwait]
    rfl
  · rw [hpool, hwait]
    exact .rests

/-- A new line is for a stream, or for the exchange that its call goes on to. -/
theorem trans_dialled (hs : s.Fits) {m : Client.Moment} {call : Call} {address : String}
    {stream : Bool} {posted : Option Nat}
    (hp : s.parties[i]? = some ⟨call, some (.dial address stream), posted⟩) :
    Trans s mv ({ s with lines := s.lines ++ [Line.new stream] }.happen i m call
      (.dialled (.ok s.lines.length))) := by
  obtain ⟨hclient, hasks, hstream, hframe⟩ :=
    turns_dialled (c := s.client) (m := m) (hs.wait hp) s.lines.length
  cases stream with
  | true =>
    have ht := Trans.opened mv i _ ⟨_, _, none⟩ hp hasks (hasks.trans (hstream rfl))
    simpa only [happen, hclient] using ht
  | false =>
    obtain ⟨frame, hw⟩ := hframe rfl
    have ht := Trans.connected mv i _ ⟨_, _, none⟩ _ frame hp hasks rfl (hasks.trans hw) rfl
    simpa only [happen, hclient] using ht

/-- A dial that fails changes nothing but the party. -/
theorem trans_undialled (hs : s.Fits) {m : Client.Moment} {call : Call} {address : String}
    {stream : Bool} {posted : Option Nat}
    (hp : s.parties[i]? = some ⟨call, some (.dial address stream), posted⟩)
    (e : Transport.Error) : Trans s mv (s.happen i m call (.dialled (.error e))) := by
  obtain ⟨hclient, hwait, has⟩ := turns_undialled (c := s.client) (m := m) (hs.wait hp) e
  refine trans_happen hp ?_ ?_
  · rw [has, hwait]
    rfl
  · rw [hclient, hwait]
    exact .rests

/-- A delivery takes the next reply off the line and gives the connection back. -/
theorem trans_delivered (hs : s.Fits) {m : Client.Moment} {call : Call}
    (hp : s.parties[i]? = some ⟨call, some (.exchange conn frame), some k⟩)
    (hl : s.lines[conn.id]? = some l) (f : Frame) :
    Trans s (.deliver i m) ((s.setLine conn.id { l with received := l.received + 1 }).happen i m
      call (.arrived (.frame f))) := by
  obtain ⟨loop, a, out, hstage, -⟩ := exists_exchanging (hs.wait hp)
  simp only [happen, setLine, step_arrived hstage]
  refine .delivered i m _ _ conn frame l k _ _ hp rfl rfl hl ?_ ?_ rfl
  · exact wait?_discarded _
  · exact wait?_discarded _

/-- What any move does, to the pool, the lines and the parties. -/
theorem step_trans (hs : s.Fits) (mv : Move) : Trans s mv (s.step mv) := by
  cases mv with
  | call context r o opens => exact .called context r o opens
  | proceed i m =>
    simp only [step]
    split
    · rename_i call posted hp
      have hturns := turns_proceed s.client m call (hs.wait hp)
      exact trans_happen hp hturns.asks hturns.turn
    · exact .idle _
  | selected i m r =>
    simp only [step]
    split
    · rename_i hp
      exact trans_selected hs hp r
    · exact .idle _
  | dialled i m r =>
    simp only [step]
    split
    · rename_i hp
      exact trans_dialled hs hp
    · rename_i hp
      exact trans_undialled hs hp _
    · exact .idle _
  | post i =>
    simp only [step]
    split
    · rename_i call conn frame hp
      split
      · rename_i l hl
        exact .posted i call conn frame l hp hl
      · exact .idle _
    · exact .idle _
  | reply n place f =>
    simp only [step]
    split
    · rename_i l hl
      split
      · rename_i h
        by_cases hstream : l.stream = true
        · exact .spoken _ n l _ hl hstream hstream
        · obtain ⟨hplace, hr⟩ := h.resolve_left hstream
          exact .replied n place f l hl hplace hr
      · exact .idle _
    · exact .idle _
  | deliver i m =>
    simp only [step]
    split
    · rename_i call conn frame k hp
      split
      · rename_i l hl
        split
        · exact trans_delivered hs hp hl _
        · exact .idle _
      · exact .idle _
    · exact .idle _
  | fail i m e =>
    simp only [step]
    split
    · rename_i hp
      exact trans_missed hs hp fun _ => rfl
    · exact .idle _
  | expire i m =>
    simp only [step]
    split
    · rename_i hp
      exact trans_missed hs hp fun _ => rfl
    · exact .idle _
  | say n j f =>
    simp only [step]
    split
    · rename_i l hl
      split
      · rename_i hstream
        exact .spoken _ n l _ hl hstream hstream
      · exact .idle _
    · exact .idle _
  | hear n =>
    simp only [step]
    split
    · rename_i l hl
      split
      · rename_i hstream
        exact .spoken _ n l _ hl hstream hstream
      · exact .idle _
    · exact .idle _
  | close => exact .closed

theorem Fits.set (hs : s.Fits) (hq : q.wait = q.call.stage.wait?) :
    ∀ p ∈ s.parties.set i q, p.wait = p.call.stage.wait? := by
  intro p hp
  rcases List.mem_or_eq_of_mem_set hp with hp | rfl
  · exact hs p hp
  · exact hq

theorem Fits.step (hs : s.Fits) (ht : Trans s mv s') : s'.Fits := by
  cases ht with
  | idle | replied | spoken | closed => exact hs
  | called context r o opens =>
    intro p hp
    rcases List.mem_append.1 hp with hp | hp
    · exact hs p hp
    · rw [List.mem_singleton.1 hp]
      rfl
  | turned mv i p q client hp hq => exact hs.set hq
  | opened mv i p q hp hq => exact hs.set hq
  | connected mv i p q conn frame hp hq => exact hs.set hq
  | posted i call conn frame l hp hl => exact hs.set (hs.wait hp).symm
  | delivered i m p q conn frame l k failed client hp hw hk hl hq => exact hs.set hq

/-- Neither the pool nor a call has the connection. -/
def Free (s : Traffic σ) (n : Nat) : Prop :=
  n ∉ s.client.pool.stock.map (·.id) ∧ ∀ p ∈ s.parties, p.line? ≠ some n

/-- What traffic keeps: nothing is outstanding on an idle connection, and on one that a call has
nothing but the call's frame; no two have the same one. -/
structure Sound (s : Traffic σ) : Prop where
  ordered : ∀ (n : Nat) (l : Line), s.lines[n]? = some l → l.stream = false → l.InOrder
  distinct : (s.client.pool.stock.map (·.id)).Nodup
  idle : ∀ c ∈ s.client.pool.stock, ∃ l, s.lines[c.id]? = some l ∧ l.Clear
  busy : ∀ (i : Nat) (p : Party) (conn : Connection) (frame : Frame),
    s.parties[i]? = some p → p.wait = some (.exchange conn frame) →
    conn.id ∉ s.client.pool.stock.map (·.id) ∧
      ∃ l, s.lines[conn.id]? = some l ∧ l.stream = false ∧ l.Awaits i frame p.posted
  alone : ∀ (i j : Nat) (p q : Party) (n : Nat), s.parties[i]? = some p → s.parties[j]? = some q →
    p.line? = some n → q.line? = some n → i = j

theorem line?_eq_some_iff : p.line? = some n ↔
    ∃ conn frame, p.wait = some (.exchange conn frame) ∧ conn.id = n := by
  unfold Party.line?
  split
  · rename_i conn frame hw
    simp [hw]
  · rename_i hw
    refine ⟨nofun, ?_⟩
    rintro ⟨conn, frame, he, -⟩
    exact absurd he (hw conn frame)

theorem getElem?_set_inv {α : Type} {xs : List α} {x y : α} (h : (xs.set i x)[j]? = some y) :
    i = j ∧ y = x ∨ i ≠ j ∧ xs[j]? = some y := by
  by_cases hij : i = j
  · subst hij
    have hlt : i < xs.length := by
      have hlen := (List.getElem?_eq_some_iff.1 h).1
      rwa [List.length_set] at hlen
    rw [List.getElem?_set_self hlt] at h
    exact .inl ⟨rfl, (Option.some.inj h).symm⟩
  · rw [List.getElem?_set_ne hij] at h
    exact .inr ⟨hij, h⟩

/-- A call that has no connection any more, or has not had one, takes the place of another. -/
theorem Sound.quit (hs : s.Sound) (hq : q.line? = none) :
    Sound { s with parties := s.parties.set i q } where
  ordered := hs.ordered
  distinct := hs.distinct
  idle := hs.idle
  busy j p conn frame hp hw := by
    rcases getElem?_set_inv hp with ⟨-, rfl⟩ | ⟨-, hp⟩
    · rw [line?_eq_some_iff.2 ⟨conn, frame, hw, rfl⟩] at hq
      cases hq
    · exact hs.busy j p conn frame hp hw
  alone j k p p' n hj hk hp hp' := by
    rcases getElem?_set_inv hj with ⟨-, rfl⟩ | ⟨-, hj⟩
    · rw [hp] at hq
      cases hq
    · rcases getElem?_set_inv hk with ⟨-, rfl⟩ | ⟨-, hk⟩
      · rw [hp'] at hq
        cases hq
      · exact hs.alone j k p p' n hj hk hp hp'

/-- Who leaves a line leaves it free. -/
theorem Sound.free_quit (hs : s.Sound) (hp : s.parties[i]? = some p) (hn : p.line? = some n)
    (hq : q.line? = none) : Free { s with parties := s.parties.set i q } n := by
  constructor
  · obtain ⟨conn, frame, hw, rfl⟩ := line?_eq_some_iff.1 hn
    exact (hs.busy i p conn frame hp hw).1
  · intro p' hmem hn'
    obtain ⟨j, hj⟩ := List.getElem?_of_mem hmem
    rcases getElem?_set_inv hj with ⟨-, rfl⟩ | ⟨hij, hj⟩
    · rw [hn'] at hq
      cases hq
    · exact hij (hs.alone i j p p' n hp hj hn hn')

/-- A call gets a connection that nobody has. -/
theorem Sound.seize (hs : s.Sound) (hf : s.Free conn.id) (hl : s.lines[conn.id]? = some l)
    (hstream : l.stream = false) (ha : l.Awaits i frame q.posted)
    (hq : q.wait = some (.exchange conn frame)) :
    Sound { s with parties := s.parties.set i q } where
  ordered := hs.ordered
  distinct := hs.distinct
  idle := hs.idle
  busy j p conn' frame' hp hw := by
    rcases getElem?_set_inv hp with ⟨rfl, rfl⟩ | ⟨-, hp⟩
    · rw [hq] at hw
      cases hw
      exact ⟨hf.1, l, hl, hstream, ha⟩
    · exact hs.busy j p conn' frame' hp hw
  alone j k p p' n hj hk hp hp' := by
    have hn : q.line? = some conn.id := line?_eq_some_iff.2 ⟨conn, frame, hq, rfl⟩
    rcases getElem?_set_inv hj with ⟨rfl, rfl⟩ | ⟨-, hj'⟩ <;>
      rcases getElem?_set_inv hk with ⟨rfl, rfl⟩ | ⟨-, hk'⟩
    · rfl
    · rw [hn] at hp
      cases hp
      exact absurd hp' (hf.2 p' (List.mem_of_getElem? hk'))
    · rw [hn] at hp'
      cases hp'
      exact absurd hp (hf.2 p (List.mem_of_getElem? hj'))
    · exact hs.alone j k p p' n hj' hk' hp hp'

/-- The pool gives connections up, or takes back what nobody has and nothing is outstanding on. -/
theorem Sound.restock (hs : s.Sound) (hd : (client.pool.stock.map (·.id)).Nodup)
    (hc : ∀ c ∈ client.pool.stock, c ∈ s.client.pool.stock ∨
      s.Free c.id ∧ ∃ l, s.lines[c.id]? = some l ∧ l.Clear) :
    Sound { s with client } where
  ordered := hs.ordered
  distinct := hd
  idle c hmem := by
    rcases hc c hmem with hmem | ⟨-, hl⟩
    · exact hs.idle c hmem
    · exact hl
  busy i p conn frame hp hw := by
    obtain ⟨hn, hl⟩ := hs.busy i p conn frame hp hw
    refine ⟨?_, hl⟩
    intro hmem
    obtain ⟨c, hmem, hid⟩ := List.mem_map.1 hmem
    rcases hc c hmem with hmem | ⟨hf, -⟩
    · exact hn (List.mem_map.2 ⟨c, hmem, hid⟩)
    · refine hf.2 p (List.mem_of_getElem? hp) ?_
      exact line?_eq_some_iff.2 ⟨conn, frame, hw, hid.symm⟩
  alone := hs.alone

/-- A line changes that nobody has. -/
theorem Sound.setLine (hs : s.Sound) (hf : s.Free n) (ho : l.stream = false → l.InOrder) :
    (s.setLine n l).Sound where
  ordered j l' hl' hstream := by
    rw [Traffic.setLine, List.getElem?_set] at hl'
    split at hl'
    · split at hl'
      · cases hl'
        exact ho hstream
      · cases hl'
    · exact hs.ordered j l' hl' hstream
  distinct := hs.distinct
  idle c hc := by
    have hne : n ≠ c.id := fun he => hf.1 (List.mem_map.2 ⟨c, hc, he.symm⟩)
    rw [Traffic.setLine, List.getElem?_set_ne hne]
    exact hs.idle c hc
  busy i p conn frame hp hw := by
    have hne : n ≠ conn.id := fun he =>
      hf.2 p (List.mem_of_getElem? hp) (line?_eq_some_iff.2 ⟨conn, frame, hw, he.symm⟩)
    rw [Traffic.setLine, List.getElem?_set_ne hne]
    exact hs.busy i p conn frame hp hw
  alone := hs.alone

theorem exists_setLine {l₁ : Line} (hl : s.lines[n]? = some l) (hstream : l'.stream = l.stream)
    (hsent : l'.sent = l.sent) (hreceived : l'.received = l.received)
    (hk : s.lines[k]? = some l₁) :
    ∃ l₂, (s.setLine n l').lines[k]? = some l₂ ∧ l₂.stream = l₁.stream ∧ l₂.sent = l₁.sent ∧
      l₂.received = l₁.received := by
  by_cases hn : n = k
  · subst hn
    rw [hl] at hk
    cases hk
    have hset := List.getElem?_set_self (a := l') (List.getElem?_eq_some_iff.1 hl).1
    exact ⟨l', hset, hstream, hsent, hreceived⟩
  · exact ⟨l₁, (List.getElem?_set_ne hn).trans hk, rfl, rfl, rfl⟩

/-- A peer's reply changes nothing that was sent or received. -/
theorem Sound.replied (hs : s.Sound) (hl : s.lines[n]? = some l)
    (ho : l'.stream = false → l'.InOrder) (hstream : l'.stream = l.stream)
    (hsent : l'.sent = l.sent) (hreceived : l'.received = l.received) :
    (s.setLine n l').Sound where
  ordered j l₁ hl₁ hstream₁ := by
    rw [Traffic.setLine, List.getElem?_set] at hl₁
    split at hl₁
    · split at hl₁
      · cases hl₁
        exact ho hstream₁
      · cases hl₁
    · exact hs.ordered j l₁ hl₁ hstream₁
  distinct := hs.distinct
  idle c hc := by
    obtain ⟨l₁, hl₁, hstream₁, hclear⟩ := hs.idle c hc
    obtain ⟨l₂, hl₂, hst, hse, hre⟩ := exists_setLine hl hstream hsent hreceived hl₁
    exact ⟨l₂, hl₂, hst.trans hstream₁, by rw [hse, hre, hclear]⟩
  busy i p conn frame hp hw := by
    obtain ⟨hfree, l₁, hl₁, hstream₁, ha⟩ := hs.busy i p conn frame hp hw
    obtain ⟨l₂, hl₂, hst, hse, hre⟩ := exists_setLine hl hstream hsent hreceived hl₁
    refine ⟨hfree, l₂, hl₂, hst.trans hstream₁, ?_⟩
    unfold Line.Awaits at ha ⊢
    rwa [hse, hre]
  alone := hs.alone

theorem lines_append (hl : s.lines[n]? = some l) : (s.lines ++ [l'])[n]? = some l := by
  rw [List.getElem?_append_left (List.getElem?_eq_some_iff.1 hl).1, hl]

theorem inOrder_new (stream : Bool) : (Line.new stream).InOrder := ⟨.nil, nofun⟩

/-- A new line is in order, and nobody is on it. -/
theorem Sound.addLine (hs : s.Sound) (stream : Bool) :
    Sound { s with lines := s.lines ++ [Line.new stream] } where
  ordered n l hl hstream := by
    rw [List.getElem?_append] at hl
    split at hl
    · exact hs.ordered n l hl hstream
    · rw [List.mem_singleton.1 (List.mem_of_getElem? hl)]
      exact inOrder_new stream
  distinct := hs.distinct
  idle c hc := by
    obtain ⟨l, hl, hclear⟩ := hs.idle c hc
    exact ⟨l, lines_append hl, hclear⟩
  busy i p conn frame hp hw := by
    obtain ⟨hfree, l, hl, hrest⟩ := hs.busy i p conn frame hp hw
    exact ⟨hfree, l, lines_append hl, hrest⟩
  alone := hs.alone

theorem Sound.free_next (hs : s.Sound) : s.Free s.lines.length := by
  constructor
  · intro hmem
    obtain ⟨c, hc, hid⟩ := List.mem_map.1 hmem
    obtain ⟨l, hl, -⟩ := hs.idle c hc
    rw [hid] at hl
    exact Nat.lt_irrefl _ (List.getElem?_eq_some_iff.1 hl).1
  · intro p hmem hn
    obtain ⟨i, hi⟩ := List.getElem?_of_mem hmem
    obtain ⟨conn, frame, hw, hid⟩ := line?_eq_some_iff.1 hn
    obtain ⟨-, l, hl, -⟩ := hs.busy i p conn frame hi hw
    rw [hid] at hl
    exact Nat.lt_irrefl _ (List.getElem?_eq_some_iff.1 hl).1

/-- No unary call is on the line of a stream. -/
theorem Sound.free_stream (hs : s.Sound) (hl : s.lines[n]? = some l) (hstream : l.stream = true) :
    s.Free n := by
  constructor
  · intro hmem
    obtain ⟨c, hc, rfl⟩ := List.mem_map.1 hmem
    obtain ⟨l', hl', hstream', -⟩ := hs.idle c hc
    rw [hl] at hl'
    cases hl'
    rw [hstream] at hstream'
    cases hstream'
  · intro p hmem hn
    obtain ⟨i, hi⟩ := List.getElem?_of_mem hmem
    obtain ⟨conn, frame, hw, rfl⟩ := line?_eq_some_iff.1 hn
    obtain ⟨-, l', hl', hstream', -⟩ := hs.busy i p conn frame hi hw
    rw [hl] at hl'
    cases hl'
    rw [hstream] at hstream'
    cases hstream'

theorem Sound.join (hs : s.Sound) (hq : q.line? = none) :
    Sound { s with parties := s.parties ++ [q] } := by
  have old {j : Nat} {p : Party} (hj : (s.parties ++ [q])[j]? = some p) {n : Nat}
      (hn : p.line? = some n) : s.parties[j]? = some p := by
    rw [List.getElem?_append] at hj
    split at hj
    · exact hj
    · rw [List.mem_singleton.1 (List.mem_of_getElem? hj), hq] at hn
      cases hn
  exact {
    ordered := hs.ordered
    distinct := hs.distinct
    idle := hs.idle
    busy := by
      intro j p conn frame hp hw
      exact hs.busy j p conn frame (old hp (line?_eq_some_iff.2 ⟨conn, frame, hw, rfl⟩)) hw
    alone := by
      intro j k p p' n hj hk hp hp'
      exact hs.alone j k p p' n (old hj hp) (old hk hp') hp hp' }

theorem line?_of_wait_none (hw : q.wait = none) : q.line? = none := by
  rw [Party.line?, hw]

theorem line?_of_ne (hw : ∀ conn frame, q.wait ≠ some (.exchange conn frame)) : q.line? = none := by
  refine Option.eq_none_iff_forall_ne_some.2 ?_
  intro n hq
  obtain ⟨conn, frame, he, -⟩ := line?_eq_some_iff.1 hq
  exact hw conn frame he

/-- A connection that a call takes from the pool is nobody else's. -/
theorem Sound.free_found (hs : s.Sound) {now : Instant} {address : String}
    (hf : (s.client.pool.acquire now address).2.found = some conn)
    (hp : client.pool = (s.client.pool.acquire now address).1) :
    Free { s with client } conn.id := by
  constructor
  · rw [hp]
    exact Pool.found_not_mem hs.distinct hf
  · intro p hpm hpn
    obtain ⟨j, hj⟩ := List.getElem?_of_mem hpm
    obtain ⟨conn', frame', hw', hid⟩ := line?_eq_some_iff.1 hpn
    refine (hs.busy j p conn' frame' hj hw').1 ?_
    rw [hid]
    exact List.mem_map_of_mem (Pool.found_mem hf)

/-- A call that takes a connection, or none, keeps the lines apart. -/
theorem Sound.turned (hs : s.Sound) (hn : q.posted = none)
    (ht : Turn s.client.pool client.pool q.wait) :
    Sound { s with client, parties := s.parties.set i q } := by
  have apart (hq : q.line? = none) (hd : (client.pool.stock.map (·.id)).Nodup)
      (hc : client.pool.stock ⊆ s.client.pool.stock) :
      Sound { s with client, parties := s.parties.set i q } :=
    (hs.restock hd fun c hmem => .inl (hc hmem)).quit hq
  generalize hw : q.wait = w at ht
  generalize hp : client.pool = pool at ht
  cases ht with
  | rests | selects | opens =>
    refine apart (line?_of_ne (by simp [hw])) ?_ ?_
    · rw [hp]
      exact hs.distinct
    · rw [hp]
      exact List.Subset.refl _
  | dials now address =>
    refine apart (line?_of_ne (by simp [hw])) ?_ ?_
    · rw [hp]
      exact Pool.nodup_acquire hs.distinct
    · rw [hp]
      exact Pool.acquire_subset
  | reuses now address conn frame hf =>
    have hd : (client.pool.stock.map (·.id)).Nodup := hp ▸ Pool.nodup_acquire hs.distinct
    have hc : client.pool.stock ⊆ s.client.pool.stock := hp ▸ Pool.acquire_subset
    have hnew : Sound { s with client } := hs.restock hd fun c hmem => .inl (hc hmem)
    obtain ⟨l, hl, hstream, hclear⟩ := hs.idle conn (Pool.found_mem hf)
    refine hnew.seize (hs.free_found hf hp) hl hstream ?_ hw
    rw [hn]
    exact hclear

/-- A call that is to send a frame has an idle line: the frame is the one that is outstanding. -/
theorem Sound.posted (hs : s.Sound) {call : Call}
    (hp : s.parties[i]? = some ⟨call, some (.exchange conn frame), none⟩)
    (hl : s.lines[conn.id]? = some l) :
    Sound ({ s with
      parties := s.parties.set i ⟨call, some (.exchange conn frame), some l.sent.length⟩ }.setLine
        conn.id { l with sent := l.sent ++ [(i, frame)] }) := by
  obtain ⟨-, l', hl', hstream, ha⟩ := hs.busy i _ conn frame hp rfl
  rw [hl] at hl'
  cases hl'
  have hclear : l.received = l.sent.length := ha
  have hfree := hs.free_quit (n := conn.id) (q := ⟨call, none, none⟩) hp rfl rfl
  have hout := hs.quit (i := i) (q := ⟨call, none, none⟩) rfl
  have hsent := hout.setLine (l := { l with sent := l.sent ++ [(i, frame)] }) hfree
    fun _ => Line.InOrder.sent (hs.ordered _ l hl hstream)
  have hnext : Line.Awaits { l with sent := l.sent ++ [(i, frame)] } i frame
      (some l.sent.length) := ⟨hclear.symm, by simp [hclear], by simp⟩
  have hback := hsent.seize (q := ⟨call, some (.exchange conn frame), some l.sent.length⟩) hfree
    (List.getElem?_set_self (List.getElem?_eq_some_iff.1 hl).1) hstream hnext rfl
  simp only [Traffic.setLine, List.set_set] at hback ⊢
  exact hback

/-- The reply that a call was waiting for leaves its line idle, fit for the pool. -/
theorem Sound.delivered (hs : s.Sound) {failed : Bool} (hp : s.parties[i]? = some p)
    (hw : p.wait = some (.exchange conn frame)) (hk : p.posted = some k)
    (hl : s.lines[conn.id]? = some l) (hn : q.wait = none)
    (hc : client.pool = (s.client.pool.release conn failed).1) :
    Sound ({ s with client, parties := s.parties.set i q }.setLine conn.id
      { l with received := l.received + 1 }) := by
  obtain ⟨hout, l', hl', hstream, ha⟩ := hs.busy i p conn frame hp hw
  rw [hl] at hl'
  cases hl'
  rw [hk] at ha
  obtain ⟨-, hlen, -⟩ := ha
  have hfree := hs.free_quit hp (line?_eq_some_iff.2 ⟨conn, frame, hw, rfl⟩)
    (line?_of_wait_none hn)
  have hread := (hs.quit (i := i) (line?_of_wait_none hn)).setLine
    (l := { l with received := l.received + 1 }) hfree
    fun h => (hs.ordered _ l hl h)
  refine hread.restock ?_ ?_
  · rw [hc]
    exact Pool.nodup_release hs.distinct hout
  · intro c hmem
    rw [hc] at hmem
    rcases List.mem_cons.1 (Pool.release_subset hmem) with rfl | hmem
    · refine .inr ⟨hfree, { l with received := l.received + 1 }, ?_, hstream, hlen.symm⟩
      exact List.getElem?_set_self (List.getElem?_eq_some_iff.1 hl).1
    · exact .inl hmem

theorem Sound.step (hs : s.Sound) (ht : Trans s mv s') : s'.Sound := by
  cases ht with
  | idle => exact hs
  | called context r o opens => exact hs.join rfl
  | turned mv i p q client hp hq hn ht => exact hs.turned hn ht
  | opened mv i p q hp hq hw => exact (hs.addLine true).quit (line?_of_wait_none hw)
  | connected mv i p q conn frame hp hq hn hw hc =>
    have hfree : Free { s with lines := s.lines ++ [Line.new false] } conn.id := by
      rw [hc]
      exact hs.free_next
    refine (hs.addLine false).seize hfree (l := .new false) ?_ rfl ?_ hw
    · rw [hc]
      exact List.getElem?_concat_length
    · rw [hn]
      rfl
  | posted i call conn frame l hp hl => exact hs.posted hp hl
  | replied n place f l hl hp hr =>
    refine hs.replied hl ?_ rfl rfl rfl
    intro hstream
    exact Line.InOrder.reply (hs.ordered n l hl hstream) hp hr
  | spoken mv n l l' hl hstream hstream' =>
    refine hs.setLine (hs.free_stream hl hstream) ?_
    intro h
    rw [hstream'] at h
    cases h
  | delivered i m p q conn frame l k failed client hp hw hk hl hq hn hc =>
    exact hs.delivered hp hw hk hl hn hc
  | closed => exact hs.restock List.nodup_nil nofun

/-- A client that has not been used yet. -/
def new (config : Config) (codecs : CodecSet) (wrappers : Chain σ) (hooks : σ) : Traffic σ :=
  { client := Client.ofConfig config codecs wrappers hooks }

theorem sound_new (config : Config) (codecs : CodecSet) (wrappers : Chain σ) (hooks : σ) :
    (new config codecs wrappers hooks).Sound where
  ordered _ _ h := nomatch h
  distinct := List.nodup_nil
  idle _ h := nomatch h
  busy _ _ _ _ h := nomatch h
  alone _ _ _ _ _ h := nomatch h

theorem fits_new (config : Config) (codecs : CodecSet) (wrappers : Chain σ) (hooks : σ) :
    (new config codecs wrappers hooks).Fits :=
  fun _ h => nomatch h

theorem sound_run (hs : s.Sound) (hf : s.Fits) (ms : List Move) :
    (s.run ms).Sound ∧ (s.run ms).Fits := by
  induction ms generalizing s with
  | nil => exact ⟨hs, hf⟩
  | cons mv ms ih =>
    have ht := step_trans hf mv
    exact ih (hs.step ht) (hf.step ht)

/-- Nothing is outstanding on an idle connection, none of these was dialled for a stream, and the
frame that a call is given is the reply to the frame that it sent itself, for this attempt. -/
structure Matched (s : Traffic σ) : Prop where
  idle : ∀ c ∈ s.client.pool.stock, ∃ l, s.lines[c.id]? = some l ∧ l.received = l.sent.length
  streams : ∀ (n : Nat) (l : Line), s.lines[n]? = some l → l.stream = true →
    n ∉ s.client.pool.stock.map (·.id)
  answered : ∀ (i : Nat) (m : Client.Moment) (p : Party) (loop : Retry Outcome) (a : Attempt)
    (out : Outgoing) (conn : Connection) (l : Line) (place : Nat) (f : Frame),
    s.parties[i]? = some p → p.call.stage = .exchanging loop a out conn →
    s.lines[conn.id]? = some l → l.replies[l.received]? = some (place, f) →
    p.posted = some place ∧ l.sent[place]? = some (i, out.frame) ∧
      (s.step (.deliver i m)).parties[i]? = some
        ⟨{ p.call with
            stage := .judging loop a.info
              (((Exchange.decode out (.frame f)).bind Exchange.accept).map .response) },
          none, none⟩

/-- A delivery hands the reply to the attempt that waits for it, which judges it. -/
theorem step_deliver {m : Client.Moment} {loop : Retry Outcome} {a : Attempt} {out : Outgoing}
    {place : Nat} {f : Frame} (hp : s.parties[i]? = some p)
    (hw : p.wait = some (.exchange conn frame)) (hk : p.posted = some k)
    (hstage : p.call.stage = .exchanging loop a out conn) (hl : s.lines[conn.id]? = some l)
    (hr : l.replies[l.received]? = some (place, f)) :
    (s.step (.deliver i m)).parties[i]? = some
      ⟨{ p.call with
          stage := .judging loop a.info
            (((Exchange.decode out (.frame f)).bind Exchange.accept).map .response) },
        none, none⟩ := by
  obtain ⟨call, wait, posted⟩ := p
  obtain rfl : wait = some (.exchange conn frame) := hw
  obtain rfl : posted = some k := hk
  have hlt := (List.getElem?_eq_some_iff.1 hp).1
  simp only [step, hp, hl, hr, happen, setLine, step_arrived hstage, wait?_discarded]
  exact List.getElem?_set_self hlt

/-- Whatever the interleaving, the reply an attempt decodes answers the frame it wrote. -/
theorem matched_run (config : Config) (codecs : CodecSet) (wrappers : Chain σ) (hooks : σ)
    (ms : List Move) : Matched ((new config codecs wrappers hooks).run ms) := by
  obtain ⟨hs, hf⟩ := sound_run (sound_new config codecs wrappers hooks)
    (fits_new config codecs wrappers hooks) ms
  exact {
    idle := by
      intro c hc
      obtain ⟨l, hl, -, hclear⟩ := hs.idle c hc
      exact ⟨l, hl, hclear⟩
    streams := fun n l hl hstream => (hs.free_stream hl hstream).1
    answered := by
      intro i m p loop a out conn l place f hp hstage hl hr
      have hw : p.wait = some (.exchange conn out.frame) := by
        rw [hf p (List.mem_of_getElem? hp), hstage]
        rfl
      obtain ⟨-, l', hl', hstream, ha⟩ := hs.busy i p conn out.frame hp hw
      rw [hl] at hl'
      cases hl'
      obtain ⟨hposted, hsent⟩ := Line.InOrder.awaited (hs.ordered _ l hl hstream) ha hr
      exact ⟨hposted, hsent, step_deliver hp hw hposted hstage hl hr⟩ }

end Traffic
end Switchboard.Client
