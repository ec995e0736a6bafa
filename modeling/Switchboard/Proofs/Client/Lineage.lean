import Mathlib.Data.List.Induction
import Mathlib.Logic.Relation
import Switchboard.Bench.Contexts
import Switchboard.Proofs.Client.CallLoop

/-! Contexts made one from another, in any way and order: which cancellations end them, and when
they are due. -/
namespace Switchboard.Client

open Rpc (CallError)

/-- How a context is made: on its own, or from the context of a number. -/
inductive Making
  | fresh
  | copy (i : Nat)
  | timed (i : Nat) (t : Instant)
  | child (i : Nat)

namespace Making

/-- The context whose token it takes over. -/
def source? : Making → Option Nat
  | copy i | timed i _ => some i
  | fresh | child _ => none

end Making

/-- Contexts in the order in which they are made, how each of them is, and on which of them `cancel`
has been called. -/
structure Lineage where
  now : Instant := 0
  cancellation : Cancellation := {}
  contexts : List Context := []
  makings : List Making := []
  cancels : List Nat := []

namespace Lineage

inductive Move
  | new
  | clone (i : Nat)
  | withMetadata (i : Nat) (key value : String)
  | withDeadline (i : Nat) (t : Instant)
  | withTimeout (i : Nat) (d : Duration)
  | child (i : Nat)
  | cancel (i : Nat)
  | tick (d : Duration)

def add (s : Lineage) (c : Cancellation) (ctx : Context) (how : Making) : Lineage :=
  { s with cancellation := c, contexts := s.contexts ++ [ctx], makings := s.makings ++ [how] }

/-- A context that takes over the token of another one. -/
def derive (s : Lineage) (i : Nat) (how : Making) (f : Context → Context) : Lineage :=
  match s.contexts[i]? with
  | some ctx => s.add s.cancellation (f ctx) how
  | none => s

def step (s : Lineage) : Move → Lineage
  | .new => s.add (Context.new s.cancellation).1 (Context.new s.cancellation).2 .fresh
  | .clone i => s.derive i (.copy i) id
  | .withMetadata i key value => s.derive i (.copy i) (·.withMetadata key value)
  | .withDeadline i t => s.derive i (.timed i t) (·.withDeadline t)
  | .withTimeout i d => s.derive i (.timed i (s.now + d)) (·.withTimeout s.now d)
  | .child i =>
    match s.contexts[i]? with
    | some ctx => s.add (ctx.child s.cancellation).1 (ctx.child s.cancellation).2 (.child i)
    | none => s
  | .cancel i =>
    match s.contexts[i]? with
    | some ctx =>
      { s with cancellation := s.cancellation.cancel ctx.token, cancels := s.cancels ++ [i] }
    | none => s
  | .tick d => { s with now := s.now + d }

def run (s : Lineage) (ms : List Move) : Lineage := ms.foldl step s

/-- The two have one token: one was made from the other without a new one, or both from a third. -/
def Shares (hs : List Making) : Nat → Nat → Prop :=
  Relation.EqvGen fun i j => ∃ h, hs[i]? = some h ∧ h.source? = some j

/-- The second has the token of the first, or one that this descends from. -/
inductive Heeds (hs : List Making) : Nat → Nat → Prop
  | same (i j : Nat) (h : Shares hs i j) : Heeds hs i j
  | child (i k p j : Nat) (h : Shares hs i k) (hk : hs[k]? = some (.child p)) (hp : Heeds hs p j) :
    Heeds hs i j

/-- The deadline that was set last, or that was inherited. -/
inductive Due (hs : List Making) : Nat → Instant → Prop
  | timed (i j : Nat) (t : Instant) (h : hs[i]? = some (.timed j t)) : Due hs i t
  | copy (i j : Nat) (t : Instant) (h : hs[i]? = some (.copy j)) (hj : Due hs j t) : Due hs i t
  | child (i j : Nat) (t : Instant) (h : hs[i]? = some (.child j)) (hj : Due hs j t) : Due hs i t

variable {s s' : Lineage} {hs : List Making} {h how : Making} {ctx ctx' : Context}
  {c : Cancellation} {i j k n p : Nat} {t : Instant} {e : CallError} {m : Move}

theorem getElem?_append_old {α : Type} {xs ys : List α} {a : α} (h : xs[i]? = some a) :
    (xs ++ ys)[i]? = some a := by
  rw [List.getElem?_append_left (List.getElem?_eq_some_iff.1 h).1, h]

theorem Shares.refl (hs : List Making) (i : Nat) : Shares hs i i := Relation.EqvGen.refl i

theorem Shares.symm (h : Shares hs i j) : Shares hs j i := Relation.EqvGen.symm i j h

theorem Shares.trans (h : Shares hs i j) (h' : Shares hs j k) : Shares hs i k :=
  Relation.EqvGen.trans i j k h h'

theorem shares_source (hi : hs[i]? = some h) (hj : h.source? = some j) : Shares hs i j :=
  .rel i j ⟨h, hi, hj⟩

theorem Shares.append (h : Shares hs i j) (how : Making) : Shares (hs ++ [how]) i j := by
  refine Relation.EqvGen.mono ?_ i j h
  rintro a b ⟨g, ha, hb⟩
  exact ⟨g, getElem?_append_old ha, hb⟩

theorem Heeds.append (h : Heeds hs i j) (how : Making) : Heeds (hs ++ [how]) i j := by
  induction h with
  | same i j h => exact .same i j (h.append how)
  | child i k p j h hk hp ih => exact .child i k p j (h.append how) (getElem?_append_old hk) ih

theorem Due.append (h : Due hs i t) (how : Making) : Due (hs ++ [how]) i t := by
  induction h with
  | timed i j t h => exact .timed i j t (getElem?_append_old h)
  | copy i j t h hj ih => exact .copy i j t (getElem?_append_old h) ih
  | child i j t h hj ih => exact .child i j t (getElem?_append_old h) ih

theorem Heeds.of_shares (h : Shares hs i k) (hk : Heeds hs k j) : Heeds hs i j := by
  cases hk with
  | same k j hj => exact .same i j (h.trans hj)
  | child k l p j hl hp hj => exact .child i l p j (h.trans hl) hp hj

theorem Heeds.shares (h : Heeds hs i j) (hj : Shares hs j k) : Heeds hs i k := by
  induction h with
  | same i j h => exact .same i k (h.trans hj)
  | child i l p j h hl hp ih => exact .child i l p k h hl (ih hj)

end Lineage

namespace Context

variable {ctx : Context} {c : Cancellation} {now : Instant} {e : CallError}

/-- What the waiting for the end of a context may come to at a moment: it waits for two things, and
takes either of those that have happened. -/
inductive Resolves (ctx : Context) (c : Cancellation) (now : Instant) : CallError → Prop
  | cancelled (h : c.isCancelled ctx.token = true) : Resolves ctx c now .cancelled
  | overdue (t : Instant) (hd : ctx.deadline = some t) (h : t ≤ now) :
    Resolves ctx c now .deadlineExceeded

theorem isOverdue_iff : ctx.isOverdue now = true ↔ ∃ t, ctx.deadline = some t ∧ t ≤ now := by
  unfold isOverdue
  cases hd : ctx.deadline <;> simp

/-- The endings of a context are the errors that waiting for it may resolve with. -/
theorem mem_endings_iff : e ∈ ctx.endings c now ↔ ctx.Resolves c now e := by
  rw [endings, List.mem_append]
  constructor
  · rintro (he | he)
    · split at he
      · rename_i hc
        rw [List.mem_singleton.1 he]
        exact .cancelled hc
      · cases he
    · split at he
      · rename_i hdue
        obtain ⟨t, hd, ht⟩ := isOverdue_iff.1 hdue
        rw [List.mem_singleton.1 he]
        exact .overdue t hd ht
      · cases he
  · rintro (hc | ⟨t, hd, ht⟩)
    · exact .inl (by simp [hc])
    · exact .inr (by simp [isOverdue_iff.2 ⟨t, hd, ht⟩])

theorem check_eq : ctx.check c now =
    if c.isCancelled ctx.token then .error .cancelled
    else if ctx.isOverdue now then .error .deadlineExceeded
    else .ok () := by
  unfold check endings
  by_cases hc : c.isCancelled ctx.token = true <;> by_cases hd : ctx.isOverdue now = true <;>
    simp [hc, hd]

/-- A check of a context that has ended says how, but for a cancellation after the deadline. -/
theorem Resolves.check (h : ctx.Resolves c now e) : ctx.check c now = .error e ∨
    e = .deadlineExceeded ∧ c.isCancelled ctx.token = true ∧
      ctx.check c now = .error .cancelled := by
  rw [check_eq]
  cases h with
  | cancelled hc => exact .inl (if_pos hc)
  | overdue t hd ht =>
    by_cases hc : c.isCancelled ctx.token = true
    · exact .inr ⟨rfl, hc, if_pos hc⟩
    · rw [if_neg hc, if_pos (isOverdue_iff.2 ⟨t, hd, ht⟩)]
      exact .inl rfl

end Context

/-- The numbers of a token and of those that it descends from. -/
def Token.chain (t : Token) : List Nat := t.own :: t.ancestors

theorem Token.own_mem_chain (t : Token) : t.own ∈ t.chain := List.mem_cons_self

/-- A token is cancelled with itself or with one that it descends from. -/
theorem Cancellation.isCancelled_iff {c : Cancellation} {t : Token} :
    c.isCancelled t = true ↔ ∃ n ∈ t.chain, n ∈ c.cancelled := by
  simp only [isCancelled, List.any_eq_true, List.contains_iff_mem, Token.chain]

namespace Lineage

variable {s s' : Lineage} {hs : List Making} {h how : Making} {ctx ctx' : Context}
  {c : Cancellation} {i j k n p : Nat} {t : Instant} {e : CallError} {m : Move}

/-- What a context has from how it was made. -/
def Fits (s : Lineage) (i : Nat) (ctx : Context) : Making → Prop
  | .fresh => ctx.token.ancestors = [] ∧ ctx.deadline = none
  | .copy p => p < i ∧ ∃ ctx', s.contexts[p]? = some ctx' ∧ ctx.token = ctx'.token ∧
      ctx.deadline = ctx'.deadline
  | .timed p t => p < i ∧ ∃ ctx', s.contexts[p]? = some ctx' ∧ ctx.token = ctx'.token ∧
      ctx.deadline = some t
  | .child p => p < i ∧ ∃ ctx', s.contexts[p]? = some ctx' ∧
      ctx.token.ancestors = ctx'.token.chain ∧ ctx.deadline = ctx'.deadline

/-- Tokens are numbered as they are made, and say how the contexts were. -/
structure Sound (s : Lineage) : Prop where
  length : s.makings.length = s.contexts.length
  known : ∀ (i : Nat) (ctx : Context), s.contexts[i]? = some ctx →
    ∀ n ∈ ctx.token.chain, n < s.cancellation.next
  fits : ∀ (i : Nat) (ctx : Context) (h : Making), s.contexts[i]? = some ctx →
    s.makings[i]? = some h → s.Fits i ctx h
  later : ∀ (i j : Nat) (ctx ctx' : Context) (h : Making), i < j → s.contexts[i]? = some ctx →
    s.contexts[j]? = some ctx' → s.makings[j]? = some h → h.source? = none →
      ∀ n ∈ ctx.token.chain, n < ctx'.token.own
  shares : ∀ (i j : Nat) (ctx ctx' : Context), s.contexts[i]? = some ctx →
    s.contexts[j]? = some ctx' → ctx.token.own = ctx'.token.own → Shares s.makings i j
  heeds : ∀ (i j : Nat) (ctx ctx' : Context), s.contexts[i]? = some ctx →
    s.contexts[j]? = some ctx' → ctx'.token.own ∈ ctx.token.chain → Heeds s.makings i j
  due : ∀ (i : Nat) (ctx : Context) (t : Instant), s.contexts[i]? = some ctx →
    ctx.deadline = some t → Due s.makings i t
  counted : ∀ j ∈ s.cancels, j < s.contexts.length
  called : ∀ n, n ∈ s.cancellation.cancelled ↔
    ∃ j ∈ s.cancels, ∃ ctx : Context, s.contexts[j]? = some ctx ∧ ctx.token.own = n

theorem sound_new : ({} : Lineage).Sound where
  length := rfl
  known _ _ h := nomatch h
  fits _ _ _ h := nomatch h
  later _ _ _ _ _ _ h := nomatch h
  shares _ _ _ _ h := nomatch h
  heeds _ _ _ _ h := nomatch h
  due _ _ _ h := nomatch h
  counted _ h := nomatch h
  called n := by simp

theorem Fits.append (hf : s.Fits i ctx h) : (s.add c ctx' how).Fits i ctx h := by
  cases h with
  | fresh => exact hf
  | copy | timed | child =>
    obtain ⟨hp, d, hd, hrest⟩ := hf
    exact ⟨hp, d, getElem?_append_old hd, hrest⟩

/-! What the tokens and deadlines say is so. -/

theorem Sound.exists_context (hs : s.Sound) (hi : s.makings[i]? = some h) :
    ∃ ctx, s.contexts[i]? = some ctx ∧ s.Fits i ctx h := by
  have hlt : i < s.contexts.length := by
    rw [← hs.length]
    exact (List.getElem?_eq_some_iff.1 hi).1
  have hc := List.getElem?_eq_getElem hlt
  exact ⟨_, hc, hs.fits i _ h hc hi⟩

theorem Fits.token (hf : s.Fits i ctx h) (hp : h.source? = some p) :
    ∃ d, s.contexts[p]? = some d ∧ ctx.token = d.token := by
  cases h with
  | fresh | child => cases hp
  | copy | timed =>
    cases hp
    obtain ⟨-, d, hd, ht, -⟩ := hf
    exact ⟨d, hd, ht⟩

/-- Contexts said to share a token do. -/
theorem Sound.token_eq (hs : s.Sound) (h : Shares s.makings i j) :
    s.contexts[i]?.map (·.token) = s.contexts[j]?.map (·.token) := by
  induction h with
  | rel i j h =>
    obtain ⟨g, hi, hj⟩ := h
    obtain ⟨ctx, hc, hf⟩ := hs.exists_context hi
    obtain ⟨d, hd, htoken⟩ := hf.token hj
    rw [hc, hd, Option.map_some, Option.map_some, htoken]
  | refl => rfl
  | symm i j h ih => exact ih.symm
  | trans i j k h h' ih ih' => exact ih.trans ih'

theorem Sound.token_of_shares (hs : s.Sound) (h : Shares s.makings i j)
    (hi : s.contexts[i]? = some ctx) (hj : s.contexts[j]? = some ctx') :
    ctx.token = ctx'.token := by
  have heq := hs.token_eq h
  rw [hi, hj] at heq
  exact Option.some.inj heq

/-- The token of a context that is heeded is in the chain of the one that heeds it. -/
theorem Sound.mem_chain (hs : s.Sound) (h : Heeds s.makings i j) (hi : s.contexts[i]? = some ctx)
    (hj : s.contexts[j]? = some ctx') : ctx'.token.own ∈ ctx.token.chain := by
  induction h generalizing ctx with
  | same i j h =>
    rw [hs.token_of_shares h hi hj]
    exact ctx'.token.own_mem_chain
  | child i k p j h hk hp ih =>
    obtain ⟨d, hd, -, parent, hparent, hanc, -⟩ := hs.exists_context hk
    rw [hs.token_of_shares h hi hd, Token.chain, hanc]
    exact List.mem_cons_of_mem _ (ih hparent hj)

theorem Sound.deadline (hs : s.Sound) (h : Due s.makings i t) (hi : s.contexts[i]? = some ctx) :
    ctx.deadline = some t := by
  induction h generalizing ctx with
  | timed i j t h =>
    obtain ⟨-, -, -, -, hd⟩ := hs.fits i ctx _ hi h
    exact hd
  | copy i j t h hj ih =>
    obtain ⟨-, d, hd, -, hdeadline⟩ := hs.fits i ctx _ hi h
    rw [hdeadline, ih hd]
  | child i j t h hj ih =>
    obtain ⟨-, d, hd, -, hdeadline⟩ := hs.fits i ctx _ hi h
    rw [hdeadline, ih hd]

theorem Sound.due_iff (hs : s.Sound) (hi : s.contexts[i]? = some ctx) :
    ctx.deadline = some t ↔ Due s.makings i t :=
  ⟨hs.due i ctx t hi, fun h => hs.deadline h hi⟩

/-! One context more. -/

/-- What there is to know of a context that is added. -/
structure Joins (s : Lineage) (c : Cancellation) (ctx : Context) (how : Making) : Prop where
  cancelled : c.cancelled = s.cancellation.cancelled
  next : s.cancellation.next ≤ c.next
  known : ∀ n ∈ ctx.token.chain, n < c.next
  fits : s.Fits s.contexts.length ctx how
  fresh : how.source? = none → ctx.token.own = s.cancellation.next

theorem Sound.getElem?_makings (hs : s.Sound) (how : Making) :
    (s.makings ++ [how])[s.contexts.length]? = some how := by
  rw [← hs.length]
  exact List.getElem?_concat_length

/-- A context shares the token of a new one only if it was made from it or it from that. -/
theorem Sound.shares_new (hs : s.Sound) (hj : s.Joins c ctx how) (hi : s.contexts[i]? = some ctx')
    (ho : ctx'.token.own = ctx.token.own) :
    Shares (s.makings ++ [how]) i s.contexts.length := by
  cases hsource : how.source? with
  | none =>
    have hold := hs.known i ctx' hi _ ctx'.token.own_mem_chain
    rw [ho, hj.fresh hsource] at hold
    exact absurd hold (Nat.lt_irrefl _)
  | some p =>
    obtain ⟨d, hd, ht⟩ := hj.fits.token hsource
    rw [ht] at ho
    have hlast := shares_source (hs.getElem?_makings how) hsource
    exact ((hs.shares i p ctx' d hi hd ho).append how).trans hlast.symm

/-- A token that an older context goes by is older, or has been taken over. -/
theorem Sound.heeds_new (hs : s.Sound) (hj : s.Joins c ctx how) (hi : s.contexts[i]? = some ctx')
    (ho : ctx.token.own ∈ ctx'.token.chain) :
    Heeds (s.makings ++ [how]) i s.contexts.length := by
  cases hsource : how.source? with
  | none =>
    have hold := hs.known i ctx' hi _ ho
    rw [hj.fresh hsource] at hold
    exact absurd hold (Nat.lt_irrefl _)
  | some p =>
    obtain ⟨d, hd, ht⟩ := hj.fits.token hsource
    rw [ht] at ho
    have hshares := hs.shares_new hj hd (by rw [ht])
    exact ((hs.heeds i p ctx' d hi hd ho).append how).shares hshares

/-- A new context heeds no others than those that its making says. -/
theorem Sound.new_heeds (hs : s.Sound) (hj : s.Joins c ctx how) (hi : s.contexts[i]? = some ctx')
    (ho : ctx'.token.own ∈ ctx.token.chain) :
    Heeds (s.makings ++ [how]) s.contexts.length i := by
  have hlast := hs.getElem?_makings how
  have hold := hs.known i ctx' hi _ ctx'.token.own_mem_chain
  have ofSource (p : Nat) (hp : how.source? = some p) :
      Heeds (s.makings ++ [how]) s.contexts.length i := by
    obtain ⟨d, hd, ht⟩ := hj.fits.token hp
    rw [ht] at ho
    exact .of_shares (shares_source hlast hp) ((hs.heeds p i d ctx' hd hi ho).append how)
  cases how with
  | fresh =>
    rw [Token.chain, hj.fits.1, List.mem_singleton, hj.fresh rfl] at ho
    exact absurd hold (ho ▸ Nat.lt_irrefl _)
  | copy p | timed p => exact ofSource p rfl
  | child p =>
    obtain ⟨-, d, hd, hanc, -⟩ := hj.fits
    rw [Token.chain, hanc, hj.fresh rfl] at ho
    rcases List.mem_cons.1 ho with ho | ho
    · exact absurd hold (ho ▸ Nat.lt_irrefl _)
    · exact .child _ _ p i (.refl _ _) hlast ((hs.heeds p i d ctx' hd hi ho).append _)

theorem Sound.new_due (hs : s.Sound) (hj : s.Joins c ctx how) (hd : ctx.deadline = some t) :
    Due (s.makings ++ [how]) s.contexts.length t := by
  have hlast := hs.getElem?_makings how
  cases how with
  | fresh =>
    rw [hj.fits.2] at hd
    cases hd
  | timed p u =>
    obtain ⟨-, -, -, -, hu⟩ := hj.fits
    rw [hu] at hd
    cases hd
    exact .timed _ p t hlast
  | copy p =>
    obtain ⟨-, d, hp, -, heq⟩ := hj.fits
    exact .copy _ p t hlast ((hs.due p d t hp (heq ▸ hd)).append _)
  | child p =>
    obtain ⟨-, d, hp, -, heq⟩ := hj.fits
    exact .child _ p t hlast ((hs.due p d t hp (heq ▸ hd)).append _)

/-- A context that joins keeps the record sound. -/
theorem Sound.add (hs : s.Sound) (hj : s.Joins c ctx how) : (s.add c ctx how).Sound where
  length := by simp [Lineage.add, hs.length]
  known i d hd n hn := by
    rcases getElem?_snoc hd with ⟨-, hi⟩ | ⟨-, rfl⟩
    · exact Nat.lt_of_lt_of_le (hs.known i d hi n hn) hj.next
    · exact hj.known n hn
  fits i d g hi hg := by
    rcases getElem?_snoc hi with ⟨hlt, hi⟩ | ⟨rfl, rfl⟩ <;>
      rcases getElem?_snoc hg with ⟨hlt', hg⟩ | ⟨hlen, rfl⟩
    · exact (hs.fits i d g hi hg).append
    · have hlen := hs.length
      omega
    · have hlen := hs.length
      omega
    · exact hj.fits.append
  later i j d d' g hij hd hd' hg hsource n hn := by
    rcases getElem?_snoc hd with ⟨hlt, hi⟩ | ⟨rfl, rfl⟩ <;>
      rcases getElem?_snoc hd' with ⟨hlt', hi'⟩ | ⟨rfl, rfl⟩ <;>
      rcases getElem?_snoc hg with ⟨hlt'', hg⟩ | ⟨hlen, rfl⟩
    · exact hs.later i j d d' g hij hi hi' hg hsource n hn
    · have hlen := hs.length
      omega
    · have hlen := hs.length
      omega
    · rw [hj.fresh hsource]
      exact hs.known i d hi n hn
    all_goals omega
  -- Each of the two contexts is an old one or the one that joins.
  shares i j d d' hd hd' ho := by
    rcases getElem?_snoc hd with ⟨-, hi⟩ | ⟨rfl, rfl⟩ <;>
      rcases getElem?_snoc hd' with ⟨-, hi'⟩ | ⟨rfl, rfl⟩
    · exact (hs.shares i j d d' hi hi' ho).append how
    · exact hs.shares_new hj hi ho
    · exact (hs.shares_new hj hi' ho.symm).symm
    · exact .refl _ _
  heeds i j d d' hd hd' ho := by
    rcases getElem?_snoc hd with ⟨-, hi⟩ | ⟨rfl, rfl⟩ <;>
      rcases getElem?_snoc hd' with ⟨-, hi'⟩ | ⟨rfl, rfl⟩
    · exact (hs.heeds i j d d' hi hi' ho).append how
    · exact hs.heeds_new hj hi ho
    · exact hs.new_heeds hj hi' ho
    · exact .same _ _ (.refl _ _)
  due i d t hi hd := by
    rcases getElem?_snoc hi with ⟨hlt, hi⟩ | ⟨rfl, rfl⟩
    · exact (hs.due i d t hi hd).append how
    · exact hs.new_due hj hd
  counted j hmem := by
    have hlt := hs.counted j hmem
    rw [Lineage.add, List.length_append]
    exact Nat.lt_add_right _ hlt
  called n := by
    show n ∈ c.cancelled ↔ _
    rw [hj.cancelled, hs.called n]
    constructor
    · rintro ⟨j, hmem, d, hd, ho⟩
      exact ⟨j, hmem, d, getElem?_append_old hd, ho⟩
    · rintro ⟨j, hmem, d, hd, ho⟩
      rcases getElem?_snoc hd with ⟨-, hd⟩ | ⟨rfl, rfl⟩
      · exact ⟨j, hmem, d, hd, ho⟩
      -- The one that joins is past all that were cancelled.
      · exact absurd (hs.counted _ hmem) (Nat.lt_irrefl _)

theorem Sound.joins_source (hs : s.Sound) (hi : s.contexts[i]? = some ctx')
    (ht : ctx.token = ctx'.token) (hf : s.Fits s.contexts.length ctx how)
    (hsource : how.source? = some i) : s.Joins s.cancellation ctx how where
  cancelled := rfl
  next := Nat.le_refl _
  known := by
    rw [ht]
    exact hs.known i ctx' hi
  fits := hf
  fresh hnone := by
    rw [hsource] at hnone
    cases hnone

theorem joins_new : s.Joins (Context.new s.cancellation).1 (Context.new s.cancellation).2
    .fresh where
  cancelled := rfl
  next := Nat.le_succ _
  known n hn := by
    rw [List.mem_singleton.1 hn]
    exact Nat.lt_succ_self _
  fits := ⟨rfl, rfl⟩
  fresh _ := rfl

theorem Sound.joins_child (hs : s.Sound) (hi : s.contexts[i]? = some ctx) :
    s.Joins (ctx.child s.cancellation).1 (ctx.child s.cancellation).2 (.child i) where
  cancelled := rfl
  next := Nat.le_succ _
  known n hn := by
    rcases List.mem_cons.1 hn with rfl | hn
    · exact Nat.lt_succ_self _
    · exact Nat.lt_succ_of_lt (hs.known i ctx hi n hn)
  fits := ⟨(List.getElem?_eq_some_iff.1 hi).1, ctx, hi, rfl, rfl⟩
  fresh _ := rfl

/-- A context made from another with its token keeps the record sound. -/
theorem Sound.derive {f : Context → Context} (hs : s.Sound) (hsource : how.source? = some i)
    (hf : ∀ ctx, s.contexts[i]? = some ctx →
      (f ctx).token = ctx.token ∧ s.Fits s.contexts.length (f ctx) how) :
    (s.derive i how f).Sound := by
  unfold Lineage.derive
  split
  · rename_i ctx hi
    obtain ⟨ht, hfits⟩ := hf ctx hi
    exact hs.add (hs.joins_source hi ht hfits hsource)
  · exact hs

theorem Sound.cancel (hs : s.Sound) (hi : s.contexts[i]? = some ctx) :
    Sound { s with
      cancellation := s.cancellation.cancel ctx.token, cancels := s.cancels ++ [i] } where
  length := hs.length
  known := hs.known
  fits := hs.fits
  later := hs.later
  shares := hs.shares
  heeds := hs.heeds
  due := hs.due
  counted j hj := by
    rcases List.mem_append.1 hj with hj | hj
    · exact hs.counted j hj
    · rw [List.mem_singleton.1 hj]
      exact (List.getElem?_eq_some_iff.1 hi).1
  called n := by
    rw [Cancellation.cancel, List.mem_cons, hs.called n]
    simp only [List.mem_append, List.mem_singleton]
    constructor
    · rintro (rfl | ⟨j, hj, d, hd⟩)
      · exact ⟨i, .inr rfl, ctx, hi, rfl⟩
      · exact ⟨j, .inl hj, d, hd⟩
    · rintro ⟨j, hj | rfl, d, hd, ho⟩
      · exact .inr ⟨j, hj, d, hd, ho⟩
      · rw [hi] at hd
        cases hd
        exact .inl ho.symm

/-- No move breaks the record. -/
theorem Sound.step (hs : s.Sound) (m : Move) : (s.step m).Sound := by
  have lt (i : Nat) (ctx : Context) (hi : s.contexts[i]? = some ctx) : i < s.contexts.length :=
    (List.getElem?_eq_some_iff.1 hi).1
  cases m with
  | new => exact hs.add joins_new
  | clone i => exact hs.derive rfl fun ctx hi => ⟨rfl, lt i ctx hi, ctx, hi, rfl, rfl⟩
  | withMetadata i key value =>
    exact hs.derive rfl fun ctx hi => ⟨rfl, lt i ctx hi, ctx, hi, rfl, rfl⟩
  | withDeadline i t => exact hs.derive rfl fun ctx hi => ⟨rfl, lt i ctx hi, ctx, hi, rfl, rfl⟩
  | withTimeout i d => exact hs.derive rfl fun ctx hi => ⟨rfl, lt i ctx hi, ctx, hi, rfl, rfl⟩
  | child i =>
    simp only [Lineage.step]
    split
    · rename_i ctx hi
      exact hs.add (hs.joins_child hi)
    · exact hs
  | cancel i =>
    simp only [Lineage.step]
    split
    · rename_i ctx hi
      exact hs.cancel hi
    · exact hs
  | tick d => exact ⟨hs.1, hs.2, hs.3, hs.4, hs.5, hs.6, hs.7, hs.8, hs.9⟩

theorem sound_run (ms : List Move) : (run {} ms).Sound := by
  induction ms using List.reverseRecOn with
  | nil => exact sound_new
  | append_singleton ms m ih =>
    rw [run, List.foldl_append]
    exact ih.step m

/-! Who is cancelled, and by whom not. -/

/-- A context is cancelled exactly if one that it heeds was. -/
theorem Sound.isCancelled_iff (hs : s.Sound) (hi : s.contexts[i]? = some ctx) :
    s.cancellation.isCancelled ctx.token = true ↔ ∃ j ∈ s.cancels, Heeds s.makings i j := by
  rw [Cancellation.isCancelled_iff]
  constructor
  · rintro ⟨n, hn, hc⟩
    obtain ⟨j, hj, ctx', hctx', rfl⟩ := (hs.called n).1 hc
    exact ⟨j, hj, hs.heeds i j ctx ctx' hi hctx' hn⟩
  · rintro ⟨j, hj, h⟩
    have hctx' := List.getElem?_eq_getElem (hs.counted j hj)
    exact ⟨_, hs.mem_chain h hi hctx', (hs.called _).2 ⟨j, hj, _, hctx', rfl⟩⟩

/-- The number of a child's token is new to its parent. -/
theorem Sound.own_not_mem (hs : s.Sound) (hk : s.makings[k]? = some (.child p))
    (hctx : s.contexts[k]? = some ctx) : ctx.token.own ∉ ctx.token.ancestors := by
  intro hmem
  obtain ⟨hp, ctx', hctx', hanc, -⟩ := hs.fits k ctx _ hctx hk
  rw [hanc] at hmem
  exact Nat.lt_irrefl _ (hs.later p k ctx' ctx _ hp hctx' hctx hk rfl _ hmem)

theorem Sound.not_heeds_child (hs : s.Sound) (hk : s.makings[k]? = some (.child p)) :
    ¬ Heeds s.makings p k := by
  intro h
  obtain ⟨ctx, hctx, -, ctx', hctx', hanc, -⟩ := hs.exists_context hk
  have hmem := hs.mem_chain h hctx' hctx
  rw [← hanc] at hmem
  exact hs.own_not_mem hk hctx hmem

theorem Sound.own_ne (hs : s.Sound) (hk : s.makings[k]? = some (.child p))
    (hj : s.makings[j]? = some (.child n)) (hne : k ≠ j) (hctx : s.contexts[k]? = some ctx)
    (hctx' : s.contexts[j]? = some ctx') : ctx'.token.own ≠ ctx.token.own := by
  intro ho
  rcases Nat.lt_or_gt_of_ne hne with hlt | hlt
  · have h := hs.later k j ctx ctx' _ hlt hctx hctx' hj rfl _ ctx.token.own_mem_chain
    omega
  · have h := hs.later j k ctx' ctx _ hlt hctx' hctx hk rfl _ ctx'.token.own_mem_chain
    omega

theorem Sound.not_heeds_sibling (hs : s.Sound) (hk : s.makings[k]? = some (.child p))
    (hj : s.makings[j]? = some (.child n)) (hp : Shares s.makings p n) (hne : k ≠ j) :
    ¬ Heeds s.makings k j := by
  intro h
  obtain ⟨ctx, hctx, -, parent, hparent, hanc, -⟩ := hs.exists_context hk
  obtain ⟨ctx', hctx', -, parent', hparent', hanc', -⟩ := hs.exists_context hj
  rcases List.mem_cons.1 (hs.mem_chain h hctx hctx') with ho | hmem
  · exact hs.own_ne hk hj hne hctx hctx' ho
  · rw [hanc, hs.token_of_shares hp hparent hparent', ← hanc'] at hmem
    exact hs.own_not_mem hj hctx' hmem

/-! Time passes and cancellations come, and no context changes. -/

structure Advances (s s' : Lineage) : Prop where
  contexts : s.contexts <+: s'.contexts
  cancelled : s.cancellation.cancelled ⊆ s'.cancellation.cancelled
  now : s.now ≤ s'.now

theorem Advances.refl (s : Lineage) : Advances s s :=
  ⟨List.prefix_refl _, List.Subset.refl _, Nat.le_refl _⟩

theorem Advances.trans {s'' : Lineage} (h : Advances s s') (h' : Advances s' s'') :
    Advances s s'' :=
  ⟨h.contexts.trans h'.contexts, List.Subset.trans h.cancelled h'.cancelled,
    Nat.le_trans h.now h'.now⟩

theorem advances_add (hc : s.cancellation.cancelled = c.cancelled) :
    Advances s (s.add c ctx how) :=
  ⟨List.prefix_append _ _, hc ▸ List.Subset.refl _, Nat.le_refl _⟩

/-- A move only adds contexts and cancellations, and time goes on. -/
theorem advances_step (s : Lineage) (m : Move) : Advances s (s.step m) := by
  have derive (j : Nat) (how : Making) (f : Context → Context) :
      Advances s (s.derive j how f) := by
    unfold Lineage.derive
    split
    · exact advances_add rfl
    · exact .refl s
  cases m with
  | new => exact advances_add rfl
  | clone | withMetadata | withDeadline | withTimeout => exact derive _ _ _
  | child j =>
    simp only [Lineage.step]
    split
    · exact advances_add rfl
    · exact .refl s
  | cancel j =>
    simp only [Lineage.step]
    split
    · exact ⟨List.prefix_refl _, List.subset_cons_self _ _, Nat.le_refl _⟩
    · exact .refl s
  | tick d => exact ⟨List.prefix_refl _, List.Subset.refl _, Nat.le_add_right _ _⟩

theorem advances_run (s : Lineage) (ms : List Move) : Advances s (s.run ms) := by
  induction ms generalizing s with
  | nil => exact .refl s
  | cons m ms ih => exact (advances_step s m).trans (ih (s.step m))

theorem Advances.getElem? (h : Advances s s') (hi : s.contexts[i]? = some ctx) :
    s'.contexts[i]? = some ctx := by
  obtain ⟨rest, hrest⟩ := h.contexts
  rw [← hrest]
  exact getElem?_append_old hi

theorem Advances.resolves (h : Advances s s') (he : ctx.Resolves s.cancellation s.now e) :
    ctx.Resolves s'.cancellation s'.now e :=
  Context.mem_endings_iff.1
    (Context.endings_subset h.cancelled h.now (Context.mem_endings_iff.2 he))

theorem Advances.isCancelled (h : Advances s s')
    (hc : s.cancellation.isCancelled ctx.token = true) :
    s'.cancellation.isCancelled ctx.token = true := by
  cases h.resolves (.cancelled hc)
  assumption

end Lineage

/-! The waiting as it is carried out, with cancellations that are still to come. -/

namespace Contexts

open Bench (Contexts)

variable {b b' : Contexts} {ctx : Context} {limit : Duration} {e : CallError} {n : Nat} {t : Token}
  {u : Instant}

theorem mem_cancelled_foldl {xs : List (Instant × Token)} {c : Cancellation} :
    n ∈ (xs.foldl (fun s x => s.cancel x.2) c).cancelled ↔
      n ∈ c.cancelled ∨ ∃ x ∈ xs, x.2.own = n := by
  induction xs generalizing c with
  | nil => simp
  | cons x xs ih =>
    rw [List.foldl_cons, ih, Cancellation.cancel, List.mem_cons, or_assoc, or_left_comm]
    simp only [List.mem_cons, exists_eq_or_imp, eq_comm (a := n)]

theorem cancelled_settle : b.cancellation.cancelled ⊆ b.settle.cancellation.cancelled :=
  fun _ hn => mem_cancelled_foldl.2 (.inl hn)

/-- A token is cancelled at the time that was told. -/
theorem isCancelled_settle (h : b.cancelTime? t = some u) :
    (b.moveTo u).settle.cancellation.isCancelled t = true := by
  obtain ⟨x, hx, rfl⟩ := List.mem_map.1 (List.min?_mem h)
  obtain ⟨hmem, hconcerns⟩ := List.mem_filter.1 hx
  refine Cancellation.isCancelled_iff.2 ⟨x.2.own, List.contains_iff_mem.1 hconcerns, ?_⟩
  exact mem_cancelled_foldl.2 (.inr ⟨x, List.mem_filter.2 ⟨hmem, by simp [Contexts.moveTo]⟩, rfl⟩)

theorem exists_sooner (h : Contexts.isSooner u (b.cancelTime? t) = false) :
    ∃ v, b.cancelTime? t = some v := by
  cases hc : b.cancelTime? t with
  | none =>
    rw [hc] at h
    cases h
  | some v => exact ⟨v, rfl⟩

/-- A wait that ends with an error ends with an ending of its context. -/
theorem resolves_wait (h : b.wait ctx limit true = (b', some e)) :
    ctx.Resolves b'.cancellation b'.now e := by
  have later (v : Instant) (hv : Contexts.isSooner v (b.cancelTime? ctx.token) = false) :
      ctx.Resolves (b.moveTo ((b.cancelTime? ctx.token).getD v)).settle.cancellation
        (b.moveTo ((b.cancelTime? ctx.token).getD v)).settle.now .cancelled := by
    obtain ⟨w, hw⟩ := exists_sooner hv
    rw [hw]
    exact .cancelled (isCancelled_settle hw)
  simp only [Contexts.wait, if_true] at h
  split at h
  · rename_i f fs hf
    cases h
    have hmem : e ∈ ctx.endings b.cancellation b.now := hf ▸ List.mem_cons_self
    exact Context.mem_endings_iff.1
      (Context.endings_subset cancelled_settle (Nat.le_refl _) hmem)
  · split at h
    · rename_i v hd
      split at h
      · cases h
        exact .overdue v hd (Nat.le_refl v)
      · split at h
        · cases h
        · rename_i hs
          cases h
          exact later _ (Bool.eq_false_iff.2 hs)
    · split at h
      · cases h
      · rename_i hs
        cases h
        exact later _ (Bool.eq_false_iff.2 hs)

end Contexts

namespace Lineage

variable {s : Lineage} {ctx : Context} {i : Nat}

/-- What ends the contexts that have been made, at any moment and from then on. -/
structure Governs (s : Lineage) : Prop where
  cancelled : ∀ (i : Nat) (ctx : Context), s.contexts[i]? = some ctx →
    (s.cancellation.isCancelled ctx.token = true ↔ ∃ j ∈ s.cancels, Heeds s.makings i j)
  parents : ∀ (k p : Nat), s.makings[k]? = some (.child p) → ¬ Heeds s.makings p k
  siblings : ∀ (k j p q : Nat), s.makings[k]? = some (.child p) → s.makings[j]? = some (.child q) →
    Shares s.makings p q → k ≠ j → ¬ Heeds s.makings k j
  checks : ∀ (i : Nat) (ctx : Context), s.contexts[i]? = some ctx →
    (s.cancellation.isCancelled ctx.token = true →
      ctx.check s.cancellation s.now = .error .cancelled) ∧
    (s.cancellation.isCancelled ctx.token = false →
      (ctx.check s.cancellation s.now = .error .deadlineExceeded ↔
        ∃ t, Due s.makings i t ∧ t ≤ s.now) ∧
      (ctx.check s.cancellation s.now = .ok () ↔ ∀ t, Due s.makings i t → s.now < t))
  awaited : ∀ (i : Nat) (ctx : Context), s.contexts[i]? = some ctx →
    ((∃ e, ctx.Resolves s.cancellation s.now e) ↔ ctx.check s.cancellation s.now ≠ .ok ())
  lasts : ∀ (ms : List Move) (i : Nat) (ctx : Context), s.contexts[i]? = some ctx →
    (s.run ms).contexts[i]? = some ctx ∧
    (s.cancellation.isCancelled ctx.token = true →
      (s.run ms).cancellation.isCancelled ctx.token = true) ∧
    ∀ e, ctx.Resolves s.cancellation s.now e →
      ctx.check (s.run ms).cancellation (s.run ms).now = .error e ∨
      e = .deadlineExceeded ∧ (s.run ms).cancellation.isCancelled ctx.token = true ∧
        ctx.check (s.run ms).cancellation (s.run ms).now = .error .cancelled
  waits : ∀ (i : Nat) (ctx : Context) (coming : List (Instant × Token)) (limit : Duration)
    (b : Bench.Contexts) (e : CallError), s.contexts[i]? = some ctx →
    (⟨s.now, s.cancellation, coming⟩ : Bench.Contexts).wait ctx limit true = (b, some e) →
      ctx.Resolves b.cancellation b.now e

/-- In every run the contexts are governed by how they were made. -/
theorem governs_run (ms : List Move) : Governs (run {} ms) := by
  have hs := sound_run ms
  generalize run {} ms = s at hs
  exact {
    cancelled := fun i ctx hi => hs.isCancelled_iff hi
    parents := fun k p hk => hs.not_heeds_child hk
    siblings := fun k j p q hk hj hp hne => hs.not_heeds_sibling hk hj hp hne
    checks := by
      intro i ctx hi
      rw [Context.check_eq]
      refine ⟨fun hc => if_pos hc, ?_⟩
      intro hc
      rw [hc, if_neg Bool.false_ne_true]
      have hdue : ctx.isOverdue s.now = true ↔ ∃ t, Due s.makings i t ∧ t ≤ s.now := by
        rw [Context.isOverdue_iff]
        exact exists_congr fun t => and_congr_left fun _ => hs.due_iff hi
      rw [← hdue]
      have hnot : (∀ t, Due s.makings i t → s.now < t) ↔ ¬ ctx.isOverdue s.now = true := by
        rw [hdue]
        simp
      rw [hnot]
      cases ctx.isOverdue s.now <;> simp
    awaited := by
      intro i ctx hi
      simp only [ne_eq, Context.check_eq_ok_iff, ← Context.mem_endings_iff]
      exact ⟨fun ⟨e, he⟩ => List.ne_nil_of_mem he, List.exists_mem_of_ne_nil _⟩
    lasts := by
      intro ns i ctx hi
      have h := advances_run s ns
      exact ⟨h.getElem? hi, h.isCancelled, fun e he => (h.resolves he).check⟩
    waits := fun i ctx coming limit b e hi hw => Contexts.resolves_wait hw }

end Lineage
end Switchboard.Client
