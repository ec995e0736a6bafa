import Switchboard.Client.Selector
import Switchboard.Proofs.Discovery.Outage

/-! What becomes of a registry's answer that there is no such service. -/

namespace Switchboard.Client.Selector

/-- A service is reported as not found where nothing was found, or the registry says so. -/
theorem select_eq_notFound_iff {usual : Strategy} {choose : Nat → Nat} {service : String}
    {o : SelectOptions} {found : Except Discovery.Error (List Discovery.Service)} :
    select usual choose service o found = .error (.notFound service) ↔
      found = .ok [] ∨ ∃ x, found = .error (.serviceNotFound x) := by
  unfold select
  split
  · simp
  · rename_i e he
    simpa using fun x h => he x (by rw [h])
  · simp
  · rename_i ss hss
    have hne : ss ≠ [] := fun h => hss (by rw [h])
    dsimp only
    split <;> simp [hne]

end Switchboard.Client.Selector

namespace Switchboard.Discovery

variable {h h' : Hub} {e : HubEvent} {x : Entry} {f : Fetch} {name : String} {i j k t u : Nat}
  {ss : List Service} {q : Option Nat} {r : Except Error (List Service)}

namespace Hub

/-- The registry tells of a name: a fetch of it succeeds, or a change of it comes to a loop. -/
def News (h : Hub) (name : String) : HubEvent → Prop
  | .answer t (.ok _) => ∃ f, h.fetch? t = some f ∧ f.name = name ∧ f.answer = none
  | .received k ch => ch.service.name = name ∧ ∃ l, h.loop? k = some l ∧ l.phase = .watching
  | _ => False

/-- Fetches of a name have given its services since a ticket, and those in flight are not older. -/
structure Haunted (h : Hub) (u : Nat) (name : String) (ss : List Service) : Prop where
  known : h.cache.Known name ss
  next : u ≤ h.cache.nextTicket
  flying : ∀ t f, h.fetch? t = some f → f.name = name → f.answer = none → u ≤ t
  given : ∀ t f r, h.fetch? t = some f → f.name = name → f.answer = some r → u ≤ t → r = .ok ss

/-- Services that are known stay known while the registry tells nothing of the name. -/
theorem known_step (hk : h.cache.Known name ss) (ht : Trans h e h') (hn : ¬ h.News name e) :
    h'.cache.Known name ss := by
  obtain ⟨hss, x, hx, hs⟩ := hk
  refine ⟨hss, x, ?_, hs⟩
  cases ht with
  | settled t f answer hf ha =>
    rw [entries_settle]
    cases answer with
    | error er => rw [Cache.settle_error_entries, hx]
    | ok ns =>
      have hne : f.name ≠ name := fun hname => hn ⟨f, hf, hname, ha⟩
      rw [Cache.settle_ok_entries, Dict.get?_insert, if_neg hne, hx]
  | received k l ch hl hp =>
    have hne : ch.service.name ≠ name := fun hname => hn ⟨hname, l, hl, hp⟩
    exact (Cache.receive_get?_of_ne hne).trans hx
  | idle | start | stop | tick | moved | ended => exact hx

theorem Haunted.answer {er : Error} (hh : h.Haunted u f.name ss) (hf : h.fetch? t = some f) :
    (h.settle f (.error er)).Haunted u f.name ss := by
  have hfetch (k : Nat) := @fetch?_settle h f k t (.error er) hf
  rw [Cache.settle_stale hh.known] at hfetch
  refine ⟨?_, ?_, ?_, ?_⟩
  · obtain ⟨hss, x, hx, hs⟩ := hh.known
    exact ⟨hss, x, by rw [entries_settle, Cache.settle_error_entries, hx], hs⟩
  · rw [settle_error, Cache.settle_stale hh.known]
    exact hh.next
  · intro k g hg hn hga
    rw [hfetch] at hg
    split at hg
    · cases hg
      cases hga
    · exact hh.flying k g hg hn hga
  · intro k g r hg hn hga hk
    rw [hfetch] at hg
    split at hg
    · cases hg
      exact (Option.some.inj hga).symm
    · exact hh.given k g r hg hn hga hk

/-- While it tells nothing, no fetch can end the haunting. -/
theorem Haunted.step (hh : h.Haunted u name ss) (hb : h.Booked) (ht : Trans h e h')
    (hn : ¬ h.News name e) : h'.Haunted u name ss := by
  have hk := known_step hh.known ht hn
  cases ht with
  | start n hv hin =>
    refine ⟨hk, Nat.le_succ_of_le hh.next, ?_, ?_⟩
    · intro t f hf hname ha
      rw [fetch?_start hb.fresh] at hf
      split at hf
      · rename_i ht
        exact ht ▸ hh.next
      · exact hh.flying t f hf hname ha
    · intro t f r hf hname ha hu
      rw [fetch?_start hb.fresh] at hf
      split at hf
      · cases hf
        cases ha
      · exact hh.given t f r hf hname ha hu
  | settled t f answer hf ha =>
    by_cases hname : f.name = name
    · subst hname
      cases answer with
      -- A fetch of the name that succeeds would be news.
      | ok ns => exact absurd ⟨f, hf, rfl, ha⟩ hn
      | error er => exact hh.answer hf
    · obtain ⟨st, es, he⟩ := settle_eq h f answer
      refine ⟨hk, by rw [he]; exact hh.next, ?_, ?_⟩
      · intro k g hg hgn hga
        rw [fetch?_settle hf] at hg
        split at hg
        · cases hg
          exact absurd hgn hname
        · exact hh.flying k g hg hgn hga
      · intro k g r hg hgn hga hu
        rw [fetch?_settle hf] at hg
        split at hg
        · cases hg
          exact absurd hgn hname
        · exact hh.given k g r hg hgn hga hu
  | received k l ch hl hp =>
    obtain ⟨es, hc⟩ := Cache.receive_eq h.cache h.now ch
    exact ⟨hk, by rw [hc]; exact hh.next, hh.flying, hh.given⟩
  | idle | stop | tick | moved | ended => exact ⟨hk, hh.next, hh.flying, hh.given⟩

end Hub

/-- What is given out from memory is what is known. -/
theorem Cache.Known.eq_of_valid {c : Cache} {now : Instant} {ns : List Service}
    (hk : c.Known name ss) (hv : c.valid? now name = some ns) : ns = ss := by
  obtain ⟨-, x, hx, rfl⟩ := hk
  simp only [Cache.valid?, hx] at hv
  split at hv
  · exact (Option.some.inj hv).symm
  · cases hv

namespace ServingCache

variable {d d' : ServingCache} {m : Move} {ms : List Move} {y : String}

/-- The registry tells of a name: a fetch of it succeeds, or a change of it comes to a loop. -/
inductive News (d : ServingCache) (name : String) : Move → Prop
  | fetched (i : Nat) (t : Nat) (ss : List Service) (h : d.Settling i name t (.ok ss)) :
    News d name (.caller (.settle i))
  | received (k : Nat) (ch : Change) (hn : ch.service.name = name) (h : d.Working k .watching) :
    News d name (.aside (.event (.received k ch)))

/-- The registry tells nothing of a name. -/
def Quiet (d : ServingCache) (name : String) (ms : List Move) : Prop :=
  ∀ i, ¬ Runs.At step (fun d => d.News name) d ms i

/-- A caller for a name has its services, or waits for a fetch that gives them. -/
structure Gets (d : ServingCache) (u : Nat) (name : String) (ss : List Service) (j : Nat) : Prop where
  waiting : ∀ t, d.lookups.callers j = .waiting name t → u ≤ t
  served : ∀ q r, d.lookups.callers j = .served name q r → r = .ok ss

/-- A caller that settles a fetch goes on with the haunting, unless it brings news. -/
theorem haunted_settle (hs : d.lookups.Sound) (hh : d.hub.Haunted u name ss)
    (hn : ¬ d.News name (.caller (.settle i))) :
    (d.step (.caller (.settle i))).hub.Haunted u name ss := by
  by_cases hset : ∃ n t r, d.Settling i n t r
  · obtain ⟨n, t, r, h⟩ := hset
    rw [h.step]
    refine hh.step hs.booked (Hub.step_trans d.hub (.answer t r)) ?_
    intro hnews
    cases r with
    | error er => exact hnews
    | ok ns =>
      obtain ⟨f, hf, hfn, -⟩ := h.fetch hs
      obtain ⟨g, hg, hgn, -⟩ := hnews
      cases hf.symm.trans hg
      cases hfn.symm.trans hgn
      exact hn (.fetched i t ns h)
  · rw [step_settle_of_not fun n t r h => hset ⟨n, t, r, h⟩]
    exact hh

theorem haunted_step (hs : d.lookups.Sound) (hh : d.hub.Haunted u name ss) (ht : Trans d m d')
    (hm : ∀ i, m ≠ .caller (.settle i)) (hn : ¬ d.News name m) : d'.hub.Haunted u name ss := by
  cases ht with
  | idle => exact hh
  | called m c ho hc =>
    cases hc with
    | started i n hc hv hf => exact hh.step hs.booked (Hub.step_trans d.hub (.look n)) not_false
    | settled i t r hr => exact absurd rfl (hm i)
    | aside e he => exact absurd rfl (ho e)
    | idle | arrived | hit | missed | joined | called | replied | took | left => exact hh
  | watched m v he hv =>
    cases hv with
    | moved e os hl ho =>
      refine hh.step hs.booked (Hub.step_trans d.hub e) ?_
      have haside := he e rfl
      intro hnews
      cases e with
      | answer t r => exact haside
      | received k ch => exact hn (.received k ch hnews.1 ⟨hl k rfl, hnews.2⟩)
      | look | pause | wake | opened | broke | notice | stop | tick => exact hnews
    | idle | noticed | left => exact ⟨hh.known, hh.next, hh.flying, hh.given⟩

/-- Callers go on getting the old services. -/
theorem Gets.step (hs : d.lookups.Sound) (hh : d.hub.Haunted u name ss) (hg : d.Gets u name ss j)
    (ht : Trans d m d') : d'.Gets u name ss j := by
  cases ht with
  | idle => exact hg
  | watched => exact ⟨hg.waiting, hg.served⟩
  | called m c ho hc =>
    -- Whoever moves, it is enough to look at what the mover comes to.
    have set {c : Caller} {i : Nat} {h : Hub} (hw : ∀ t, c = .waiting name t → u ≤ t)
        (hv : ∀ q r, c = .served name q r → r = .ok ss) :
        Gets { d with lookups := { d.lookups with hub := h }.setCaller i c } u name ss j := by
      constructor
      · intro t ht
        change (if i = j then c else d.lookups.callers j) = _ at ht
        split at ht
        · exact hw t ht
        · exact hg.waiting t ht
      · intro q r hr
        change (if i = j then c else d.lookups.callers j) = _ at hr
        split at hr
        · exact hv q r hr
        · exact hg.served q r hr
    cases hc with
    | idle | called | replied | settled | aside => exact ⟨hg.waiting, hg.served⟩
    | arrived | missed | left => exact set nofun nofun
    | hit m i n ns hv =>
      refine set nofun ?_
      intro q r hr
      cases hr
      rw [hh.known.eq_of_valid hv]
    | joined i n t hc hf =>
      refine set ?_ nofun
      intro v hv
      cases hv
      obtain ⟨f, hfetch, hfn, hfa⟩ := (hs.booked.inFlight name t).1 hf
      exact hh.flying t f hfetch hfn hfa
    | started i n hc hv hf =>
      refine set ?_ nofun
      intro v hv
      cases hv
      exact hh.next
    | took i n t r hc ha =>
      by_cases hij : i = j
      · refine set nofun ?_
        intro q r' hr
        cases hr
        subst hij
        -- The fetch it waited for is not older than the haunting.
        obtain ⟨f, hf, hfn⟩ := hs.waiting i name t hc
        obtain ⟨g, hg', hgr⟩ := Hub.answer?_eq_some_iff.1 ha
        cases hf.symm.trans hg'
        exact hh.given t f r hf hfn hgr (hg.waiting t hc)
      · have hother : (d.lookups.setCaller i (.served n (some t) r)).callers j = d.lookups.callers j :=
          if_neg hij
        exact ⟨fun v hv => hg.waiting v (hother ▸ hv), fun q v hv => hg.served q v (hother ▸ hv)⟩

/-- By induction on the moves: the fetches that fail in the meantime all give what is known. -/
theorem Gets.run (hs : d.lookups.Sound) (hh : d.hub.Haunted u name ss) (hg : d.Gets u name ss j)
    (hn : d.Quiet name ms) : (d.run ms).Gets u name ss j := by
  induction ms generalizing d with
  | nil => exact hg
  | cons m ms ih =>
    have ht := step_trans d m
    have hquiet : ¬ d.News name m := fun h => hn 0 ⟨m, rfl, h⟩
    have hh' : (d.step m).hub.Haunted u name ss := by
      by_cases hm : ∃ i, m = .caller (.settle i)
      · obtain ⟨i, rfl⟩ := hm
        exact haunted_settle hs hh hquiet
      · exact haunted_step hs hh ht (fun i h => hm ⟨i, h⟩) hquiet
    refine ih (sound_step hs ht) hh' (hg.step hs hh ht) ?_
    rintro i ⟨n, hi, hnews⟩
    exact hn (i + 1) ⟨n, hi, hnews⟩

/-- A failed fetch of a known name starts the haunting. -/
theorem Settling.haunted {er : Error} (h : d.Settling i name t (.error er)) (hs : d.lookups.Sound)
    (hk : d.cache.Known name ss) :
    (d.step (.caller (.settle i))).hub.Haunted d.cache.nextTicket name ss := by
  have hs' : (d.step (.caller (.settle i))).lookups.Sound := sound_step hs (step_trans d _)
  obtain ⟨st, fs, hd⟩ := h.failed hs
  have hflight : (d.step (.caller (.settle i))).cache.inFlight.get? name = none := by
    rw [hd]
    exact Dict.get?_erase.trans (if_pos rfl)
  have hnext : (d.step (.caller (.settle i))).cache.nextTicket = d.cache.nextTicket := by rw [hd]
  refine ⟨?_, Nat.le_of_eq hnext.symm, ?_, ?_⟩
  · obtain ⟨hss, x, hx, hxs⟩ := hk
    exact ⟨hss, x, by rw [← hx, hd], hxs⟩
  · intro k g hg hgn hga
    cases hflight.symm.trans ((hs'.booked.inFlight name k).2 ⟨g, hg, hgn, hga⟩)
  · intro k g r hg hgn hga hu
    have hlt := hs'.booked.known k g hg
    change k < (d.step (.caller (.settle i))).cache.nextTicket at hlt
    omega

theorem Settling.gives_unique {er : Error} {r' : Except Error (List Service)}
    (h : d.Settling i name t (.error er)) (hr : (d.step (.caller (.settle i))).Gives t r)
    (hr' : (d.step (.caller (.settle i))).Gives t r') : r' = r := by
  have hw : ((d.step (.caller (.settle i))).run []).lookups.callers i = .waiting name t := by
    rw [h.step]
    exact h.caller
  exact (hr' [.caller (.take i)] i name).2 r ((hr [] i name).1 hw) |>.symm

/-- A cache has been answered that there is no such service, and it says so only where it knows no
services, however old; else it goes on as in an outage, until it hears of the name again. -/
structure Masks (d d' : ServingCache) (name : String) (t : Nat) (y : String) : Prop where
  told : (∀ ss, ¬ d.cache.Known name ss) → d'.Gives t (.error (.serviceNotFound y))
  masked : ∀ ss, d.cache.Known name ss →
    d'.Gives t (.ok ss) ∧ d'.status = some (.serviceNotFound y)
  selected : ∀ r usual choose o, d'.Gives t r →
    (Client.Selector.select usual choose name o r = .error (.notFound name) ↔
      ∀ ss, ¬ d.cache.Known name ss)
  lasting : ∀ ss, d.cache.Known name ss → ∀ ms, d'.Quiet name ms →
    ∀ j, (∀ u, d'.lookups.callers j ≠ .waiting name u) →
      (∀ q r, d'.lookups.callers j ≠ .served name q r) →
      ∀ q r, (d'.run ms).lookups.callers j = .served name q r → r = .ok ss

/-- A fetch that finds no such service is not told from an outage where services are known. -/
theorem Settling.masks (h : d.Settling i name t (.error (.serviceNotFound y)))
    (hs : d.lookups.Sound) : d.Masks (d.step (.caller (.settle i))) name t y := by
  have hend := h.endures hs
  refine ⟨fun hk => (hend.cold hk).1, hend.stale, ?_, ?_⟩
  · intro r usual choose o hr
    rw [Client.Selector.select_eq_notFound_iff]
    by_cases hk : ∃ ss, d.cache.Known name ss
    · obtain ⟨ss, hk⟩ := hk
      rw [h.gives_unique (hend.stale ss hk).1 hr]
      refine iff_of_false ?_ fun hno => hno ss hk
      rintro (hnil | ⟨z, hz⟩)
      · exact hk.1 (Except.ok.inj hnil)
      · cases hz
    · have hk' (ss : List Service) : ¬ d.cache.Known name ss := fun hss => hk ⟨ss, hss⟩
      rw [h.gives_unique (hend.cold hk').1 hr]
      exact iff_of_true (.inr ⟨y, rfl⟩) hk'
  · intro ss hk ms hn j hw hv
    have hg : (d.step (.caller (.settle i))).Gets d.cache.nextTicket name ss j :=
      ⟨fun u hu => absurd hu (hw u), fun q r hr => absurd hr (hv q r)⟩
    exact (hg.run (sound_step hs (step_trans d _)) (h.haunted hs hk) hn).served

/-- In every run, the answer that there is no such service is masked this way. -/
theorem masks_run (ttl : Duration) (ms : List Move)
    (h : ((new ttl).run ms).Settling i name t (.error (.serviceNotFound y))) :
    ((new ttl).run ms).Masks (((new ttl).run ms).step (.caller (.settle i))) name t y :=
  h.masks (sound_run (sound_new ttl) ms)

/-- The nodes of a service run out in the registry, which publishes nothing of it: the cache asks,
is told so, and gives out the old nodes. -/
theorem masks_run_expired :
    let a : Service := { name := "a", version := "1", nodes := [{ id := "n", address := "n:1" }] }
    let ask (r : Except Error (List Service)) : List Move :=
      [.caller (.arrive 0 "a"), .caller (.peek 0), .caller (.look 0), .caller (.call 0),
        .caller (.reply 0 r)]
    let d := (new 1000).run (ask (.ok [a]) ++ [.caller (.settle 0), .caller (.take 0),
      .aside (.event (.tick 1000))] ++ ask (.error (.serviceNotFound "a")))
    d.Settling 0 "a" 1 (.error (.serviceNotFound "a")) ∧ d.cache.Known "a" [a] ∧
      d.Masks (d.step (.caller (.settle 0))) "a" 1 "a" :=
  ⟨⟨by rfl, by rfl, by rfl⟩, ⟨by simp, _, by rfl, by rfl⟩,
    masks_run 1000 _ ⟨by rfl, by rfl, by rfl⟩⟩

end ServingCache
end Switchboard.Discovery
