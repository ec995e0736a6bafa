import Switchboard.Proofs.Discovery.Hub

/-! What folding a change makes of an entry, exactly. -/
namespace Switchboard.Discovery

variable {s t x old : Service} {ss pre post : List Service} {c : Cache} {ch : Change}
  {e e' : Entry} {r : Option Entry} {now : Instant} {ttl : Duration} {v : String}

/-- The nodes whose ids are not among those told of. -/
def unmentioned (told ns : List Node) : List Node := ns.filter fun n => !Record.hasId told n

/-- The first node of each id. -/
def onceEach (ns : List Node) : List Node := ns.eraseDupsBy fun m n => m.id == n.id

/-- In a merged list come the nodes told of, then the old ones that were not mentioned. -/
theorem mergeNodes_eq (told ns : List Node) :
    Cache.mergeNodes told ns = told ++ onceEach (unmentioned told ns) := by
  unfold Cache.mergeNodes unmentioned onceEach
  -- A node that is taken over counts as told of from then on.
  induction ns generalizing told with
  | nil => simp
  | cons n ns ih =>
    rw [List.foldl_cons, ih]
    by_cases hn : Record.hasId told n = true
    · rw [if_pos hn, List.filter_cons_of_neg (by simp [hn])]
    · have hcongr : ns.filter (fun m => !Record.hasId (told ++ [n]) m) =
          (ns.filter fun m => !Record.hasId told m).filter
            fun m => decide ((m.id == n.id) = false) := by
        rw [List.filter_filter]
        apply List.filter_congr
        intro m _
        have hm : Record.hasId (told ++ [n]) m = (Record.hasId told m || n.id == m.id) := by
          simp [Record.hasId]
        rw [hm]
        by_cases hid : m.id = n.id
        · simp [hid]
        · have hid' : n.id ≠ m.id := Ne.symm hid
          simp [hid, hid']
      rw [if_neg hn, List.filter_cons_of_pos (by simp [hn]), List.eraseDupsBy_cons, hcongr,
        List.append_assoc]
      rfl

/-- The first service of a version, and what stands before and behind it. -/
structure First (ss : List Service) (v : String) (pre : List Service) (s : Service)
    (post : List Service) : Prop where
  eq : ss = pre ++ s :: post
  version : s.version = v
  before : ∀ t ∈ pre, t.version ≠ v

theorem exists_first (h : v ∈ ss.map (·.version)) : ∃ pre s post, First ss v pre s post := by
  induction ss with
  | nil => cases h
  | cons t ss ih =>
    by_cases ht : t.version = v
    · exact ⟨[], t, ss, rfl, ht, nofun⟩
    · have hv : v ∈ ss.map (·.version) := by
        rcases List.mem_cons.1 h with h | h
        · exact absurd h.symm ht
        · exact h
      obtain ⟨pre, s, post, rfl, hs, hpre⟩ := ih hv
      refine ⟨t :: pre, s, post, rfl, hs, ?_⟩
      intro u hu
      rcases List.mem_cons.1 hu with rfl | hu
      · exact ht
      · exact hpre u hu

namespace First

theorem version_mem (h : First ss v pre s post) : v ∈ ss.map (·.version) := by
  rw [h.eq, ← h.version]
  simp

theorem mem_around (h : First ss v pre s post) (ht : t ∈ pre ++ post) : t ∈ ss := by
  rw [h.eq]
  rcases List.mem_append.1 ht with ht | ht
  · exact List.mem_append_left _ ht
  · exact List.mem_append_right _ (List.mem_cons_of_mem _ ht)

theorem mem_replaced (h : First ss v pre s post) (ht : t ∈ pre ++ x :: post) : t = x ∨ t ∈ ss := by
  rcases List.mem_append.1 ht with ht | ht
  · exact .inr (h.mem_around (List.mem_append_left _ ht))
  · rcases List.mem_cons.1 ht with ht | ht
    · exact .inl ht
    · exact .inr (h.mem_around (List.mem_append_right _ ht))

theorem mergeService (h : First ss s.version pre old post) :
    Cache.mergeService s ss =
      pre ++ { s with nodes := s.nodes ++ onceEach (unmentioned s.nodes old.nodes) } :: post := by
  obtain ⟨rfl, hv, hpre⟩ := h
  induction pre with
  | nil => rw [List.nil_append, Cache.mergeService, if_pos hv, mergeNodes_eq, List.nil_append]
  | cons t pre ih =>
    have ht := hpre t List.mem_cons_self
    rw [List.cons_append, Cache.mergeService, if_neg ht,
      ih fun u hu => hpre u (List.mem_cons_of_mem _ hu), List.cons_append]

theorem removeService (h : First ss s.version pre old post) :
    Cache.removeService s ss =
      if unmentioned s.nodes old.nodes = [] then pre ++ post
      else pre ++ { old with nodes := unmentioned s.nodes old.nodes } :: post := by
  obtain ⟨rfl, hv, hpre⟩ := h
  induction pre with
  | nil =>
    rw [List.nil_append, Cache.removeService, if_pos hv]
    simp only [List.isEmpty_iff]
    rfl
  | cons t pre ih =>
    have ht := hpre t List.mem_cons_self
    rw [List.cons_append, Cache.removeService, if_neg ht,
      ih fun u hu => hpre u (List.mem_cons_of_mem _ hu)]
    split <;> rfl

end First

theorem mergeService_unknown (h : s.version ∉ ss.map (·.version)) :
    Cache.mergeService s ss = ss ++ [s] := by
  induction ss with
  | nil => rfl
  | cons t ss ih =>
    simp only [List.map_cons, List.mem_cons, not_or] at h
    rw [Cache.mergeService, if_neg (Ne.symm h.1), ih h.2, List.cons_append]

/-- What a change makes of the entry of its service. News of a version takes the nodes that it does not
mention along, or comes to the end; a deletion leaves no version without nodes and no entry without
versions. Whatever is stored gets a whole lifetime. -/
inductive Revises (now : Instant) (ttl : Duration) (ch : Change) (e : Entry) : Option Entry → Prop
  | silent (hk : ch.kind ≠ .delete) (hn : ch.service.nodes = []) : Revises now ttl ch e (some e)
  | merged {before behind : List Service} {s : Service} (hk : ch.kind ≠ .delete)
    (hn : ch.service.nodes ≠ []) (hf : First e.services ch.service.version before s behind) :
    Revises now ttl ch e (some ⟨before ++ { ch.service with
      nodes := ch.service.nodes ++ onceEach (unmentioned ch.service.nodes s.nodes) } :: behind,
      now + ttl⟩)
  | added (hk : ch.kind ≠ .delete) (hn : ch.service.nodes ≠ [])
    (hv : ch.service.version ∉ e.services.map (·.version)) :
    Revises now ttl ch e (some ⟨e.services ++ [ch.service], now + ttl⟩)
  | cleared (hk : ch.kind = .delete) (hn : ch.service.nodes = []) : Revises now ttl ch e none
  | unknown (hk : ch.kind = .delete) (hn : ch.service.nodes ≠ [])
    (hv : ch.service.version ∉ e.services.map (·.version)) : Revises now ttl ch e (some e)
  | thinned {before behind : List Service} {s : Service} (hk : ch.kind = .delete)
    (hn : ch.service.nodes ≠ []) (hf : First e.services ch.service.version before s behind)
    (hl : unmentioned ch.service.nodes s.nodes ≠ []) :
    Revises now ttl ch e (some ⟨before ++
      { s with nodes := unmentioned ch.service.nodes s.nodes } :: behind, now + ttl⟩)
  | shortened {before behind : List Service} {s : Service} (hk : ch.kind = .delete)
    (hn : ch.service.nodes ≠ []) (hf : First e.services ch.service.version before s behind)
    (hl : unmentioned ch.service.nodes s.nodes = []) (hr : before ++ behind ≠ []) :
    Revises now ttl ch e (some ⟨before ++ behind, now + ttl⟩)
  | emptied {before behind : List Service} {s : Service} (hk : ch.kind = .delete)
    (hn : ch.service.nodes ≠ []) (hf : First e.services ch.service.version before s behind)
    (hl : unmentioned ch.service.nodes s.nodes = []) (hr : before ++ behind = []) :
    Revises now ttl ch e none

namespace Revises

/-- Every change revises every entry somehow. -/
theorem exists_some (now : Instant) (ttl : Duration) (ch : Change) (e : Entry) :
    ∃ r, Revises now ttl ch e r := by
  by_cases hk : ch.kind = .delete
  · by_cases hn : ch.service.nodes = []
    · exact ⟨_, .cleared hk hn⟩
    · by_cases hv : ch.service.version ∈ e.services.map (·.version)
      · obtain ⟨pre, old, post, hf⟩ := exists_first hv
        by_cases hl : unmentioned ch.service.nodes old.nodes = []
        · by_cases hr : pre ++ post = []
          · exact ⟨_, .emptied hk hn hf hl hr⟩
          · exact ⟨_, .shortened hk hn hf hl hr⟩
        · exact ⟨_, .thinned hk hn hf hl⟩
      · exact ⟨_, .unknown hk hn hv⟩
  · by_cases hn : ch.service.nodes = []
    · exact ⟨_, .silent hk hn⟩
    · by_cases hv : ch.service.version ∈ e.services.map (·.version)
      · obtain ⟨pre, old, post, hf⟩ := exists_first hv
        exact ⟨_, .merged hk hn hf⟩
      · exact ⟨_, .added hk hn hv⟩

/-- No entry becomes empty, and no version without nodes comes in. -/
theorem stored (h : Revises now ttl ch e (some e')) :
    e' = e ∨ e'.expires = now + ttl ∧ e'.services ≠ [] ∧
      ∀ t ∈ e'.services, t.nodes = [] → t ∈ e.services := by
  cases h with
  | silent | unknown => exact .inl rfl
  | merged hk hn hf =>
    refine .inr ⟨rfl, by simp, ?_⟩
    intro t ht h0
    rcases hf.mem_replaced ht with rfl | ht
    · exact absurd (List.append_eq_nil_iff.1 h0).1 hn
    · exact ht
  | added hk hn hv =>
    refine .inr ⟨rfl, by simp, ?_⟩
    intro t ht h0
    rcases List.mem_append.1 ht with ht | ht
    · exact ht
    · rw [List.mem_singleton.1 ht] at h0
      exact absurd h0 hn
  | thinned hk hn hf hl =>
    refine .inr ⟨rfl, by simp, ?_⟩
    intro t ht h0
    rcases hf.mem_replaced ht with rfl | ht
    · exact absurd h0 hl
    · exact ht
  | shortened hk hn hf hl hr =>
    refine .inr ⟨rfl, hr, ?_⟩
    intro t ht _
    exact hf.mem_around ht

end Revises

namespace Cache

theorem fold_unwatched (hw : ch.service.name ∉ c.watched) : c.fold now ch = c := by
  simp [fold, hw]

/-- What is done with the entry of a change. -/
theorem fold_watched (hw : ch.service.name ∈ c.watched)
    (he : c.entries.get? ch.service.name = some e) :
    c.fold now ch =
      if ch.service.nodes = [] then
        if ch.kind = .delete then c.drop now ch.service.name else c
      else if ch.kind = .delete then
        if ch.service.version ∈ e.services.map (·.version) then
          if removeService ch.service e.services = [] then c.drop now ch.service.name
          else c.store now ch.service.name (removeService ch.service e.services)
        else c
      else c.store now ch.service.name (mergeService ch.service e.services) := by
  have hw' : c.watched.contains ch.service.name = true := by simpa using hw
  have hv : e.services.any (·.version == ch.service.version) = true ↔
      ch.service.version ∈ e.services.map (·.version) := by simp
  unfold fold
  simp only [hw', he, Bool.not_true, Bool.false_eq_true, if_false, List.isEmpty_iff]
  by_cases hn : ch.service.nodes = []
  · rw [if_pos hn, if_pos hn]
  · rw [if_neg hn, if_neg hn]
    by_cases hk : ch.kind = .delete
    · rw [if_pos hk]
      by_cases hm : ch.service.version ∈ e.services.map (·.version)
      · rw [if_pos hm]
        simp only [hk, hv.2 hm, Bool.not_true, Bool.false_eq_true, if_false]
        split
        · rename_i hr
          rw [if_pos hr]
        · rename_i hr
          rw [if_neg fun h0 => hr h0]
      · rw [if_neg hm]
        have hm' : e.services.any (·.version == ch.service.version) = false := by
          rw [← Bool.not_eq_true, hv]
          exact hm
        simp only [hk, hm', Bool.not_false, if_true]
    · rw [if_neg hk]
      split
      · rename_i hd
        exact absurd hd hk
      · rfl

/-- Folding in does what the revision says. -/
theorem get?_fold_of_revises (hst : c.status = none) (hw : ch.service.name ∈ c.watched)
    (he : c.entries.get? ch.service.name = some e) (h : Revises now c.ttl ch e r) :
    (c.fold now ch).entries.get? ch.service.name = r := by
  rw [fold_watched hw he]
  cases h with
  | silent hk hn => rw [if_pos hn, if_neg hk, he]
  | cleared hk hn => rw [if_pos hn, if_pos hk, drop_get? hst, if_pos rfl]
  | merged hk hn hf => rw [if_neg hn, if_neg hk, store_get?, if_pos rfl, hf.mergeService]
  | added hk hn hv => rw [if_neg hn, if_neg hk, store_get?, if_pos rfl, mergeService_unknown hv]
  | unknown hk hn hv => rw [if_neg hn, if_pos hk, if_neg hv, he]
  | thinned hk hn hf hl =>
    rw [if_neg hn, if_pos hk, if_pos hf.version_mem, hf.removeService, if_neg hl,
      if_neg (by simp), store_get?, if_pos rfl]
  | shortened hk hn hf hl hr =>
    rw [if_neg hn, if_pos hk, if_pos hf.version_mem, hf.removeService, if_pos hl, if_neg hr,
      store_get?, if_pos rfl]
  | emptied hk hn hf hl hr =>
    rw [if_neg hn, if_pos hk, if_pos hf.version_mem, hf.removeService, if_pos hl, if_pos hr,
      drop_get? hst, if_pos rfl]

/-- Folding in does what the revision says, and nothing else. -/
theorem get?_fold_eq_iff (hst : c.status = none) (hw : ch.service.name ∈ c.watched)
    (he : c.entries.get? ch.service.name = some e) :
    (c.fold now ch).entries.get? ch.service.name = r ↔ Revises now c.ttl ch e r := by
  obtain ⟨q, hq⟩ := Revises.exists_some now c.ttl ch e
  have hfold := get?_fold_of_revises hst hw he hq
  constructor
  · intro hr
    rw [← hr, hfold]
    exact hq
  · intro hr
    exact get?_fold_of_revises hst hw he hr

/-- While no error stands, a change is folded into the entry of its service and no other, and only if
there is one and its name is watched. Nothing is stored empty, and no version without nodes comes in. -/
theorem fold_exact (c : Cache) (now : Instant) (ch : Change) (hst : c.status = none) :
    (∃ es, c.fold now ch = { c with entries := es }) ∧
    (∀ name, name ≠ ch.service.name →
      (c.fold now ch).entries.get? name = c.entries.get? name) ∧
    (ch.service.name ∉ c.watched ∨ c.entries.get? ch.service.name = none → c.fold now ch = c) ∧
    ∀ e, ch.service.name ∈ c.watched → c.entries.get? ch.service.name = some e →
      (∀ r, (c.fold now ch).entries.get? ch.service.name = r ↔ Revises now c.ttl ch e r) ∧
      ∀ e', (c.fold now ch).entries.get? ch.service.name = some e' →
        e' = e ∨ e'.expires = now + c.ttl ∧ e'.services ≠ [] ∧
          ∀ t ∈ e'.services, t.nodes = [] → t ∈ e.services := by
  refine ⟨fold_eq c now ch, ?_, ?_, ?_⟩
  · intro name hn
    exact fold_get?_of_ne (Ne.symm hn)
  · rintro (hw | he)
    · exact fold_unwatched hw
    · exact fold_get?_none he
  · intro e hw he
    refine ⟨fun r => get?_fold_eq_iff hst hw he, ?_⟩
    intro e' he'
    exact ((get?_fold_eq_iff hst hw he).1 he').stored

/-- News of a version repeats an id; the node of another id that stands twice is taken over once, and the
second service of the version stays as it is. -/
theorem fold_exact_repeated :
    let node (id address : String) : Node := ⟨id, address, .empty⟩
    let service (v : String) (ns : List Node) : Service := { name := "a", version := v, nodes := ns }
    let old := [service "0" [], service "1" [node "m" "a", node "n" "b", node "m" "c"],
      service "1" [node "k" "d"]]
    let c : Cache :=
      { ttl := 60, entries := Dict.empty.insert "a" ⟨old, 10⟩, watched := ["a"] }
    let told := [node "n" "x", node "n" "y"]
    c.status = none ∧ (c.fold 7 ⟨.update, service "1" told⟩).entries.get? "a" = some
      ⟨[service "0" [], service "1" (told ++ [node "m" "a"]), service "1" [node "k" "d"]], 67⟩ := by
  intro node service old c told
  refine ⟨rfl, ?_⟩
  obtain ⟨-, -, -, hfold⟩ := fold_exact c 7 ⟨.update, service "1" told⟩ rfl
  obtain ⟨hiff, -⟩ := hfold ⟨old, 10⟩ List.mem_cons_self rfl
  have hfirst : First old "1" [service "0" []] (service "1" [node "m" "a", node "n" "b", node "m" "c"])
      [service "1" [node "k" "d"]] := ⟨rfl, rfl, by simp [service]⟩
  have hkind : ChangeKind.update ≠ .delete := by decide
  have hnodes : told ≠ [] := List.cons_ne_nil _ _
  have hrevises := @Revises.merged 7 60 ⟨.update, service "1" told⟩ ⟨old, 10⟩ _ _ _ hkind hnodes hfirst
  exact (hiff _).2 hrevises

end Cache
end Switchboard.Discovery
