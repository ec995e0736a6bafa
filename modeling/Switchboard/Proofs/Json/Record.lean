import Switchboard.Json.Record
import Switchboard.Proofs.Json.Quote

/-! Arrays and objects written without blanks: their parts, and records read from them. -/
namespace Switchboard.Json

variable {v w x : Bytes} {vs : List Bytes} {f : String × Bytes} {fs : List (String × Bytes)}
  {n : Nat}

/-- Parts with commas between them. -/
def join (vs : List Bytes) : Bytes := [Ascii.comma].intercalate vs

def arrayText (vs : List Bytes) : Bytes := Ascii.openBracket :: (join vs ++ [Ascii.closeBracket])

def memberText (f : String × Bytes) : Bytes := Bytes.ofString (quote f.1) ++ Ascii.colon :: f.2

def objectText (fs : List (String × Bytes)) : Bytes :=
  Ascii.openBrace :: (join (fs.map memberText) ++ [Ascii.closeBrace])

theorem join_singleton : join [v] = v := List.intercalate_singleton

theorem join_cons_cons : join (v :: w :: vs) = v ++ Ascii.comma :: join (w :: vs) := by
  rw [join, List.intercalate_cons_cons, List.append_assoc]
  rfl

theorem memberText_append : memberText f ++ x =
    Ascii.quote :: (quoted f.1 ++ Ascii.quote :: Ascii.colon :: (f.2 ++ x)) := by
  simp [memberText, ofString_quote]

/-- A joined text begins with its first part. -/
theorem join_cons (v : Bytes) (vs : List Bytes) : ∃ y, join (v :: vs) = v ++ y := by
  cases vs with
  | nil => exact ⟨[], by rw [join_singleton, List.append_nil]⟩
  | cons w vs => exact ⟨_, join_cons_cons⟩

theorem skipSpace_join (hv : IsValue v) :
    skipSpace (join (v :: vs) ++ x) = join (v :: vs) ++ x := by
  obtain ⟨y, hy⟩ := join_cons v vs
  rw [hy, List.append_assoc, hv.skipSpace]

theorem skipItems_join (hv : IsValue v) (h : ∀ w ∈ vs, IsValue w)
    (hn : 2 * (join (v :: vs)).length + 2 ≤ n) :
    skipItems n (join (v :: vs) ++ Ascii.closeBracket :: x) = some x := by
  induction vs generalizing v n with
  | nil =>
    obtain ⟨n, rfl⟩ : ∃ k, n = k + 1 := ⟨n - 1, by omega⟩
    rw [join_singleton] at *
    rw [skipItems, hv.skipValue stops_closeBracket (by omega)]
    rfl
  | cons w vs ih =>
    obtain ⟨n, rfl⟩ : ∃ k, n = k + 1 := ⟨n - 1, by omega⟩
    have hw := h w List.mem_cons_self
    rw [join_cons_cons, List.length_append, List.length_cons] at hn
    have hrest := ih hw (fun u hu => h u (List.mem_cons_of_mem _ hu)) (n := n) (by omega)
    rw [← skipSpace_join hw] at hrest
    rw [join_cons_cons, List.append_assoc, List.cons_append, skipItems,
      hv.skipValue stops_comma (by omega)]
    exact hrest

theorem skipValue_closeBracket : skipValue n (Ascii.closeBracket :: x) = none := by cases n <;> rfl

theorem join_ne_closeBracket {r : Bytes} (hv : IsValue v) :
    join (v :: vs) ++ x ≠ Ascii.closeBracket :: r := by
  intro h
  obtain ⟨y, hy⟩ := join_cons v vs
  obtain ⟨c, s, rfl⟩ := List.exists_cons_of_ne_nil hv.ne_nil
  rw [hy] at h
  cases h
  rw [IsValue, skipValue_closeBracket] at hv
  cases hv

theorem skipValue_array {r : Bytes} (hr : ∀ s, skipSpace r ≠ Ascii.closeBracket :: s) :
    skipValue (n + 1) (Ascii.openBracket :: r) = skipItems n (skipSpace r) := by
  rw [skipValue, if_neg (by decide), if_pos (by decide)]
  split
  · rename_i s hs
    exact absurd hs (hr s)
  · rfl

/-- Values written as an array are a value. -/
theorem isValue_arrayText (h : ∀ v ∈ vs, IsValue v) : IsValue (arrayText vs) := by
  cases vs with
  | nil => rfl
  | cons v vs =>
    have hv := h v List.mem_cons_self
    rw [IsValue, arrayText, List.length_cons, List.length_append]
    have hs : skipSpace (join (v :: vs) ++ [Ascii.closeBracket]) = _ := skipSpace_join hv
    rw [skipValue_array fun s => by rw [hs]; exact join_ne_closeBracket hv, hs]
    exact skipItems_join hv (fun w hw => h w (List.mem_cons_of_mem _ hw)) (by omega)

theorem items?_go_join (hv : IsValue v) (h : ∀ w ∈ vs, IsValue w) (hn : (v :: vs).length ≤ n) :
    items?.go n (join (v :: vs) ++ [Ascii.closeBracket]) = some (v :: vs) := by
  induction vs generalizing v n with
  | nil =>
    obtain ⟨n, rfl⟩ : ∃ k, n = k + 1 := ⟨n - 1, by simp at hn; omega⟩
    rw [join_singleton, items?.go, hv.value? stops_closeBracket]
    rfl
  | cons w vs ih =>
    obtain ⟨n, rfl⟩ : ∃ k, n = k + 1 := ⟨n - 1, by simp at hn; omega⟩
    have hw := h w List.mem_cons_self
    have hrest := ih hw (fun u hu => h u (List.mem_cons_of_mem _ hu)) (n := n) (by simpa using hn)
    rw [join_cons_cons, List.append_assoc, List.cons_append, items?.go, hv.value? stops_comma]
    show (items?.go n (skipSpace _)).map (v :: ·) = _
    rw [skipSpace_join hw, hrest]
    rfl

theorem length_le_length_join (h : ∀ v ∈ vs, v ≠ []) : vs.length ≤ (join vs).length := by
  induction vs with
  | nil => simp
  | cons v vs ih =>
    have hv := List.length_pos_iff.2 (h v List.mem_cons_self)
    have hrest := ih fun w hw => h w (List.mem_cons_of_mem _ hw)
    cases vs with
    | nil =>
      rw [join_singleton]
      exact hv
    | cons w vs =>
      simp only [join_cons_cons, List.length_append, List.length_cons] at *
      omega

/-- They are read back as the array. -/
theorem items?_arrayText (h : ∀ v ∈ vs, IsValue v) : items? (arrayText vs) = some vs := by
  cases vs with
  | nil => rfl
  | cons v vs =>
    have hv := h v List.mem_cons_self
    have hlen := length_le_length_join fun w hw => (h w hw).ne_nil
    rw [items?.eq_def]
    split
    · rename_i r hr
      cases hr
      rw [skipSpace_join hv]
      split
      · rename_i s hs
        exact absurd hs (join_ne_closeBracket hv)
      · refine items?_go_join hv (fun w hw => h w (List.mem_cons_of_mem _ hw)) ?_
        simp only [arrayText, List.length_cons, List.length_append] at *
        omega
    · rename_i hr
      exact (hr _ rfl).elim

theorem skipSpace_members :
    skipSpace (join ((f :: fs).map memberText) ++ x) = join ((f :: fs).map memberText) ++ x := by
  obtain ⟨y, hy⟩ := join_cons (memberText f) (fs.map memberText)
  rw [List.map_cons, hy, List.append_assoc, memberText_append]
  rfl

theorem skipMembers_memberText (hf : IsValue f.2) (hx : Stops x) (hn : 2 * f.2.length + 1 ≤ n) :
    skipMembers (n + 1) (memberText f ++ x) = skipMemberEnd n x := by
  rw [memberText_append]
  refine skipMembers_member skipString_quoted (u := f.2 ++ x) rfl ?_
  rw [hf.skipSpace, hf.skipValue hx hn]

theorem skipMembers_join (hf : IsValue f.2) (h : ∀ g ∈ fs, IsValue g.2)
    (hn : 2 * (join ((f :: fs).map memberText)).length + 2 ≤ n) :
    skipMembers n (join ((f :: fs).map memberText) ++ Ascii.closeBrace :: x) = some x := by
  induction fs generalizing f n with
  | nil =>
    obtain ⟨n, rfl⟩ : ∃ k, n = k + 1 := ⟨n - 1, by omega⟩
    rw [List.map_singleton, join_singleton] at *
    rw [skipMembers_memberText hf stops_closeBrace]
    · rfl
    · simp only [memberText, List.length_append, List.length_cons] at hn
      omega
  | cons g fs ih =>
    obtain ⟨n, rfl⟩ : ∃ k, n = k + 1 := ⟨n - 1, by omega⟩
    have hg := h g List.mem_cons_self
    rw [List.map_cons, List.map_cons, join_cons_cons] at *
    simp only [memberText, List.length_append, List.length_cons] at hn
    have hrest := ih hg (fun k hk => h k (List.mem_cons_of_mem _ hk)) (n := n) (by
      rw [List.map_cons]
      simp only [memberText] at *
      omega)
    rw [← skipSpace_members] at hrest
    rw [List.append_assoc, List.cons_append, skipMembers_memberText hf stops_comma (by omega)]
    exact hrest

theorem skipValue_members :
    skipValue (n + 1) (Ascii.openBrace :: (join ((f :: fs).map memberText) ++ x)) =
    skipMembers n (join ((f :: fs).map memberText) ++ x) := by
  obtain ⟨y, hy⟩ := join_cons (memberText f) (fs.map memberText)
  rw [List.map_cons, hy, List.append_assoc, memberText_append]
  rfl

/-- Fields written as an object are a value. -/
theorem isValue_objectText (h : ∀ f ∈ fs, IsValue f.2) : IsValue (objectText fs) := by
  cases fs with
  | nil => rfl
  | cons f fs =>
    have hf := h f List.mem_cons_self
    rw [IsValue, objectText, List.length_cons, List.length_append, skipValue_members]
    exact skipMembers_join hf (fun g hg => h g (List.mem_cons_of_mem _ hg)) (by omega)

/-- What stands behind the value of a member, when members are told apart. -/
def membersEnd (n : Nat) (m : Bytes × Bytes) (b : Bytes) : Option (List (Bytes × Bytes)) :=
  match skipSpace b with
  | Ascii.comma :: r => (members?.go n (skipSpace r)).map (m :: ·)
  | Ascii.closeBrace :: _ => some [m]
  | _ => none

theorem members?_go_memberText (hf : IsValue f.2) (hx : Stops x) :
    members?.go (n + 1) (memberText f ++ x) = membersEnd n (Bytes.ofString (quote f.1), f.2) x := by
  have hk : value? (memberText f ++ x) =
      some (Bytes.ofString (quote f.1), Ascii.colon :: (f.2 ++ x)) := by
    rw [memberText, List.append_assoc, List.cons_append]
    exact isValue_quote.value? (stops_cons.2 (by decide))
  rw [members?.go, hk]
  dsimp only
  split
  · rename_i r hr
    cases hr
    rw [hf.skipSpace, hf.value? hx]
    rfl
  · rename_i hr
    exact (hr _ rfl).elim

theorem members?_go_join (hf : IsValue f.2) (h : ∀ g ∈ fs, IsValue g.2)
    (hn : (f :: fs).length ≤ n) :
    members?.go n (join ((f :: fs).map memberText) ++ [Ascii.closeBrace]) =
      some ((f :: fs).map fun f => (Bytes.ofString (quote f.1), f.2)) := by
  induction fs generalizing f n with
  | nil =>
    obtain ⟨n, rfl⟩ : ∃ k, n = k + 1 := ⟨n - 1, by simp at hn; omega⟩
    rw [List.map_singleton, join_singleton, members?_go_memberText hf stops_closeBrace]
    rfl
  | cons g fs ih =>
    obtain ⟨n, rfl⟩ : ∃ k, n = k + 1 := ⟨n - 1, by simp at hn; omega⟩
    have hg := h g List.mem_cons_self
    have hrest := ih hg (fun k hk => h k (List.mem_cons_of_mem _ hk)) (n := n) (by simpa using hn)
    rw [List.map_cons, List.map_cons, join_cons_cons, List.append_assoc, List.cons_append,
      members?_go_memberText hf stops_comma]
    show (members?.go n (skipSpace (join ((g :: fs).map memberText) ++ _))).map _ = _
    rw [skipSpace_members, hrest]
    rfl

theorem members?_eq_go : members? (objectText (f :: fs)) = members?.go (objectText (f :: fs)).length
    (join ((f :: fs).map memberText) ++ [Ascii.closeBrace]) := by
  obtain ⟨y, hy⟩ := join_cons (memberText f) (fs.map memberText)
  rw [objectText, List.map_cons, hy, List.append_assoc, memberText_append]
  rfl

/-- They are read back as its members. -/
theorem members?_objectText (h : ∀ f ∈ fs, IsValue f.2) :
    members? (objectText fs) = some (fs.map fun f => (Bytes.ofString (quote f.1), f.2)) := by
  cases fs with
  | nil => rfl
  | cons f fs =>
    have hf := h f List.mem_cons_self
    have hlen : (f :: fs).length ≤ (objectText (f :: fs)).length := by
      have hne : ∀ v ∈ (f :: fs).map memberText, v ≠ [] := by
        intro v hv
        obtain ⟨g, -, rfl⟩ := List.mem_map.1 hv
        simp [memberText]
      have := length_le_length_join hne
      rw [List.length_map] at this
      simp only [objectText, List.length_cons, List.length_append] at *
      omega
    rw [members?_eq_go, members?_go_join hf (fun g hg => h g (List.mem_cons_of_mem _ hg)) hlen]

theorem collect_quote {names : List String} (hk : ∀ f ∈ fs, f.1 ∈ names)
    (hd : (fs.map (·.1)).Nodup) :
    Fields.collect names (fs.map fun f => (Bytes.ofString (quote f.1), f.2)) = some fs := by
  induction fs with
  | nil => rfl
  | cons f fs ih =>
    rw [List.map_cons, List.nodup_cons] at hd
    have hl : fs.lookup f.1 = none := by
      rw [List.lookup_eq_none_iff]
      intro g hg
      simpa using fun h => hd.1 (List.mem_map.2 ⟨g, hg, h.symm⟩)
    have hc := hk f List.mem_cons_self
    rw [List.map_cons, Fields.collect, string?_quote,
      ih (fun g hg => hk g (List.mem_cons_of_mem _ hg)) hd.2]
    simp [hl, hc]

/-- Known fields, none of them twice, are found under their names. -/
theorem read?_objectText {names : List String} (h : ∀ f ∈ fs, IsValue f.2)
    (hk : ∀ f ∈ fs, f.1 ∈ names) (hd : (fs.map (·.1)).Nodup) :
    Fields.read? names (n + 1) (objectText fs) = some ⟨false, names.map fun k => fs.lookup k⟩ := by
  show ((members? (objectText fs)).bind (Fields.collect names)).bind _ = _
  rw [members?_objectText h, Option.bind_some, collect_quote hk hd]
  rfl

end Switchboard.Json
