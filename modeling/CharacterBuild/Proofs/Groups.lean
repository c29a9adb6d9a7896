import CharacterBuild.Session.Mention
import CharacterBuild.Proofs.Outcome

set_option autoImplicit false

/-! # Looking up groups, sources and items

What the look-ups of the index say about each other. Within a source a group is found again by
its own id (`groupOf?_of_mem`), so it does not matter whether a group was found by its id or by
an item that it lists; and a group of a point pool is the one that the pool itself has under the
id (`group?_of_groupOf?`). Sources and items are entered under their own names, so the key that a
name stands for has that name (`keyOf_name`) and an item that was found is found again by its id
(`item?_id`). The last part describes the ids that stand above a level: those by which *some*
source has a group that opens above it (`contains_idsAbove`).
-/

namespace CharacterBuild

/-! ## First occurrences -/

section Firsts

variable {α : Type}

theorem addNew_pairwise {alike : α → α → Bool} {kept : List α} {a : α}
    (h : kept.Pairwise fun x y => alike x y = false) :
    (addNew alike kept a).Pairwise fun x y => alike x y = false := by
  unfold addNew
  split
  · exact h
  · rename_i hnew
    -- a new element is like none of those that are kept
    refine List.pairwise_append.mpr ⟨h, List.pairwise_singleton _ _, fun x hx y hy => ?_⟩
    rw [List.mem_singleton.mp hy]
    cases hxa : alike x a with
    | false => rfl
    | true => exact absurd (List.any_eq_true.mpr ⟨x, hx, hxa⟩) hnew

theorem firstsBy_pairwise (alike : α → α → Bool) (l : List α) :
    (firstsBy alike l).Pairwise fun x y => alike x y = false := by
  -- by induction on the list, for whatever was kept before
  have key : ∀ (l kept : List α), (kept.Pairwise fun x y => alike x y = false) →
      (l.foldl (addNew alike) kept).Pairwise fun x y => alike x y = false := by
    intro l
    induction l with
    | nil => exact fun kept h => h
    | cons a rest ih => exact fun kept h => ih _ (addNew_pairwise h)
  exact key l [] List.Pairwise.nil

/-- In a list without two alike elements, an element is the first one that is like it. -/
theorem find?_eq_some_of_pairwise (same : α → α → Bool) {l : List α} {a : α}
    (h : l.Pairwise fun x y => same x y = false) (ha : a ∈ l) (hself : same a a = true) :
    l.find? (fun x => same x a) = some a := by
  induction l with
  | nil => cases ha
  | cons b rest ih =>
      obtain ⟨hb, hrest⟩ := List.pairwise_cons.mp h
      -- an element before `a` is not like it, so the search goes on
      rcases List.mem_cons.mp ha with rfl | ha
      · exact List.find?_cons_of_pos hself
      · exact (List.find?_cons_of_neg (by simp [hb a ha])).trans (ih hrest ha)

theorem mem_addNew {alike : α → α → Bool} {kept : List α} {a b : α} :
    b ∈ addNew alike kept a ↔ b ∈ kept ∨ b = a ∧ ∀ c ∈ kept, alike c a = false := by
  unfold addNew
  split
  · rename_i hold
    obtain ⟨c, hc, hca⟩ := List.any_eq_true.mp hold
    refine ⟨Or.inl, fun h => h.elim id fun ⟨_, hnone⟩ => ?_⟩
    rw [hnone c hc] at hca
    cases hca
  · rename_i hnew
    have hnone : ∀ c ∈ kept, alike c a = false := by simpa using hnew
    rw [List.mem_append, List.mem_singleton]
    exact or_congr_right ⟨fun h => ⟨h, hnone⟩, And.left⟩

/-- The like of a new element is kept. -/
theorem exists_alike_addNew {alike : α → α → Bool} (hrefl : ∀ a, alike a a = true)
    (kept : List α) (a : α) : ∃ c ∈ addNew alike kept a, alike c a = true := by
  unfold addNew
  split
  · rename_i hold
    exact List.any_eq_true.mp hold
  · exact ⟨a, by simp, hrefl a⟩

/-- What is kept of a list is the first element that is like it. -/
theorem find?_of_mem_firstsBy {alike : α → α → Bool} (hrefl : ∀ a, alike a a = true)
    (htrans : ∀ a b c, alike a b = true → alike b c = true → alike a c = true) {l : List α}
    {a : α} (h : a ∈ firstsBy alike l) : l.find? (fun b => alike b a) = some a := by
  -- by induction on the list: an element is kept from before, or new and then the first one
  have key : ∀ (l kept : List α), a ∈ l.foldl (addNew alike) kept →
      a ∈ kept ∨ (∀ b ∈ kept, alike b a = false) ∧ l.find? (fun b => alike b a) = some a := by
    intro l
    induction l with
    | nil => exact fun kept h => Or.inl h
    | cons b rest ih =>
        intro kept h
        rcases ih _ h with hkept | ⟨hnone, hfind⟩
        · rcases mem_addNew.mp hkept with hkept | ⟨rfl, hnew⟩
          · exact Or.inl hkept
          · exact Or.inr ⟨hnew, List.find?_cons_of_pos (hrefl a)⟩
        · refine Or.inr ⟨fun c hc => hnone c (mem_addNew.mpr (Or.inl hc)), ?_⟩
          -- the like of `b` that is kept is not like `a`, so neither is `b`
          obtain ⟨c, hc, hcb⟩ := exists_alike_addNew hrefl kept b
          have hba : alike b a = false := by
            rw [← Bool.not_eq_true]
            intro hba
            have hca := htrans c b a hcb hba
            rw [hnone c hc] at hca
            cases hca
          simpa [hba] using hfind
  exact (key l [] h).elim nofun And.right

/-- An element of a list is kept of it, or a like of it. -/
theorem exists_eq_or_alike_firstsBy (alike : α → α → Bool) {l : List α} {a : α} (ha : a ∈ l) :
    ∃ b ∈ firstsBy alike l, b = a ∨ alike b a = true := by
  -- by induction on the list, for whatever was kept before
  have key : ∀ (l kept : List α), (a ∈ l ∨ ∃ b ∈ kept, b = a ∨ alike b a = true) →
      ∃ b ∈ l.foldl (addNew alike) kept, b = a ∨ alike b a = true := by
    intro l
    induction l with
    | nil => exact fun kept h => h.resolve_left List.not_mem_nil
    | cons c rest ih =>
        intro kept h
        refine ih _ ?_
        rcases h with h | ⟨b, hb, hba⟩
        · rcases List.mem_cons.mp h with rfl | h
          · refine Or.inr ?_
            by_cases hnew : ∀ c ∈ kept, alike c a = false
            · exact ⟨a, mem_addNew.mpr (Or.inr ⟨rfl, hnew⟩), Or.inl rfl⟩
            · obtain ⟨c, hc, hca⟩ : ∃ c ∈ kept, alike c a = true := by simpa using hnew
              exact ⟨c, mem_addNew.mpr (Or.inl hc), Or.inr hca⟩
          · exact Or.inl h
        · exact Or.inr ⟨b, mem_addNew.mpr (Or.inl hb), hba⟩
  exact key l [] (Or.inl ha)

/-- What is like an element of a list is kept of it. -/
theorem exists_alike_firstsBy (alike : α → α → Bool) (hrefl : ∀ a, alike a a = true)
    {l : List α} {a : α} (ha : a ∈ l) : ∃ b ∈ firstsBy alike l, alike b a = true := by
  obtain ⟨b, hb, rfl | hba⟩ := exists_eq_or_alike_firstsBy alike ha
  · exact ⟨b, hb, hrefl b⟩
  · exact ⟨b, hb, hba⟩

/-- What is kept of a list stands in it in the same order. -/
theorem firstsBy_sublist (alike : α → α → Bool) (l : List α) : (firstsBy alike l).Sublist l := by
  have hadd : ∀ (kept : List α) (a : α), (addNew alike kept a).Sublist (kept ++ [a]) := by
    intro kept a
    unfold addNew
    split
    · exact List.sublist_append_left kept [a]
    · exact List.Sublist.refl _
  have key : ∀ (l kept : List α), (l.foldl (addNew alike) kept).Sublist (kept ++ l) := by
    intro l
    induction l with
    | nil => exact fun kept => by simp
    | cons a rest ih =>
        intro kept
        rw [List.append_cons]
        exact (ih _).trans ((hadd kept a).append_right rest)
  exact key l []

theorem mem_of_mem_firstsBy {alike : α → α → Bool} {l : List α} {a : α}
    (h : a ∈ firstsBy alike l) : a ∈ l :=
  (firstsBy_sublist alike l).subset h

/-- A list without two alike elements is kept as it is. -/
theorem firstsBy_eq_self {alike : α → α → Bool} {l : List α}
    (h : l.Pairwise fun x y => alike x y = false) : firstsBy alike l = l := by
  have key : ∀ (l kept : List α), ((kept ++ l).Pairwise fun x y => alike x y = false) →
      l.foldl (addNew alike) kept = kept ++ l := by
    intro l
    induction l with
    | nil => exact fun kept _ => (List.append_nil kept).symm
    | cons a rest ih =>
        intro kept h
        have hnew : addNew alike kept a = kept ++ [a] := by
          refine if_neg fun hold => ?_
          obtain ⟨b, hb, halike⟩ := List.any_eq_true.mp hold
          rw [(List.pairwise_append.mp h).2.2 b hb a (List.mem_cons_self ..)] at halike
          cases halike
        rw [List.foldl_cons, hnew, ih _ (by simpa using h)]
        simp
  exact key l [] h

theorem nodup_eraseDups [BEq α] [LawfulBEq α] (l : List α) : l.eraseDups.Nodup := by
  cases l with
  | nil => exact List.nodup_nil
  | cons a rest =>
      rw [List.eraseDups_cons, List.nodup_cons]
      refine ⟨fun ha => ?_, nodup_eraseDups _⟩
      -- the rest is what differs from the first element
      rw [List.mem_eraseDups, List.mem_filter] at ha
      simpa using ha.2
termination_by l.length
decreasing_by exact Nat.lt_succ_of_le (List.length_filter_le _ _)

section

variable [DecidableEq α]

/-- An element more is kept if it is new. -/
theorem eraseDups_concat (l : List α) (a : α) :
    (l ++ [a]).eraseDups = if a ∈ l then l.eraseDups else l.eraseDups ++ [a] := by
  rw [List.eraseDups_append]
  by_cases ha : a ∈ l
  · simp [List.removeAll, ha]
  · have hone : [a].eraseDups = [a] := rfl
    simp [List.removeAll, ha, hone]

theorem addNew_eraseDups (l : List α) (a : α) :
    addNew (fun a b => decide (a = b)) l.eraseDups a = (l ++ [a]).eraseDups := by
  rw [eraseDups_concat]
  by_cases ha : a ∈ l <;> simp [addNew, ha]

/-- What is kept of some elements, after others. -/
theorem foldl_addNew_eraseDups (l added : List α) :
    added.foldl (addNew fun a b => decide (a = b)) l.eraseDups = (l ++ added).eraseDups := by
  induction added generalizing l with
  | nil => simp
  | cons a rest ih =>
      rw [List.foldl_cons, addNew_eraseDups, ih, List.append_assoc]
      rfl

/-- The first of equal elements are the list without its duplicates. -/
theorem firstsBy_eq_eraseDups (l : List α) :
    firstsBy (fun a b => decide (a = b)) l = l.eraseDups :=
  foldl_addNew_eraseDups [] l

/-- Elements that are different already stay. -/
theorem eraseDups_of_nodup {l : List α} (h : l.Nodup) : l.eraseDups = l := by
  rw [← firstsBy_eq_eraseDups]
  exact firstsBy_eq_self (h.imp fun h => decide_eq_false h)

end

end Firsts

theorem Directory.mem_of_find? {κ β : Type} [BEq κ] [LawfulBEq κ] {d : Directory κ β} {k : κ}
    {v : β} (h : d.find? k = some v) : (k, v) ∈ d.entries := by
  obtain ⟨⟨k', v'⟩, he, rfl⟩ := Option.map_eq_some_iff.mp h
  have hk : k' = k := by simpa using List.find?_some he
  exact hk ▸ List.mem_of_find?_eq_some he

theorem Directory.eq_of_entries {κ β : Type} [BEq κ] {d d' : Directory κ β}
    (h : d.entries = d'.entries) : d = d' := by
  cases d
  cases d'
  cases h
  rfl

/-- Entering the entries of a directory again makes the same directory. -/
theorem Directory.ofList_entries {κ β : Type} [BEq κ] (d : Directory κ β) :
    ofList d.entries = d := by
  have hput : ∀ (l : List (κ × β)) (e : κ × β), (∀ a ∈ l, (a.1 == e.1) = false) →
      put e.1 e.2 l = l ++ [e] := by
    intro l
    induction l with
    | nil => exact fun e _ => rfl
    | cons a rest ih =>
        intro e h
        rw [put, if_neg (by simp [h a (by simp)]), ih e fun b hb => h b (by simp [hb])]
        rfl
  -- by induction on the entries, for those that were entered before
  have key : ∀ (l : List (κ × β)) (d : Directory κ β),
      ((d.entries ++ l).Pairwise fun a b => (a.1 == b.1) = false) →
      (l.foldl (fun d e => d.insert e.1 e.2) d).entries = d.entries ++ l := by
    intro l
    induction l with
    | nil => exact fun d _ => (List.append_nil _).symm
    | cons e rest ih =>
        intro d h
        have hinsert : (d.insert e.1 e.2).entries = d.entries ++ [e] :=
          hput _ _ fun a ha => (List.pairwise_append.mp h).2.2 a ha e (List.mem_cons_self ..)
        rw [List.foldl_cons, ih _ (by rw [hinsert]; simpa using h), hinsert]
        simp
  exact eq_of_entries (key d.entries empty d.distinct)

theorem Directory.find?_of_mem {κ β : Type} [BEq κ] [LawfulBEq κ] {d : Directory κ β} {k : κ}
    {v : β} (h : (k, v) ∈ d.entries) : d.find? k = some v := by
  have hfind := find?_eq_some_of_pairwise (fun a b => a.1 == b.1) d.distinct h (by simp)
  exact Option.map_eq_some_iff.mpr ⟨(k, v), hfind, rfl⟩

namespace Index

variable {ν : Type} (index : Index ν)

/-! ## Sources and items -/

/-- The key that a name stands for. -/
def keyOf (name : Text) : SourceId :=
  match index.source? name with
  | some source => source.key
  | none => ⟨name, .primary⟩

@[simp] theorem sourceId_outcome (name : Text) :
    (index.sourceId name).outcome = .ok (index.keyOf name) := by
  unfold sourceId keyOf
  cases index.source? name <;> rfl

theorem source?_name {name : Text} {source : Source ν} (h : index.source? name = some source) :
    source.key.name = name :=
  index.catalog.sources_named _ (Directory.mem_of_find? h)

@[simp] theorem keyOf_name (name : Text) : (index.keyOf name).name = name := by
  unfold keyOf
  cases h : index.source? name with
  | some source => exact index.source?_name h
  | none => rfl

/-- An item is entered under its own id. -/
theorem id_of_item? {id : Text} {item : Item ν} (h : index.item? id = some item) :
    item.id = id :=
  index.catalog.items_named _ (Directory.mem_of_find? h)

/-- An item is found again by its own id. -/
theorem item?_id {id : Text} {item : Item ν} (h : index.item? id = some item) :
    index.item? item.id = some item := by
  rw [index.id_of_item? h]; exact h

@[simp] theorem resolve_named (name : Text) :
    ((SourceMention.named name).resolve index).outcome = .ok (index.keyOf name) :=
  index.sourceId_outcome name

theorem resolve_named_of_item? {id : Text} {item : Item ν} (h : index.item? id = some item) :
    ((ItemMention.named id).resolve index).outcome = .ok (.ok item) := by
  unfold ItemMention.resolve
  dsimp only
  rw [h]
  rfl

theorem item?_of_resolve_named {id : Text} {item : Item ν}
    (h : ((ItemMention.named id).resolve index).outcome = .ok (.ok item)) :
    index.item? id = some item := by
  unfold ItemMention.resolve at h
  cases hi : index.item? id with
  | some found =>
      simp only [hi, Traced.outcome_pure, Except.ok.injEq] at h
      rw [h]
  | none => simp [hi, Except.map] at h

theorem unknown_of_resolve_named {id : Text} {reason : Reason ν}
    (h : ((ItemMention.named id).resolve index).outcome = .ok (.error reason)) :
    index.item? id = none ∧ reason = .unknownItem id := by
  unfold ItemMention.resolve at h
  cases hi : index.item? id with
  | some found => simp [hi] at h
  | none =>
      simp only [hi] at h
      exact ⟨rfl, (Except.error.inj (Except.ok.inj h)).symm⟩

/-! ## Groups of a source -/

theorem mem_of_entry? {source : Text} {e : IndexedSource ν} (h : index.entry? source = some e) :
    ∃ s, (source, s) ∈ index.catalog.sources.entries ∧ e = s.indexed := by
  have hmem := List.mem_of_find?_eq_some h
  have hname : e.source.key.name = source := by simpa using List.find?_some h
  rw [index.sources_eq] at hmem
  obtain ⟨s, hs, rfl⟩ := List.mem_map.mp hmem
  obtain ⟨⟨name, s'⟩, he, rfl⟩ := List.mem_map.mp hs
  have hkey : s'.key.name = name := index.catalog.sources_named _ he
  exact ⟨s', by rw [← hname]; show (s'.key.name, s') ∈ _; rw [hkey]; exact he, rfl⟩

theorem entry?_of_mem {name : Text} {s : Source ν}
    (h : (name, s) ∈ index.catalog.sources.entries) : index.entry? name = some s.indexed := by
  have hnamed := index.catalog.sources_named
  -- every source carries the name it is entered under, so both searches stop at the same entry
  have key : ∀ entries : List (Text × Source ν), (∀ e ∈ entries, e.2.key.name = e.1) →
      ((entries.map Prod.snd).map Source.indexed).find? (fun e => e.source.key.name = name)
        = ((entries.find? fun e => e.1 == name).map Prod.snd).map Source.indexed := by
    intro entries
    induction entries with
    | nil => intro _; rfl
    | cons a rest ih =>
        intro hn
        have ha : a.2.indexed.source.key.name = a.1 := hn a (by simp)
        simp only [List.map_cons, List.find?_cons, ha]
        by_cases hk : a.1 = name
        · simp [hk]
        · have hb : (a.1 == name) = false := by simpa using hk
          simpa [hk, hb] using ih fun e he => hn e (by simp [he])
  unfold entry?
  rw [index.sources_eq]
  refine (key _ hnamed).trans ?_
  have hfind : (index.catalog.sources.entries.find? fun e => e.1 == name).map Prod.snd = some s :=
    Directory.find?_of_mem h
  rw [hfind]; rfl

/-- The ids of the groups of a source are pairwise different. -/
theorem groups_pairwise (source : Text) :
    (index.groups source).Pairwise fun g g' => decide (g.id = g'.id) = false := by
  unfold groups
  cases h : index.entry? source with
  | none => exact List.Pairwise.nil
  | some e =>
      obtain ⟨s, _, rfl⟩ := index.mem_of_entry? h
      exact firstsBy_pairwise _ _

theorem groupOf?_of_mem {source : Text} {g : Group ν} (h : g ∈ index.groups source) :
    index.groupOf? source g.id = some g :=
  find?_eq_some_of_pairwise _ (index.groups_pairwise source) h (by simp)

theorem mem_of_groupOf? {source id : Text} {g : Group ν}
    (h : index.groupOf? source id = some g) : g ∈ index.groups source ∧ g.id = id :=
  ⟨List.mem_of_find?_eq_some h, by simpa using List.find?_some h⟩

theorem groupOf?_of_groupListing? {source item : Text} {g : Group ν}
    (h : index.groupListing? source item = some g) : index.groupOf? source g.id = some g :=
  index.groupOf?_of_mem (List.mem_of_find?_eq_some h)

/-- A group of a source is the first one of its id among all that the source offers. -/
theorem exists_find?_of_mem_groups {source : Text} {g : Group ν} (h : g ∈ index.groups source) :
    ∃ s, (source, s) ∈ index.catalog.sources.entries ∧
      s.allGroups.find? (fun g' => decide (g'.id = g.id)) = some g := by
  have htrans : ∀ a b c : Group ν, decide (a.id = b.id) = true → decide (b.id = c.id) = true →
      decide (a.id = c.id) = true := by
    simp only [decide_eq_true_eq]
    exact fun _ _ _ => Eq.trans
  unfold groups at h
  cases he : index.entry? source with
  | none => simp [he] at h
  | some e =>
      obtain ⟨s, hs, rfl⟩ := index.mem_of_entry? he
      rw [he] at h
      exact ⟨s, hs, find?_of_mem_firstsBy (by simp) htrans h⟩

/-- **The pool's own group of an id is the one that the index has.** -/
theorem group?_of_groupOf? {source id : Text} {g : Group ν} {unlock : PointBuy ν}
    {group : PointGroup ν} (h : index.groupOf? source id = some g)
    (hkind : g.kind = .pointBuy unlock group) : unlock.group? (.text g.id) = some group := by
  obtain ⟨s, _, hfind⟩ := index.exists_find?_of_mem_groups (index.mem_of_groupOf? h).1
  -- so it is the first one of its id in the unlock that it comes from
  unfold Source.allGroups at hfind
  rw [List.find?_flatMap] at hfind
  obtain ⟨u, _, hu⟩ := List.exists_of_findSome?_eq_some hfind
  cases hunlock : u.2 with
  | reward r =>
      rw [hunlock] at hu
      cases hu
  | choice c =>
      rw [hunlock] at hu
      obtain rfl := List.mem_singleton.mp (List.mem_of_find?_eq_some hu)
      cases hkind
  | pointBuy p =>
      rw [hunlock] at hu
      unfold Group.ofUnlock at hu
      dsimp only at hu
      rw [List.find?_map] at hu
      obtain ⟨found, hfound, rfl⟩ := Option.map_eq_some_iff.mp hu
      obtain ⟨rfl, rfl⟩ := GroupKind.pointBuy.inj hkind
      rw [← hfound]
      unfold PointBuy.group?
      congr 1
      funext g'
      rw [Value.isText_text]
      exact decide_eq_decide.mpr eq_comm

/-- The level of a group is that of the unlock it comes from. -/
theorem exists_unlock_of_mem_groups {source : Text} {g : Group ν} (h : g ∈ index.groups source) :
    ∃ s, (source, s) ∈ index.catalog.sources.entries ∧ ∃ u ∈ s.unlocks, g.level = u.1 := by
  obtain ⟨s, hs, hfind⟩ := index.exists_find?_of_mem_groups h
  obtain ⟨u, hu, hg⟩ := List.mem_flatMap.mp (List.mem_of_find?_eq_some hfind)
  refine ⟨s, hs, u, hu, ?_⟩
  cases hunlock : u.2 with
  | reward r =>
      rw [hunlock] at hg
      cases hg
  | choice c =>
      rw [hunlock] at hg
      rw [List.mem_singleton.mp hg]
      rfl
  | pointBuy p =>
      rw [hunlock] at hg
      obtain ⟨_, _, rfl⟩ := List.mem_map.mp hg
      rfl

@[simp] theorem groupNamed_text (source id : Text) :
    index.groupNamed source (.text id) = .ok (index.groupOf? source id) := rfl

/-- Whatever atom names a group, looking for it does not fail. -/
theorem exists_groupNamed_atom (source : Text) (a : Atom ν) :
    ∃ g, index.groupNamed source (.atom a) = .ok g := by
  cases a <;> exact ⟨_, rfl⟩

@[simp] theorem groupNamed_null (source : Text) : index.groupNamed source .null = .ok none := rfl

/-- Looking for a group with a note finds the same group. -/
theorem group_outcome {source : Text} {group : Value ν} {g : Option (Group ν)}
    (h : index.groupNamed source group = .ok g) : (index.group source group).outcome = .ok g := by
  unfold Index.group
  rw [Traced.outcome_bind, Traced.outcome_lift, h]
  show Traced.outcome (if _ then _ else _) = _
  split <;> rfl

/-- Where all that a source unlocks is one unlock, its groups are found there. -/
theorem groupNamed_of_single {name : Text} {s : Source ν} {level : Int} {unlock : Unlock ν}
    (h : (name, s) ∈ index.catalog.sources.entries) (htiers : s.tiers = [⟨level, [unlock]⟩])
    (id : Text) : index.groupNamed name (.text id)
      = .ok ((Group.firsts (Group.ofUnlock s.key.name level unlock)).find? (·.id = id)) := by
  have hunlocks : s.unlocks = [(level, unlock)] := by
    unfold Source.unlocks Tier.sort
    rw [htiers, List.mergeSort_singleton]
    rfl
  have hgroups : s.allGroups = Group.ofUnlock s.key.name level unlock := by
    unfold Source.allGroups
    rw [hunlocks, List.flatMap_singleton]
  rw [groupNamed_text]
  unfold groupOf? groups
  rw [index.entry?_of_mem h]
  unfold Source.indexed
  rw [hgroups]

/-- Only a text names a group. -/
theorem groupNamed_eq_ok_some {source : Text} {group : Value ν} {g : Group ν}
    (h : index.groupNamed source group = .ok (some g)) :
    ∃ id, group = .text id ∧ index.groupOf? source id = some g := by
  rcases group with a | l | ms
  · cases a with
    | text id => exact ⟨id, rfl, by simpa using h⟩
    | null => simp [groupNamed, Value.key, bind, Except.bind] at h
    | bool b => simp [groupNamed, Value.key, bind, Except.bind] at h
    | number n => simp [groupNamed, Value.key, bind, Except.bind] at h
  · simp [groupNamed, Value.key, bind, Except.bind] at h
  · simp [groupNamed, Value.key, bind, Except.bind] at h

/-- The groups of all sources are those of the single sources. -/
theorem mem_allGroups {g : Group ν} :
    g ∈ index.allGroups ↔ ∃ source ∈ index.sourceList, g ∈ index.groups source := by
  -- what is kept under a name are the groups of the source entered there
  have hgroups : ∀ {name s}, (name, s) ∈ index.catalog.sources.entries →
      index.groups name = s.indexed.groups := by
    intro name s h
    unfold groups
    rw [index.entry?_of_mem h]
  unfold allGroups sourceList Directory.keys
  rw [index.sources_eq]
  constructor
  · intro h
    obtain ⟨e, he, hg⟩ := List.mem_flatMap.mp h
    obtain ⟨s, hs, rfl⟩ := List.mem_map.mp he
    obtain ⟨⟨name, s'⟩, hmem, rfl⟩ := List.mem_map.mp hs
    exact ⟨name, List.mem_map.mpr ⟨_, hmem, rfl⟩, by rw [hgroups hmem]; exact hg⟩
  · rintro ⟨source, hs, hg⟩
    obtain ⟨⟨name, s⟩, hmem, rfl⟩ := List.mem_map.mp hs
    rw [hgroups hmem] at hg
    exact List.mem_flatMap.mpr
      ⟨s.indexed, List.mem_map.mpr ⟨s, List.mem_map.mpr ⟨_, hmem, rfl⟩, rfl⟩, hg⟩

theorem mem_sourceList_of_groupOf? {source id : Text} {g : Group ν}
    (h : index.groupOf? source id = some g) : source ∈ index.sourceList := by
  have hmem := (index.mem_of_groupOf? h).1
  unfold groups at hmem
  cases he : index.entry? source with
  | none => simp [he] at hmem
  | some e =>
      obtain ⟨s, hs, _⟩ := index.mem_of_entry? he
      exact List.mem_map.mpr ⟨_, hs, rfl⟩

/-! ## Groups above a level -/

variable [Number ν]

/-- Whether a source has a group that a value names and that opens above a level. -/
def opensAbove (level : Level ν) (source : Text) (group : Value ν) : Bool :=
  match group with
  | .text id => (index.groupOf? source id).any fun g => level < (g.level : Level ν)
  | _ => false

/-- Whether any source has a group that a value names and that opens above a level. -/
def opensAboveAnywhere (level : Level ν) (group : Value ν) : Bool :=
  index.sourceList.any fun source => index.opensAbove level source group

/-- The ids above a level are those by which some source has a group that opens above it. -/
theorem contains_idsAbove (level : Level ν) (id : Text) :
    (index.idsAbove level).contains id = index.opensAboveAnywhere level (.text id) := by
  rw [Bool.eq_iff_iff]
  simp only [List.contains_iff_mem, idsAbove, List.mem_map, List.mem_filter, decide_eq_true_eq,
    opensAboveAnywhere, opensAbove, List.any_eq_true, Option.any_eq_true]
  constructor
  · rintro ⟨g, ⟨hg, hl⟩, rfl⟩
    obtain ⟨source, hs, hmem⟩ := index.mem_allGroups.mp hg
    exact ⟨source, hs, g, index.groupOf?_of_mem hmem, hl⟩
  · rintro ⟨source, hs, g, hfind, hl⟩
    obtain ⟨hmem, hid⟩ := index.mem_of_groupOf? hfind
    exact ⟨g, ⟨index.mem_allGroups.mpr ⟨source, hs, hmem⟩, hl⟩, hid⟩

/-- What is not a text names no group. -/
theorem opensAboveAnywhere_of_not_text (level : Level ν) {group : Value ν}
    (h : ∀ id, group ≠ .text id) : index.opensAboveAnywhere level group = false := by
  refine List.any_eq_false.mpr fun source _ => ?_
  unfold opensAbove
  split
  · exact absurd rfl (h _)
  · simp

theorem opensAboveAnywhere_of_opensAbove {level : Level ν} {source : Text} {group : Value ν}
    (h : index.opensAbove level source group = true) :
    index.opensAboveAnywhere level group = true := by
  refine List.any_eq_true.mpr ⟨source, ?_, h⟩
  unfold opensAbove at h
  split at h
  · obtain ⟨g, hg, _⟩ := (Option.any_eq_true ..).mp h
    exact index.mem_sourceList_of_groupOf? hg
  · cases h

end Index

end CharacterBuild
