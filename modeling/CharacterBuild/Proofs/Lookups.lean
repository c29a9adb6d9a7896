import CharacterBuild.Proofs.Groups

set_option autoImplicit false

/-! # The look-ups of an index agree

What the index answers about a source comes down to one list: the groups that all its tiers offer,
with the tiers in order of their levels and those of one level in the order of the catalog
(`Tier.InOrder`). The groups of the source are the ones that come first with their id in this list,
and whatever is looked up is looked up among them. `Index.make_coherent` says so for each way of
looking something up, whatever levels and ids the catalog repeats.
-/

namespace CharacterBuild

variable {ν : Type}

/-! ## The order of tiers -/

/-- What ascending blocks of one level each consist of ascends. -/
theorem ascending_flatMap {α β : Type} {l : List α} {block : α → List β} {f : α → Int} {g : β → Int}
    (hl : l.Pairwise fun a a' => f a ≤ f a') (hblock : ∀ a ∈ l, ∀ b ∈ block a, g b = f a) :
    (l.flatMap block).Pairwise fun b b' => g b ≤ g b' := by
  refine List.pairwise_flatMap.mpr ⟨fun a ha => ?_, ?_⟩
  · refine List.pairwise_of_forall_mem_list fun b hb b' hb' => ?_
    have hlevel := hblock a ha b hb
    have hlevel' := hblock a ha b' hb'
    omega
  · refine hl.imp_of_mem fun {a a'} ha ha' hle b hb b' hb' => ?_
    have hlevel := hblock a ha b hb
    have hlevel' := hblock a' ha' b' hb'
    omega

namespace Tier

/-- Tiers in ascending order of their levels, those of one level in the order they had. -/
structure InOrder (tiers ordered : List (Tier ν)) : Prop where
  perm : ordered.Perm tiers
  ascending : ordered.Pairwise fun a b => a.level ≤ b.level
  stable : ∀ level,
    ordered.filter (fun t => t.level = level) = tiers.filter (fun t => t.level = level)

theorem order_trans (a b c : Tier ν) (hab : decide (a.level ≤ b.level) = true)
    (hbc : decide (b.level ≤ c.level) = true) : decide (a.level ≤ c.level) = true := by
  simp only [decide_eq_true_eq] at hab hbc ⊢
  exact Int.le_trans hab hbc

theorem order_total (a b : Tier ν) :
    (decide (a.level ≤ b.level) || decide (b.level ≤ a.level)) = true := by
  simp only [Bool.or_eq_true, decide_eq_true_eq]
  exact Int.le_total a.level b.level

theorem ascending_sort (tiers : List (Tier ν)) :
    (sort tiers).Pairwise fun a b => a.level ≤ b.level :=
  (List.pairwise_mergeSort order_trans order_total tiers).imp of_decide_eq_true

theorem filter_sort (tiers : List (Tier ν)) (level : Int) :
    (sort tiers).filter (fun t => t.level = level) = tiers.filter (fun t => t.level = level) := by
  have hperm : (sort tiers).Perm tiers := List.mergeSort_perm ..
  -- tiers of one level are in order already, so sorting leaves their order alone
  have hsub : (tiers.filter fun t => t.level = level).Sublist (sort tiers) := by
    refine List.sublist_mergeSort order_trans order_total ?_ List.filter_sublist
    refine List.pairwise_of_forall_mem_list fun a ha b hb => ?_
    have ha := (List.mem_filter.mp ha).2
    have hb := (List.mem_filter.mp hb).2
    simp only [decide_eq_true_eq] at ha hb ⊢
    omega
  have hkept := hsub.filter fun t => decide (t.level = level)
  rw [List.filter_filter] at hkept
  simp only [Bool.and_self] at hkept
  exact (hkept.eq_of_length (hperm.filter _).length_eq.symm).symm

theorem inOrder_sort (tiers : List (Tier ν)) : InOrder tiers (sort tiers) where
  perm := List.mergeSort_perm ..
  ascending := ascending_sort tiers
  stable := filter_sort tiers

end Tier

/-! ## The groups of a source -/

/-- The level of a group is the one that it was made with. -/
theorem Group.level_of_mem_ofUnlock {source : Text} {level : Int} {u : Unlock ν} {g : Group ν}
    (h : g ∈ ofUnlock source level u) : g.level = level := by
  cases u with
  | reward r => cases h
  | choice c => rw [List.mem_singleton.mp h]; rfl
  | pointBuy p =>
      obtain ⟨_, _, rfl⟩ := List.mem_map.mp h
      rfl

/-- The first group of an id is the one that is kept. -/
theorem Group.find?_firsts (l : List (Group ν)) (id : Text) :
    (firsts l).find? (fun g => g.id = id) = l.find? (fun g => g.id = id) := by
  have htrans : ∀ a b c : Group ν, decide (a.id = b.id) = true → decide (b.id = c.id) = true →
      decide (a.id = c.id) = true := by
    simp only [decide_eq_true_eq]
    exact fun _ _ _ => Eq.trans
  cases h : l.find? fun g => g.id = id with
  | none =>
      exact List.find?_eq_none.mpr fun g hg => List.find?_eq_none.mp h g (mem_of_mem_firstsBy hg)
  | some g =>
      obtain rfl : g.id = id := by simpa using List.find?_some h
      -- the like of it that is kept comes first in the whole list, and so does the group itself
      obtain ⟨b, hb, hlike⟩ := exists_alike_firstsBy (fun a b : Group ν => decide (a.id = b.id))
        (by simp) (List.mem_of_find?_eq_some h)
      have hid : b.id = g.id := of_decide_eq_true hlike
      have hfirst := find?_of_mem_firstsBy (by simp) htrans hb
      rw [hid, h] at hfirst
      obtain rfl := Option.some.inj hfirst
      exact find?_eq_some_of_pairwise _ (firstsBy_pairwise _ l) hb (by simp)

namespace Source

variable (source : Source ν)

theorem ascending_unlocks : source.unlocks.Pairwise fun u v => u.1 ≤ v.1 := by
  refine ascending_flatMap (Tier.ascending_sort source.tiers) fun t _ u hu => ?_
  obtain ⟨_, _, rfl⟩ := List.mem_map.mp hu
  rfl

theorem ascending_allGroups : source.allGroups.Pairwise fun g g' => g.level ≤ g'.level :=
  ascending_flatMap source.ascending_unlocks fun _ _ _ hg => Group.level_of_mem_ofUnlock hg

/-- All groups of a source, tier by tier. -/
theorem allGroups_eq : source.allGroups = (Tier.sort source.tiers).flatMap fun t =>
    t.unlocks.flatMap (Group.ofUnlock source.key.name t.level) := by
  rw [allGroups, unlocks, List.flatMap_assoc]
  congr 1
  funext t
  exact List.flatMap_map ..

end Source

/-! ## Windows of levels -/

/-- What comes up to a level of an ascending list splits at each lower level. -/
theorem filter_le_eq_append {α : Type} {l : List α} {f : α → Int}
    (h : l.Pairwise fun a b => f a ≤ f b) {o t : Int} (hot : o ≤ t) :
    l.filter (fun a => f a ≤ t) =
      l.filter (fun a => f a ≤ o) ++ l.filter (fun a => o < f a && f a ≤ t) := by
  induction l with
  | nil => rfl
  | cons a rest ih =>
      obtain ⟨ha, hrest⟩ := List.pairwise_cons.mp h
      by_cases hlow : f a ≤ o
      · rw [List.filter_cons_of_pos (by simpa using Int.le_trans hlow hot),
          List.filter_cons_of_pos (by simpa using hlow),
          List.filter_cons_of_neg (by simpa using fun h => absurd hlow (by omega)), ih hrest]
        rfl
      -- from the first element above the lower level on, nothing is left below it
      · have hnone : (a :: rest).filter (fun b => f b ≤ o) = [] := by
          refine List.filter_eq_nil_iff.mpr fun b hb => ?_
          rcases List.mem_cons.mp hb with rfl | hb
          · simpa using hlow
          · have hle := ha b hb
            simp only [decide_eq_true_eq]
            omega
        rw [hnone, List.nil_append]
        refine List.filter_congr fun b hb => ?_
        have habove : o < f b := by
          rcases List.mem_cons.mp hb with rfl | hb
          · omega
          · have hle := ha b hb
            omega
        simp [habove]

namespace Index

/-! ## The index of a catalog -/

/-- The tiers of the source of a name in the order of the catalog. -/
def tiersOf (index : Index ν) (name : Text) : List (Tier ν) :=
  match index.source? name with
  | some source => source.tiers
  | none => []

theorem entry?_eq (index : Index ν) (name : Text) :
    index.entry? name = (index.source? name).map Source.indexed := by
  cases h : index.source? name with
  | some source => exact index.entry?_of_mem (Directory.mem_of_find? h)
  | none =>
      cases he : index.entry? name with
      | none => rfl
      | some e =>
          obtain ⟨s, hs, _⟩ := index.mem_of_entry? he
          have hfound : index.source? name = some s := Directory.find?_of_mem hs
          rw [hfound] at h
          cases h

/-- The groups of a source are the first ones of their ids, tier by tier. -/
theorem groups_eq (index : Index ν) (name : Text) :
    index.groups name = Group.firsts ((Tier.sort (index.tiersOf name)).flatMap fun t =>
      t.unlocks.flatMap (Group.ofUnlock name t.level)) := by
  unfold groups tiersOf
  rw [entry?_eq]
  cases h : index.source? name with
  | some source =>
      show Group.firsts source.allGroups = _
      rw [source.allGroups_eq, index.source?_name h]
  | none =>
      simp only [Option.map_none, Tier.sort, List.mergeSort_nil, List.flatMap_nil]
      rfl

theorem ascending_groups (index : Index ν) (name : Text) :
    (index.groups name).Pairwise fun g g' => g.level ≤ g'.level := by
  unfold groups
  rw [entry?_eq]
  cases index.source? name with
  | some source => exact source.ascending_allGroups.sublist (firstsBy_sublist _ _)
  | none => exact List.Pairwise.nil

variable [Number ν]

theorem inWindow_upTo (t level : Int) :
    inWindow (none : Option (Level ν)) (some t) level = decide (level ≤ t) := by
  unfold inWindow
  rw [Bool.eq_iff_iff]
  simp only [Bool.not_false, Bool.and_true, Bool.not_eq_true', decide_eq_false_iff_not,
    decide_eq_true_eq, Level.whole_lt_whole, Int.not_lt]

theorem inWindow_between (o t level : Int) :
    inWindow (some (o : Level ν)) (some (t : Level ν)) level
      = (decide (o < level) && decide (level ≤ t)) := by
  unfold inWindow
  rw [Bool.eq_iff_iff]
  simp only [Bool.and_eq_true, Bool.not_eq_true', decide_eq_false_iff_not, decide_eq_true_eq,
    Level.whole_lt_whole, Level.whole_le_whole, Int.not_lt, Int.not_le]
  exact And.comm

/-- What a source unlocks up to a level splits at each lower level. -/
theorem unlocks_eq_append (index : Index ν) (name : Text) {o t : Int} (hot : o ≤ t) :
    index.unlocks name none (some t) =
      index.unlocks name none (some o) ++ index.unlocks name (some o) (some t) := by
  unfold unlocks
  rw [entry?_eq]
  cases index.source? name with
  | some source =>
      simp only [Option.map_some, inWindow_upTo, inWindow_between]
      exact filter_le_eq_append source.ascending_unlocks hot
  | none => rfl

/-- What an index answers about the source of a name fits together. -/
structure CoherentAt (index : Index ν) (name : Text) : Prop where
  /-- Groups come in ascending order of levels, -/
  ascending : (index.groups name).Pairwise fun g g' => g.level ≤ g'.level
  /-- each id once. -/
  ids_nodup : ((index.groups name).map Group.id).Nodup
  /-- The group of an id is the one among them, -/
  groupOf?_iff : ∀ id g, index.groupOf? name id = some g ↔ g ∈ index.groups name ∧ g.id = id
  /-- and the first one of the id that the tiers offer. -/
  groupOf?_first : ∃ tiers, Tier.InOrder (index.tiersOf name) tiers ∧
    ∀ id, index.groupOf? name id =
      (tiers.flatMap fun t => t.unlocks.flatMap (Group.ofUnlock name t.level)).find?
        fun g => g.id = id
  /-- The group of an item is the first one that lists it, -/
  listing_iff : ∀ item g, index.groupListing? name item = some g ↔
    ∃ before after, index.groups name = before ++ g :: after ∧ item ∈ g.items ∧
      ∀ g' ∈ before, item ∉ g'.items
  /-- and of least level. -/
  listing_least : ∀ item g, index.groupListing? name item = some g →
    ∀ g' ∈ index.groups name, item ∈ g'.items → g.level ≤ g'.level
  listing_none : ∀ item, index.groupListing? name item = none ↔
    ∀ g ∈ index.groups name, item ∉ g.items
  /-- Unlocks up to a level split at each lower level. -/
  unlocks_split : ∀ o t : Int, o ≤ t → index.unlocks name none (some t) =
    index.unlocks name none (some o) ++ index.unlocks name (some o) (some t)

omit [Number ν] in
theorem listing_eq_some_iff {index : Index ν} {name item : Text} {g : Group ν} :
    index.groupListing? name item = some g ↔
      ∃ before after, index.groups name = before ++ g :: after ∧ item ∈ g.items ∧
        ∀ g' ∈ before, item ∉ g'.items := by
  simp only [groupListing?, List.find?_eq_some_iff_append, Bool.not_eq_true', ← Bool.not_eq_true,
    List.contains_iff_mem]
  constructor
  · rintro ⟨hitem, before, after, hgroups, hbefore⟩
    exact ⟨before, after, hgroups, hitem, hbefore⟩
  · rintro ⟨before, after, hgroups, hitem, hbefore⟩
    exact ⟨hitem, before, after, hgroups, hbefore⟩

theorem coherentAt (index : Index ν) (name : Text) : index.CoherentAt name where
  ascending := index.ascending_groups name
  ids_nodup := by
    refine List.pairwise_map.mpr ((index.groups_pairwise name).imp fun h => ?_)
    simpa using h
  groupOf?_iff := by
    refine fun id g => ⟨index.mem_of_groupOf?, ?_⟩
    rintro ⟨hg, rfl⟩
    exact index.groupOf?_of_mem hg
  groupOf?_first := by
    refine ⟨_, Tier.inOrder_sort _, fun id => ?_⟩
    rw [groupOf?, groups_eq, Group.find?_firsts]
  listing_iff := fun item g => listing_eq_some_iff
  listing_least := by
    intro item g hlisting g' hg' hitem
    obtain ⟨before, after, hgroups, _, hbefore⟩ := listing_eq_some_iff.mp hlisting
    have hascending := index.ascending_groups name
    rw [hgroups] at hascending hg'
    -- no group before the first one lists the item, and what follows has no lower level
    rcases List.mem_append.mp hg' with hg' | hg'
    · exact absurd hitem (hbefore g' hg')
    rcases List.mem_cons.mp hg' with rfl | hg'
    · exact Int.le_refl _
    · exact (List.pairwise_cons.mp (List.pairwise_append.mp hascending).2.1).1 g' hg'
  listing_none := by
    intro item
    simp [groupListing?]
  unlocks_split := fun o t hot => index.unlocks_eq_append name hot

/-- **The look-ups of an index agree.** Every catalog has an index, its look-ups fit together at
each source, and the ids above a level are those by which a group is found that opens above it. -/
theorem make_coherent (catalog : Catalog ν) :
    ∃ index, (make catalog).outcome = .ok index ∧ index.catalog = catalog ∧
      (∀ name, index.CoherentAt name) ∧
      ∀ (level : Level ν) id, id ∈ index.idsAbove level ↔
        ∃ name g, index.groupOf? name id = some g ∧ level < (g.level : Level ν) := by
  refine ⟨_, rfl, rfl, coherentAt _, fun level id => ?_⟩
  simp only [idsAbove, List.mem_map, List.mem_filter, decide_eq_true_eq]
  constructor
  · rintro ⟨g, ⟨hg, hlevel⟩, rfl⟩
    obtain ⟨name, _, hg⟩ := (mem_allGroups _).mp hg
    exact ⟨name, g, groupOf?_of_mem _ hg, hlevel⟩
  · rintro ⟨name, g, hg, hlevel⟩
    obtain ⟨hmem, hid⟩ := mem_of_groupOf? _ hg
    exact ⟨g, ⟨(mem_allGroups _).mpr ⟨name, mem_sourceList_of_groupOf? _ hg, hmem⟩, hlevel⟩, hid⟩

end Index

end CharacterBuild
