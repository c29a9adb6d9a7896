import CharacterBuild.Proofs.Lookups
import CharacterBuild.Proofs.Omission

set_option autoImplicit false

/-! # The order of tiers in a document

The tiers of a source are sorted by their levels once they are read. So if those that can be read
have different levels, a source may list its tiers in any order: it comes to the same source, and a
catalog with this source comes to the same index (`Source.read_reordered`). Only where reading stops
at a fault that no reader skips, the order decides which one of several faults that is; such
outcomes are not told apart here (`Agree`).
-/

namespace CharacterBuild

variable {ν α β : Type}

/-! ## Outcomes that agree -/

/-- Two outcomes are the same, or both are faults that no reader skips. -/
inductive Agree : Except (Fault ν) α → Except (Fault ν) α → Prop where
  | same (o : Except (Fault ν) α) : Agree o o
  | stopped {fault fault' : Fault ν} (h : fault.isSkipped = false) (h' : fault'.isSkipped = false) :
      Agree (.error fault) (.error fault')

theorem Agree.eq_ok_iff {o o' : Except (Fault ν) α} (h : Agree o o') {a : α} :
    o = .ok a ↔ o' = .ok a := by
  cases h with
  | same => exact Iff.rfl
  | stopped => exact ⟨nofun, nofun⟩

theorem Agree.bind {x x' : Except (Fault ν) α} (h : Agree x x') (f : α → Except (Fault ν) β) :
    Agree (x >>= f) (x' >>= f) := by
  cases h with
  | same => exact .same _
  | stopped h h' => exact .stopped h h'

/-- What a reader keeps if it skips every fault. -/
theorem keepRead_of_skipped {os : List (Except (Fault ν) α)}
    (h : ∀ fault, .error fault ∈ os → fault.isSkipped = true) :
    keepRead os = .ok (os.filterMap Except.toOption) := by
  induction os with
  | nil => rfl
  | cons o rest ih =>
      have hrest := ih fun fault hfault => h fault (List.mem_cons_of_mem _ hfault)
      cases o with
      | ok a => rw [keepRead_ok, hrest]; rfl
      | error fault => rw [keepRead_skipped (h fault (List.mem_cons_self ..)), hrest]; rfl

/-- A reader stops at a fault that it does not skip, or at an earlier one. -/
theorem keepRead_of_not_skipped {os : List (Except (Fault ν) α)} {fault : Fault ν}
    (h : .error fault ∈ os) (hs : fault.isSkipped = false) :
    ∃ first : Fault ν, first.isSkipped = false ∧ keepRead os = .error first := by
  induction os with
  | nil => cases h
  | cons o rest ih =>
      cases o with
      | ok a =>
          obtain ⟨first, hfirst, hrest⟩ := ih (by simpa using h)
          exact ⟨first, hfirst, by rw [keepRead_ok, hrest]; rfl⟩
      | error fault' =>
          cases hs' : fault'.isSkipped with
          | false => exact ⟨fault', hs', keepRead_fault hs'⟩
          | true =>
              have hne : fault ≠ fault' := by
                rintro rfl
                rw [hs] at hs'
                cases hs'
              obtain ⟨first, hfirst, hrest⟩ := ih (by simpa [hne] using h)
              exact ⟨first, hfirst, by rw [keepRead_skipped hs', hrest]⟩

theorem exists_not_skipped {os : List (Except (Fault ν) α)}
    (h : ¬ ∀ fault, .error fault ∈ os → fault.isSkipped = true) :
    ∃ fault : Fault ν, .error fault ∈ os ∧ fault.isSkipped = false := by
  simpa using h

/-- One entry that agrees with another one in its place. -/
theorem Agree.keepRead {o o' : Except (Fault ν) α} (h : Agree o o')
    (before after : List (Except (Fault ν) α)) :
    Agree (keepRead (before ++ o :: after)) (keepRead (before ++ o' :: after)) := by
  cases h with
  | same => exact .same _
  | @stopped fault fault' h h' =>
      have hmem : ∀ f : Fault ν, Except.error f ∈ before ++ .error f :: after :=
        fun f => List.mem_append_right _ (List.mem_cons_self ..)
      obtain ⟨first, hfirst, hread⟩ := keepRead_of_not_skipped (hmem fault) h
      obtain ⟨first', hfirst', hread'⟩ := keepRead_of_not_skipped (hmem fault') h'
      rw [hread, hread']
      exact .stopped hfirst hfirst'

/-! ## Tiers of different levels -/

namespace Tier

variable {tiers tiers' : List (Tier ν)}

/-- Tiers of different levels stand in strictly ascending order once they are sorted. -/
theorem strict_sort (hdistinct : (tiers.map level).Nodup) :
    (sort tiers).Pairwise fun a b => a.level < b.level := by
  have hsorted : ((sort tiers).map level).Nodup :=
    ((List.mergeSort_perm tiers _).map level).nodup_iff.mpr hdistinct
  refine ((ascending_sort tiers).and (List.pairwise_map.mp hsorted)).imp fun h => ?_
  obtain ⟨hle, hne⟩ := h
  omega

/-- **Tiers of different levels are put in the same order, however they are listed.** -/
theorem sort_eq_of_perm (hdistinct : (tiers.map level).Nodup) (hperm : tiers.Perm tiers') :
    sort tiers = sort tiers' := by
  have hdistinct' : (tiers'.map level).Nodup := (hperm.map level).nodup_iff.mp hdistinct
  have hsorted : (sort tiers).Perm (sort tiers') :=
    ((List.mergeSort_perm tiers _).trans hperm).trans (List.mergeSort_perm tiers' _).symm
  refine List.Perm.eq_of_pairwise (fun a b _ _ hab hba => ?_) (strict_sort hdistinct)
    (strict_sort hdistinct') hsorted
  omega

/-- Sorting what is read of some entries agrees for each order in which they are listed. -/
theorem agree_sort {read : α → Except (Fault ν) (Tier ν)} {l l' : List α} (hperm : l.Perm l')
    (hdistinct : ((l.filterMap fun a => (read a).toOption).map level).Nodup) :
    Agree ((keepRead (l.map read)).map sort) ((keepRead (l'.map read)).map sort) := by
  have hread : (l.map read).Perm (l'.map read) := hperm.map read
  by_cases hall : ∀ fault, .error fault ∈ l.map read → fault.isSkipped = true
  · have hall' : ∀ fault, .error fault ∈ l'.map read → fault.isSkipped = true :=
      fun fault hfault => hall fault (hread.mem_iff.mpr hfault)
    rw [keepRead_of_skipped hall, keepRead_of_skipped hall']
    have hsort := sort_eq_of_perm (by rwa [List.filterMap_map]) (hread.filterMap Except.toOption)
    show Agree (.ok (sort _)) (.ok (sort _))
    rw [hsort]
    exact .same _
  · obtain ⟨fault, hfault, hs⟩ := exists_not_skipped hall
    obtain ⟨first, hfirst, hstop⟩ := keepRead_of_not_skipped hfault hs
    obtain ⟨first', hfirst', hstop'⟩ := keepRead_of_not_skipped (hread.mem_iff.mp hfault) hs
    rw [hstop, hstop']
    exact .stopped hfirst hfirst'

end Tier

/-! ## Sources and catalogs -/

variable [Number ν]

/-- What comes of the policy that a source names. -/
def Source.readPolicy (ms : Members ν) : Except (Fault ν) (Option RepeatPolicy) :=
  let policy := Value.memberOrNull "reselectPolicy" ms
  if policy.isTrue then (policy.word RepeatPolicy.words).map some else .ok none

/-- What comes of a source whose tiers are listed. -/
theorem Source.outcome_read_listed (name : Text) {ms : Members ν} {l : List (Value ν)}
    (hl : Value.lookup "levels" ms = some (.list l)) :
    (Source.read name (.object ms)).outcome = (do
      let origin ← ((Value.lookup "origin" ms).getD (.text Origin.primary.name)).word Origin.words
      let tiers ← (keepRead (l.map fun v => (Tier.read name v).outcome)).map Tier.sort
      let repeatPolicy ← readPolicy ms
      .ok {
        key := ⟨name, origin⟩
        name := Value.textOr "name" "" ms
        description := Value.textOr "description" "" ms
        tiers := tiers
        repeatPolicy := repeatPolicy }) := by
  unfold Source.read
  simp only [Value.members, Traced.outcome_bind, Traced.outcome_readEach, Traced.outcome_lift,
    Traced.outcome_pure, Except.bind, Value.elementsOf_of_list hl]
  cases ((Value.lookup "origin" ms).getD (.text Origin.primary.name)).word Origin.words with
  | error fault => rfl
  | ok origin =>
      dsimp only
      cases keepRead (l.map fun v => (Tier.read name v).outcome) <;> rfl

/-- The tiers of a source that can be read have different levels. -/
def Source.LevelsDiffer (name : Text) (l : List (Value ν)) : Prop :=
  ((l.filterMap fun v => (Tier.read name v).outcome.toOption).map Tier.level).Nodup

/-- A source with its tiers listed in another order. -/
theorem Source.agree_read (name : Text) {source : Value ν} {l l' : List (Value ν)}
    (hlevels : source.part? (.member "levels") = some (.list l)) (hperm : l.Perm l')
    (hdiffer : Source.LevelsDiffer name l) :
    Agree (Source.read name source).outcome
      (Source.read name (source.alterPart (fun _ => .list l') (.member "levels"))).outcome := by
  obtain ⟨ms, rfl, hl⟩ := Value.exists_object_of_part? hlevels
  have hl' : Value.lookup "levels" (Value.alterMember "levels" (fun _ => .list l') ms)
      = some (.list l') := by rw [Value.lookup_alterMember, hl]; rfl
  have hothers : ∀ other : Text, other ≠ "levels" → Value.lookup other
      (Value.alterMember "levels" (fun _ => .list l') ms) = Value.lookup other ms :=
    fun other hne => Value.lookup_alterMember_ne hne ms
  show Agree _ (Source.read name (.object _)).outcome
  rw [outcome_read_listed name hl, outcome_read_listed name hl']
  -- all that differs is the list of the tiers
  unfold readPolicy Value.memberOrNull Value.textOr
  rw [hothers "origin" (by decide), hothers "reselectPolicy" (by decide),
    hothers "name" (by decide), hothers "description" (by decide)]
  cases ((Value.lookup "origin" ms).getD (.text Origin.primary.name)).word Origin.words with
  | error fault => exact .same _
  | ok origin => exact (Tier.agree_sort hperm hdiffer).bind _

/-- The tiers of a source stand in strictly ascending order if their levels are different. -/
theorem Source.strict_tiers {name : Text} {raw : Value ν} {l : List (Value ν)} {source : Source ν}
    (hlevels : raw.part? (.member "levels") = some (.list l))
    (hdiffer : Source.LevelsDiffer name l) (h : (Source.read name raw).outcome = .ok source) :
    source.tiers.Pairwise fun a b => a.level < b.level := by
  obtain ⟨ms, rfl, hl⟩ := Value.exists_object_of_part? hlevels
  rw [outcome_read_listed name hl] at h
  obtain ⟨origin, _, h⟩ := except_bind_eq_ok.mp h
  obtain ⟨tiers, htiers, h⟩ := except_bind_eq_ok.mp h
  obtain ⟨policy, _, h⟩ := except_bind_eq_ok.mp h
  obtain rfl := Except.ok.inj h
  obtain ⟨read, hread, rfl⟩ := except_map_eq_ok.mp htiers
  -- what is read without a fault is what can be read
  by_cases hall : ∀ fault, .error fault ∈ l.map (fun v => (Tier.read name v).outcome) →
      fault.isSkipped = true
  · rw [keepRead_of_skipped hall, List.filterMap_map] at hread
    obtain rfl := Except.ok.inj hread
    exact Tier.strict_sort hdiffer
  · obtain ⟨fault, hfault, hs⟩ := exists_not_skipped hall
    obtain ⟨first, _, hstop⟩ := keepRead_of_not_skipped hfault hs
    rw [hstop] at hread
    cases hread

/-- A catalog in which one source is changed, if what comes of the source agrees. -/
theorem Catalog.agree_read {raw source : Value ν} {name : Text} {f : Value ν → Value ν}
    {path : List Value.Step} (hsource : raw.at? [.member "sources", .member name] = some source)
    (h : Agree (Source.readMember (name, source)) (Source.readMember (name, source.alter f path))) :
    Agree (Catalog.read raw).outcome
      (Catalog.read (raw.alter f (.member "sources" :: .member name :: path))).outcome := by
  obtain ⟨sources, hsources, hsource⟩ := Value.at?_cons_eq_some.mp hsource
  obtain ⟨_, hpart, hend⟩ := Value.at?_cons_eq_some.mp hsource
  obtain rfl := Option.some.inj hend
  obtain ⟨ms, rfl, _⟩ := Value.exists_object_of_part? hsources
  obtain ⟨entries, rfl, hfound⟩ := Value.exists_object_of_part? hpart
  show Agree _ (Catalog.read (.object _)).outcome
  rw [outcome_read, outcome_read, Value.memberOrNull_alterMember hsources,
    Value.memberOrNull_alterMember_ne (by decide), Value.memberOrNull_of_part? hsources]
  refine Agree.bind ?_ _
  obtain ⟨before, after, hentries, halter, _⟩ :=
    Value.exists_of_lookup (f := Value.alter f path) hfound
  show Agree (keepRead (entries.map _))
    (keepRead ((Value.alterMember name (Value.alter f path) entries).map _))
  rw [halter, hentries, List.map_append, List.map_append, List.map_cons, List.map_cons]
  exact h.keepRead _ _

/-- **The order of tiers in a document does not matter**, if those that can be read have different
levels. With its tiers listed in another order, a source comes to the same source, with its tiers in
strictly ascending order; a catalog with this source comes to the same catalog and the same
index. -/
theorem Source.read_reordered (name : Text) (raw : Value ν) {l l' : List (Value ν)}
    (hlevels : raw.part? (.member "levels") = some (.list l)) (hperm : l.Perm l')
    (hdiffer : Source.LevelsDiffer name l) :
    (∀ source, (Source.read name raw).outcome = .ok source ↔
      (Source.read name (raw.alterPart (fun _ => .list l') (.member "levels"))).outcome
        = .ok source) ∧
    (∀ source, (Source.read name raw).outcome = .ok source →
      source.tiers.Pairwise fun a b => a.level < b.level) ∧
    ∀ tree : Value ν, tree.at? [.member "sources", .member name] = some raw →
      let tree' := tree.alter (fun _ => .list l')
        [.member "sources", .member name, .member "levels"]
      (∀ catalog, (Catalog.read tree).outcome = .ok catalog ↔
        (Catalog.read tree').outcome = .ok catalog) ∧
      ∀ index, (Catalog.read tree >>= Index.make).outcome = .ok index ↔
        (Catalog.read tree' >>= Index.make).outcome = .ok index := by
  have hagree := Source.agree_read name hlevels hperm hdiffer
  refine ⟨fun source => hagree.eq_ok_iff, fun source h => strict_tiers hlevels hdiffer h,
    fun tree htree => ?_⟩
  -- a source among others is read as it is alone
  have hmember : Agree (Source.readMember (name, raw))
      (Source.readMember (name, raw.alter (fun _ => .list l') [.member "levels"])) := by
    obtain ⟨ms, rfl, _⟩ := Value.exists_object_of_part? hlevels
    exact hagree
  have hcatalog := Catalog.agree_read htree hmember
  refine ⟨fun catalog => hcatalog.eq_ok_iff, fun index => ?_⟩
  rw [Traced.outcome_bind, Traced.outcome_bind]
  exact (hcatalog.bind _).eq_ok_iff

/-- Two tiers out of order, whose levels are no whole numbers as they stand, and what is no tier. -/
def scatteredTiers : List (Value Double) :=
  [.object [("level", .text "5")], .null, .object [("level", .bool true)]]

/-- A source with given tiers. -/
def tieredSource (l : List (Value Double)) : Value Double := .object [("levels", .list l)]

theorem Source.read_reordered_scatteredTiers :
    let tree (l : List (Value Double)) : Value Double :=
      .object [("sources", .object [("A", tieredSource l)])]
    (∃ source, (Source.read "A" (tieredSource scatteredTiers)).outcome = .ok source ∧
      (Source.read "A" (tieredSource scatteredTiers.reverse)).outcome = .ok source ∧
      source.tiers.Pairwise fun a b => a.level < b.level) ∧
    ∃ index, (Catalog.read (tree scatteredTiers) >>= Index.make).outcome = .ok index ∧
      (Catalog.read (tree scatteredTiers.reverse) >>= Index.make).outcome = .ok index := by
  intro tree
  have hdiffer : Source.LevelsDiffer "A" scatteredTiers := by
    have hlevels : (scatteredTiers.filterMap fun v => (Tier.read "A" v).outcome.toOption).map
        Tier.level = [5, 1] := by decide +kernel
    unfold Source.LevelsDiffer
    rw [hlevels]
    decide
  obtain ⟨hsame, hstrict, htree⟩ := Source.read_reordered "A" (tieredSource scatteredTiers) rfl
    (List.reverse_perm _).symm hdiffer
  obtain ⟨source, hsource⟩ := except_eq_ok_of_toBool
    (x := (Source.read "A" (tieredSource scatteredTiers)).outcome) (by decide +kernel)
  obtain ⟨index, hindex⟩ := except_eq_ok_of_toBool
    (x := (Catalog.read (tree scatteredTiers) >>= Index.make).outcome) (by decide +kernel)
  exact ⟨⟨source, hsource, (hsame source).mp hsource, hstrict source hsource⟩,
    index, hindex, ((htree (tree scatteredTiers) rfl).2 index).mp hindex⟩

end CharacterBuild
