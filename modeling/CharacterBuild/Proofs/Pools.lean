import CharacterBuild.Proofs.Lowering

set_option autoImplicit false

/-! # Whose selections a pool counts

A pool finds its selections by the bare ids of its groups. The rules ask for its balance over all
selections of the build, the completion of a source only over those made from that source. Both
count the same selections exactly if no other source has a selection in a group of such an id, and
then the two balances are the same (`Guided.balances_agree`).

A selection's source is compared by its key when it is sorted out, so what is needed beside is
that the keys of sources are those that the catalog has under their names. Calls that name
sources keep it so (`Guided.keyed_after`).
-/

namespace CharacterBuild

variable {ν : Type} [Number ν]

/-! ## What counts -/

/-- Whether a selection stands in a group of a pool, going by the id of the group. -/
def PointBuy.counts (unlock : PointBuy ν) (x : Selection ν) : Bool :=
  (unlock.group? x.group).isSome

/-- Elements that leave the value of a fold as it is may be left out. -/
theorem foldlM_filter_of_neutral {m : Type → Type} [Monad m] [LawfulMonad m] {α β : Type}
    {f : β → α → m β} {p : α → Bool} (hf : ∀ b a, p a = false → f b a = pure b) (l : List α)
    (b : β) : (l.filter p).foldlM f b = l.foldlM f b := by
  induction l generalizing b with
  | nil => rfl
  | cons a rest ih =>
      cases ha : p a with
      | true =>
          rw [List.filter_cons_of_pos ha, List.foldlM_cons, List.foldlM_cons]
          exact bind_congr fun c => ih c
      | false =>
          rw [List.filter_cons_of_neg (by simp [ha]), List.foldlM_cons, hf b a ha, pure_bind]
          exact ih b

/-- **A balance is that of the selections which count.** -/
theorem Balance.ofSelections_filter (catalog : Catalog ν) (unlock : PointBuy ν)
    (selections : List (Selection ν)) :
    ofSelections catalog unlock (selections.filter unlock.counts)
      = ofSelections catalog unlock selections := by
  have hneutral : ∀ current x, unlock.counts x = false →
      afterSelection catalog unlock current x = pure current := by
    intro current x hx
    have hnone : unlock.group? x.group = none := by simpa [PointBuy.counts] using hx
    unfold afterSelection
    rw [hnone]
  unfold ofSelections
  dsimp only
  rw [foldlM_filter_of_neutral hneutral]

/-! ## Keys of sources -/

/-- Every selection's source has the key that the catalog has under its name. -/
def Build.Keyed (index : Index ν) (s : Build ν) : Prop :=
  ∀ x ∈ s.selections, x.source = index.keyOf x.source.name

variable {index : Index ν} {config : Config} {scope : Scope ν} {s s' : Build ν}

theorem Build.Keyed.edit (h : s.Keyed index)
    (hputs : ∀ item x, scope.puts item x → x.source = index.keyOf x.source.name)
    (hedit : s.Edit index config scope s') : s'.Keyed index := by
  refine hedit.forall_mem h ?_ ?_
  · intro item x g others _ _ _ _ _ hput
    exact hputs item x hput
  · intro x y hx _ hplace _ _
    rw [hplace.source]
    exact hx

theorem Build.Keyed.restoration {restored : Selection ν → Prop} {level : Level ν}
    (h : s.Keyed index) (hrestored : ∀ y, restored y → y.source = index.keyOf y.source.name)
    (hr : s.Restoration config restored level s') : s'.Keyed index := by
  obtain ⟨settled, hselections, _, hfrom⟩ := hr.selections
  intro x hx
  rw [hselections] at hx
  rcases List.mem_append.mp hx with hx | hx
  · exact h x hx
  · obtain ⟨y, hy, rfl⟩ := hfrom x hx
    exact hrestored y hy

omit [Number ν] in
theorem Traced.outcome_orSkip_eq_ok {α : Type} {x : Traced ν α} {onFault : Fault ν → Traced ν α}
    {a : α} (h : (x.orSkip onFault).outcome = .ok a) :
    x.outcome = .ok a ∨ ∃ fault, (onFault fault).outcome = .ok a := by
  unfold orSkip at h
  split at h
  · exact Or.inl h
  · rename_i fault hfault
    split at h
    · exact Or.inr ⟨fault, h⟩
    · exact Or.inl h

/-- A saved selection is read with the key that its source is known by. -/
theorem Selection.keyed_of_read {raw : Value ν} {x : Selection ν}
    (h : (read index.catalog raw).outcome = .ok (some x)) :
    x.source = index.keyOf x.source.name := by
  unfold read at h
  split at h
  · obtain ⟨_, _, h⟩ := Traced.outcome_bind_eq_ok.mp h
    cases h
  · rename_i id source ms hraw
    -- whatever the quantity is, what is read has the key that was found before
    have hread : ∀ {build : Option Int → Option (Selection ν)},
        ((build <$> Traced.lift (Value.memberOrNull "quantity" ms).toWhole?).orSkip fun fault => do
          Traced.note (.selectionQuantityBad id.str fault)
          pure none).outcome = .ok (some x) → ∃ quantity, build quantity = some x := by
      intro build h
      rcases Traced.outcome_orSkip_eq_ok h with h | ⟨fault, h⟩
      · rw [Traced.outcome_map] at h
        obtain ⟨quantity, _, h⟩ := except_map_eq_ok.mp h
        exact ⟨quantity, h⟩
      · obtain ⟨_, _, h⟩ := Traced.outcome_bind_eq_ok.mp h
        cases h
    have hname : index.source? source.str = index.catalog.source? source.str := rfl
    have hkey : ∀ key, key = index.keyOf source.str → key = index.keyOf key.name := by
      rintro key rfl
      rw [index.keyOf_name]
    dsimp only at h
    cases hfound : index.catalog.source? source.str with
    | some definition =>
        rw [hfound] at h
        obtain ⟨key, hfixed, h⟩ := Traced.outcome_bind_eq_ok.mp h
        obtain rfl := Except.ok.inj hfixed
        obtain ⟨quantity, h⟩ := hread h
        obtain rfl := Option.some.inj h
        refine hkey _ ?_
        unfold Index.keyOf
        rw [hname, hfound]
    | none =>
        rw [hfound] at h
        obtain ⟨_, _, h⟩ := Traced.outcome_bind_eq_ok.mp h
        obtain ⟨key, hfixed, h⟩ := Traced.outcome_bind_eq_ok.mp h
        obtain rfl := Except.ok.inj hfixed
        obtain ⟨quantity, h⟩ := hread h
        obtain rfl := Option.some.inj h
        refine hkey _ ?_
        unfold Index.keyOf
        rw [hname, hfound]

theorem SavedSelection.keyed_of_resolveAll {selections : List (SavedSelection ν)}
    {saved : List (Selection ν)} (hsaved : ∀ y ∈ selections, ∃ raw, y = .saved raw)
    (h : (resolveAll index.catalog selections).outcome = .ok saved) :
    ∀ x ∈ saved, x.source = index.keyOf x.source.name := by
  induction selections generalizing saved with
  | nil =>
      obtain rfl := Except.ok.inj h
      nofun
  | cons y rest ih =>
      obtain ⟨raw, rfl⟩ := hsaved y (by simp)
      obtain ⟨read, hread, h⟩ := Traced.outcome_bind_eq_ok.mp h
      obtain ⟨others, hothers, h⟩ := Traced.outcome_bind_eq_ok.mp h
      obtain rfl := Except.ok.inj h
      intro x hx
      rcases List.mem_append.mp hx with hx | hx
      · obtain rfl := Option.mem_toList.mp hx
        exact Selection.keyed_of_read hread
      · exact ih (fun z hz => hsaved z (by simp [hz])) hothers x hx

namespace Guided

/-- A call that names the sources it selects from, and restores selections from their saved
form. -/
def Call.NamesSources : Call ν → Prop
  | .select _ source _ _ => ∃ name, source = .named name
  | .selectAllForced source => ∃ name, source = .named name
  | .restore selections _ => ∀ y ∈ selections, ∃ raw, y = .saved raw
  | _ => True

omit [Number ν] in
theorem Call.NamesSources.of_puts {c : Call ν} (h : c.NamesSources) {item : Item ν}
    {x : Selection ν} (hputs : (c.scope index).puts item x) :
    x.source = index.keyOf x.source.name := by
  have hsource : ∀ name key, ((SourceMention.named name).resolve index).outcome = .ok key →
      x.source = key → x.source = index.keyOf x.source.name := by
    intro name key hkey hx
    rw [Index.resolve_named] at hkey
    obtain rfl := Except.ok.inj hkey
    rw [hx, index.keyOf_name]
  cases c with
  | select mention source group payload =>
      obtain ⟨name, rfl⟩ := h
      obtain ⟨key, _, hkey, _, hx, _⟩ := hputs
      exact hsource name key hkey hx
  | selectAllForced source =>
      obtain ⟨name, rfl⟩ := h
      obtain ⟨key, _, _, hkey, _, _, hx, _⟩ := hputs
      exact hsource name key hkey hx
  | _ => exact hputs.elim

/-- The contract of sessions whose calls name sources. -/
def keyedStates (index : Index ν) (config : Config) : Contract ν where
  index := index
  config := config
  holds := fun s _ => s.Keyed index

theorem keyedStates_allows {c : Call ν} (hc : c.NamesSources) :
    (keyedStates index config).Allows c := by
  intro s changed s' hs heffect
  suffices h : s'.Keyed index from ⟨h, fun _ _ _ _ => h⟩
  cases heffect with
  | edit hedit => exact Build.Keyed.edit hs (fun _ _ hputs => hc.of_puts hputs) hedit
  | restore hchanged hsaved hlevel hr =>
      exact Build.Keyed.restoration hs
        (fun y hy => SavedSelection.keyed_of_resolveAll hc hsaved y hy) hr

/-- **Sources stay keyed by their names** through all calls that name them. -/
theorem keyed_after {catalog : Catalog ν} {s₀ : Session ν (Call ν)}
    (hs₀ : (newBuild catalog config).outcome = .ok s₀) {calls : List (Call ν)}
    (hcalls : ∀ c ∈ calls, c.NamesSources) :
    (keyedStates s₀.index config).Meets (after s₀ calls) := by
  refine (turns_keep (C := keyedStates s₀.index config) (.of_all fun _ => trivial)
    (fun c hc => keyedStates_allows (hcalls c hc)) (fun _ _ _ _ => trivial) ?_
    fun _ _ _ _ => trivial).1
  obtain rfl := Except.ok.inj hs₀
  exact ⟨rfl, rfl, rfl, nofun⟩

end Guided

/-! ## A catalog with a pool -/

/-- An item that costs one point and may be held as often as one likes. -/
def pricedItem (id : Text) : Item ν where
  id := id
  itemType := "ability"
  name := id
  description := ""
  weight := Number.ofNumeral (.decimal false 1 0)
  stackable := true
  options := []
  givenLimit := none
  properties := .empty

/-- A pool of three points that are spent on the item `x`, in a group `g`. -/
def threePoints : PointBuy ν where
  id := "pool"
  name := "Pool"
  pool := ⟨"points", "Points", Number.ofNumeral (.decimal false 3 0)⟩
  groups := [⟨"g", "g", ["x"], .spend, .null, none⟩]

/-- A source with this pool. -/
def pointSource (name : Text) : Source ν where
  key := ⟨name, .primary⟩
  name := name
  description := ""
  tiers := [⟨1, [.pointBuy threePoints]⟩]
  repeatPolicy := none

/-- A source that offers the item in a group `g` of its own, and one with the pool. -/
def pooledGroups : Catalog Double :=
  ((Catalog.addSource {} (plainSource "A" 1)).addSource (pointSource "P")).addItem (pricedItem "x")

/-! ## Two balances -/

namespace Guided

/-- A new build from the source with the group and the one with the pool. -/
def pooledStart : Session Double (Call Double) where
  index := { catalog := pooledGroups }
  config := {}
  state := { targetLevel := .whole 1 }

/-- **The two balances of a pool.** In every build that a guided session reaches by calls that
name sources, the balance of a pool over all selections and the one over the selections of a
source count the same selections exactly if those of the pool's groups, by their ids, are all from
that source; and then the two balances are the same. -/
theorem balances_agree {catalog : Catalog ν} {s₀ : Session ν (Call ν)}
    (hs₀ : (newBuild catalog config).outcome = .ok s₀) {calls : List (Call ν)}
    (hcalls : ∀ c ∈ calls, c.NamesSources) (source : Text) (unlock : PointBuy ν) :
    let s := after s₀ calls
    let own := s.state.selectionsOf (s.index.keyOf source)
    (s.state.selections.filter unlock.counts = own.filter unlock.counts ↔
      ∀ x ∈ s.state.selections, unlock.counts x = true → x.source.name = source) ∧
    ((∀ x ∈ s.state.selections, unlock.counts x = true → x.source.name = source) →
      balanceOf s unlock = Balance.ofSelections s.index.catalog unlock own ∧
      ∀ level, Completeness.unlockIssue s.index source s.state.selections (level, .pointBuy unlock)
        = Completeness.unlockIssue s.index source own (level, .pointBuy unlock)) := by
  intro s own
  have hmeets := keyed_after hs₀ hcalls
  have hkeyed : s.state.Keyed s.index := by
    rw [hmeets.index]
    exact hmeets.holds
  -- with the keys as their names say, the own selections are those whose source has the name
  have hown : ∀ x ∈ s.state.selections,
      (decide (x.source = s.index.keyOf source) = true ↔ x.source.name = source) := by
    intro x hx
    rw [decide_eq_true_eq]
    refine ⟨fun h => ?_, fun h => ?_⟩
    · rw [h, s.index.keyOf_name]
    · rw [hkeyed x hx, h]
  have hcount : s.state.selections.filter unlock.counts = own.filter unlock.counts ↔
      ∀ x ∈ s.state.selections, unlock.counts x = true → x.source.name = source := by
    show _ = (s.state.selections.filter _).filter unlock.counts ↔ _
    rw [List.filter_filter, filter_eq_filter_iff]
    refine forall_congr' fun x => forall_congr' fun hx => ?_
    rw [← hown x hx]
    cases unlock.counts x <;> simp
  refine ⟨hcount, fun honly => ?_⟩
  have hbalance : Balance.ofSelections s.index.catalog unlock s.state.selections
      = Balance.ofSelections s.index.catalog unlock own := by
    rw [← Balance.ofSelections_filter, hcount.mpr honly, Balance.ofSelections_filter]
  refine ⟨hbalance, fun level => ?_⟩
  unfold Completeness.unlockIssue
  dsimp only
  rw [hbalance]

/-- The item is selected from the one source: the balance over all selections counts it for the
pool of the other source, whose own selections are none. Selected from that source, it is counted
by both balances, which are then the same. -/
theorem balances_agree_pooledGroups :
    let s := after pooledStart [.select (.named "x") (.named "A") (.text "g") .null]
    let s' := after pooledStart [.select (.named "x") (.named "P") (.text "g") .null]
    s.state.selections.filter threePoints.counts
        ≠ (s.state.selectionsOf (s.index.keyOf "P")).filter threePoints.counts ∧
      balanceOf s' threePoints = Balance.ofSelections s'.index.catalog threePoints
        (s'.state.selectionsOf (s'.index.keyOf "P")) := by
  intro s s'
  have hstart : (newBuild pooledGroups {}).outcome = .ok pooledStart := rfl
  have hcalls : ∀ name : Text, ∀ c ∈ ([.select (.named "x") (.named name) (.text "g") .null] :
      List (Call Double)), c.NamesSources := by
    intro name c hc
    obtain rfl := List.mem_singleton.mp hc
    exact ⟨name, rfl⟩
  constructor
  · intro hsame
    have honly := (balances_agree hstart (hcalls "A") "P" threePoints).1.mp hsame
    revert honly
    decide +kernel
  · exact ((balances_agree hstart (hcalls "P") "P" threePoints).2 (by decide +kernel)).1

end Guided

end CharacterBuild
