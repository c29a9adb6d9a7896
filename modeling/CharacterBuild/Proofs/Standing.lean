import CharacterBuild.Proofs.Checking
import CharacterBuild.Proofs.Created

set_option autoImplicit false

/-! # Selections that could be made again

A selection that is not settled got into the build by a request, so at some time there was room for
it. It stays that way: nothing that a call does takes its group away, fills the group beyond its
limit or leaves it held in a way that its item does not allow. `Selection.Stands` says so of one
selection and `Build.Standing` of all that are not settled; each edit keeps it
(`Build.Standing.edit`), so calls by names do, one after another (`Guided.standing_after`).
-/

namespace CharacterBuild

variable {ν : Type} [Number ν]

/-- **A selection that could be made as it stands**: it is held as its item allows, and the group
that it names takes the item and holds no more than it may. -/
structure Selection.Stands (index : Index ν) (s : Build ν) (x : Selection ν) : Prop where
  held : ∀ item, index.item? x.id = some item → item.Holds x
  taken : ∀ item g, index.item? x.id = some item →
    index.groupNamed x.source.name x.group = .ok (some g) → s.Takes item g
  room : ∀ g limit, index.groupNamed x.source.name x.group = .ok (some g) →
    g.limit = some limit → (s.membersOf x.source g.id).length ≤ limit

/-- A build that selects each item once, and could select each again that is not settled. -/
structure Build.Standing (index : Index ν) (s : Build ν) (changed : Bool) : Prop where
  distinct : (s.selections.map Selection.id).Nodup
  stands : ∀ x ∈ s.selections, x.locked = false → x.Stands index s
  fresh : changed = false → s.selections = []

variable {index : Index ν} {config : Config} {s s' : Build ν} {x y : Selection ν}

namespace Selection.Stands

/-- A selection stands where no level is lower and no group fuller than before. -/
theorem mono (h : x.Stands index s)
    (hlevels : ∀ item g, s.Takes item g →
      index.groupNamed x.source.name x.group = .ok (some g) → s'.Takes item g)
    (hmembers : ∀ id, (s'.membersOf x.source id).length ≤ (s.membersOf x.source id).length) :
    x.Stands index s' where
  held := h.held
  taken := fun item g hitem hg => hlevels item g (h.taken item g hitem hg) hg
  room := fun g limit hg hlimit => Nat.le_trans (hmembers g.id) (h.room g limit hg hlimit)

/-- A selection stands that is replaced in its place and still held as its item allows. -/
theorem of_samePlace (h : x.Stands index s) (hplace : x.SamePlace y)
    (hheld : ∀ item, index.item? x.id = some item → item.Holds x → item.Holds y) :
    y.Stands index s where
  held := by
    intro item hitem
    rw [hplace.id] at hitem
    exact hheld item hitem (h.held item hitem)
  taken := by
    rw [hplace.id, hplace.source, hplace.group]
    exact h.taken
  room := by
    rw [hplace.source, hplace.group]
    exact h.room

end Selection.Stands

namespace Build

/-- A group takes what it took before, while no level changes. -/
theorem Takes.of_levels {item : Item ν} {g : Group ν} (h : s.Takes item g)
    (htarget : s'.targetLevel = s.targetLevel) (hmode : s'.mode = s.mode)
    (hrestored : s'.restoredAt = s.restoredAt) : s'.Takes item g where
  listed := h.listed
  reached := by
    rw [htarget]
    exact h.reached
  unsettled := by
    have hsettled := h.unsettled
    unfold isSettled settledUpTo isRestored at hsettled ⊢
    rw [hmode, hrestored]
    exact hsettled

/-- All that stands beside a new selection that there is room for still stands, and so does the new
one. -/
theorem Standing.put {changed : Bool} {item : Item ν} {g : Option (Group ν)}
    {others : List (Selection ν)} (h : s.Standing index changed)
    (hitem : index.item? x.id = some item) (hheld : item.Holds x)
    (hgroup : index.groupNamed x.source.name x.group = .ok g)
    (hroom : s.Room item x.source g others) :
    ∀ z ∈ others ++ [x], z.locked = false →
      z.Stands index { s with selections := others ++ [x] } := by
  intro z hz hopen
  have hroomleft : ∀ g' limit, index.groupNamed z.source.name z.group = .ok (some g') →
      g'.limit = some limit →
      ((others ++ [x]).filter (Selection.isIn z.source g'.id)).length ≤ limit := by
    intro g' limit hg' hlimit
    rw [length_filter_put]
    by_cases hx : x.isIn z.source g'.id = true
    · -- it shares the group with the new selection, which there is room for
      rw [if_pos hx]
      simp only [Selection.isIn, Bool.and_eq_true, decide_eq_true_eq, Value.isText_iff] at hx
      obtain ⟨hsource, htext⟩ := hx
      obtain ⟨id, _, hof⟩ := index.groupNamed_eq_ok_some hg'
      obtain ⟨_, rfl⟩ := index.mem_of_groupOf? hof
      rw [htext, hsource, Index.groupNamed_text, hof] at hgroup
      obtain rfl := Except.ok.inj hgroup
      rw [← hsource]
      exact hroom.members_lt hlimit
    · rw [if_neg hx, Nat.add_zero]
      rcases List.mem_append.mp hz with hz | hz
      · have hstands := h.stands z (hroom.sublist.subset hz) hopen
        exact Nat.le_trans (hroom.sublist.filter _).length_le (hstands.room g' limit hg' hlimit)
      · -- the new selection is in its own group
        obtain rfl := List.mem_singleton.mp hz
        obtain ⟨id, htext, hof⟩ := index.groupNamed_eq_ok_some hg'
        obtain ⟨_, rfl⟩ := index.mem_of_groupOf? hof
        exact absurd (by simp [Selection.isIn, htext]) hx
  rcases hroom.mem_or_eq hz with hold | rfl
  · have hstands := h.stands z hold hopen
    exact ⟨hstands.held, fun i g' hi hg' => (hstands.taken i g' hi hg').of_levels rfl rfl rfl,
      hroomleft⟩
  · refine ⟨fun i hi => ?_, fun i g' hi hg' => ?_, hroomleft⟩
    · rw [hitem] at hi
      obtain rfl := Option.some.inj hi
      exact hheld
    · rw [hitem] at hi
      obtain rfl := Option.some.inj hi
      rw [hgroup] at hg'
      obtain rfl := Except.ok.inj hg'
      exact hroom.takes.of_levels rfl rfl rfl

/-- What the new level spares stands in a group that is still open. -/
theorem Takes.aimedAt [ExactNumber ν] {n : Int} {item : Item ν} {g : Group ν}
    (h : s.Takes item g) (hx : x ∈ (s.aimedAt index n).selections)
    (hg : index.groupNamed x.source.name x.group = .ok (some g)) :
    (s.aimedAt index n).Takes item g where
  listed := h.listed
  unsettled := h.unsettled
  reached := by
    show ¬ (n : Level ν) < (g.level : Level ν)
    intro habove
    by_cases hraised : s.targetLevel ≤ (n : Level ν)
    · exact h.reached (Level.lt_of_le_of_whole_lt hraised (Level.whole_lt_whole.mp habove))
    · have hspared : x ∈ s.selections.filter fun x => !index.opensAboveAnywhere n x.group := by
        unfold Build.aimedAt at hx
        dsimp only at hx
        rwa [if_neg hraised] at hx
      obtain ⟨id, htext, hof⟩ := index.groupNamed_eq_ok_some hg
      have hopens : index.opensAbove n x.source.name x.group = true := by
        rw [htext]
        show (index.groupOf? x.source.name id).any _ = true
        rw [hof]
        simpa using habove
      have hstale := index.opensAboveAnywhere_of_opensAbove hopens
      have hkept := (List.mem_filter.mp hspared).2
      rw [hstale] at hkept
      cases hkept

/-- **An edit leaves every selection standing** that is not settled, if it selects items of the
catalog. -/
theorem Standing.edit [ExactNumber ν] {changed : Bool} {scope : Scope ν}
    (h : s.Standing index changed)
    (hputs : ∀ item x, scope.puts item x → index.item? item.id = some item)
    (hedit : s.Edit index config scope s') : s'.Standing index true where
  distinct := hedit.nodup h.distinct
  fresh := nofun
  stands := by
    have hfewer : ∀ {l : List (Selection ν)} (source : SourceId) (id : Text),
        l.Sublist s.selections →
        (l.filter (Selection.isIn source id)).length ≤ (s.membersOf source id).length :=
      fun _ _ hsub => (hsub.filter _).length_le
    cases hedit with
    | drop hx hopen =>
        intro z hz hzopen
        apply (h.stands z (List.mem_filter.mp hz).1 hzopen).mono
        · exact fun _ _ htakes _ => htakes.of_levels rfl rfl rfl
        · exact fun id => hfewer z.source id List.filter_sublist
    | put hnew hid hopen hheld hgroup hroom hput =>
        have hitem := hputs _ _ hput
        rw [← hid] at hitem
        exact h.put hitem hheld hgroup hroom
    | @revise before after x y hs hopen hplace hheld hcount =>
        intro z hz hzopen
        have hstands : z.Stands index s := by
          rcases eq_or_mem_of_changed hs hz with rfl | hold
          · have hx := h.stands x (by rw [hs]; simp) hopen
            exact hx.of_samePlace hplace hheld
          · exact h.stands z hold hzopen
        apply hstands.mono
        · exact fun _ _ htakes _ => htakes.of_levels rfl rfl rfl
        · exact fun id => Nat.le_of_eq (length_membersOf_revise hs hplace z.source id)
    | @aim n haims hleast hmost hsettled =>
        intro z hz hzopen
        apply (h.stands z ((aimedAt_sublist index s n).subset hz) hzopen).mono
        · exact fun _ _ htakes hg => htakes.aimedAt hz hg
        · exact fun id => hfewer z.source id (aimedAt_sublist index s n)
    | fill hsame =>
        intro z hz hzopen
        apply (h.stands z (hsame.sublist.subset hz) hzopen).mono
        · exact fun _ _ htakes _ => htakes.of_levels hsame.target hsame.mode hsame.restoredAt
        · exact fun id => hfewer z.source id hsame.sublist

/-- What is restored is settled, and beside it there is nothing yet. -/
theorem Standing.restoration {restored : Selection ν → Prop} {level : Level ν}
    (h : s.Standing index false) (hr : s.Restoration config restored level s') :
    s'.Standing index true := by
  obtain ⟨settled, hselections, hnodup, hlocked⟩ := hr.selections
  rw [h.fresh rfl, List.nil_append] at hselections
  refine ⟨by rw [hselections]; exact hnodup, fun z hz hopen => ?_, nofun⟩
  rw [hselections] at hz
  obtain ⟨y, _, rfl⟩ := hlocked z hz
  cases hopen

end Build

namespace Guided

/-- The contract of sessions whose listeners let out no fault: all that is not settled stands. -/
def standingStates (index : Index ν) (config : Config) : Contract ν where
  index := index
  config := config
  reacts := fun d => d.outcome = .ok ()
  holds := Build.Standing index

/-- **After calls by names all selections stand** that are not settled. -/
theorem standing_after [ExactNumber ν] {catalog : Catalog ν} {s₀ : Session ν (Call ν)}
    (hs₀ : (newBuild catalog config).outcome = .ok s₀) {calls : List (Call ν)}
    (hcalls : ∀ c ∈ calls, c.ByName)
    (hcalm : ∀ t ∈ turns s₀ calls, ∀ d ∈ t.deliveries, d.outcome = .ok ()) :
    (standingStates s₀.index config).Meets (after s₀ calls) := by
  have hstart : (standingStates s₀.index config).Meets s₀ := by
    obtain rfl := Except.ok.inj hs₀
    exact ⟨rfl, rfl, rfl, List.nodup_nil, nofun, fun _ => rfl⟩
  refine (turns_keep (C := standingStates s₀.index config) (.of_all fun _ => trivial)
    (fun c hc => ?_) (fun _ _ _ _ => trivial) hstart hcalm).1
  intro s changed s' hs heffect
  have hnamed : ∀ item source group payload, c = .select item source group payload →
      ∃ id, item = .named id := by
    rintro item source group payload rfl
    exact (hcalls _ hc).1
  have hmade : s'.Standing s₀.index true := by
    cases heffect with
    | edit hedit =>
        exact Build.Standing.edit hs (fun _ _ hputs => Call.item?_of_puts hnamed hputs) hedit
    | restore hchanged _ _ hr =>
        subst hchanged
        exact Build.Standing.restoration hs hr
  exact .of_calm (fun _ hcalm => hcalm) hmade

/-- **After calls by names all selections are in their places** that are not settled, and a state
with selections passes the check. -/
theorem placed_after {catalog : Catalog ν} {s₀ : Session ν (Call ν)}
    (hs₀ : (newBuild catalog config).outcome = .ok s₀) {calls : List (Call ν)}
    (hcalls : ∀ c ∈ calls, c.ByName) :
    let s := after s₀ calls
    (∀ x ∈ s.state.selections, x.locked = false → x.InPlace s₀.index) ∧
      (config.checksState = true → s.state.selections ≠ [] →
        s.state.violations s₀.index = .ok []) := by
  have hmoves : (statesWith s₀.index config fun build =>
      (∀ x ∈ build.selections, x.locked = false → x.InPlace s₀.index) ∧
        (config.checksState = true → build.selections ≠ [] →
          build.violations s₀.index = .ok [])).Meets (after s₀ calls) := by
    apply moves_after ?_ ?_ hcalls
    · rintro build build' ⟨hplaced, _⟩ hmove hpass
      exact ⟨hmove.placed hplaced, fun hchecks _ => hpass hchecks⟩
    · obtain rfl := Except.ok.inj hs₀
      exact ⟨rfl, rfl, rfl, nofun, fun _ hne => absurd rfl hne⟩
  exact hmoves.holds

end Guided

end CharacterBuild
