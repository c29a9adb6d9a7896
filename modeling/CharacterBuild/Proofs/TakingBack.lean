import CharacterBuild.Proofs.Commuting

set_option autoImplicit false

/-! # Taking items back

A selection is taken back by a request for that, or by selecting its item once more. Either way the
plan takes out the one selection of the item and leaves all others in their order
(`Build.filter_others`, `Plan.outcome_reselect`). So an item that took nobody's place is taken back
without a trace (`Session.select_undone`).

Whether an item that is selected once more is kept depends on the group that the request resolves
to, which need not be the group of the selection: the member of an exclusive group is kept only if
the request resolves to an exclusive group as well (`Session.member_kept_iff`).
-/

namespace CharacterBuild

variable {ν : Type} [Number ν]

/-! ## The selection of an item -/

namespace Build

variable {s : Build ν} {x : Selection ν}

/-- Where no item is selected twice, what is found of an item is the one selection of it. -/
theorem selection?_of_mem (hdistinct : (s.selections.map Selection.id).Nodup)
    (hx : x ∈ s.selections) (source : Option SourceId)
    (hsource : ∀ key, source = some key → x.source = key) :
    s.selection? x.id source = some x := by
  have hpair : s.selections.Pairwise fun y z => Selection.isOf z.id source y = false := by
    apply (List.pairwise_map.mp hdistinct).imp
    intro y z hne
    simp [Selection.isOf, hne]
  have hself : x.isOf x.id source = true := by
    cases source with
    | none => simp [Selection.isOf]
    | some key => simp [Selection.isOf, hsource key rfl]
  exact find?_eq_some_of_pairwise (fun y z => Selection.isOf z.id source y) hpair hx hself

omit [Number ν] in
/-- Where no item is selected twice, all others are of other items. -/
theorem id_ne_of_others {before after : List (Selection ν)}
    (hdistinct : ((before ++ x :: after).map Selection.id).Nodup) :
    ∀ y ∈ before ++ after, y.id ≠ x.id := by
  have hmiddle : (before ++ x :: after).Perm (x :: (before ++ after)) := List.perm_middle
  have hhead := (hmiddle.map Selection.id).nodup_iff.mp hdistinct
  intro y hy heq
  exact (List.nodup_cons.mp hhead).1 (heq ▸ List.mem_map_of_mem hy)

omit [Number ν] in
/-- Where no item is selected twice, all other selections stay when one is taken out. -/
theorem filter_others {before after : List (Selection ν)}
    (hdistinct : ((before ++ x :: after).map Selection.id).Nodup) :
    (before ++ x :: after).filter (fun y => !(y.id = x.id && y.source = x.source))
      = before ++ after := by
  have hothers := id_ne_of_others hdistinct
  have hkeep : ∀ l : List (Selection ν), (∀ y ∈ l, y.id ≠ x.id) →
      l.filter (fun y => !(y.id = x.id && y.source = x.source)) = l := by
    intro l hl
    apply List.filter_eq_self.mpr
    intro y hy
    simp [hl y hy]
  rw [List.filter_append, List.filter_cons_of_neg (by simp),
    hkeep before fun y hy => hothers y (List.mem_append_left _ hy),
    hkeep after fun y hy => hothers y (List.mem_append_right _ hy)]

end Build

/-! ## The plans -/

namespace Plan

variable {index : Index ν} {state : Build ν} {item : Item ν} {source : SourceId}
  {group kept payload : Value ν} {g : Option (Group ν)} {x : Selection ν}

/-- A selection that is not settled is taken out from among the others. -/
theorem remove_of_open {before after : List (Selection ν)}
    (hs : state.selections = before ++ x :: after)
    (hdistinct : (state.selections.map Selection.id).Nodup) (hopen : x.locked = false) :
    remove state x
      = selections state (before ++ after) (.deselected x.id x.source.name) none := by
  unfold remove
  rw [hopen, if_neg (by simp)]
  rw [hs] at hdistinct ⊢
  rw [Build.filter_others hdistinct]

/-- Taking back an item that is selected. -/
theorem deselect_of_mem (hdistinct : (state.selections.map Selection.id).Nodup)
    (hx : x ∈ state.selections) : deselect state x.id x.source = remove state x := by
  unfold deselect
  rw [Build.selection?_of_mem hdistinct hx (some x.source) fun _ h => Option.some.inj h]

/-- Nobody makes room for an item in a group that has no member or is not exclusive. -/
theorem others_eq {others : List (Selection ν)} (h : state.Room item source g others)
    (hkept : ∀ found, g = some found → found.isExclusive = true →
      state.membersOf source found.id = []) : others = state.selections := by
  cases g with
  | none =>
      cases h
      rfl
  | some found =>
      rcases h.exclusive_or with ⟨_, hall⟩ | ⟨hexclusive, hothers, _⟩
      · exact hall
      · have hnone := hkept found rfl hexclusive
        rw [hothers]
        apply List.filter_eq_self.mpr
        intro y hy
        simpa using List.filter_eq_nil_iff.mp hnone y hy

end Plan

namespace Session

variable {κ : Type} {run : κ → Action ν κ (Answer ν)} {s : Session ν κ} {item : Item ν}
  {source : SourceId} {group payload : Value ν} {reason : Option (Reason ν)}

/-! ## Requests carried out -/

/-- A request leaves an idle session idle. -/
theorem request_idle (hrun : ∀ c, (run c).LeavesBuild)
    (plan : Session ν κ → Build ν → Traced ν (Plan ν)) (hidle : s.announcing = false) :
    (request run plan s).session.announcing = false := by
  rcases request_carried hrun plan hidle with ⟨_, _, hs, _⟩ | ⟨p, _, hc⟩
  · rw [hs]
    exact hidle
  · cases hc with
    | kept hs _ _ | barred hs _ _ _ =>
        rw [hs]
        exact hidle
    | made _ hs _ | broken _ hs _ _ => exact hs.idle

/-- A new state that passes the check, or is not checked, is in place, and the answer is given
unless a listener lets out a fault. -/
theorem Carried.of_passes {t : Turn ν κ (Result ν)} {change : Change ν}
    (h : s.Carried t (.commit change reason)) (hpass : s.Passes change.state) :
    (∃ changed, s.Replaced change.state changed t.session) ∧
      (t.outcome = .ok ⟨true, reason⟩ ∨ ∃ d ∈ t.deliveries, ∃ fault, d.outcome = .error fault) := by
  cases h with
  | made _ hs ho => exact ⟨⟨true, hs⟩, Or.inl ho⟩
  | broken _ hs _ hd =>
      obtain ⟨d, hmem, hfault⟩ := hd
      exact ⟨⟨s.changed, hs⟩, Or.inr ⟨d, hmem, _, hfault⟩⟩
  | barred _ _ _ hbar => exact absurd hbar (not_barred (hpass hbar.checks))

/-! ## Selecting undone -/

/-- **What is left after a build is given back**: it is as it was, with the balances of its pools
and all that its pages lack, and the request is accepted unless a listener lets out a fault. -/
structure GivenBack (s : Session ν κ) (t : Turn ν κ (Result ν)) : Prop where
  answer : t.outcome = .ok ⟨true, none⟩ ∨ ∃ d ∈ t.deliveries, ∃ fault, d.outcome = .error fault
  unheard : s.registrations = [] → t.outcome = .ok ⟨true, none⟩
  index : t.session.index = s.index
  config : t.session.config = s.config
  state : t.session.state = s.state
  balances : ∀ unlock, Guided.balanceOf t.session unlock = Guided.balanceOf s unlock
  issues : ∀ page, Completeness.issues t.session.index t.session.config t.session.state page
    = Completeness.issues s.index s.config s.state page

/-- A session with another state gives the former one back by a request that leads there. -/
theorem givenBack_of_plan (hrun : ∀ c, (run c).LeavesBuild)
    {plan : Session ν κ → Build ν → Traced ν (Plan ν)} {now : Session ν κ} {state : Build ν}
    {changed : Bool} {change : Change ν} (hnow : s.Replaced state changed now)
    (hnobody : s.registrations = [] → now.registrations = [])
    (hclean : s.state.violations s.index = .ok [])
    (hplan : (plan now state).outcome = .ok (.commit change none))
    (hback : change.state = s.state) :
    s.GivenBack (request run plan now) := by
  have hcarried : now.Carried (request run plan now) (.commit change none) :=
    carried_of_plan hrun hnow.idle (by rw [hnow.state]; exact hplan)
  have hpass : now.Passes change.state := by
    intro _
    rw [hback, hnow.index]
    exact hclean
  obtain ⟨⟨changed', hs⟩, ho⟩ := hcarried.of_passes hpass
  have hindex : (request run plan now).session.index = s.index := hs.index.trans hnow.index
  have hconfig : (request run plan now).session.config = s.config := hs.config.trans hnow.config
  have hstate : (request run plan now).session.state = s.state := hs.state.trans hback
  refine ⟨ho, fun hnone => ?_, hindex, hconfig, hstate, fun unlock => ?_, fun page => ?_⟩
  · -- nobody is there to let out a fault
    have hdone : (request run plan now).deliveries = [] :=
      (request_unheard hrun plan hnow.idle (hnobody hnone)).1
    rcases ho with ho | ⟨d, hd, _⟩
    · exact ho
    · rw [hdone] at hd
      cases hd
  · unfold Guided.balanceOf
    rw [hindex, hstate]
  · rw [hindex, hconfig, hstate]

/-- An item that is accepted and takes nobody's place stands behind all others. -/
theorem select_appends (hrun : ∀ c, (run c).LeavesBuild)
    (hnew : s.state.selection? item.id none = none)
    (hkept : ∀ g, (Rules.resolveGroup s.index item source group).outcome = .ok (some g) →
      g.isExclusive = true → s.state.membersOf source g.id = [])
    (haccepted : (select run item source group payload s).outcome = .ok ⟨true, reason⟩) :
    ∃ g kept x, (Plan.groupFor s.index item source group).outcome = .ok (g, kept) ∧
      (x.id = item.id ∧ x.source = source ∧ x.locked = false) ∧
      s.Replaced { s.state with selections := s.state.selections ++ [x] } true
        (select run item source group payload s).session := by
  obtain ⟨_, change, hplan, hs⟩ := replaced_of_accepted hrun haccepted
  obtain ⟨others, x, hputs, hselects⟩ := Plan.puts_of_commit hnew hplan
  obtain ⟨g, hfor, hroom⟩ := hputs.room
  have hothers : others = s.state.selections := by
    apply Plan.others_eq (Plan.room_of_roomFor hroom)
    rintro found rfl hexclusive
    exact hkept found (Plan.resolveGroup_of_groupFor hfor) hexclusive
  rw [hselects.state, hothers] at hs
  exact ⟨g, x.group, x, hfor, hputs.fresh.place, hs⟩

/-- **Taking an item back undoes selecting it.** In a state without violations an item that is not
selected is accepted, and takes nobody's place: its group is not exclusive or has no member, or it
is in no group. Then deselecting it is accepted and gives back the build as it was; and so does
the same request once more, unless the group is exclusive and the source keeps members of such
groups. -/
theorem select_undone (hrun : ∀ c, (run c).LeavesBuild)
    (hclean : s.state.violations s.index = .ok [])
    (hnew : s.state.selection? item.id none = none)
    (hkept : ∀ g, (Rules.resolveGroup s.index item source group).outcome = .ok (some g) →
      g.isExclusive = true → s.state.membersOf source g.id = [])
    (haccepted : (select run item source group payload s).outcome = .ok ⟨true, reason⟩) :
    let first := select run item source group payload s
    s.GivenBack (deselect run item.id source first.session) ∧
      ((∀ g, (Rules.resolveGroup s.index item source group).outcome = .ok (some g) →
          g.isExclusive = true → s.index.policy source = .toggle) →
        s.GivenBack (select run item source group payload first.session)) := by
  intro first
  obtain ⟨g, kept, x, hfor, ⟨hid, hsource, hopen⟩, hfirst⟩ :=
    select_appends hrun hnew hkept haccepted
  have hnobody : s.registrations = [] → first.session.registrations = [] := by
    intro hnone
    have hidle : s.announcing = false := (replaced_of_accepted hrun haccepted).1
    exact (request_unheard hrun _ hidle hnone).2
  let now : Build ν := { s.state with selections := s.state.selections ++ [x] }
  have hmem : x ∈ now.selections := List.mem_append_right _ (List.mem_singleton.mpr rfl)
  have hdistinct : (now.selections.map Selection.id).Nodup := by
    show ((s.state.selections ++ [x]).map Selection.id).Nodup
    rw [List.map_append, List.nodup_append]
    refine ⟨Build.nodup_of_violations hclean, by simp, ?_⟩
    intro a ha b hb hab
    obtain ⟨y, hy, rfl⟩ := List.mem_map.mp ha
    have hb : b = x.id := by simpa using hb
    exact Build.selection?_none hnew y hy (by rw [hab, hb, hid])
  -- the selection is taken out from behind all others, and these are the ones of before
  have hremove : Plan.remove now x = Plan.selections now (s.state.selections ++ [])
      (.deselected x.id x.source.name) none := Plan.remove_of_open rfl hdistinct hopen
  rw [List.append_nil] at hremove
  constructor
  · have hplan : (pure (Plan.deselect now item.id source) : Traced ν (Plan ν)).outcome
        = .ok (Plan.selections now s.state.selections (.deselected x.id x.source.name) none) := by
      rw [← hid, ← hsource, Plan.deselect_of_mem hdistinct hmem, hremove]
      rfl
    exact givenBack_of_plan hrun hfirst hnobody hclean hplan rfl
  · intro htoggle
    have hbars : (g.any Group.isExclusive && decide (s.index.policy x.source = .keep)) = false := by
      cases g with
      | none => rfl
      | some found =>
          cases hexclusive : found.isExclusive with
          | false => simp [hexclusive]
          | true =>
              have hpolicy := htoggle found (Plan.resolveGroup_of_groupFor hfor) hexclusive
              simp [hsource, hpolicy]
    have hfound : now.selection? item.id none = some x := by
      rw [← hid]
      exact Build.selection?_of_mem hdistinct hmem none nofun
    have hplan : (Plan.select first.session.index now item source group payload).outcome
        = .ok (Plan.selections now s.state.selections (.deselected x.id x.source.name) none) := by
      rw [hfirst.index, Plan.select_of_selected payload hfound hfor, ← hsource,
        Plan.outcome_reselect, hbars, if_neg (by simp), hremove]
    exact givenBack_of_plan hrun hfirst hnobody hclean hplan rfl

/-- A source that offers the item `x` twice: with another one in a group without a limit, and alone
in an exclusive one. -/
def twiceListed : Catalog Double :=
  let source : Source Double := {
    key := ⟨"A", .primary⟩
    name := "A"
    description := ""
    tiers := [⟨1, [.choice ⟨"wide", "wide", ["x", "y"], none, "ability"⟩,
      .choice ⟨"one", "one", ["x"], some 1, "ability"⟩]⟩]
    repeatPolicy := none }
  ((Catalog.addSource {} source).addItem (plainItem "x")).addItem (plainItem "y")

/-- A new build from it, whose states are not checked. -/
def twiceStart : Session Double (Guided.Call Double) where
  index := { catalog := twiceListed }
  config := { checksState := false }

/-- Beside `y`, the item `x` is selected in the group without a limit. -/
theorem select_undone_twiceListed :
    let run := Guided.Call.runInside (ν := Double)
    let s := Guided.after twiceStart [.select (.named "y") (.named "A") .null .null]
    let payload : Value Double := .object [("equipped", .bool true)]
    let first := select run (plainItem "x") ⟨"A", .primary⟩ .null payload s
    first.session.state.selections.length = 2 ∧
      s.GivenBack (deselect run "x" ⟨"A", .primary⟩ first.session) ∧
      s.GivenBack (select run (plainItem "x") ⟨"A", .primary⟩ .null payload first.session) := by
  intro run s payload first
  have hlength : first.session.state.selections.length = 2 := by decide +kernel
  have hclean : s.state.violations s.index = .ok [] := except_eq_ok_nil (by decide +kernel)
  have hnew : s.state.selection? "x" none = none := Option.isNone_iff_eq_none.mp (by decide +kernel)
  have hloose : ∀ g, (Rules.resolveGroup s.index (plainItem "x") ⟨"A", .primary⟩ .null).outcome
      = .ok (some g) → g.isExclusive = false := by
    intro g hg
    have hall : ((Rules.resolveGroup s.index (plainItem "x") ⟨"A", .primary⟩
        .null).outcome.toOption.all fun g => g.all fun g => !g.isExclusive) = true := by
      decide +kernel
    rw [hg] at hall
    exact (Bool.not_eq_true' _).mp hall
  obtain ⟨reason, haccepted⟩ : ∃ reason, (select run (plainItem "x") ⟨"A", .primary⟩ .null payload
      s).outcome = .ok ⟨true, reason⟩ := by
    obtain ⟨⟨changed, reason⟩, ho, hchanged⟩ := except_eq_ok_of_any (p := Result.changed)
      (x := first.outcome) (by decide +kernel)
    refine ⟨reason, ?_⟩
    rw [ho]
    dsimp only at hchanged
    rw [hchanged]
  obtain ⟨hback, hagain⟩ := select_undone Guided.Call.runInside_leavesBuild hclean hnew
    (fun g hg hexclusive => by rw [hloose g hg] at hexclusive; cases hexclusive) haccepted
  refine ⟨hlength, hback, hagain fun g hg hexclusive => ?_⟩
  rw [hloose g hg] at hexclusive
  cases hexclusive

/-! ## Members that are kept -/

/-- **How a selected item fares that is selected once more** by a request that resolves to a
group. -/
inductive Reselected (s : Session ν κ) (x : Selection ν) (g : Option (Group ν))
    (t : Turn ν κ (Result ν)) : Prop where
  /-- It is kept. -/
  | kept (hg : g.any Group.isExclusive = true) (hs : t.session = s)
      (ho : t.outcome = .ok ⟨false, none⟩) : Reselected s x g t
  /-- It is to be taken back, but is settled. -/
  | settled (hg : g.any Group.isExclusive = false) (hlocked : x.locked = true)
      (hs : t.session = s) (ho : t.outcome = .ok ⟨false, some .settled⟩) : Reselected s x g t
  /-- It is taken back, and all others stay. -/
  | taken {before after : List (Selection ν)} (hg : g.any Group.isExclusive = false)
      (hopen : x.locked = false) (hx : s.state.selections = before ++ x :: after)
      (hstate : t.session.state = { s.state with selections := before ++ after })
      (ho : t.outcome = .ok ⟨true, none⟩ ∨ ∃ fault, t.outcome = .error fault ∧
        ∃ d ∈ t.deliveries, d.outcome = .error fault) : Reselected s x g t

theorem Reselected.kept_iff {x : Selection ν} {g : Option (Group ν)} {t : Turn ν κ (Result ν)}
    (h : s.Reselected x g t) :
    (t.outcome = .ok ⟨false, none⟩ ∧ t.session = s) ↔ g.any Group.isExclusive = true := by
  constructor
  · rintro ⟨hkept, _⟩
    cases h with
    | kept hg _ _ => exact hg
    | settled _ _ _ ho =>
        rw [ho] at hkept
        cases hkept
    | taken _ _ _ _ ho =>
        rcases ho with ho | ⟨fault, ho, _⟩ <;> · rw [ho] at hkept; cases hkept
  · intro hexclusive
    cases h with
    | kept _ hs ho => exact ⟨ho, hs⟩
    | settled hg | taken hg =>
        rw [hexclusive] at hg
        cases hg

/-- In a state without violations, an item of a source that keeps its members is selected once more
from its source. -/
theorem reselected (hrun : ∀ c, (run c).LeavesBuild) (hidle : s.announcing = false)
    (hclean : s.state.violations s.index = .ok []) {x : Selection ν}
    (hx : x ∈ s.state.selections) (hid : item.id = x.id)
    (hkeep : s.index.policy x.source = .keep) {g : Option (Group ν)}
    (hg : (Rules.resolveGroup s.index item x.source group).outcome = .ok g) (payload : Value ν) :
    s.Reselected x g (select run item x.source group payload s) := by
  obtain ⟨kept, hfor⟩ := Plan.groupFor_of_resolveGroup hg
  have hdistinct := Build.nodup_of_violations hclean
  have hfound : s.state.selection? item.id none = some x := by
    rw [hid]
    exact Build.selection?_of_mem hdistinct hx none nofun
  have hplan : (Plan.select s.index s.state item x.source group payload).outcome
      = .ok (if g.any Group.isExclusive then Plan.nothing else Plan.remove s.state x) := by
    rw [Plan.select_of_selected payload hfound hfor, Plan.outcome_reselect, hkeep]
    simp
  have hcarried := select_carried hrun hidle hplan
  by_cases hexclusive : g.any Group.isExclusive = true
  · rw [if_pos hexclusive] at hcarried
    cases hcarried with
    | kept hs _ ho => exact .kept hexclusive hs ho
  · rw [if_neg hexclusive] at hcarried
    rw [Bool.not_eq_true] at hexclusive
    by_cases hlocked : x.locked = true
    · rw [Plan.remove, if_pos hlocked] at hcarried
      cases hcarried with
      | kept hs _ ho => exact .settled hexclusive hlocked hs ho
    · rw [Bool.not_eq_true] at hlocked
      obtain ⟨before, after, hs⟩ := List.append_of_mem hx
      rw [Plan.remove_of_open hs hdistinct hlocked] at hcarried
      cases hcarried with
      | made _ hreplaced ho => exact .taken hexclusive hlocked hs hreplaced.state (Or.inl ho)
      | broken _ hreplaced ho hd =>
          exact .taken hexclusive hlocked hs hreplaced.state (Or.inr ⟨_, ho, hd⟩)
      | barred _ _ _ hbar =>
          refine absurd hbar (not_barred (Build.violations_of_sublist hclean ?_ rfl))
          rw [hs]
          exact List.Sublist.append_left (List.sublist_cons_self x after) before

/-- **A member of an exclusive group is kept exactly if the request resolves to an exclusive
group.** In a state without violations an item is such a member, and its source keeps such members.
It is selected once more from its source, in whatever group and with whatever payload. Then the
request leaves the session as it is if it resolves to an exclusive group, as it does if it names
the very group of the item. If it does not, the item is taken back, unless it is settled. -/
theorem member_kept_iff (hrun : ∀ c, (run c).LeavesBuild) (hidle : s.announcing = false)
    (hclean : s.state.violations s.index = .ok []) {x : Selection ν}
    (hx : x ∈ s.state.selections) (hid : item.id = x.id) {home : Group ν}
    (hhome : s.index.groupNamed x.source.name x.group = .ok (some home))
    (hexclusive : home.isExclusive = true) (hkeep : s.index.policy x.source = .keep)
    (hgroup : group = .null ∨ ∃ id, group = .text id) (payload : Value ν) :
    let t := select run item x.source group payload s
    ∃ g, (Rules.resolveGroup s.index item x.source group).outcome = .ok g ∧
      s.Reselected x g t ∧
      ((t.outcome = .ok ⟨false, none⟩ ∧ t.session = s) ↔ g.any Group.isExclusive = true) ∧
      (group = x.group → t.outcome = .ok ⟨false, none⟩ ∧ t.session = s) := by
  intro t
  obtain ⟨g, hg⟩ : ∃ g, (Rules.resolveGroup s.index item x.source group).outcome = .ok g :=
    Rules.resolveGroup_eq_ok hgroup
  have hreselected : s.Reselected x g t := reselected hrun hidle hclean hx hid hkeep hg payload
  refine ⟨g, hg, hreselected, hreselected.kept_iff, ?_⟩
  rintro rfl
  rw [Rules.resolveGroup_of_named hhome] at hg
  obtain rfl := Except.ok.inj hg
  exact hreselected.kept_iff.mpr hexclusive

/-- The item `x` is selected in the exclusive group. Selecting it once more takes it back, since the
request resolves to the first group that lists it; named, the exclusive group keeps it. -/
theorem member_kept_iff_twiceListed :
    let run := Guided.Call.runInside (ν := Double)
    let s := Guided.after twiceStart [.select (.named "x") (.named "A") (.text "one") .null]
    let again := fun group : Value Double =>
      select run (plainItem "x") ⟨"A", .primary⟩ group .null s
    (again (.text "one")).session = s ∧
      ¬ ((again .null).outcome = .ok ⟨false, none⟩ ∧ (again .null).session = s) := by
  intro run s again
  have hclean : s.state.violations s.index = .ok [] := except_eq_ok_nil (by decide +kernel)
  have hidle : s.announcing = false := by decide +kernel
  obtain ⟨x, hx, hid, hsource, hone⟩ : ∃ x ∈ s.state.selections, x.id = "x" ∧
      x.source = ⟨"A", .primary⟩ ∧ x.group = .text "one" := by
    have hany : (s.state.selections.any fun x =>
        x.id = "x" && x.source = ⟨"A", .primary⟩ && x.group.isText "one") = true := by
      decide +kernel
    simpa [List.any_eq_true, and_assoc, Value.isText_iff] using hany
  have hkeep : s.index.policy ⟨"A", .primary⟩ = .keep := by decide +kernel
  obtain ⟨home, hhome, hexclusive⟩ : ∃ home, s.index.groupOf? "A" "one" = some home ∧
      home.isExclusive = true := (Option.any_eq_true ..).mp (by decide +kernel)
  have hloose : ∀ g, (Rules.resolveGroup s.index (plainItem "x") ⟨"A", .primary⟩ .null).outcome
      = .ok g → g.any Group.isExclusive = false := by
    intro g hg
    have hall : ((Rules.resolveGroup s.index (plainItem "x") ⟨"A", .primary⟩
        .null).outcome.toOption.all fun g => !g.any Group.isExclusive) = true := by
      decide +kernel
    rw [hg] at hall
    exact (Bool.not_eq_true' _).mp hall
  clear_value s
  rw [← hsource] at hkeep
  have hmember : s.index.groupNamed x.source.name x.group = .ok (some home) := by
    rw [hsource, hone, Index.groupNamed_text, hhome]
  have hitem : (plainItem "x" : Item Double).id = x.id := hid.symm
  obtain ⟨_, _, _, _, hnamed⟩ := member_kept_iff Guided.Call.runInside_leavesBuild hidle hclean hx
    hitem hmember hexclusive hkeep (Or.inr ⟨"one", rfl⟩) .null
  obtain ⟨g, hg, _, hiff, _⟩ := member_kept_iff Guided.Call.runInside_leavesBuild hidle hclean hx
    hitem hmember hexclusive hkeep (Or.inl rfl) .null
  rw [hsource] at hnamed hiff hg
  refine ⟨(hnamed hone.symm).2, fun hkept => ?_⟩
  have hloose' := hloose g hg
  rw [hiff.mp hkept] at hloose'
  cases hloose'

end Session

end CharacterBuild
