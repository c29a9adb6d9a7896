import CharacterBuild.Proofs.Overfull
import Mathlib.Data.List.Basic

set_option autoImplicit false

/-! # Independent picks

Two items that are not selected yet are picked one after the other, for different groups or for no
group at all. Then the order of the two does not matter. What a pick comes to (`Pick.weigh`) depends
on the selections only as far as they concern its group (`Group.concerns`), and the other pick
neither adds nor removes such a selection (`Pick.alike_put`). So each is answered as if it had gone
first, and the states after both are the same but for the order of the selections
(`Session.picks_commute`).
-/

namespace CharacterBuild

variable {ν : Type} [Number ν]

/-! ## Selections that concern a group -/

namespace Group

/-- Whether a selection matters to a pick for a group of a source: it names the group, under the
name of the source, or names its own group by a value that cannot be put in order. -/
def concerns (source : Text) (g : Option (Group ν)) (x : Selection ν) : Bool :=
  (g.any fun g => x.source.name = source && x.group.isText g.id) ||
    !(x.group.isNull || (Build.groupName? x).isSome)

/-- Whether a selection stays when an item is put into a group of a source. -/
def spares (source : SourceId) (g : Option (Group ν)) (x : Selection ν) : Bool :=
  !(g.any fun g => g.isExclusive && x.isIn source g.id)

omit [Number ν] in
theorem spares_of_not_concerns {source : SourceId} {g : Option (Group ν)} {x : Selection ν}
    (h : concerns source.name g x = false) : spares source g x = true := by
  cases g with
  | none => rfl
  | some g =>
      by_cases hin : x.isIn source g.id = true
      · -- what is in the group concerns it
        simp only [Selection.isIn, Bool.and_eq_true, decide_eq_true_eq] at hin
        simp [concerns, hin.1, hin.2] at h
      · simp [spares, hin]

omit [Number ν] in
/-- An exclusive group spares all but its members. -/
theorem spares_of_exclusive {source : SourceId} {g : Group ν} (h : g.isExclusive = true) :
    spares source (some g) = fun x => !x.isIn source g.id := by
  funext x
  simp [spares, h]

end Group

namespace Build

/-- Two lists have the same selections that concern a group, in the same order. -/
def Alike (source : Text) (g : Option (Group ν)) (l l' : List (Selection ν)) : Prop :=
  l'.filter (Group.concerns source g) = l.filter (Group.concerns source g)

/-- Two states are the same but for the order of the selections. -/
structure Reordered (s s' : Build ν) : Prop where
  rest : s' = { s with selections := s'.selections }
  perm : s.selections.Perm s'.selections

theorem Reordered.refl (s : Build ν) : s.Reordered s := ⟨rfl, .refl _⟩

/-- What the check says, if it is made, once a selection is put beside some others. -/
def allow (index : Index ν) (checks : Bool) (others : List (Selection ν)) (x : Selection ν) :
    Except (Fault ν) Unit :=
  if !checks then .ok ()
  else if clashes others x then .error .wrongKind
  else match overfills index others x with
    | [] => .ok ()
    | problems => .error (.violated problems)

namespace Alike

variable {source : Text} {g : Option (Group ν)} {l l' : List (Selection ν)}

omit [Number ν] in
/-- What is said of selections that concern the group is said of the same ones. -/
theorem filter_eq (h : Alike source g l l') {p : Selection ν → Bool}
    (hp : ∀ x, p x = true → Group.concerns source g x = true) : l'.filter p = l.filter p := by
  have hboth : ∀ l : List (Selection ν),
      l.filter p = (l.filter (Group.concerns source g)).filter p := by
    intro l
    rw [List.filter_filter]
    apply List.filter_congr
    intro x _
    cases hx : p x with
    | false => rfl
    | true => rw [hp x hx]; rfl
  rw [hboth l', hboth l, h]

omit [Number ν] in
theorem filter (h : Alike source g l l') (keep : Selection ν → Bool) :
    Alike source g (l.filter keep) (l'.filter keep) := by
  unfold Alike
  rw [List.filter_comm, h, List.filter_comm]

theorem membersOf_eq {s s' : Build ν} {key : SourceId} {found : Group ν}
    (h : Alike key.name (some found) s.selections s'.selections) :
    s'.membersOf key found.id = s.membersOf key found.id := by
  apply h.filter_eq
  intro x hx
  simp only [Selection.isIn, Bool.and_eq_true, decide_eq_true_eq] at hx
  simp [Group.concerns, hx.1, hx.2]

omit [Number ν] in
theorem clashes_eq (h : Alike source g l l') (x : Selection ν) : clashes l' x = clashes l x := by
  have hfilter : (l'.filter fun y => !y.locked && groupsClash x y)
      = l.filter fun y => !y.locked && groupsClash x y := by
    apply h.filter_eq
    intro y hy
    simp only [groupsClash, Bool.and_eq_true, Bool.not_eq_true', Option.isNone_iff_eq_none] at hy
    obtain ⟨_, ⟨_, hnull⟩, hname⟩ := hy
    simp [Group.concerns, hnull, hname]
  have hany : ∀ l : List (Selection ν), clashes l x
      = !(l.filter fun y => !y.locked && groupsClash x y).isEmpty := by
    intro l
    rw [Bool.eq_iff_iff]
    simp [clashes, List.filter_eq_nil_iff]
  rw [hany l', hany l, hfilter]

omit [Number ν] in
/-- The group of a selection gets overfull beside the one list exactly if it does so beside the
other. -/
theorem overfills_eq {index : Index ν} {x : Selection ν} (h : Alike x.source.name g l l')
    (hg : index.groupNamed x.source.name x.group = .ok g) :
    overfills index l' x = overfills index l x := by
  have hgroup : groupOverfull? index l' x = groupOverfull? index l x := by
    unfold groupOverfull? groupName?
    split
    · rename_i name id hname
      split at hname
      · rename_i htext
        cases hname
        rw [htext, Index.groupNamed_text] at hg
        have hfound := Except.ok.inj hg
        split
        · rename_i limit hlimit
          obtain ⟨found, hof, _⟩ := Option.bind_eq_some_iff.mp hlimit
          obtain rfl : some found = g := hof.symm.trans hfound
          obtain ⟨_, rfl⟩ := index.mem_of_groupOf? hof
          have hcount : l'.countP (countsIn x.source.name found.id)
              = l.countP (countsIn x.source.name found.id) := by
            rw [List.countP_eq_length_filter, List.countP_eq_length_filter, h.filter_eq]
            intro y hy
            simp only [countsIn, Bool.and_eq_true, decide_eq_true_eq] at hy
            simp [Group.concerns, hy.1.1, hy.1.2]
          rw [hcount]
        · rfl
      · cases hname
    · rfl
  unfold overfills
  rw [hgroup]

omit [Number ν] in
theorem allow_eq {index : Index ν} {checks : Bool} {x : Selection ν}
    (h : Alike x.source.name g l l') (hg : index.groupNamed x.source.name x.group = .ok g) :
    allow index checks l' x = allow index checks l x := by
  unfold allow
  rw [h.clashes_eq, h.overfills_eq hg]

end Alike

end Build

/-! ## Room in a group -/

namespace Plan

/-- Why an item is not put into a group, if there is a reason. -/
def refusal? (state : Build ν) (item : Item ν) (source : SourceId) (g : Group ν) :
    Option (Reason ν) :=
  if !g.items.contains item.id then some (.notOffered item.label g.name)
  else if state.targetLevel < (g.level : Level ν) then some (.opensLater g.level state.targetLevel)
  else if state.isSettled g.level then some .settled
  else
    let members := state.membersOf source g.id
    match g.limit with
    | none => none
    | some limit =>
      if g.isExclusive then if members.any fun m => m.locked then some .settled else none
      else if limit ≤ members.length then some (.groupFull limit) else none

variable {s s' : Build ν} {item : Item ν} {source : SourceId} {g : Option (Group ν)}

omit [Number ν] in
theorem spares_of_not_exclusive {found : Group ν} (h : found.isExclusive = false)
    (l : List (Selection ν)) : l.filter (Group.spares source (some found)) = l := by
  apply List.filter_eq_self.mpr
  intro x _
  simp [Group.spares, h]

/-- **There is room for an item unless there is a reason against it**, and then all selections stay
that the group spares. -/
theorem outcome_roomFor (s : Build ν) (item : Item ν) (source : SourceId) (g : Option (Group ν)) :
    (roomFor s item source g).outcome = .ok (match g.bind (refusal? s item source) with
      | some reason => .error reason
      | none => .ok (s.selections.filter (Group.spares source g))) := by
  cases g with
  | none =>
      have hall : s.selections.filter (Group.spares source none) = s.selections :=
        List.filter_eq_self.mpr fun _ _ => rfl
      show Except.ok (Except.ok s.selections) = _
      rw [hall]
      rfl
  | some g =>
      show (makeRoom s item source g).outcome = .ok (match refusal? s item source g with
        | some reason => .error reason
        | none => .ok (s.selections.filter (Group.spares source (some g))))
      unfold makeRoom refusal?
      by_cases hlisted : (!g.items.contains item.id) = true
      · rw [if_pos hlisted, if_pos hlisted]
        rfl
      rw [if_neg hlisted, if_neg hlisted]
      by_cases hlow : s.targetLevel < (g.level : Level ν)
      · rw [if_pos hlow, if_pos hlow]
        rfl
      rw [if_neg hlow, if_neg hlow]
      by_cases hsettled : s.isSettled g.level = true
      · rw [if_pos hsettled, if_pos hsettled]
        rfl
      rw [if_neg hsettled, if_neg hsettled]
      cases hlimit : g.limit with
      | none =>
          rw [spares_of_not_exclusive (by simp [Group.isExclusive, hlimit])]
          rfl
      | some limit =>
          dsimp only
          by_cases hexclusive : g.isExclusive = true
          · rw [if_pos hexclusive, if_pos hexclusive]
            by_cases hmember : ((s.membersOf source g.id).any fun m => m.locked) = true
            · rw [if_pos hmember, if_pos hmember]
              rfl
            · rw [if_neg hmember, if_neg hmember]
              -- the members are noted one by one, and then they make room
              refine Traced.outcome_bind_eq_ok.mpr ⟨⟨⟩, outcome_forM_note _ _, ?_⟩
              rw [Group.spares_of_exclusive hexclusive]
              rfl
          · rw [if_neg hexclusive, if_neg hexclusive]
            by_cases hfull : limit ≤ (s.membersOf source g.id).length
            · rw [if_pos hfull, if_pos hfull]
              rfl
            · rw [if_neg hfull, if_neg hfull,
                spares_of_not_exclusive (by simpa using hexclusive)]
              rfl

/-- The reasons against an item are found among the selections that concern its group. -/
theorem refusal?_alike (hrest : s' = { s with selections := s'.selections })
    (h : Build.Alike source.name g s.selections s'.selections) :
    g.bind (refusal? s' item source) = g.bind (refusal? s item source) := by
  have htarget : s'.targetLevel = s.targetLevel := by rw [hrest]
  have hsettled : ∀ level, s'.isSettled level = s.isSettled level := by
    intro level
    rw [hrest]
    rfl
  cases g with
  | none => rfl
  | some g =>
      show refusal? s' item source g = refusal? s item source g
      unfold refusal?
      rw [htarget, hsettled, h.membersOf_eq]

end Plan

/-! ## What a pick comes to -/

/-- A request to select an item. -/
structure Pick (ν : Type) where
  item : Item ν
  source : SourceId
  group : Value ν
  payload : Value ν

namespace Pick

/-- The request as it is carried out. -/
def carryOut {κ : Type} (run : κ → Action ν κ (Answer ν)) (p : Pick ν) : Action ν κ (Result ν) :=
  Session.select run p.item p.source p.group p.payload

/-- The selection that a payload makes, in the group whose id is kept, with a reason if it is not
all that was asked for. -/
def paid (p : Pick ν) (kept : Value ν) : Except (Fault ν) (Selection ν × Option (Reason ν)) :=
  (Plan.pay p.item (p.payload.orElse (.object []))
    { id := p.item.id, source := p.source, group := kept }).outcome

/-- What picking an item that is not selected comes to: the answer, and the selection that is put
into the build, if one is. -/
def weigh (p : Pick ν) (index : Index ν) (checks : Bool) (s : Build ν) (g : Option (Group ν))
    (kept : Value ν) : Except (Fault ν) (Result ν × Option (Selection ν)) :=
  match g.bind (Plan.refusal? s p.item p.source) with
  | some reason => .ok (⟨false, some reason⟩, none)
  | none => do
    let (x, reason) ← p.paid kept
    Build.allow index checks (s.selections.filter (Group.spares p.source g)) x
    .ok (⟨true, reason⟩, some x)

variable {p : Pick ν} {index : Index ν} {checks : Bool} {s s' : Build ν} {g : Option (Group ν)}
  {kept : Value ν}

/-- **A pick comes to the same where the selections are the same that concern its group.** -/
theorem weigh_alike (hfor : (Plan.groupFor index p.item p.source p.group).outcome = .ok (g, kept))
    (hrest : s' = { s with selections := s'.selections })
    (h : Build.Alike p.source.name g s.selections s'.selections) :
    p.weigh index checks s' g kept = p.weigh index checks s g kept := by
  unfold weigh
  rw [Plan.refusal?_alike hrest h]
  cases g.bind (Plan.refusal? s p.item p.source) with
  | some reason => rfl
  | none =>
      dsimp only
      cases hpaid : p.paid kept with
      | error fault => rfl
      | ok paid =>
          obtain ⟨x, reason⟩ := paid
          obtain ⟨hplace, _⟩ := Plan.pay_holds hpaid
          have hnamed := (Plan.groupNamed_of_groupFor hfor).1
          have hx : index.groupNamed x.source.name x.group = .ok g := by
            rw [hplace.source, hplace.group]
            exact hnamed
          have hothers : Build.Alike x.source.name g
              (s.selections.filter (Group.spares p.source g))
              (s'.selections.filter (Group.spares p.source g)) := by
            rw [hplace.source]
            exact h.filter _
          have hallow : Build.allow index checks (s'.selections.filter (Group.spares p.source g)) x
              = Build.allow index checks (s.selections.filter (Group.spares p.source g)) x :=
            hothers.allow_eq hx
          show (do Build.allow .. ; _) = _
          rw [hallow]
          rfl

/-! ## Picks for different groups -/

/-- Where the item of a pick belongs: the group it is offered in, and the id that is kept of it. -/
structure Placed (p : Pick ν) (index : Index ν) (g : Option (Group ν)) (kept : Value ν) : Prop where
  resolved : (Rules.resolveGroup index p.item p.source p.group).outcome = .ok g
  found : (Plan.groupFor index p.item p.source p.group).outcome = .ok (g, kept)
  named : kept = .null ∨ ∃ id, kept = .text id

/-- Whether two picks resolve to different groups, or one of them to no group. -/
def Apart (p q : Pick ν) (index : Index ν) : Prop :=
  ∀ g g', (Rules.resolveGroup index p.item p.source p.group).outcome = .ok (some g) →
    (Rules.resolveGroup index q.item q.source q.group).outcome = .ok (some g') →
      (p.source.name, g.id) ≠ (q.source.name, g'.id)

variable {q : Pick ν} {g' : Option (Group ν)} {kept' : Value ν} {x : Selection ν}

omit [Number ν] in
theorem exists_placed (index : Index ν) (hgroup : p.group = .null ∨ ∃ id, p.group = .text id) :
    ∃ g kept, p.Placed index g kept := by
  obtain ⟨g, hg⟩ : ∃ g, (Rules.resolveGroup index p.item p.source p.group).outcome = .ok g :=
    Rules.resolveGroup_eq_ok hgroup
  obtain ⟨kept, hfor⟩ := Plan.groupFor_of_resolveGroup hg
  refine ⟨g, kept, hg, hfor, ?_⟩
  rcases (Plan.groupNamed_of_groupFor hfor).2 with hkept | ⟨_, hkept⟩
  · rw [hkept]
    exact hgroup
  · exact Or.inr hkept

omit [Number ν] in
theorem Apart.symm (h : p.Apart q index) : q.Apart p index :=
  fun g g' hg hg' heq => h g' g hg' hg heq.symm

omit [Number ν] in
/-- The id that is kept of the one group does not name the other one. -/
theorem Apart.not_named (h : p.Apart q index) (hp : p.Placed index g kept)
    (hq : q.Placed index g' kept') {found : Group ν} (hfound : g' = some found)
    (hname : p.source.name = q.source.name) : kept ≠ .text found.id := by
  intro hkept
  subst hfound
  have hother := (Plan.groupNamed_of_groupFor hq.found).1
  obtain ⟨id, _, hof⟩ := index.groupNamed_eq_ok_some hother
  obtain ⟨_, rfl⟩ := index.mem_of_groupOf? hof
  -- the same name and id lead to the same group
  have hown := (Plan.groupNamed_of_groupFor hp.found).1
  rw [hkept, hname, Index.groupNamed_text, hof] at hown
  obtain rfl := Except.ok.inj hown
  exact h found found hp.resolved hq.resolved (by rw [hname])

omit [Number ν] in
/-- A selection with the group of the one pick does not concern the group of the other. -/
theorem Apart.concerns_eq_false (h : p.Apart q index) (hp : p.Placed index g kept)
    (hq : q.Placed index g' kept') (hsource : x.source.name = p.source.name)
    (hgroup : x.group = kept) : Group.concerns q.source.name g' x = false := by
  have hordered : (x.group.isNull || (Build.groupName? x).isSome) = true := by
    rw [Build.groupName?, hgroup]
    rcases hp.named with hnull | ⟨id, htext⟩
    · rw [hnull]
      rfl
    · rw [htext]
      rfl
  unfold Group.concerns
  rw [hordered, Bool.not_true, Bool.or_false]
  cases hfound : g' with
  | none => rfl
  | some found =>
      rw [Option.any_some, Bool.and_eq_false_iff]
      by_cases hname : p.source.name = q.source.name
      · right
        have hnot := h.not_named hp hq hfound hname
        rw [← Bool.not_eq_true, Value.isText_iff, hgroup]
        exact hnot
      · left
        rw [hsource]
        simpa using hname

omit [Number ν] in
/-- **A pick neither adds nor removes a selection that concerns the group of another.** -/
theorem Apart.alike (h : p.Apart q index) (hp : p.Placed index g kept)
    (hq : q.Placed index g' kept') (hsource : x.source = p.source) (hgroup : x.group = kept)
    (l : List (Selection ν)) :
    Build.Alike q.source.name g' l (l.filter (Group.spares p.source g) ++ [x]) := by
  have hx : Group.concerns q.source.name g' x = false :=
    h.concerns_eq_false hp hq (by rw [hsource]) hgroup
  unfold Build.Alike
  rw [List.filter_append, List.filter_cons_of_neg (by simp [hx]), List.filter_nil,
    List.append_nil, List.filter_filter]
  apply List.filter_congr
  intro y _
  cases hspares : Group.spares p.source g y with
  | true => rw [Bool.and_true]
  | false =>
      -- what makes room is in the group of the first pick
      obtain ⟨found, hfound, hin⟩ : ∃ found, g = some found ∧ y.isIn p.source found.id = true := by
        cases g with
        | none => cases hspares
        | some found =>
            simp only [Group.spares, Option.any_some, Bool.not_eq_false', Bool.and_eq_true]
              at hspares
            exact ⟨found, rfl, hspares.2⟩
      simp only [Selection.isIn, Bool.and_eq_true, decide_eq_true_eq, Value.isText_iff] at hin
      have hkept : y.group = kept := by
        have hown := (Plan.groupNamed_of_groupFor hp.found).1
        rw [hfound] at hown
        obtain ⟨id, hid, hof⟩ := index.groupNamed_eq_ok_some hown
        obtain ⟨_, rfl⟩ := index.mem_of_groupOf? hof
        rw [hin.2, hid]
      rw [h.concerns_eq_false hp hq (by rw [hin.1]) hkept, Bool.and_false]

end Pick

/-! ## Carrying out a pick -/

/-- What the check finds once the selection of a pick is put into a state without violations. -/
theorem Pick.Placed.violations_put {p : Pick ν} {index : Index ν} {s : Build ν}
    {g : Option (Group ν)} {kept : Value ν} {x : Selection ν} {reason : Option (Reason ν)}
    (hp : p.Placed index g kept) (hclean : s.violations index = .ok [])
    (hnew : s.selection? p.item.id none = none) (hpaid : p.paid kept = .ok (x, reason)) :
    let others := s.selections.filter (Group.spares p.source g)
    Build.violations { s with selections := others ++ [x] } index
      = if Build.clashes others x then .error .wrongKind
        else .ok (Build.overfills index others x) := by
  intro others
  obtain ⟨hplace, _⟩ := Plan.pay_holds hpaid
  apply Build.violations_put hclean List.filter_sublist
  · intro y hy
    rw [hplace.id]
    exact Build.selection?_none hnew y (List.mem_of_mem_filter hy)
  · exact hplace.locked
  · rw [hplace.group]
    exact hp.named

/-- The plan for an item that is not selected. -/
theorem Pick.outcome_select (p : Pick ν) {index : Index ν} {s : Build ν} {g : Option (Group ν)}
    {kept : Value ν} (hnew : s.selection? p.item.id none = none) (hp : p.Placed index g kept) :
    (Plan.select index s p.item p.source p.group p.payload).outcome
      = match g.bind (Plan.refusal? s p.item p.source) with
        | some reason => .ok (Plan.refuse reason)
        | none => (p.paid kept).map fun paid =>
          Plan.selections s (s.selections.filter (Group.spares p.source g) ++ [paid.1])
            (.selected p.item.id p.source.name kept) paid.2 := by
  unfold Plan.select
  rw [Traced.outcome_bind_of_ok hp.found]
  dsimp only
  rw [hnew]
  dsimp only
  rw [Traced.outcome_bind_of_ok (Plan.outcome_roomFor s p.item p.source g)]
  cases g.bind (Plan.refusal? s p.item p.source) with
  | some reason => rfl
  | none =>
      dsimp only
      rw [Traced.outcome_bind]
      unfold paid
      cases (Plan.pay p.item (p.payload.orElse (.object []))
        { id := p.item.id, source := p.source, group := kept }).outcome with
      | error fault => rfl
      | ok paid => rfl

/-- A state once a pick has come to something: with the new selection behind all that stay, or as it
was. -/
def Pick.applied (p : Pick ν) (g : Option (Group ν)) (s : Build ν) :
    Except (Fault ν) (Result ν × Option (Selection ν)) → Build ν
  | .ok (_, some x) =>
    { s with selections := s.selections.filter (Group.spares p.source g) ++ [x] }
  | _ => s

namespace Session

variable {κ : Type} {run : κ → Action ν κ (Answer ν)} {s s' : Session ν κ} {p q : Pick ν}
  {g g' : Option (Group ν)} {kept kept' : Value ν}
  {w : Except (Fault ν) (Result ν × Option (Selection ν))} {t t' : Turn ν κ (Result ν)}

/-- A session that stands idle on a state that passes the check. -/
structure Ready (s : Session ν κ) : Prop where
  idle : s.announcing = false
  clean : s.Passes s.state

/-- Two turns give the same answer, unless a listener lets out a fault in one of them. -/
def SameAnswer (t t' : Turn ν κ (Result ν)) : Prop :=
  t.outcome = t'.outcome ∨ ∃ d ∈ t.deliveries ++ t'.deliveries, ∃ fault, d.outcome = .error fault

/-- **How a pick is carried out** that comes to something: the new state is in place, and the answer
is given unless a listener lets out a fault. -/
structure Picked (s : Session ν κ) (p : Pick ν) (g : Option (Group ν)) (kept : Value ν)
    (t : Turn ν κ (Result ν)) (w : Except (Fault ν) (Result ν × Option (Selection ν))) : Prop where
  index : t.session.index = s.index
  config : t.session.config = s.config
  ready : t.session.Ready
  state : t.session.state = p.applied g s.state w
  answer : t.outcome = w.map Prod.fst ∨ ∃ d ∈ t.deliveries, ∃ fault, d.outcome = .error fault
  place : ∀ r x, w = .ok (r, some x) → x.id = p.item.id ∧ x.source = p.source ∧ x.group = kept

/-- A turn that changes nothing. -/
theorem Picked.of_session_eq (hready : s.Ready) (hs : t.session = s)
    (ho : t.outcome = w.map Prod.fst) (hw : ∀ r x, w ≠ .ok (r, some x)) :
    s.Picked p g kept t w where
  index := by rw [hs]
  config := by rw [hs]
  ready := by rw [hs]; exact hready
  state := by
    rw [hs]
    unfold Pick.applied
    split
    · exact absurd rfl (hw _ _)
    · rfl
  answer := Or.inl ho
  place := fun r x hx => absurd hx (hw r x)

/-- A turn that puts a selection into the build. -/
theorem Picked.of_replaced {r : Result ν} {x : Selection ν} {state : Build ν} {changed : Bool}
    (hstate : state = p.applied g s.state (.ok (r, some x))) (hpass : s.Passes state)
    (hs : s.Replaced state changed t.session)
    (ho : t.outcome = .ok r ∨ ∃ d ∈ t.deliveries, ∃ fault, d.outcome = .error fault)
    (hplace : x.id = p.item.id ∧ x.source = p.source ∧ x.group = kept) :
    s.Picked p g kept t (.ok (r, some x)) where
  index := hs.index
  config := hs.config
  ready := by
    refine ⟨hs.idle, ?_⟩
    unfold Passes
    rw [hs.config, hs.index, hs.state]
    exact hpass
  state := by rw [hs.state, hstate]
  answer := ho
  place := by
    intro r' x' h
    obtain ⟨_, hx⟩ := Prod.mk.inj (Except.ok.inj h)
    obtain rfl := Option.some.inj hx
    exact hplace

/-- A selection is allowed if the check lets the state pass. -/
theorem allow_of_passes {others : List (Selection ν)} {x : Selection ν} {state : Build ν}
    (h : s.config.checksState = true → state.violations s.index
      = if Build.clashes others x then .error .wrongKind
        else .ok (Build.overfills s.index others x)) (hpass : s.Passes state) :
    Build.allow s.index s.config.checksState others x = .ok () := by
  unfold Build.allow
  cases hchecks : s.config.checksState with
  | false => rfl
  | true =>
      have hfound := (h hchecks).symm.trans (hpass hchecks)
      split at hfound
      · cases hfound
      · rename_i hclash
        rw [if_neg (by simp), if_neg hclash, Except.ok.inj hfound]

/-- A check that fails is a refusal to allow the selection. -/
theorem allow_of_barred {others : List (Selection ν)} {x : Selection ν} {state : Build ν}
    {fault : Fault ν}
    (h : s.config.checksState = true → state.violations s.index
      = if Build.clashes others x then .error .wrongKind
        else .ok (Build.overfills s.index others x)) (hbar : s.Barred state fault) :
    Build.allow s.index s.config.checksState others x = .error fault := by
  obtain ⟨hchecks, hfailed⟩ := hbar
  rw [h hchecks] at hfailed
  unfold Build.allow
  rw [hchecks, if_neg (by simp)]
  split at hfailed
  · rename_i hclash
    rw [if_pos hclash]
    rcases hfailed with hfault | ⟨_, hfault, _⟩
    · rw [Except.error.inj hfault]
    · cases hfault
  · rename_i hclash
    rw [if_neg hclash]
    rcases hfailed with hfault | ⟨problems, hfault, hne, rfl⟩
    · cases hfault
    · obtain rfl := Except.ok.inj hfault
      split
      · rename_i hnil
        exact absurd hnil hne
      · rfl

/-- A turn that is to put a selection into the build, as far as the check allows it. -/
theorem Picked.of_carried {change : Change ν} {reason : Option (Reason ν)} {x : Selection ν}
    (hready : s.Ready) (hcarried : s.Carried t (.commit change reason))
    (hstate : change.state = p.applied g s.state (.ok (⟨true, reason⟩, some x)))
    (hplace : x.id = p.item.id ∧ x.source = p.source ∧ x.group = kept)
    (hfound : s.config.checksState = true → change.state.violations s.index
      = if Build.clashes (s.state.selections.filter (Group.spares p.source g)) x then
          .error .wrongKind
        else .ok (Build.overfills s.index
          (s.state.selections.filter (Group.spares p.source g)) x)) :
    s.Picked p g kept t (do
      Build.allow s.index s.config.checksState
        (s.state.selections.filter (Group.spares p.source g)) x
      .ok (⟨true, reason⟩, some x)) := by
  cases hcarried with
  | made hpass hs ho =>
      rw [allow_of_passes hfound hpass]
      show s.Picked p g kept t (.ok (⟨true, reason⟩, some x))
      exact .of_replaced hstate hpass hs (Or.inl ho) hplace
  | broken hpass hs _ hd =>
      obtain ⟨d, hmem, hd⟩ := hd
      rw [allow_of_passes hfound hpass]
      show s.Picked p g kept t (.ok (⟨true, reason⟩, some x))
      exact .of_replaced hstate hpass hs (Or.inr ⟨d, hmem, _, hd⟩) hplace
  | @barred _ _ fault hs _ ho hbar =>
      rw [allow_of_barred hfound hbar]
      show s.Picked p g kept t (.error fault)
      exact .of_session_eq hready hs ho (by simp)

/-- **A pick of an item that is not selected is carried out as it was weighed.** -/
theorem carryOut_picked (hrun : ∀ c, (run c).LeavesBuild) (hready : s.Ready)
    (hnew : s.state.selection? p.item.id none = none) (hp : p.Placed s.index g kept) :
    s.Picked p g kept (p.carryOut run s) (p.weigh s.index s.config.checksState s.state g kept) := by
  have hplan := p.outcome_select hnew hp
  unfold Pick.weigh Pick.carryOut
  cases hreason : g.bind (Plan.refusal? s.state p.item p.source) with
  | some reason =>
      rw [hreason] at hplan
      dsimp only at hplan ⊢
      cases select_carried hrun hready.idle hplan with
      | kept hs _ ho => exact .of_session_eq hready hs ho (by simp)
  | none =>
      rw [hreason] at hplan
      dsimp only at hplan ⊢
      cases hpaid : p.paid kept with
      | error fault =>
          rw [hpaid] at hplan
          obtain ⟨hs, _, ho⟩ := select_faulted hready.idle hplan
          show s.Picked p g kept _ (.error fault)
          exact .of_session_eq hready hs ho (by simp)
      | ok paid =>
          obtain ⟨x, reason⟩ := paid
          rw [hpaid] at hplan
          obtain ⟨hplace, _⟩ := Plan.pay_holds hpaid
          have hcarried := select_carried hrun hready.idle hplan
          exact .of_carried hready hcarried rfl ⟨hplace.id, hplace.source, hplace.group⟩
            fun hchecks => hp.violations_put (hready.clean hchecks) hnew hpaid

/-! ## Two picks -/

/-- After the one pick, the other comes to what it would have come to before. -/
theorem Picked.next (hrun : ∀ c, (run c).LeavesBuild) (hapart : p.Apart q s.index)
    (hp : p.Placed s.index g kept) (hq : q.Placed s.index g' kept')
    (hid : p.item.id ≠ q.item.id) (hnew : s.state.selection? q.item.id none = none)
    (hfirst : s.Picked p g kept t w) :
    t.session.Picked q g' kept' (q.carryOut run t.session)
      (q.weigh s.index s.config.checksState s.state g' kept') := by
  have hq' : q.Placed t.session.index g' kept' := by
    rw [hfirst.index]
    exact hq
  have hsame : t.session.state.selection? q.item.id none = none ∧
      q.weigh s.index s.config.checksState t.session.state g' kept'
        = q.weigh s.index s.config.checksState s.state g' kept' := by
    rw [hfirst.state]
    unfold Pick.applied
    split
    · rename_i r x
      obtain ⟨hxid, hxsource, hxgroup⟩ := hfirst.place r x rfl
      constructor
      · apply List.find?_eq_none.mpr
        intro y hy
        rcases List.mem_append.mp hy with hy | hy
        · have hyid := Build.selection?_none hnew y (List.mem_of_mem_filter hy)
          simp [Selection.isOf, hyid]
        · rw [List.mem_singleton.mp hy]
          simp [Selection.isOf, hxid, hid]
      · exact Pick.weigh_alike hq.found rfl (hapart.alike hp hq hxsource hxgroup _)
    · exact ⟨hnew, rfl⟩
  have hnext := carryOut_picked hrun hfirst.ready hsame.1 hq'
  rw [hfirst.index, hfirst.config, hsame.2] at hnext
  exact hnext

/-- What comes to the same is answered in the same way. -/
theorem Picked.sameAnswer (h : s.Picked p g kept t w) (h' : s'.Picked p g kept t' w) :
    SameAnswer t t' := by
  rcases h.answer with ho | ⟨d, hd, hfault⟩
  · rcases h'.answer with ho' | ⟨d, hd, hfault⟩
    · exact Or.inl (ho.trans ho'.symm)
    · exact Or.inr ⟨d, List.mem_append_right _ hd, hfault⟩
  · exact Or.inr ⟨d, List.mem_append_left _ hd, hfault⟩

/-- Two picks are applied in either order, if each spares what the other puts into the state. -/
theorem applied_reordered (s : Build ν)
    {w' : Except (Fault ν) (Result ν × Option (Selection ν))}
    (hx : ∀ r x, w = .ok (r, some x) → Group.spares q.source g' x = true)
    (hy : ∀ r y, w' = .ok (r, some y) → Group.spares p.source g y = true) :
    (q.applied g' (p.applied g s w) w').Reordered (p.applied g (q.applied g' s w') w) := by
  -- a pick that puts nothing into the state may as well not be there
  rcases w with fault | ⟨r, _ | x⟩
  · exact .refl _
  · exact .refl _
  rcases w' with fault | ⟨r', _ | y⟩
  · exact .refl _
  · exact .refl _
  refine ⟨rfl, ?_⟩
  show ((s.selections.filter (Group.spares p.source g) ++ [x]).filter
      (Group.spares q.source g') ++ [y]).Perm
    ((s.selections.filter (Group.spares q.source g') ++ [y]).filter
      (Group.spares p.source g) ++ [x])
  rw [List.filter_append, List.filter_append, List.filter_cons_of_pos (hx r x rfl),
    List.filter_cons_of_pos (hy r' y rfl), List.filter_nil, List.filter_nil, List.filter_comm,
    List.append_assoc, List.append_assoc]
  exact List.Perm.append_left _ (List.Perm.swap y x [])

/-- Where nobody listens, nobody is told. -/
theorem request_unheard (hrun : ∀ c, (run c).LeavesBuild)
    (plan : Session ν κ → Build ν → Traced ν (Plan ν)) (hidle : s.announcing = false)
    (hnobody : s.registrations = []) :
    (request run plan s).deliveries = [] ∧ (request run plan s).session.registrations = [] := by
  rw [request_of_idle plan hidle]
  cases hplan : (plan s s.state).outcome with
  | error fault =>
      rw [Action.lift_bind_of_error hplan]
      exact ⟨rfl, hnobody⟩
  | ok made =>
      rw [Action.lift_bind_of_ok hplan]
      have hput : ∀ change reason, s.Passes change.state →
          (Session.carryOut run (.commit change reason) s).deliveries = [] ∧
            (Session.carryOut run (.commit change reason) s).session.registrations = [] := by
        intro change reason hpass
        rw [carryOut_of_passes hpass, replace_of_idle _ _ hidle, hnobody]
        exact ⟨rfl, rfl⟩
      cases carryOut_carried hrun (p := made) hidle with
      | kept hs hd _ => exact ⟨hd, by rw [hs]; exact hnobody⟩
      | barred hs hd _ _ => exact ⟨hd, by rw [hs]; exact hnobody⟩
      | made hpass _ _ => exact hput _ _ hpass
      | broken hpass _ _ _ => exact hput _ _ hpass

/-- Without a listener in either turn, the same answer is the same outcome. -/
theorem SameAnswer.outcome_eq (h : SameAnswer t t') (ht : t.deliveries = [])
    (ht' : t'.deliveries = []) : t.outcome = t'.outcome := by
  rcases h with ho | ⟨d, hd, _⟩
  · exact ho
  · rw [ht, ht'] at hd
    cases hd

/-- **Independent picks commute.** Two different items, neither of them selected, are picked in a
state without violations, and the groups they resolve to differ by the name of the source or by id,
or one of them resolves to no group. Then each pick gives the same answer, be it a result or a
fault, whether it goes first or second, unless a listener lets out a fault; and the states after
both are the same but for the order of the selections. -/
theorem picks_commute (hrun : ∀ c, (run c).LeavesBuild) (hidle : s.announcing = false)
    (hclean : s.state.violations s.index = .ok [])
    (hpgroup : p.group = .null ∨ ∃ id, p.group = .text id)
    (hqgroup : q.group = .null ∨ ∃ id, q.group = .text id)
    (hid : p.item.id ≠ q.item.id) (hpnew : s.state.selection? p.item.id none = none)
    (hqnew : s.state.selection? q.item.id none = none) (hapart : p.Apart q s.index) :
    let first := p.carryOut run s
    let second := q.carryOut run s
    let secondAfter := q.carryOut run first.session
    let firstAfter := p.carryOut run second.session
    SameAnswer first firstAfter ∧ SameAnswer second secondAfter ∧
      (s.registrations = [] →
        first.outcome = firstAfter.outcome ∧ second.outcome = secondAfter.outcome) ∧
      secondAfter.session.state.Reordered firstAfter.session.state := by
  intro first second secondAfter firstAfter
  have hready : s.Ready := ⟨hidle, fun _ => hclean⟩
  obtain ⟨g, kept, hp⟩ := Pick.exists_placed s.index hpgroup
  obtain ⟨g', kept', hq⟩ := Pick.exists_placed s.index hqgroup
  have hfirst := carryOut_picked hrun hready hpnew hp
  have hsecond := carryOut_picked hrun hready hqnew hq
  have hsecondAfter := hfirst.next hrun hapart hp hq hid hqnew
  have hfirstAfter := hsecond.next hrun hapart.symm hq hp hid.symm hpnew
  have hanswer := hfirst.sameAnswer hfirstAfter
  have hanswer' := hsecond.sameAnswer hsecondAfter
  refine ⟨hanswer, hanswer', ?_, ?_⟩
  · intro hnobody
    obtain ⟨hfirstDone, hfirstNobody⟩ : first.deliveries = [] ∧ first.session.registrations = [] :=
      request_unheard hrun _ hidle hnobody
    obtain ⟨hsecondDone, hsecondNobody⟩ :
        second.deliveries = [] ∧ second.session.registrations = [] :=
      request_unheard hrun _ hidle hnobody
    have hfirstAfterDone : firstAfter.deliveries = [] :=
      (request_unheard hrun _ hsecond.ready.idle hsecondNobody).1
    have hsecondAfterDone : secondAfter.deliveries = [] :=
      (request_unheard hrun _ hfirst.ready.idle hfirstNobody).1
    exact ⟨hanswer.outcome_eq hfirstDone hfirstAfterDone,
      hanswer'.outcome_eq hsecondDone hsecondAfterDone⟩
  · rw [hsecondAfter.state, hfirst.state, hfirstAfter.state, hsecond.state]
    apply applied_reordered
    · intro r x hx
      obtain ⟨_, hsource, hgroup⟩ := hfirst.place r x hx
      exact Group.spares_of_not_concerns (hapart.concerns_eq_false hp hq (by rw [hsource]) hgroup)
    · intro r y hy
      obtain ⟨_, hsource, hgroup⟩ := hsecond.place r y hy
      exact Group.spares_of_not_concerns
        (hapart.symm.concerns_eq_false hq hp (by rw [hsource]) hgroup)

/-- An item of each of two sources, which share the id of their groups. -/
theorem picks_commute_sharedGroups :
    let p : Pick Double := ⟨plainItem "x", ⟨"A", .primary⟩, .text "g", .null⟩
    let q : Pick Double := ⟨plainItem "y", ⟨"B", .primary⟩, .null, .null⟩
    let s := Guided.after (Guided.sharedStart {}) [.setLevel (.whole 6)]
    let first := p.carryOut Guided.Call.runInside s
    let second := q.carryOut Guided.Call.runInside s
    let secondAfter := q.carryOut Guided.Call.runInside first.session
    let firstAfter := p.carryOut Guided.Call.runInside second.session
    first.outcome = firstAfter.outcome ∧ second.outcome = secondAfter.outcome ∧
      secondAfter.session.state.Reordered firstAfter.session.state := by
  intro p q s first second secondAfter firstAfter
  have hclean : s.state.violations s.index = .ok [] := by
    obtain ⟨problems, hproblems, hnil⟩ := except_eq_ok_of_any (p := List.isEmpty)
      (x := s.state.violations s.index) (by decide +kernel)
    rw [hproblems, List.isEmpty_iff.mp hnil]
  have hempty : s.state.selections = [] := List.isEmpty_iff.mp (by decide +kernel)
  have hidle : s.announcing = false := by decide +kernel
  have hnobody : s.registrations = [] := by decide +kernel
  clear_value s
  have hnew : ∀ id, s.state.selection? id none = none := by
    intro id
    rw [Build.selection?, hempty]
    rfl
  have hapart : p.Apart q s.index := by
    intro g g' _ _ hsame
    -- the sources differ by name
    have hname : p.source.name = q.source.name := (Prod.mk.inj hsame).1
    revert hname
    decide
  obtain ⟨_, _, houtcomes, hstates⟩ := picks_commute Guided.Call.runInside_leavesBuild hidle hclean
    (Or.inr ⟨"g", rfl⟩) (Or.inl rfl) (by decide) (hnew p.item.id) (hnew q.item.id) hapart
  obtain ⟨hfirst, hsecond⟩ := houtcomes hnobody
  exact ⟨hfirst, hsecond, hstates⟩

end Session

end CharacterBuild
