import CharacterBuild.Proofs.Checking
import CharacterBuild.Proofs.Courses
import Mathlib.Data.List.Nodup

set_option autoImplicit false

/-! # Settled selections

What was selected when a build is restored is settled, and no request is to touch it. There are
two ways in which it goes all the same. Lowering the level removes selections by the bare ids of
their groups, settled or not. And taking back an open selection takes everything with it that is
held of the item from that source; but a build that holds an item twice is not free of
violations, so this cannot happen while states are checked. `Guided.settled_after` follows the
settled selections through all calls and says that nothing else ever becomes of them.

One step of a build is described by `Build.Follows`, which every edit continues
(`Build.Follows.edit`); so it also describes a whole call, and calls are put together by
induction.
-/

namespace CharacterBuild

variable {ν : Type} [Number ν]

/-- Two selections are of the same item and from the same source. -/
def Selection.isTwinOf (x y : Selection ν) : Bool := Selection.isOf y.id (some y.source) x

omit [Number ν] in
@[simp]
theorem Selection.isTwinOf_iff {x y : Selection ν} :
    x.isTwinOf y = true ↔ x.id = y.id ∧ x.source = y.source := by
  simp [isTwinOf, isOf]

namespace Build

/-! ## Losing settled selections -/

/-- The selections that are settled. -/
def settledSelections (s : Build ν) : List (Selection ν) := s.selections.filter (·.locked)

theorem mem_settledSelections {s : Build ν} {x : Selection ν} :
    x ∈ s.settledSelections ↔ x ∈ s.selections ∧ x.locked = true := by
  simp [settledSelections]

/-- An item is held twice from the source of a selection, open and settled. -/
def holdsTwice (s : Build ν) (x : Selection ν) : Bool :=
  s.selections.any (fun y => !y.locked && y.isTwinOf x) &&
    s.settledSelections.any (·.isTwinOf x)

theorem holdsTwice_iff {s : Build ν} {x : Selection ν} :
    s.holdsTwice x = true ↔
      (∃ y ∈ s.selections, y.locked = false ∧ y.id = x.id ∧ y.source = x.source) ∧
        ∃ y ∈ s.selections, y.locked = true ∧ y.id = x.id ∧ y.source = x.source := by
  simp [holdsTwice, mem_settledSelections, and_assoc]

/-- The level that a build was lowered to, if it was. -/
def loweredTo (before after : Build ν) : Option Int :=
  match after.targetLevel with
  | .whole n => if before.targetLevel ≤ (n : Level ν) then none else some n
  | _ => none

/-- A level that the build was lowered to lies below a group of the selection's group id, in
whatever source. -/
def lowersBelow (index : Index ν) (before after : Build ν) (x : Selection ν) : Bool :=
  (before.loweredTo after).any fun n : Int => index.opensAboveAnywhere n x.group

/-- What was settled of an item that was held twice is gone. -/
def takesBack (before after : Build ν) (x : Selection ν) : Bool :=
  before.holdsTwice x && !after.settledSelections.any (·.isTwinOf x)

/-- The ways in which a step loses a settled selection: the level is lowered below a group of
its group's id, or it is taken back together with an open selection. -/
def loses (index : Index ν) (before after : Build ν) (x : Selection ν) : Bool :=
  before.lowersBelow index after x || before.takesBack after x

variable {index : Index ν} {config : Config} {scope : Scope ν} {s s' s'' : Build ν}

theorem loweredTo_of_target_eq (h : s'.targetLevel = s.targetLevel) : s.loweredTo s' = none := by
  unfold loweredTo
  split
  · rename_i n hn
    rw [if_pos]
    rw [← h, hn]
    exact Level.whole_le_whole.mpr (Int.le_refl n)
  · rfl

theorem lowersBelow_of_target_eq (h : s'.targetLevel = s.targetLevel) (x : Selection ν) :
    s.lowersBelow index s' x = false := by
  rw [lowersBelow, loweredTo_of_target_eq h]
  rfl

theorem loweredTo_of_target_whole {n : Int} (h : s'.targetLevel = n) :
    s.loweredTo s' = if s.targetLevel ≤ (n : Level ν) then none else some n := by
  unfold loweredTo
  rw [h]

/-- What is still settled was not taken back. -/
theorem takesBack_of_mem {x : Selection ν} (h : x ∈ s'.settledSelections) :
    s.takesBack s' x = false := by
  have hany : s'.settledSelections.any (·.isTwinOf x) = true :=
    List.any_eq_true.mpr ⟨x, h, by simp⟩
  simp [takesBack, hany]

/-- What was taken back is not settled later. -/
theorem takesBack_of_sublist {x : Selection ν}
    (hsub : s''.settledSelections.Sublist s'.settledSelections) (h : s.takesBack s' x = true) :
    s.takesBack s'' x = true := by
  simp only [takesBack, Bool.and_eq_true, Bool.not_eq_true', List.any_eq_false] at h ⊢
  exact ⟨h.1, fun y hy => h.2 y (hsub.subset hy)⟩

theorem loses_congr (htarget : s''.targetLevel = s'.targetLevel)
    (hsettled : s''.settledSelections = s'.settledSelections) (x : Selection ν) :
    s.loses index s'' x = s.loses index s' x := by
  unfold loses lowersBelow loweredTo takesBack
  rw [htarget, hsettled]

/-- A build that is free of violations holds no item twice. -/
theorem holdsTwice_of_violations (h : s.violations index = .ok []) (x : Selection ν) :
    s.holdsTwice x = false := by
  have hdistinct := nodup_of_violations h
  rw [Bool.eq_false_iff]
  intro htwice
  obtain ⟨⟨y, hy, hopen, hyid, _⟩, z, hz, hlocked, hzid, _⟩ := holdsTwice_iff.mp htwice
  obtain rfl : y = z := List.inj_on_of_nodup_map hdistinct hy hz (hyid.trans hzid.symm)
  rw [hopen] at hlocked
  cases hlocked

/-! ## Edits -/

/-- An item that is held twice after an edit was held twice before. -/
theorem Edit.holdsTwice (h : s.Edit index config scope s') {x : Selection ν}
    (hx : s'.holdsTwice x = true) : s.holdsTwice x = true := by
  rw [holdsTwice_iff] at hx ⊢
  obtain ⟨⟨y, hy, hopen, hyid, hysource⟩, z, hz, hlocked, hzid, hzsource⟩ := hx
  have hsublist : s'.selections.Sublist s.selections →
      (∃ y ∈ s.selections, y.locked = false ∧ y.id = x.id ∧ y.source = x.source) ∧
        ∃ y ∈ s.selections, y.locked = true ∧ y.id = x.id ∧ y.source = x.source := by
    intro hsub
    exact ⟨⟨y, hsub.subset hy, hopen, hyid, hysource⟩, z, hsub.subset hz, hlocked, hzid, hzsource⟩
  cases h with
  | drop => exact hsublist List.filter_sublist
  | aim => exact hsublist (aimedAt_sublist _ _ _)
  | fill hsame => exact hsublist hsame.sublist
  | @put item new g others hnew hid hnewopen _ _ hroom _ =>
      have hzold : z ∈ s.selections := by
        rcases hroom.mem_or_eq hz with hz | rfl
        · exact hz
        · rw [hnewopen] at hlocked
          cases hlocked
      refine ⟨⟨y, ?_, hopen, hyid, hysource⟩, z, hzold, hlocked, hzid, hzsource⟩
      rcases hroom.mem_or_eq hy with hy | rfl
      · exact hy
      · -- the new selection is of an item that was not selected at all
        exact absurd (hzid.trans (hyid.symm.trans hid)) (hnew z hzold)
  | @revise front back a b hs _ hplace _ =>
      -- the changed selection has taken the place of one that counts the same
      have hback : ∀ {w : Selection ν}, w ∈ front ++ b :: back →
          ∃ v ∈ s.selections, v.id = w.id ∧ v.source = w.source ∧ v.locked = w.locked := by
        intro w hw
        rcases eq_or_mem_of_changed hs hw with rfl | hw
        · have ha : a ∈ s.selections := by rw [hs]; simp
          exact ⟨a, ha, hplace.id.symm, hplace.source.symm, hplace.locked.symm⟩
        · exact ⟨w, hw, rfl, rfl, rfl⟩
      obtain ⟨y', hy', hyid', hysource', hylocked⟩ := hback hy
      obtain ⟨z', hz', hzid', hzsource', hzlocked⟩ := hback hz
      exact ⟨⟨y', hy', hylocked.trans hopen, hyid'.trans hyid, hysource'.trans hysource⟩,
        z', hz', hzlocked.trans hlocked, hzid'.trans hzid, hzsource'.trans hzsource⟩

theorem settledSelections_aimedAt (s : Build ν) (n : Int) :
    (s.aimedAt index n).settledSelections =
      if s.targetLevel ≤ (n : Level ν) then s.settledSelections
      else s.settledSelections.filter fun x => !index.opensAboveAnywhere n x.group := by
  by_cases hraise : s.targetLevel ≤ (n : Level ν)
  · simp [settledSelections, aimedAt, hraise]
  · simp only [settledSelections, aimedAt, hraise, if_false, List.filter_filter, Bool.and_comm]

/-- **What an edit does to the settled selections**: nothing, unless it takes back a selection
or aims at a level. -/
theorem Edit.settledSelections (h : s.Edit index config scope s') :
    (s'.targetLevel = s.targetLevel ∧
      (s'.settledSelections = s.settledSelections ∨
        ∃ x ∈ s.selections, x.locked = false ∧
          s'.settledSelections = s.settledSelections.filter fun y => !y.isTwinOf x)) ∨
      ∃ n, scope.aims n ∧ s' = s.aimedAt index n := by
  cases h with
  | @drop x hx hopen =>
      refine Or.inl ⟨rfl, Or.inr ⟨x, hx, hopen, ?_⟩⟩
      unfold Build.settledSelections
      rw [List.filter_filter, List.filter_filter]
      refine List.filter_congr fun y _ => ?_
      rw [Bool.and_comm]
      rfl
  | put _ _ hopen _ _ hroom _ =>
      refine Or.inl ⟨rfl, Or.inl ?_⟩
      unfold Build.settledSelections
      rw [List.filter_append, hroom.filter_locked]
      simp [hopen]
  | revise hs hopen hplace _ =>
      refine Or.inl ⟨rfl, Or.inl ?_⟩
      unfold Build.settledSelections
      rw [hs]
      simp [hplace.locked, hopen]
  | aim haims _ _ _ => exact Or.inr ⟨_, haims, rfl⟩
  | fill hsame =>
      refine Or.inl ⟨hsame.target, Or.inl ?_⟩
      unfold Build.settledSelections
      rw [hsame.selections]

/-! ## Steps -/

/-- **What a step of a build may be**, if it aims at certain levels at most: it keeps the level
or reaches one of these, loses settled selections in the two known ways only, and holds no item
twice that was not held twice before. -/
structure Follows (index : Index ν) (aims : Int → Prop) (s s' : Build ν) : Prop where
  target : s'.targetLevel = s.targetLevel ∨ ∃ n : Int, aims n ∧ s'.targetLevel = n
  settled : s'.settledSelections = s.settledSelections.filter fun x => !s.loses index s' x
  twice : ∀ x, s'.holdsTwice x = true → s.holdsTwice x = true

variable {aims : Int → Prop}

theorem Follows.refl (index : Index ν) (aims : Int → Prop) (s : Build ν) :
    s.Follows index aims s := by
  refine ⟨Or.inl rfl, ?_, fun _ h => h⟩
  rw [List.filter_eq_self.mpr]
  intro x hx
  simp [loses, lowersBelow_of_target_eq, takesBack_of_mem hx]

/-- A step goes on with what changes neither the level nor the settled selections. -/
theorem Follows.keep (h : s.Follows index aims s') (htarget : s''.targetLevel = s'.targetLevel)
    (hsettled : s''.settledSelections = s'.settledSelections)
    (htwice : ∀ x, s''.holdsTwice x = true → s'.holdsTwice x = true) :
    s.Follows index aims s'' where
  target := by rw [htarget]; exact h.target
  settled := by
    rw [hsettled, h.settled]
    exact List.filter_congr fun x _ => by rw [loses_congr htarget hsettled]
  twice := fun x hx => h.twice x (htwice x hx)

/-- What is lost on the way stays lost, and what is settled in the end is not lost. It remains
to be shown that nothing else goes on the way from `s'` to `s''`. -/
theorem Follows.settled_of_filter (h : s.Follows index aims s') {keeps : Selection ν → Bool}
    (hfilter : s''.settledSelections = s'.settledSelections.filter keeps)
    (hlowered : ∀ x ∈ s.settledSelections,
      s.lowersBelow index s' x = true → s.lowersBelow index s'' x = true)
    (hkept : ∀ x ∈ s''.settledSelections, s.lowersBelow index s'' x = false)
    (hgone : ∀ x ∈ s'.settledSelections, keeps x = false → s.loses index s'' x = true) :
    s''.settledSelections = s.settledSelections.filter fun x => !s.loses index s'' x := by
  refine hfilter.trans ?_
  rw [h.settled, List.filter_filter]
  refine List.filter_congr fun x hx => ?_
  have hmem' : x ∈ s'.settledSelections ↔ s.loses index s' x = false := by
    rw [h.settled, List.mem_filter, Bool.not_eq_true']
    exact ⟨fun hx' => hx'.2, fun hl => ⟨hx, hl⟩⟩
  have hmem'' : x ∈ s''.settledSelections ↔ x ∈ s'.settledSelections ∧ keeps x = true := by
    rw [hfilter, List.mem_filter]
  cases hlost : s.loses index s' x with
  | true =>
      -- lost on the way
      have hlost'' : s.loses index s'' x = true := by
        unfold loses at hlost ⊢
        rw [Bool.or_eq_true] at hlost ⊢
        rcases hlost with hlost | hlost
        · exact Or.inl (hlowered x hx hlost)
        · refine Or.inr (takesBack_of_sublist ?_ hlost)
          rw [hfilter]
          exact List.filter_sublist
      simp [hlost'']
  | false =>
      have hx' := hmem'.mpr hlost
      cases hkeeps : keeps x with
      | true =>
          have hx'' := hmem''.mpr ⟨hx', hkeeps⟩
          simp [loses, hkept x hx'', takesBack_of_mem hx'']
      | false => simp [hgone x hx' hkeeps]

/-- A step goes on when an open selection is taken back, with its settled twins. -/
theorem Follows.takeBack (h : s.Follows index aims s') {x : Selection ν}
    (hx : x ∈ s'.selections) (hopen : x.locked = false)
    (htarget : s''.targetLevel = s'.targetLevel)
    (hsettled : s''.settledSelections = s'.settledSelections.filter fun y => !y.isTwinOf x)
    (htwice : ∀ y, s''.holdsTwice y = true → s'.holdsTwice y = true) :
    s.Follows index aims s'' := by
  have hsame : ∀ y, s.lowersBelow index s'' y = s.lowersBelow index s' y := by
    intro y
    unfold lowersBelow loweredTo
    rw [htarget]
  refine ⟨by rw [htarget]; exact h.target, ?_, fun y hy => h.twice y (htwice y hy)⟩
  refine h.settled_of_filter hsettled (fun y _ hy => by rw [hsame]; exact hy) ?_ ?_
  · intro y hy
    rw [hsettled, List.mem_filter, h.settled, List.mem_filter] at hy
    -- what is still there was not hit by a lowering before
    have hkept := hy.1.2
    simp only [loses, Bool.not_eq_true', Bool.or_eq_false_iff] at hkept
    rw [hsame]
    exact hkept.1
  · intro y hy htwin
    simp only [Bool.not_eq_false', Selection.isTwinOf_iff] at htwin
    have hheld : s'.holdsTwice y = true := by
      rw [holdsTwice_iff]
      obtain ⟨hy, hlocked⟩ := mem_settledSelections.mp hy
      exact ⟨⟨x, hx, hopen, htwin.1.symm, htwin.2.symm⟩, y, hy, hlocked, rfl, rfl⟩
    have hnone : s''.settledSelections.any (·.isTwinOf y) = false := by
      rw [List.any_eq_false]
      intro z hz hzy
      rw [hsettled, List.mem_filter, Bool.not_eq_true'] at hz
      rw [Selection.isTwinOf_iff] at hzy
      have hzx : z.isTwinOf x = true :=
        Selection.isTwinOf_iff.mpr ⟨hzy.1.trans htwin.1, hzy.2.trans htwin.2⟩
      rw [hzx] at hz
      cases hz.2
    simp [loses, takesBack, h.twice y hheld, hnone]

/-- A step goes on when its only level is aimed at. -/
theorem Follows.aim (h : s.Follows index aims s') (haims : ∀ m n, aims m → aims n → m = n)
    {n : Int} (hn : aims n)
    (htwice : ∀ y, (s'.aimedAt index n).holdsTwice y = true → s'.holdsTwice y = true) :
    s.Follows index aims (s'.aimedAt index n) := by
  rcases h.target with htarget | ⟨m, hm, htarget⟩
  · refine ⟨Or.inr ⟨n, hn, rfl⟩, ?_, fun y hy => h.twice y (htwice y hy)⟩
    have hlowered : s.loweredTo (s'.aimedAt index n) =
        if s.targetLevel ≤ (n : Level ν) then none else some n := loweredTo_of_target_whole rfl
    have hsettled : (s'.aimedAt index n).settledSelections = _ := settledSelections_aimedAt s' n
    rw [htarget] at hsettled
    by_cases hraise : s.targetLevel ≤ (n : Level ν)
    · rw [if_pos hraise] at hlowered hsettled
      rw [hsettled, h.settled]
      refine List.filter_congr fun y _ => ?_
      simp only [loses, lowersBelow, takesBack, hlowered, loweredTo_of_target_eq htarget, hsettled]
    · rw [if_neg hraise] at hlowered hsettled
      refine h.settled_of_filter hsettled (fun y _ hy => ?_) (fun y hy => ?_) fun y _ hy => ?_
      · rw [lowersBelow_of_target_eq htarget] at hy
        cases hy
      · rw [hsettled, List.mem_filter] at hy
        simpa [lowersBelow, hlowered] using hy.2
      · have habove : index.opensAboveAnywhere (n : Level ν) y.group = true := by simpa using hy
        simp [loses, lowersBelow, hlowered, habove]
  · -- a second aim at the same level removes nothing
    obtain rfl := haims n m hn hm
    refine h.keep htarget.symm ?_ htwice
    rw [settledSelections_aimedAt, htarget, if_pos (Level.whole_le_whole.mpr (Int.le_refl n))]

/-- **A step goes on with an edit** that aims at its only level, if at any. -/
theorem Follows.edit (h : s.Follows index scope.aims s')
    (haims : ∀ m n, scope.aims m → scope.aims n → m = n)
    (hedit : s'.Edit index config scope s'') : s.Follows index scope.aims s'' := by
  have htwice : ∀ x, s''.holdsTwice x = true → s'.holdsTwice x = true :=
    fun x hx => hedit.holdsTwice hx
  rcases hedit.settledSelections with ⟨htarget, hsettled | ⟨x, hx, hopen, hsettled⟩⟩ |
    ⟨n, hn, rfl⟩
  · exact h.keep htarget hsettled htwice
  · exact h.takeBack hx hopen htarget hsettled htwice
  · exact h.aim haims hn htwice

end Build

/-! ## Calls -/

namespace Guided

/-- The levels that a build is lowered to by some calls. -/
def lowerings : Session ν (Call ν) → List (Call ν) → List Int
  | _, [] => []
  | s, c :: rest =>
    let s' := (c.run s).session
    (s.state.loweredTo s'.state).toList ++ lowerings s' rest

/-- What is settled of the item of a selection is taken back by one of some calls. -/
def takenBack : Session ν (Call ν) → List (Call ν) → Selection ν → Bool
  | _, [], _ => false
  | s, c :: rest, x =>
    let s' := (c.run s).session
    s.state.takesBack s'.state x || takenBack s' rest x

/-- An idle session on a build that was changed. -/
structure Continued (s : Session ν (Call ν)) : Prop where
  idle : s.announcing = false
  changed : s.changed = true

omit [Number ν] in
theorem eq_of_aims {c : Call ν} {index : Index ν} {m n : Int} (hm : (c.scope index).aims m)
    (hn : (c.scope index).aims n) : m = n := by
  cases c with
  | setField name value => simpa using hm.2.symm.trans hn.2
  | setLevel value => simpa using Eq.trans (Eq.symm hm) hn
  | _ => exact hm.elim

/-- What a call may make of a build that was changed before: one step of it. -/
def stepContract (index : Index ν) (config : Config) (c : Call ν) (s : Build ν) :
    Contract ν where
  index := index
  config := config
  holds := fun s' changed => changed = true ∧ s.Follows index (c.scope index).aims s'

theorem stepContract_allows {index : Index ν} {config : Config} {c : Call ν} {s : Build ν} :
    (stepContract index config c s).Allows c := by
  rintro s₁ changed s₂ ⟨rfl, hfollows⟩ heffect
  suffices h : (stepContract index config c s).holds s₂ true from ⟨h, fun _ _ _ _ => h⟩
  cases heffect with
  | restore hchanged _ _ _ => cases hchanged
  | edit hedit => exact ⟨rfl, hfollows.edit (fun m n hm hn => eq_of_aims hm hn) hedit⟩

/-- **One call is one step of the build.** -/
theorem Call.run_follows {s : Session ν (Call ν)} (h : Continued s) (c : Call ν) :
    let s' := (c.run s).session
    s'.index = s.index ∧ Continued s' ∧
      s.state.Follows s.index (c.scope s.index).aims s'.state := by
  intro s'
  have hmeets : (stepContract s.index s.config c s.state).Meets s :=
    ⟨rfl, rfl, h.idle, h.changed, .refl _ _ _⟩
  have hkeeps : (stepContract s.index s.config c s.state).KeepsAt s c.run :=
    Call.run_keeps (.of_all fun _ => trivial) stepContract_allows (fun _ _ => trivial) hmeets
  obtain ⟨hindex, _, hidle, hchanged, hfollows⟩ := (hkeeps fun _ _ => trivial).1
  exact ⟨hindex, ⟨hidle, hchanged⟩, hfollows⟩

/-- **The settled selections after any calls**, by the levels that the build was lowered to and
by what was taken back. -/
theorem settledSelections_after {s : Session ν (Call ν)} (h : Continued s)
    (calls : List (Call ν)) :
    (after s calls).state.settledSelections = s.state.settledSelections.filter fun x =>
      (lowerings s calls).all (fun n : Int => !s.index.opensAboveAnywhere n x.group) &&
        !takenBack s calls x := by
  induction calls generalizing s with
  | nil =>
      show s.state.settledSelections = _
      simp [lowerings, takenBack]
  | cons c rest ih =>
      obtain ⟨hindex, hcontinued, hfollows⟩ := Call.run_follows h c
      have hrest := ih hcontinued
      rw [hfollows.settled, hindex, List.filter_filter] at hrest
      refine hrest.trans (List.filter_congr fun x _ => ?_)
      simp only [lowerings, takenBack, Build.loses, Build.lowersBelow, List.all_append]
      cases Build.loweredTo s.state (c.run s).session.state with
      | none => simp [Bool.and_comm, Bool.and_assoc]
      | some n => simp [Bool.and_comm, Bool.and_assoc, Bool.and_left_comm]

/-- What is taken back at any time was held twice from the beginning. -/
theorem holdsTwice_of_takenBack {s : Session ν (Call ν)} (h : Continued s)
    {calls : List (Call ν)} {x : Selection ν} (hx : takenBack s calls x = true) :
    s.state.holdsTwice x = true := by
  induction calls generalizing s with
  | nil => cases hx
  | cons c rest ih =>
      obtain ⟨_, hcontinued, hfollows⟩ := Call.run_follows h c
      rcases Bool.or_eq_true_iff.mp hx with hx | hx
      · exact (Bool.and_eq_true_iff.mp hx).1
      · exact hfollows.twice x (ih hcontinued hx)

/-! ## From the restoration on -/

/-- If restoring a build succeeds, the state is in place and has passed the check. -/
theorem Call.restore_accepted {s : Session ν (Call ν)} {selections : List (SavedSelection ν)}
    {rest : Restored ν} {answer : Answer ν}
    (h : ((Call.restore selections rest).run s).outcome = .ok answer) :
    ∃ state, s.Passes state ∧
      s.Replaced state true ((Call.restore selections rest).run s).session := by
  cases Call.restores selections rest s with
  | refused _ ho =>
      rw [ho] at h
      cases h
  | @announced saved level change outcome hchanged hstate hnews ho =>
      cases outcome with
      | ok u => exact ⟨change.state, hnews.passes, hnews.replaced⟩
      | error fault =>
          rw [ho] at h
          cases h

/-- **What becomes of settled selections.** After a build was restored, its settled selections
stay as they are through any calls, accepted, refused or ending in a fault, but for those whose
group id some source has a group above a level that the build is lowered to, and for those that
are taken back together with an open selection of the same item; and this only comes about if
states are not checked and the item was held twice when the build was restored. So all of them
stay exactly if neither happens to one of them. -/
theorem settled_after {catalog : Catalog ν} {config : Config} {s : Session ν (Call ν)}
    (hs : (newBuild catalog config).outcome = .ok s) {earlier later : List (Call ν)}
    {selections : List (SavedSelection ν)} {rest : Restored ν} {answer : Answer ν}
    (hrestored : ((Call.restore selections rest).run (after s earlier)).outcome = .ok answer) :
    let s₁ := ((Call.restore selections rest).run (after s earlier)).session
    let s₂ := after s₁ later
    s₂.state.settledSelections = (s₁.state.settledSelections.filter fun x =>
      (lowerings s₁ later).all (fun n : Int => !s₁.index.opensAboveAnywhere n x.group) &&
        !takenBack s₁ later x) ∧
    (∀ x, takenBack s₁ later x = true →
      config.checksState = false ∧ s₁.state.holdsTwice x = true) ∧
    ((∀ x ∈ s₁.state.selections, x.locked = true → x ∈ s₂.state.selections) ↔
      ∀ x ∈ s₁.state.selections, x.locked = true → takenBack s₁ later x = false ∧
        ∀ n ∈ lowerings s₁ later, s₁.index.opensAboveAnywhere (n : Level ν) x.group = false) := by
  intro s₁ s₂
  -- whatever was called before, the session is idle on its first catalog
  have hidle := idle_after hs earlier
  obtain ⟨state, hpass, hr⟩ := Call.restore_accepted hrestored
  have hcontinued : Continued s₁ := ⟨hr.idle, hr.changed⟩
  have hsettled := settledSelections_after hcontinued later
  refine ⟨hsettled, fun x hx => ?_, ?_⟩
  · have htwice := holdsTwice_of_takenBack hcontinued hx
    refine ⟨?_, htwice⟩
    cases hchecks : config.checksState with
    | false => rfl
    | true =>
        have hnone := hpass (by rw [hidle.config]; exact hchecks)
        rw [← hr.state] at hnone
        rw [Build.holdsTwice_of_violations hnone] at htwice
        cases htwice
  · have hmem : ∀ x, x.locked = true → (x ∈ s₂.state.selections ↔
        x ∈ s₁.state.selections ∧ takenBack s₁ later x = false ∧
          ∀ n ∈ lowerings s₁ later, s₁.index.opensAboveAnywhere (n : Level ν) x.group = false) := by
      intro x hlocked
      have hx : x ∈ s₂.state.settledSelections ↔ x ∈ s₁.state.settledSelections.filter fun x =>
          (lowerings s₁ later).all (fun n : Int => !s₁.index.opensAboveAnywhere n x.group) &&
            !takenBack s₁ later x := by
        rw [hsettled]
      simpa [Build.settledSelections, hlocked, and_comm] using hx
    constructor
    · intro h x hx hlocked
      exact ((hmem x hlocked).mp (h x hx hlocked)).2
    · intro h x hx hlocked
      exact (hmem x hlocked).mpr ⟨hx, h x hx hlocked⟩

/-- A settled selection goes when the level is raised to 6 and lowered to 2, for the sake of a
group of its group's id that another source has at level 5. -/
theorem settled_after_sharedGroups :
    let saved : SavedSelection Double :=
      .saved (.object [("groupId", .text "g"), ("id", .text "x"), ("source", .text "A")])
    let s₁ := ((Call.restore [saved] {}).run (sharedStart {})).session
    let s₂ := after s₁ [.setLevel (.whole 6), .setLevel (.whole 2)]
    ¬ ∀ x ∈ s₁.state.selections, x.locked = true → x ∈ s₂.state.selections := by
  intro saved s₁ s₂ hstay
  obtain ⟨answer, h⟩ := except_eq_ok_of_toBool
    (x := ((Call.restore [saved] {}).run (after (sharedStart {}) [])).outcome) (by decide +kernel)
  have hkept := (settled_after (newBuild_sharedGroups {}) h).2.2.mp hstay
  revert hkept
  decide +kernel

end Guided

end CharacterBuild
