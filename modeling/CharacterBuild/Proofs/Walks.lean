import CharacterBuild.Proofs.Lowering
import CharacterBuild.Proofs.Scale

set_option autoImplicit false

/-! # Walks of the level

The level of a build may be set many times, up and down. What such a walk removes depends on its
lowest point alone: the ids of the groups above a level are among those above any lower level, so
whatever goes on the way would also go at the lowest point, and from there on nothing is left to
remove. The module follows one step (`Build.TakesLevel`), then what all steps of a walk keep that
stays at or above a level (`Build.Walked`), and ends with `Guided.walk_ends`: the state after a
walk is the one before it, at the last level, without the selections in groups above the lowest.
-/

namespace CharacterBuild

variable {ν : Type} [Number ν]

/-! ## Ids above a level -/

/-- No level is above one that it lies at or below. -/
theorem Level.not_le_of_whole_lt {l : Level ν} {n : Int} (h : (n : Level ν) < l) :
    ¬ l ≤ (n : Level ν) := by
  have hlt : (Amount.whole n).compare l.amount = some .lt := h
  rw [Level.compare_whole_swap] at hlt
  intro hle
  have hle : l.amount.compare (.whole n) = some .lt ∨ l.amount.compare (.whole n) = some .eq := hle
  rcases hle with hle | hle
  · rw [hle] at hlt
    cases hlt
  · rw [hle] at hlt
    cases hlt

namespace Index

variable (index : Index ν)

/-- A value is one of the ids above a level if it names a group above it in any source. -/
theorem any_isText_idsAbove (level : Level ν) (group : Value ν) :
    ((index.idsAbove level).any fun id => group.isText id)
      = index.opensAboveAnywhere level group := by
  by_cases htext : ∃ id, group = .text id
  · obtain ⟨id, rfl⟩ := htext
    rw [← index.contains_idsAbove, List.contains_eq_any_beq]
    congr 1
  · have hnone : ∀ id, group ≠ .text id := fun id h => htext ⟨id, h⟩
    rw [index.opensAboveAnywhere_of_not_text level hnone, List.any_eq_false]
    intro id _ hid
    exact hnone id (Value.isText_iff.mp hid)

/-- **What is above a level is above every lower one.** -/
theorem opensAboveAnywhere_of_le {m n : Int} (hmn : m ≤ n) {group : Value ν}
    (h : index.opensAboveAnywhere (n : Level ν) group = true) :
    index.opensAboveAnywhere (m : Level ν) group = true := by
  obtain ⟨source, hsource, habove⟩ := List.any_eq_true.mp h
  refine List.any_eq_true.mpr ⟨source, hsource, ?_⟩
  unfold opensAbove at habove ⊢
  split at habove
  · obtain ⟨g, hg, hlevel⟩ := (Option.any_eq_true ..).mp habove
    have hlevel : n < g.level := by simpa using hlevel
    have hbelow : m < g.level := by omega
    exact (Option.any_eq_true ..).mpr ⟨g, hg, by simpa using hbelow⟩
  · cases habove

end Index

/-! ## One step -/

namespace Build

/-- **What a level that is taken does to a build**: the build aims for it, or did so before. -/
inductive TakesLevel (index : Index ν) (n : Int) (s : Build ν) : Build ν → Prop where
  | aimed : TakesLevel index n s (s.aimedAt index n)
  | already (h : s.targetLevel.same n = true) : TakesLevel index n s s

/-- Whether a selection is in no group that opens above a level in any source. -/
def staysAt (index : Index ν) (m : Int) (x : Selection ν) : Bool :=
  !index.opensAboveAnywhere (m : Level ν) x.group

/-- **What a walk that stays at or above a level keeps**: all but the level aimed at and some
selections in groups above it. -/
structure Walked (index : Index ν) (m : Int) (s s' : Build ν) : Prop where
  rest : s' = { s with targetLevel := s'.targetLevel, selections := s'.selections }
  fewer : s'.selections.Sublist s.selections
  spared : s'.selections.filter (staysAt index m) = s.selections.filter (staysAt index m)

variable {index : Index ν} {m n : Int} {s s' s'' : Build ν}

theorem Walked.refl : Walked index m s s := ⟨rfl, .refl _, rfl⟩

theorem Walked.trans (h : Walked index m s s') (h' : Walked index m s' s'') :
    Walked index m s s'' where
  rest := by
    have hrest := h'.rest
    rw [h.rest] at hrest
    exact hrest
  fewer := h'.fewer.trans h.fewer
  spared := h'.spared.trans h.spared

/-- Going to a level at or above `m` spares what stays at `m`. -/
theorem aimedAt_walked (hmn : m ≤ n) : Walked index m s (s.aimedAt index n) where
  rest := rfl
  fewer := aimedAt_sublist index s n
  spared := by
    unfold aimedAt
    dsimp only
    by_cases hraise : s.targetLevel ≤ (n : Level ν)
    · rw [if_pos hraise]
    · rw [if_neg hraise, List.filter_filter]
      apply List.filter_congr
      intro x _
      unfold staysAt
      cases habove : index.opensAboveAnywhere (n : Level ν) x.group with
      | false => simp
      | true => simp [index.opensAboveAnywhere_of_le hmn habove]

theorem TakesLevel.walked (h : s.TakesLevel index n s') (hmn : m ≤ n) :
    Walked index m s s' := by
  cases h with
  | aimed => exact aimedAt_walked hmn
  | already => exact .refl

/-- From above `m`, a step to `m` leaves what stays there only, and a step elsewhere ends above
`m` again. -/
theorem TakesLevel.reaches_or (h : s.TakesLevel index n s') (hmn : m ≤ n)
    (hlow : (m : Level ν) < s.targetLevel) :
    (n = m ∧ s'.targetLevel = (n : Level ν) ∧ ∀ x ∈ s'.selections, staysAt index m x = true) ∨
      (n ≠ m ∧ (m : Level ν) < s'.targetLevel) := by
  have hnot : ¬ s.targetLevel ≤ (m : Level ν) := Level.not_le_of_whole_lt hlow
  by_cases hnm : n = m
  · subst hnm
    left
    cases h with
    | aimed =>
        refine ⟨rfl, rfl, ?_⟩
        intro x hx
        unfold aimedAt at hx
        rw [if_neg hnot] at hx
        exact (List.mem_filter.mp hx).2
    | already hsame =>
        -- what is below the target is not the same as it
        exact absurd (Or.inr (by simpa [Level.same, Amount.same] using hsame)) hnot
  · right
    refine ⟨hnm, ?_⟩
    cases h with
    | aimed =>
        show (m : Level ν) < (n : Level ν)
        rw [Level.whole_lt_whole]
        omega
    | already => exact hlow

/-- A step from a whole level ends at the level that is set. -/
theorem TakesLevel.target (h : s.TakesLevel index n s') {k : Int}
    (hk : s.targetLevel = (k : Level ν)) : s'.targetLevel = (n : Level ν) := by
  cases h with
  | aimed => rfl
  | already hsame =>
      rw [hk] at hsame ⊢
      have hkn : k = n := by simpa using hsame
      rw [hkn]

end Build

/-! ## Walks -/

namespace Plan

/-- A level is kept without a reason if it is the one that is aimed at. -/
theorem same_of_setLevel_kept {index : Index ν} {config : Config} {state : Build ν}
    {value : Value ν} (h : (setLevel index config state value).outcome = .ok nothing) :
    ∃ n : Int, value = .whole n ∧ state.targetLevel.same n = true := by
  obtain ⟨n, hvalue, ⟨_, hreason⟩ | ⟨_, _, ⟨_, _, _, hreason⟩ | ⟨hsame, _⟩⟩⟩ := setLevel_keeps h
  · cases hreason
  · cases hreason
  · exact ⟨n, hvalue, hsame⟩

end Plan

namespace Guided

/-- The calls that set some levels one after another. -/
def walk (levels : List (Value ν)) : List (Call ν) := levels.map .setLevel

/-- Whether a call was answered, and no reason was given against it. -/
def isTaken (t : Turn ν (Call ν) (Answer ν)) : Bool :=
  match t.outcome with
  | .ok (.result r) => r.reason.isNone
  | _ => false

theorem outcome_of_isTaken {t : Turn ν (Call ν) (Answer ν)} (h : isTaken t = true) :
    ∃ changed, t.outcome = .ok (.result ⟨changed, none⟩) := by
  unfold isTaken at h
  split at h
  · rename_i r hr
    obtain ⟨changed, reason⟩ := r
    have hnone : reason = none := by simpa using h
    exact ⟨changed, by rw [hr, hnone]⟩
  · cases h

variable {s : Session ν (Call ν)} {m : Int} {value : Value ν} {values : List (Value ν)}

/-- **One step of a walk**: the value is a whole number, and the build takes it as its level. -/
theorem takesLevel_of_isTaken (h : isTaken ((Call.setLevel value).run s) = true) :
    ∃ n : Int, value = .whole n ∧
      s.state.TakesLevel s.index n ((Call.setLevel value).run s).session.state := by
  obtain ⟨changed, ho⟩ := outcome_of_isTaken h
  rw [run_setLevel] at ho ⊢
  obtain ⟨result, ho, hresult⟩ := except_map_eq_ok.mp ho
  obtain rfl := Answer.result.inj hresult
  obtain ⟨_, ⟨hp, _, hs⟩ | ⟨change, hp, _, hs⟩⟩ :=
    Session.request_answered Call.runInside_leavesBuild ho
  · rw [Plan.setField, if_pos rfl] at hp
    obtain ⟨n, hvalue, hsame⟩ := Plan.same_of_setLevel_kept hp
    refine ⟨n, hvalue, ?_⟩
    rw [hs]
    exact .already hsame
  · rw [Plan.setField, if_pos rfl] at hp
    obtain ⟨n, hvalue, _, _, _, _, hstate⟩ := Plan.setLevel_commits hp
    refine ⟨n, hvalue, ?_⟩
    rw [hs.state, hstate]
    exact .aimed

theorem index_of_setLevel : ((Call.setLevel value).run s).session.index = s.index :=
  (Call.part Call.runInside_leavesBuild (.setLevel value) s).index_eq Call.runInside_leavesBuild

/-! ### Whole walks -/

theorem turns_walk_cons :
    turns s (walk (value :: values)) = (Call.setLevel value).run s ::
      turns ((Call.setLevel value).run s).session (walk values) := rfl

theorem after_walk_cons :
    after s (walk (value :: values)) = after ((Call.setLevel value).run s).session (walk values) :=
  rfl

/-- **A walk that stays at or above a level** spares what stays there. -/
theorem walk_walked (htaken : ∀ t ∈ turns s (walk values), isTaken t = true)
    (hleast : ∀ n : Int, Value.whole n ∈ values → m ≤ n) :
    Build.Walked s.index m s.state (after s (walk values)).state := by
  induction values generalizing s with
  | nil => exact .refl
  | cons value values ih =>
      rw [turns_walk_cons, List.forall_mem_cons] at htaken
      obtain ⟨n, rfl, hstep⟩ := takesLevel_of_isTaken htaken.1
      have hfirst := hstep.walked (hleast n List.mem_cons_self)
      have hrest := ih htaken.2 fun n hn => hleast n (List.mem_cons_of_mem _ hn)
      rw [index_of_setLevel] at hrest
      exact hfirst.trans hrest

/-- A walk from a whole level ends at the last level that is set. -/
theorem target_walk {k f : Int} (htaken : ∀ t ∈ turns s (walk values), isTaken t = true)
    (hk : s.state.targetLevel = (k : Level ν))
    (hlast : (Value.whole k :: values).getLast? = some (.whole f)) :
    (after s (walk values)).state.targetLevel = (f : Level ν) := by
  induction values generalizing s k with
  | nil =>
      have hkf : k = f := by simpa using hlast
      rw [← hkf]
      exact hk
  | cons value values ih =>
      rw [turns_walk_cons, List.forall_mem_cons] at htaken
      obtain ⟨n, rfl, hstep⟩ := takesLevel_of_isTaken htaken.1
      refine ih htaken.2 (hstep.target hk) ?_
      rwa [List.getLast?_cons_cons] at hlast

/-- **A walk that dips to its lowest level**, from above it, leaves only what stays there, and
ends at the last level that is set. -/
theorem walk_dips (htaken : ∀ t ∈ turns s (walk values), isTaken t = true)
    (hleast : ∀ n : Int, Value.whole n ∈ values → m ≤ n) (hmem : Value.whole m ∈ values)
    (hlow : (m : Level ν) < s.state.targetLevel) {f : Int}
    (hlast : values.getLast? = some (.whole f)) :
    (∀ x ∈ (after s (walk values)).state.selections, Build.staysAt s.index m x = true) ∧
      (after s (walk values)).state.targetLevel = (f : Level ν) := by
  induction values generalizing s with
  | nil => cases hmem
  | cons value values ih =>
      rw [turns_walk_cons, List.forall_mem_cons] at htaken
      obtain ⟨n, rfl, hstep⟩ := takesLevel_of_isTaken htaken.1
      have hleastRest : ∀ n : Int, Value.whole n ∈ values → m ≤ n :=
        fun n hn => hleast n (List.mem_cons_of_mem _ hn)
      rw [after_walk_cons]
      rcases hstep.reaches_or (hleast n List.mem_cons_self) hlow with
        ⟨rfl, htarget, hstay⟩ | ⟨hnm, hlow⟩
      · -- the lowest point: what is there now is all that the rest can keep
        have hrest := walk_walked htaken.2 hleastRest
        exact ⟨fun x hx => hstay x (hrest.fewer.subset hx), target_walk htaken.2 htarget hlast⟩
      · have hmem : Value.whole m ∈ values := by
          rcases List.mem_cons.mp hmem with h | h
          · have hmn : m = n := by simpa using h
            exact absurd hmn.symm hnm
          · exact h
        obtain ⟨first, rest, rfl⟩ := List.exists_cons_of_ne_nil (List.ne_nil_of_mem hmem)
        rw [List.getLast?_cons_cons] at hlast
        have hind := ih htaken.2 hleastRest hmem hlow hlast
        rwa [index_of_setLevel] at hind

/-- A step up leaves the selections as they are. -/
theorem selections_of_raised (h : isTaken ((Call.setLevel value).run s) = true)
    (hraise : ∀ n : Int, value = .whole n → s.state.targetLevel ≤ (n : Level ν)) :
    ((Call.setLevel value).run s).session.state.selections = s.state.selections := by
  obtain ⟨n, hvalue, hstep⟩ := takesLevel_of_isTaken h
  generalize ((Call.setLevel value).run s).session.state = s' at hstep
  cases hstep with
  | aimed =>
      unfold Build.aimedAt
      exact if_pos (hraise n hvalue)
  | already => rfl

theorem turns_append (calls later : List (Call ν)) :
    turns s (calls ++ later) = turns s calls ++ turns (after s calls) later := by
  induction calls generalizing s with
  | nil => rfl
  | cons c calls ih =>
      show c.run s :: turns (c.run s).session (calls ++ later) = _
      rw [ih]
      rfl

/-- **What a walk of the level removes is decided by its lowest point.** Some values are set as
the level one after another, each without a fault or a reason against it. If the lowest of them is
below the level at the start, the build ends at the last of them, without the selections whose
group id some source has above the lowest, and is otherwise what it was. No step up on the way
restores or removes a selection. -/
theorem walk_ends (htaken : ∀ t ∈ turns s (walk values), isTaken t = true)
    (hmem : Value.whole m ∈ values) (hleast : ∀ n : Int, Value.whole n ∈ values → m ≤ n)
    (hlow : (m : Level ν) < s.state.targetLevel) {f : Int}
    (hlast : values.getLast? = some (.whole f)) :
    (after s (walk values)).state = { s.state with
      targetLevel := f
      selections := s.state.selections.filter fun x =>
        !(s.index.idsAbove (m : Level ν)).any fun id => x.group.isText id } ∧
    ∀ before (n : Int) later, values = before ++ .whole n :: later →
      (after s (walk before)).state.targetLevel ≤ (n : Level ν) →
      (after s (walk (before ++ [.whole n]))).state.selections
        = (after s (walk before)).state.selections := by
  constructor
  · have hwalked := walk_walked htaken hleast
    obtain ⟨hstay, htarget⟩ := walk_dips htaken hleast hmem hlow hlast
    have hspared := hwalked.spared
    rw [List.filter_eq_self.mpr hstay] at hspared
    rw [hwalked.rest, htarget, hspared]
    congr 1
    apply List.filter_congr
    intro x _
    rw [s.index.any_isText_idsAbove]
    rfl
  · intro before n later hsplit hraise
    have hstep : isTaken ((Call.setLevel (.whole n)).run (after s (walk before))) = true := by
      apply htaken
      rw [hsplit]
      unfold walk
      rw [List.map_append, turns_append]
      exact List.mem_append_right _ List.mem_cons_self
    have hsame := selections_of_raised hstep fun k hk => by
      have hnk : n = k := by simpa using hk
      rwa [← hnk]
    unfold walk after
    rw [List.map_append, List.foldl_append]
    exact hsame

/-- Up to 7, down to 3, up to 7 and back to 6: the selection in a group goes, as another source's
group with its id opens above 3, and the one in no group stays. -/
theorem walk_ends_sharedGroups :
    let s := after (sharedStart { checksState := false })
      [.setLevel (.whole 6), .select (.named "x") (.named "A") .null .null,
        .select (.named "y") (.named "C") .null .null]
    let values := [Value.whole 7, .whole 3, .whole 7, .whole 6]
    (after s (walk values)).state = { s.state with
      targetLevel := (6 : Int)
      selections := s.state.selections.filter fun x => x.id = "y" } := by
  intro s values
  have htaken : ∀ t ∈ turns s (walk values), isTaken t = true := by decide +kernel
  have hlow : ((3 : Int) : Level Double) < s.state.targetLevel := by decide +kernel
  have hends := (walk_ends htaken (by simp [values]) (by simp [values]) hlow (f := 6) rfl).1
  have hgroups : (s.state.selections.filter fun x =>
      !(s.index.idsAbove ((3 : Int) : Level Double)).any fun id => x.group.isText id)
        = s.state.selections.filter fun x : Selection Double => x.id = "y" :=
    filter_eq_filter_iff.mpr (by decide +kernel)
  rw [hends, hgroups]

end Guided

end CharacterBuild
