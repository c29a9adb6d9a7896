import CharacterBuild.Proofs.Requirements
import CharacterBuild.Proofs.Scale

set_option autoImplicit false

/-! # The levels that count only filter

What the page of a source lacks depends on the target level and on the level at which the build was
restored in one way only: of what the same selections lack under wider bounds, what lies outside of
the narrower ones is left out, and the rest stays in its order and with its wording
(`Completeness.issues_window`).

What an unlock lacks is left out with the unlock, before anything is computed. What a selection
lacks is left out by the level of its group, which is looked up anew. The two agree because the
level that an issue carries is the one it is judged by (`unlockIssue_level`,
`optionIssue_of_narrower`); which bounds are the narrower ones then no longer matters
(`sourceIssues_of_narrower`).
-/

namespace CharacterBuild

variable {ν : Type}

/-! ## Going through part of a list -/

/-- Going through a list and leaving out of what it comes to is going through the list without what
comes to the parts that are left out. -/
theorem mapM_filter_eq_ok {ε α β : Type} {f : α → Except ε (Option β)} {p : α → Bool} {q : β → Bool}
    {l : List α} {r : List (Option β)} (hpq : ∀ a ∈ l, ∀ b, f a = .ok (some b) → q b = p a)
    (h : l.mapM f = .ok r) : ∃ r', (l.filter p).mapM f = .ok r' ∧
      r'.filterMap (fun i => i) = (r.filterMap fun i => i).filter q := by
  induction l generalizing r with
  | nil =>
      obtain rfl : [] = r := Except.ok.inj h
      exact ⟨[], rfl, rfl⟩
  | cons a rest ih =>
      rw [List.mapM_cons, except_bind_eq_ok] at h
      obtain ⟨b, hb, h⟩ := h
      obtain ⟨bs, hbs, h⟩ := except_bind_eq_ok.mp h
      obtain rfl : b :: bs = r := Except.ok.inj h
      obtain ⟨r', hr', hsame⟩ := ih (fun x hx => hpq x (by simp [hx])) hbs
      cases hp : p a with
      | true =>
          refine ⟨b :: r', ?_, ?_⟩
          · rw [List.filter_cons_of_pos hp, List.mapM_cons, hb, hr']
            rfl
          · cases b with
            | none => simpa using hsame
            | some b =>
                have hq : q b = true := by rw [hpq a (by simp) b hb, hp]
                simp [hq, hsame]
      | false =>
          refine ⟨r', by rw [List.filter_cons_of_neg (by simp [hp]), hr'], ?_⟩
          cases b with
          | none => simpa using hsame
          | some b =>
              have hq : q b = false := by rw [hpq a (by simp) b hb, hp]
              simp [hq, hsame]

/-- Steps that leave out of what other steps come to. -/
theorem mapM_eq_ok_of_filter {ε α β : Type} {f g : α → Except ε (Option β)} {q : β → Bool}
    {l : List α} {r : List (Option β)} (hfg : ∀ a ∈ l, ∀ b, f a = .ok b → g a = .ok (b.filter q))
    (h : l.mapM f = .ok r) : ∃ r', l.mapM g = .ok r' ∧
      r'.filterMap (fun i => i) = (r.filterMap fun i => i).filter q := by
  induction l generalizing r with
  | nil =>
      obtain rfl : [] = r := Except.ok.inj h
      exact ⟨[], rfl, rfl⟩
  | cons a rest ih =>
      rw [List.mapM_cons, except_bind_eq_ok] at h
      obtain ⟨b, hb, h⟩ := h
      obtain ⟨bs, hbs, h⟩ := except_bind_eq_ok.mp h
      obtain rfl : b :: bs = r := Except.ok.inj h
      obtain ⟨r', hr', hsame⟩ := ih (fun x hx => hfg x (by simp [hx])) hbs
      refine ⟨b.filter q :: r', ?_, ?_⟩
      · rw [List.mapM_cons, hfg a (by simp) b hb, hr']
        rfl
      · cases b with
        | none => simpa using hsame
        | some b => cases hq : q b <;> simp [Option.filter, hq, hsame]

variable [Number ν]

/-! ## Levels beside a bound -/

namespace Level

/-- What lies above a level lies above all whole levels that are no higher. -/
theorem lt_of_le_of_lt [ExactNumber ν] {l : Level ν} {t n : Int} (ht : (t : Level ν) ≤ l)
    (hn : l < (n : Level ν)) : t < n := by
  have hplaced : ∀ {p}, l.IsAt p → t < n := by
    intro p hp
    have hbelow := (hp.whole_le t).mp ht
    have habove := (hp.lt_whole n).mp hn
    omega
  cases l with
  | whole k => exact hplaced (isAt_whole k)
  | flag b => exact hplaced (isAt_whole (if b then 1 else 0))
  | real x =>
      have hx : Number.compareInt x n = some .lt := hn
      rcases ExactNumber.placed x with hnone | ⟨o, _, ho⟩ | ⟨p, hp⟩
      · rw [hnone] at hx
        cases hx
      -- the negative infinity lies below `t` as well
      · have hlt : o = .lt := Option.some.inj (by rw [← hx, ho])
        have ht' : (Number.compareInt x t).map Ordering.swap = some .lt ∨
          (Number.compareInt x t).map Ordering.swap = some .eq := ht
        rw [ho t, hlt] at ht'
        rcases ht' with ht' | ht' <;> cases ht'
      · exact hplaced hp

/-- A whole level lies above a number or not above it. -/
theorem IsNumber.whole_le_iff [ExactNumber ν] {l : Level ν} (hl : l.IsNumber) (n : Int) :
    (n : Level ν) ≤ l ↔ ¬ l < (n : Level ν) := by
  have hplaced : ∀ {p}, l.IsAt p → ((n : Level ν) ≤ l ↔ ¬ l < (n : Level ν)) := by
    intro p hp
    rw [hp.whole_le, hp.lt_whole]
    omega
  cases l with
  | whole k => exact hplaced (isAt_whole k)
  | flag b => exact hplaced (isAt_whole (if b then 1 else 0))
  | real x =>
      rcases ExactNumber.placed x with hnone | ⟨o, hne, ho⟩ | ⟨p, hp⟩
      · exact absurd (hnone 0) hl.comparable
      · show ((Number.compareInt x n).map Ordering.swap = some .lt ∨
          (Number.compareInt x n).map Ordering.swap = some .eq) ↔
            ¬ Number.compareInt x n = some .lt
        rw [ho n]
        cases o with
        | lt => simp
        | eq => exact absurd rfl hne
        | gt => simp
      · exact hplaced hp

end Level

namespace Completeness

variable {index : Index ν} {config : Config} {state wide narrow : Build ν} {page : Text}

/-! ## Narrower bounds -/

/-- Of two states with the same selections, the second one leaves out some of the levels that count
for the first. -/
structure Narrower (wide narrow : Build ν) (keeps : Int → Bool) : Prop where
  selections : narrow.selections = wide.selections
  isOutside : ∀ level, isOutside narrow level = (isOutside wide level || !keeps level)

/-- What an unlock lacks carries the level of the unlock. -/
theorem unlockIssue_level {selections : List (Selection ν)} {u : Int × Unlock ν} {i : Issue ν}
    (h : (unlockIssue index page selections u).outcome = .ok (some i)) : i.level = some u.1 := by
  unfold unlockIssue at h
  cases hu : u.2 with
  | reward reward => simp [hu] at h
  | choice choice =>
      simp only [hu, Traced.outcome_pure, Except.ok.injEq, Option.map_eq_some_iff] at h
      obtain ⟨lack, _, rfl⟩ := h
      rfl
  | pointBuy pool =>
      simp only [hu, Traced.outcome_bind_eq_ok] at h
      obtain ⟨balance, _, h⟩ := h
      split at h
      · obtain rfl := Option.some.inj (Except.ok.inj h)
        rfl
      · cases h

/-- What counts of a source within narrower bounds is what the narrower bounds keep. -/
theorem activeUnlocks_of_narrower {keeps : Int → Bool} (h : Narrower wide narrow keeps) :
    activeUnlocks index narrow page
      = (activeUnlocks index wide page).filter fun u => keeps u.1 := by
  unfold activeUnlocks Index.unlocks
  cases index.entry? page with
  | none => rfl
  | some entry =>
      dsimp only
      rw [List.filter_filter]
      refine List.filter_congr fun u _ => ?_
      rw [inWindow_eq_not_isOutside, inWindow_eq_not_isOutside, h.isOutside, Bool.not_or,
        Bool.not_not, Bool.and_comm]

/-- Of what a selection lacks, narrower bounds keep what belongs to a level that they keep. -/
theorem optionIssue_of_narrower {keeps : Int → Bool} (h : Narrower wide narrow keeps)
    {x : Selection ν} {found : Option (Issue ν)} (hx : optionIssue index wide page x = .ok found) :
    optionIssue index narrow page x = .ok (found.filter fun i => i.level.all keeps) := by
  unfold optionIssue at hx ⊢
  cases hlocked : x.locked with
  | true =>
      rw [hlocked, if_pos rfl] at hx
      obtain rfl := Except.ok.inj hx
      rfl
  | false =>
      simp only [hlocked, Bool.false_eq_true, if_false] at hx ⊢
      obtain ⟨level, hlevel, hx⟩ := except_bind_eq_ok.mp hx
      rw [hlevel]
      simp only [bind, Except.bind] at hx ⊢
      have houtside : level.any (isOutside narrow)
          = (level.any (isOutside wide) || !level.all keeps) := by
        cases level with
        | none => rfl
        | some level => exact h.isOutside level
      rw [houtside]
      cases hwide : level.any (isOutside wide) with
      | true =>
          simp only [hwide, Except.ok.injEq] at hx
          subst hx
          rfl
      | false =>
          simp only [hwide, Bool.false_or] at hx ⊢
          cases hitem : index.item? x.id with
          | none =>
              simp only [hitem, Except.ok.injEq] at hx
              subst hx
              cases level.all keeps <;> rfl
          | some item =>
              simp only [hitem] at hx ⊢
              split at hx <;> obtain rfl := Except.ok.inj hx <;> cases hkeeps : level.all keeps <;>
                simp_all [Option.filter]

/-- **Narrower bounds leave out what lies outside of them**, of what the page of a source lacks. -/
theorem sourceIssues_of_narrower {keeps : Int → Bool} (h : Narrower wide narrow keeps)
    {found : List (Issue ν)} (hfound : (sourceIssues index wide page).outcome = .ok found) :
    (sourceIssues index narrow page).outcome
      = .ok (found.filter fun i => i.level.all keeps) := by
  have hselections : narrow.selectionsOf (index.keyOf page)
      = wide.selectionsOf (index.keyOf page) := by
    unfold Build.selectionsOf
    rw [h.selections]
  unfold sourceIssues at hfound ⊢
  simp only [Traced.outcome_bind_eq_ok, Index.sourceId_outcome, Except.ok.injEq, exists_eq_left',
    Traced.outcome_mapM, Traced.outcome_lift, Traced.outcome_pure] at hfound ⊢
  obtain ⟨unlocks, hunlocks, options, hoptions, rfl⟩ := hfound
  obtain ⟨unlocks', hunlocks', hkept⟩ := mapM_filter_eq_ok (p := fun u => keeps u.1)
    (q := fun i => i.level.all keeps)
    (fun u _ i hi => by rw [unlockIssue_level hi, Option.all_some]) hunlocks
  obtain ⟨options', hoptions', hkeptOptions⟩ := mapM_eq_ok_of_filter
    (q := fun i => i.level.all keeps)
    (fun x _ found hx => optionIssue_of_narrower h hx) hoptions
  refine ⟨unlocks', ?_, options', ?_, ?_⟩
  · rw [activeUnlocks_of_narrower h, hselections]
    exact hunlocks'
  · rw [hselections]
    exact hoptions'
  · rw [List.filterMap_append, List.filterMap_append, List.filter_append, hkept, hkeptOptions]

/-! ## A lower target, and a restored build -/

/-- A lower target leaves out what lies above it. -/
theorem narrower_of_target [ExactNumber ν] {t : Int} (ht : (t : Level ν) ≤ state.targetLevel) :
    Narrower state { state with targetLevel := .whole t } fun level => decide (level ≤ t) := by
  refine ⟨rfl, fun level => ?_⟩
  show (decide ((t : Level ν) < level) || state.isSettled level) =
    (decide (state.targetLevel < (level : Level ν)) || state.isSettled level || !decide (level ≤ t))
  by_cases hlevel : level ≤ t
  · have habove : ¬ state.targetLevel < (level : Level ν) := fun h => by
      have := Level.lt_of_le_of_lt ht h
      omega
    have hbelow : ¬ (t : Level ν) < (level : Level ν) := fun h => by
      have := Level.whole_lt_whole.mp h
      omega
    simp [hlevel, habove, hbelow]
  · have habove : (t : Level ν) < (level : Level ν) := Level.whole_lt_whole.mpr (by omega)
    simp [hlevel, habove]

/-- Restoring a build leaves out what lies up to the level at which it was restored. -/
theorem narrower_of_restored [ExactNumber ν] {o : Level ν} (ho : o.IsNumber)
    (hmode : state.mode = .creation) :
    Narrower state { state with mode := .continuation, restoredAt := some o }
      fun level => decide (o < (level : Level ν)) := by
  refine ⟨rfl, fun level => ?_⟩
  have hopen : state.isSettled level = false := by
    simp [Build.isSettled, Build.settledUpTo, Build.isRestored, hmode]
  show (decide (state.targetLevel < (level : Level ν)) || decide ((level : Level ν) ≤ o)) =
    (decide (state.targetLevel < (level : Level ν)) || state.isSettled level ||
      !decide (o < (level : Level ν)))
  rw [hopen, Bool.or_false, decide_eq_decide.mpr (ho.whole_le_iff level), decide_not]

/-- A restored build lacks nothing that belongs to a level that was settled. -/
theorem level_of_sourceIssues {found : List (Issue ν)}
    (hfound : (sourceIssues index state page).outcome = .ok found) {i : Issue ν} (hi : i ∈ found)
    {level : Int} (hlevel : i.level = some level) : isOutside state level = false := by
  -- leaving out what is outside already leaves nothing out
  have hsame : Narrower state state fun level => !isOutside state level :=
    ⟨rfl, fun level => by rw [Bool.not_not, Bool.or_self]⟩
  have hkept := sourceIssues_of_narrower hsame hfound
  rw [hfound, Except.ok.injEq] at hkept
  rw [hkept] at hi
  simpa [hlevel] using (List.mem_filter.mp hi).2

/-! ## The page of a source -/

theorem issues_of_source (hattributes : page ≠ attributesPage) (hinfo : page ≠ infoPage)
    {source : Source ν} (hsource : index.source? page = some source) :
    issues index config state page = sourceIssues index state page := by
  unfold issues
  rw [if_neg hattributes, if_neg hinfo, hsource]

/-- **The levels that count only filter** what the page of a source lacks. If the target is lowered,
just what belongs to a level above the new one is left out. If a new build is taken for one that
was restored, just what belongs to a level up to the one at which it was restored is left out. What
is left stays as it was and in its order, and whatever the page of a restored build lacks, it
belongs to no level or to one that is not settled. -/
theorem issues_window [ExactNumber ν] {source : Source ν} (hsource : index.source? page = some source)
    (hattributes : page ≠ attributesPage) (hinfo : page ≠ infoPage) {found : List (Issue ν)}
    (hfound : (issues index config state page).outcome = .ok found) :
    (∀ t : Int, (t : Level ν) ≤ state.targetLevel →
      (issues index config { state with targetLevel := .whole t } page).outcome
        = .ok (found.filter fun i => i.level.all fun level => decide (level ≤ t))) ∧
    (∀ o : Level ν, o.IsNumber → state.mode = .creation →
      (issues index config { state with mode := .continuation, restoredAt := some o } page).outcome
        = .ok (found.filter fun i => i.level.all fun level : Int => decide (o < (level : Level ν)))) ∧
    ∀ o : Level ν, state.mode = .continuation → state.restoredAt = some o →
      ∀ i ∈ found, ∀ level, i.level = some level → ¬ (level : Level ν) ≤ o := by
  rw [issues_of_source hattributes hinfo hsource] at hfound
  refine ⟨fun t ht => ?_, fun o ho hmode => ?_, fun o hmode ho i hi level hlevel => ?_⟩
  · rw [issues_of_source hattributes hinfo hsource]
    exact sourceIssues_of_narrower (narrower_of_target ht) hfound
  · rw [issues_of_source hattributes hinfo hsource]
    exact sourceIssues_of_narrower (narrower_of_restored ho hmode) hfound
  · have hinside := level_of_sourceIssues hfound hi hlevel
    have hsettled : state.isSettled level = decide ((level : Level ν) ≤ o) := by
      simp [Build.isSettled, Build.settledUpTo, Build.isRestored, hmode, ho]
    simp only [isOutside, hsettled, Bool.or_eq_false_iff, decide_eq_false_iff_not] at hinside
    exact hinside.2

/-- At level 6 the choice of a source that opens at level 5 has to be made, and an item of its that is
in no group needs an option. At level 4 only the item does. If the build was restored at level 1,
both still do. -/
theorem issues_window_optionStart :
    let index := Guided.optionStart.index
    let state := (Guided.after Guided.optionStart
      [.setLevel (.whole 6), .select (.named "w") (.named "B") .null .null]).state
    let restored := { state with mode := .continuation, restoredAt := some (.whole 1) }
    ∃ found kept, (issues index {} state "B").outcome = .ok found ∧
      found.map Issue.level = [some 5, none] ∧
      (issues index {} { state with targetLevel := .whole 4 } "B").outcome
        = .ok (found.filter fun i => i.level.all fun level => decide (level ≤ 4)) ∧
      (issues index {} restored "B").outcome = .ok kept ∧
      kept = (found.filter fun i => i.level.all fun level : Int =>
        decide ((.whole 1 : Level Double) < (level : Level Double))) ∧
      ∀ i ∈ kept, ∀ level, i.level = some level → ¬ (level : Level Double) ≤ .whole 1 := by
  intro index state restored
  obtain ⟨found, hfound, hlevels⟩ := except_eq_ok_of_any
    (p := fun found => found.map Issue.level == [some 5, none])
    (x := (issues index {} state "B").outcome) (by decide +kernel)
  obtain ⟨hlowered, hrestored, _⟩ := issues_window rfl (by decide) (by decide) hfound
  have hkept := hrestored (.whole 1) (Level.isNumber_whole 1) (by decide +kernel)
  obtain ⟨_, _, hopen⟩ := issues_window rfl (by decide) (by decide) hkept
  exact ⟨found, _, hfound, eq_of_beq hlevels, hlowered 4 (by decide +kernel), hkept, rfl,
    hopen (.whole 1) rfl rfl⟩

end Completeness

end CharacterBuild
