import CharacterBuild.Proofs.AllOptions

set_option autoImplicit false

/-! # What is advised on options and what is done

Whether an option may be chosen is asked of the rules (`Rules.judgeOption`) and looked into once
more by the request that takes it (`Plan.takeOption`). Both want the item to be selected and to have
the option, but they part ways twice. The rules count the one option of an item that may have no
other as a full list, while the request puts the new one in its place (`Selection.Swaps`). And the
rules have nothing against an option that is chosen already, while the request looks first whether
the selection is settled (`Selection.HoldsSettled`). `Guided.option_advice_iff` says of every build
that calls lead to that there is no other difference.
-/

namespace CharacterBuild

variable {ν : Type} [Number ν]

namespace Selection

/-- An open selection that would give up its option for another one: the item has the other one, and
may have one only. -/
structure Swaps (item : Item ν) (x : Selection ν) (option : Text) : Prop where
  unlocked : x.locked = false
  offered : option ∈ item.optionIds
  other : (Value.text option).isIn x.options = false
  single : item.optionLimit = some 1
  held : x.options ≠ []

/-- A settled selection that has an option of its item. -/
structure HoldsSettled (item : Item ν) (x : Selection ν) (option : Text) : Prop where
  settled : x.locked = true
  offered : option ∈ item.optionIds
  chosen : (Value.text option).isIn x.options = true

/-- There is room for one option more. -/
def HasRoom (item : Item ν) (x : Selection ν) : Prop :=
  ∀ limit, item.optionLimit = some limit → x.options.length < limit

omit [Number ν] in
/-- Where one option is all that an item may have, there is room before the first one. -/
theorem hasRoom_iff_of_single {item : Item ν} {x : Selection ν} (h : item.optionLimit = some 1) :
    x.HasRoom item ↔ x.options = [] := by
  unfold HasRoom
  rw [h, ← List.length_eq_zero_iff]
  simp only [Option.some.injEq, forall_eq']
  omega

end Selection

variable {index : Index ν} {state : Build ν} {item : Item ν} {source : SourceId} {option : Text}
  {x : Selection ν}

/-! ## The advice -/

namespace Rules

/-- **An option is advised** if the item has it and it is chosen already, or the selection is open
and has room for it. -/
theorem judgeOption_isEnabled (hx : state.selection? item.id (some source) = some x) :
    (judgeOption state item source option).isEnabled = true ↔ option ∈ item.optionIds ∧
      ((Value.text option).isIn x.options = true ∨ x.locked = false ∧ x.HasRoom item) := by
  unfold judgeOption
  rw [hx]
  dsimp only
  by_cases hoffered : option ∈ item.optionIds
  · rw [if_neg (by simpa using hoffered)]
    cases hchosen : (Value.text option).isIn x.options with
    | true => simp [Verdict.isEnabled, hoffered]
    | false =>
        cases hlocked : x.locked with
        | true => simp [Verdict.isEnabled]
        | false =>
            cases hlimit : item.optionLimit with
            | none => simp [Verdict.isEnabled, Selection.HasRoom, hoffered, hlimit]
            | some limit =>
                by_cases hfull : limit ≤ x.options.length
                · simp [Verdict.isEnabled, Selection.HasRoom, hlimit, hfull]
                · simp [Verdict.isEnabled, Selection.HasRoom, hoffered, hlimit, hfull,
                    Nat.lt_of_not_le hfull]
  · rw [if_pos (by simpa using hoffered)]
    simp [Verdict.isEnabled, hoffered]

/-- No option is advised of an item that is not selected. -/
theorem judgeOption_of_none (hx : state.selection? item.id (some source) = none) :
    (judgeOption state item source option).isEnabled = false := by
  unfold judgeOption
  rw [hx]
  rfl

end Rules

/-! ## The request -/

namespace Plan

/-- A plan that turns a request down. -/
def Refuses (p : Plan ν) : Prop := ∃ reason, p = refuse reason

@[simp] theorem refuses_refuse (reason : Reason ν) : (refuse reason).Refuses := ⟨reason, rfl⟩

@[simp] theorem not_refuses_nothing : ¬ (nothing : Plan ν).Refuses := by
  rintro ⟨reason, h⟩
  cases h

@[simp] theorem not_refuses_withOptions {id : Text} {options : List (Value ν)} {note : Note ν}
    {reason : Option (Reason ν)} :
    ¬ (withOptions state id source options note reason).Refuses := by
  rintro ⟨_, h⟩
  cases h

/-- **Taking an option is not turned down** if the selection is open, the item has the option, and
it is chosen already, or the only one, or there is room for it. -/
theorem takeOption_refuses_iff (hx : state.selection? item.id (some source) = some x)
    (hitem : index.item? item.id = some item) (option : Text) :
    ¬ (takeOption index state item.id source option).Refuses ↔
      x.locked = false ∧ option ∈ item.optionIds ∧
        ((Value.text option).isIn x.options = true ∨ item.optionLimit = some 1 ∨
          x.HasRoom item) := by
  unfold takeOption
  rw [hx, hitem]
  dsimp only
  cases hlocked : x.locked with
  | true => simp
  | false =>
      rw [if_neg (by simp)]
      by_cases hoffered : option ∈ item.optionIds
      · rw [if_neg (by simpa using hoffered)]
        cases hchosen : (Value.text option).isIn x.options with
        | true => simp [hoffered]
        | false =>
            rw [if_neg (by simp)]
            cases hlimit : item.optionLimit with
            | none => simp [Selection.HasRoom, hoffered, hlimit]
            | some limit =>
                dsimp only
                by_cases hone : limit = 1
                · simp [hone, hoffered]
                · by_cases hfull : limit ≤ x.options.length
                  · simp [Selection.HasRoom, hone, hlimit, hfull]
                  · simp [Selection.HasRoom, hone, hoffered, hlimit, hfull,
                      Nat.lt_of_not_le hfull]
      · rw [if_pos (by simpa using hoffered)]
        simp [hoffered]

/-- An option of an item that is not selected is not taken. -/
theorem takeOption_of_none {id : Text} (hx : state.selection? id (some source) = none)
    (index : Index ν) (option : Text) : (takeOption index state id source option).Refuses := by
  unfold takeOption
  rw [hx]
  exact refuses_refuse _

omit [Number ν] in
/-- What an option makes of those that are held does not go beyond the limit. -/
theorem TakesOption.fits [Number ν] {held options : List (Value ν)}
    (h : TakesOption item option held options) {limit : Nat} (hlimit : item.optionLimit = some limit) :
    options.length ≤ limit := by
  rcases h.taken with ⟨hone, rfl⟩ | ⟨hroom, rfl⟩
  · rw [hone] at hlimit
    obtain rfl := Option.some.inj hlimit
    simp
  · have hlt := hroom limit hlimit
    rw [List.length_append, List.length_singleton]
    omega

/-- Of an option nothing is left out: it is turned down, or there already, or taken. -/
theorem takeOption_cases (index : Index ν) (state : Build ν) (id : Text) (source : SourceId)
    (option : Text) : (takeOption index state id source option).Refuses ∨
      takeOption index state id source option = nothing ∨
      ∃ change, takeOption index state id source option = .commit change none := by
  unfold takeOption
  split
  · split_ifs
    · exact Or.inl (refuses_refuse _)
    · exact Or.inl (refuses_refuse _)
    · exact Or.inr (Or.inl rfl)
    · dsimp only
      split
      · split_ifs
        · exact Or.inr (Or.inr ⟨_, rfl⟩)
        · exact Or.inl (refuses_refuse _)
        · exact Or.inr (Or.inr ⟨_, rfl⟩)
      · exact Or.inr (Or.inr ⟨_, rfl⟩)
  · exact Or.inl (refuses_refuse _)

end Plan

namespace Turn

variable {κ : Type}

/-- A request is turned down. -/
def Refused (t : Turn ν κ (Result ν)) : Prop := ∃ reason, t.outcome = .ok ⟨false, some reason⟩

/-- A request is met in full. -/
def MetInFull (t : Turn ν κ (Result ν)) : Prop :=
  t.outcome = .ok ⟨true, none⟩ ∨ t.outcome = .ok ⟨false, none⟩

/-- A listener lets out a fault, which ends the request. -/
def BrokenOff (t : Turn ν κ (Result ν)) : Prop :=
  ∃ fault, t.outcome = .error fault ∧ ∃ d ∈ t.deliveries, d.outcome = .error fault

end Turn

namespace Session

variable {κ : Type} {run : κ → Action ν κ (Answer ν)} {s : Session ν κ}

/-- Taking an option is the plan carried out. -/
theorem takeOption_carried (hrun : ∀ c, (run c).LeavesBuild) (hidle : s.announcing = false)
    (id : Text) (source : SourceId) (option : Text) :
    s.Carried (takeOption run id source option s)
      (Plan.takeOption s.index s.state id source option) :=
  carried_of_plan hrun hidle rfl

/-- An option is turned down by the plan only. -/
theorem takeOption_refused_iff (hrun : ∀ c, (run c).LeavesBuild) (hidle : s.announcing = false)
    (id : Text) (source : SourceId) (option : Text) :
    (takeOption run id source option s).Refused ↔
      (Plan.takeOption s.index s.state id source option).Refuses := by
  have hcarried := takeOption_carried hrun hidle id source option
  exact exists_congr fun _ => hcarried.kept_iff

/-- **Taking an option gives an answer**, unless a listener lets out a fault: where a build with
selections has no violations, the check does not object to the new options. -/
theorem takeOption_answers (hrun : ∀ c, (run c).LeavesBuild) (hidle : s.announcing = false)
    (hpassed : s.config.checksState = true → s.state.selections ≠ [] →
      s.state.violations s.index = .ok []) (id : Text) (source : SourceId) (option : Text) :
    let t := takeOption run id source option s
    t.Refused ∨ t.MetInFull ∨ t.BrokenOff := by
  intro t
  have hcarried : s.Carried t _ := takeOption_carried hrun hidle id source option
  rcases Plan.takeOption_cases s.index s.state id source option with
    ⟨reason, hplan⟩ | hplan | ⟨change, hplan⟩
  · rw [hplan] at hcarried
    cases hcarried with
    | kept _ _ ho => exact Or.inl ⟨reason, ho⟩
  · rw [hplan] at hcarried
    cases hcarried with
    | kept _ _ ho => exact Or.inr (Or.inl (Or.inr ho))
  · rw [hplan] at hcarried
    cases hcarried with
    | made _ _ ho => exact Or.inr (Or.inl (Or.inl ho))
    | broken _ _ ho hd => exact Or.inr (Or.inr ⟨_, ho, hd⟩)
    | barred _ _ _ hbar =>
        obtain ⟨x, i, options, hfinds, hitem, htakes, hsets⟩ := Plan.takeOption_commits hplan
        have hany : s.state.selections ≠ [] :=
          List.ne_nil_of_mem (List.mem_of_find?_eq_some hfinds.found)
        have hclean := hpassed hbar.checks hany
        have hpass := Plan.SetsOptions.violations hsets hfinds.found hitem hclean fun _ => htakes.fits
        exact absurd hbar (not_barred hpass)

end Session

/-! ## Where they differ -/

/-- An option is advised and turned down exactly if it is held by a settled selection. -/
theorem advised_and_refuses_iff (hx : state.selection? item.id (some source) = some x)
    (hitem : index.item? item.id = some item) (option : Text) :
    (Rules.judgeOption state item source option).isEnabled = true ∧
      (Plan.takeOption index state item.id source option).Refuses ↔ x.HoldsSettled item option := by
  have haccepts := Plan.takeOption_refuses_iff hx hitem option
  rw [Rules.judgeOption_isEnabled hx]
  constructor
  · rintro ⟨⟨hoffered, hroom⟩, hrefuses⟩
    -- an open selection would take the option: it has it, or there is room
    have hsettled : x.locked = true := by
      by_contra hopen
      have hopen : x.locked = false := by simpa using hopen
      exact haccepts.mpr ⟨hopen, hoffered, hroom.imp_right fun h => Or.inr h.2⟩ hrefuses
    refine ⟨hsettled, hoffered, hroom.resolve_right fun h => ?_⟩
    rw [hsettled] at h
    exact Bool.noConfusion h.1
  · rintro ⟨hsettled, hoffered, hchosen⟩
    refine ⟨⟨hoffered, Or.inl hchosen⟩, ?_⟩
    by_contra hno
    have hopen := (haccepts.mp hno).1
    rw [hsettled] at hopen
    exact Bool.noConfusion hopen

/-- An option is advised against and not turned down exactly if it takes the place of the only one
that the item may have. -/
theorem not_advised_and_not_refuses_iff (hx : state.selection? item.id (some source) = some x)
    (hitem : index.item? item.id = some item) (option : Text) :
    ¬ (Rules.judgeOption state item source option).isEnabled = true ∧
      ¬ (Plan.takeOption index state item.id source option).Refuses ↔ x.Swaps item option := by
  rw [Plan.takeOption_refuses_iff hx hitem, Rules.judgeOption_isEnabled hx]
  constructor
  · rintro ⟨hno, hopen, hoffered, hway⟩
    -- what would be advised is ruled out, which leaves the swap
    have hother : ¬ (Value.text option).isIn x.options = true := fun hchosen =>
      hno ⟨hoffered, Or.inl hchosen⟩
    have hfull : ¬ x.HasRoom item := fun hroom => hno ⟨hoffered, Or.inr ⟨hopen, hroom⟩⟩
    have hsingle : item.optionLimit = some 1 := (hway.resolve_left hother).resolve_right hfull
    exact ⟨hopen, hoffered, by simpa using hother, hsingle,
      fun hnone => hfull ((Selection.hasRoom_iff_of_single hsingle).mpr hnone)⟩
  · rintro ⟨hopen, hoffered, hother, hsingle, hheld⟩
    refine ⟨fun hyes => ?_, hopen, hoffered, Or.inr (Or.inl hsingle)⟩
    rcases hyes.2 with hchosen | ⟨_, hroom⟩
    · rw [hother] at hchosen
      exact Bool.noConfusion hchosen
    · exact hheld ((Selection.hasRoom_iff_of_single hsingle).mp hroom)

/-- **Where the advice on an option differs from what the request does.** -/
theorem judgeOption_differs_iff {κ : Type} {run : κ → Action ν κ (Answer ν)} {s : Session ν κ}
    (hrun : ∀ c, (run c).LeavesBuild) (hidle : s.announcing = false)
    (hitem : s.index.item? item.id = some item) :
    let advised := (Rules.judgeOption s.state item source option).isEnabled = true
    let t := Session.takeOption run item.id source option s
    (advised ∧ t.Refused ↔ ∃ x, s.state.selection? item.id (some source) = some x ∧
      x.HoldsSettled item option) ∧
    (¬ advised ∧ ¬ t.Refused ↔ ∃ x, s.state.selection? item.id (some source) = some x ∧
      x.Swaps item option) := by
  intro advised t
  rw [Session.takeOption_refused_iff hrun hidle]
  cases hx : s.state.selection? item.id (some source) with
  | none =>
      have hrefuses := Plan.takeOption_of_none hx s.index option
      have hadvised : ¬ advised := by simp [advised, Rules.judgeOption_of_none hx]
      simp [hadvised, hrefuses]
  | some x =>
      simp only [Option.some.injEq, exists_eq_left']
      exact ⟨advised_and_refuses_iff hx hitem option,
        not_advised_and_not_refuses_iff hx hitem option⟩

namespace Guided

/-- **Where the advice on an option and the request that takes it part ways**, in whatever build
some calls have brought a session to. The request gives an answer, unless a listener lets out a
fault. An option that is advised is turned down exactly if it is held by a selection that is
settled; one that is advised against is not turned down exactly if it takes the place of the only
option that the item may have. -/
theorem option_advice_iff {s₀ : Session ν (Call ν)} (hs : Starts s₀) (calls : List (Call ν))
    (hitem : s₀.index.item? item.id = some item) (source : SourceId) (option : Text) :
    let s := after s₀ calls
    let advised := (Rules.judgeOption s.state item source option).isEnabled = true
    let t := Session.takeOption Call.runInside item.id source option s
    (t.Refused ∨ t.MetInFull ∨ t.BrokenOff) ∧
    (advised ∧ t.Refused ↔ ∃ x, s.state.selection? item.id (some source) = some x ∧
      x.HoldsSettled item option) ∧
    (¬ advised ∧ ¬ t.Refused ↔ ∃ x, s.state.selection? item.id (some source) = some x ∧
      x.Swaps item option) := by
  intro s advised t
  have hmeets := idle_after_of_idle hs.idle_unchanged.1 calls
  have hindex : s.index = s₀.index := hmeets.index
  have hconfig : s.config = s₀.config := hmeets.config
  have hpassed : PassedIfAny s.index s.config s.state := by
    rw [hindex, hconfig]
    exact hs.passed_after calls
  rw [← hindex] at hitem
  have hrun := Call.runInside_leavesBuild (ν := ν)
  exact ⟨Session.takeOption_answers hrun hmeets.idle hpassed item.id source option,
    judgeOption_differs_iff hrun hmeets.idle hitem⟩

/-- An item with two options, of which it may have one. -/
def eitherItem : Item Double :=
  { plainItem "w" with options := [⟨"a", "a"⟩, ⟨"b", "b"⟩], givenLimit := some 1 }

/-- A new build on two sources and this item. -/
def eitherStart : Session Double (Call Double) where
  index := { catalog := sharedGroups.addItem eitherItem }
  config := {}
  state := { targetLevel := .whole 1 }

/-- The item is selected with its first option. -/
def eitherSelected : List (Call Double) :=
  [.select (.named "w") (.named "A") .null .null, .takeOption "w" (.named "A") "a"]

/-- The item is restored with its first option. -/
def eitherRestored : List (Call Double) :=
  [.restore [.saved (.object [("id", .text "w"), ("source", .text "A"),
    ("selections", .list [.text "a"])])] {}]

/-- The other option is advised against and taken nevertheless; the option that is settled is
advised and turned down. -/
theorem option_advice_iff_either :
    (let s := after eitherStart eitherSelected
     ¬ (Rules.judgeOption s.state eitherItem ⟨"A", .primary⟩ "b").isEnabled = true ∧
      ¬ (Session.takeOption Call.runInside "w" ⟨"A", .primary⟩ "b" s).Refused) ∧
    (let s := after eitherStart eitherRestored
     (Rules.judgeOption s.state eitherItem ⟨"A", .primary⟩ "a").isEnabled = true ∧
      (Session.takeOption Call.runInside "w" ⟨"A", .primary⟩ "a" s).Refused) := by
  have hs : Starts eitherStart := .newBuild
    (show (newBuild (sharedGroups.addItem eitherItem) {}).outcome = .ok eitherStart from rfl)
  have hitem : eitherStart.index.item? eitherItem.id = some eitherItem := rfl
  have hlimit : eitherItem.optionLimit = some 1 := rfl
  constructor
  · refine (option_advice_iff hs eitherSelected hitem ⟨"A", .primary⟩ "b").2.2.mpr ?_
    have hheld : ((after eitherStart eitherSelected).state.selection? "w"
        (some ⟨"A", .primary⟩)).any (fun x => !x.locked && !(Value.text "b").isIn x.options &&
          !x.options.isEmpty) = true := by
      decide +kernel
    obtain ⟨x, hx, hall⟩ := (Option.any_eq_true _ _).mp hheld
    simp only [Bool.and_eq_true, Bool.not_eq_true', List.isEmpty_eq_false_iff] at hall
    obtain ⟨⟨hopen, hother⟩, hany⟩ := hall
    exact ⟨x, hx, hopen, by decide, hother, hlimit, hany⟩
  · refine (option_advice_iff hs eitherRestored hitem ⟨"A", .primary⟩ "a").2.1.mpr ?_
    have hheld : ((after eitherStart eitherRestored).state.selection? "w"
        (some ⟨"A", .primary⟩)).any (fun x => x.locked && (Value.text "a").isIn x.options)
          = true := by
      decide +kernel
    obtain ⟨x, hx, hall⟩ := (Option.any_eq_true _ _).mp hheld
    obtain ⟨hsettled, hchosen⟩ := Bool.and_eq_true_iff.mp hall
    exact ⟨x, hx, hsettled, by decide, hchosen⟩

end Guided

end CharacterBuild
