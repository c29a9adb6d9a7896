import CharacterBuild.Proofs.Accepted
import CharacterBuild.Proofs.Agreement
import CharacterBuild.Replay

set_option autoImplicit false

/-! # What becomes of the entries of a file

When a file of a new build is replayed, the level that it names is aimed at, and its selections are
made one after another, each as if it were asked for by hand. So an entry that is not refused need
not leave its item selected: an item that is selected again may be taken back by that, and a new
member of an exclusive group takes the place of the old one. Nothing else is lost, and nothing is
lost by any other entry than one of these two kinds (`Replay.accounted`).

What the level comes to is `Replay.Aims`, and what an entry comes to is `Replay.Entry.Upshot`: the
one line, or none, that is said of it, and the state that it leads to. An entry that is not refused
toggles its item (`Build.Toggle`). The run over the list is `Replay.Upshots`, with one induction
from an entry forwards, to what may take its item away again (`Replay.Upshots.mem_or`), and one
backwards, to where a selection comes from (`Replay.Upshots.named_of_mem`).
-/

namespace CharacterBuild

variable {ν : Type} [Number ν]

/-! ## Selecting an item -/

/-- **What selecting an item from a source does to a build**, if it is not refused. -/
inductive Build.Toggle (index : Index ν) (item : Item ν) (source : SourceId) (group : Value ν)
    (s : Build ν) : Build ν → Prop where
  /-- The item stays selected. -/
  | keep {x : Selection ν} (hx : x ∈ s.selections) (hof : x.isOf item.id (some source) = true) :
      Toggle index item source group s s
  /-- The item is taken back. -/
  | back {x : Selection ν} (hx : x ∈ s.selections) (hof : x.isOf item.id (some source) = true) :
      Toggle index item source group s
        { s with selections := s.selections.filter fun y => !(y.id = x.id && y.source = x.source) }
  /-- The item is put into its group. -/
  | put {g : Option (Group ν)} {x : Selection ν} {others : List (Selection ν)}
      (hnew : ∀ y ∈ s.selections, y.id ≠ item.id)
      (hg : (Rules.resolveGroup index item source group).outcome = .ok g)
      (hgroup : index.groupNamed source.name x.group = .ok g)
      (hroom : s.Room item source g others) (hof : x.isOf item.id (some source) = true) :
      Toggle index item source group s { s with selections := others ++ [x] }

namespace Plan

variable {index : Index ν} {state : Build ν} {item : Item ν} {source : SourceId}
  {group payload kept : Value ν} {g : Option (Group ν)} {p : Plan ν}

omit [Number ν] in
/-- The group that the rules look at is found again by its id. -/
theorem groupOf?_of_resolveGroup {g : Group ν}
    (h : (Rules.resolveGroup index item source group).outcome = .ok (some g)) :
    index.groupOf? source.name g.id = some g := by
  obtain ⟨kept, hfor⟩ := groupFor_of_resolveGroup h
  obtain ⟨id, _, hfound⟩ := index.groupNamed_eq_ok_some (groupNamed_of_groupFor hfor).1
  rw [(index.mem_of_groupOf? hfound).2]
  exact hfound

/-- A plan refuses a selection for a reason, or leaves or makes a state by toggling the item. -/
def Toggles (index : Index ν) (state : Build ν) (item : Item ν) (source : SourceId)
    (group : Value ν) : Plan ν → Prop
  | .keep (some _) => True
  | .keep none => state.Toggle index item source group state
  | .commit change _ => state.Toggle index item source group change.state

theorem remove_toggles {x : Selection ν} (hx : x ∈ state.selections)
    (hof : x.isOf item.id (some source) = true) :
    (remove state x).Toggles index state item source group := by
  unfold remove
  split
  · trivial
  · exact .back hx hof

/-- **Selecting an item toggles it**, or is refused for a reason. -/
theorem select_toggles (h : (select index state item source group payload).outcome = .ok p) :
    p.Toggles index state item source group := by
  unfold select at h
  obtain ⟨⟨g, kept⟩, hfor, h⟩ := Traced.outcome_bind_eq_ok.mp h
  dsimp only at h
  split at h
  · -- the item is selected already
    rename_i existing hx
    have hmem := Build.mem_of_selection? hx
    unfold reselect at h
    split at h
    · obtain ⟨_, _, h⟩ := Traced.outcome_bind_eq_ok.mp h
      exact Except.ok.inj h ▸ trivial
    · rename_i hsource
      have hof : existing.isOf item.id (some source) = true := by
        simp [Selection.isOf, Build.selection?_id hx, Decidable.of_not_not hsource]
      split at h
      · split at h
        · obtain ⟨_, _, h⟩ := Traced.outcome_bind_eq_ok.mp h
          rw [← Except.ok.inj h]
          exact .keep hmem hof
        · exact Except.ok.inj h ▸ remove_toggles hmem hof
      · exact Except.ok.inj h ▸ remove_toggles hmem hof
  · rename_i hnew
    obtain ⟨room, hroom, h⟩ := Traced.outcome_bind_eq_ok.mp h
    cases room with
    | error reason => exact Except.ok.inj h ▸ trivial
    | ok others =>
        obtain ⟨⟨x, reason⟩, hpay, h⟩ := Traced.outcome_bind_eq_ok.mp h
        rw [← Except.ok.inj h]
        obtain ⟨hplace, _⟩ := pay_holds hpay
        refine .put (Build.selection?_none hnew) (resolveGroup_of_groupFor hfor) ?_
          (room_of_roomFor hroom) (by simp [Selection.isOf, hplace.id, hplace.source])
        rw [hplace.group]
        exact (groupNamed_of_groupFor hfor).1

end Plan

/-! ## The entries of a file -/

namespace Replay

/-- What an entry of a file says. -/
structure Entry (ν : Type) where
  item : Text
  source : Text
  group : Value ν
  payload : Value ν

namespace Entry

/-- What is read of an entry. -/
def read (raw : Value ν) : Except (Fault ν) (Entry ν) := do
  let payload ← payloadOf raw
  let id ← raw.member "id"
  let source ← raw.member "source"
  let ms ← raw.members
  .ok ⟨id.str, source.str, Value.memberOrNull "groupId" ms,
    if payload.isEmpty then .null else .object payload⟩

/-- The line on an entry that is refused. -/
def line (e : Entry ν) (reason : Reason ν) : Text :=
  e.item ++ " (" ++ e.source ++ ")" ++ ": " ++ reason.text

/-- An entry names the item and the source of a selection. -/
def Names (index : Index ν) (e : Entry ν) (x : Selection ν) : Prop :=
  x.id = e.item ∧ x.source = index.keyOf e.source

/-- An entry is for a group of its source. -/
def IsFor (index : Index ν) (e : Entry ν) (g : Group ν) : Prop :=
  ∃ item, index.item? e.item = some item ∧
    (Rules.resolveGroup index item (index.keyOf e.source) e.group).outcome = .ok (some g)

/-- An entry is for the exclusive group that holds a selection of another item. -/
def Replaces (index : Index ν) (e : Entry ν) (x : Selection ν) : Prop :=
  x.id ≠ e.item ∧ ∃ g, g.isExclusive = true ∧ e.IsFor index g ∧
    x.isIn (index.keyOf e.source) g.id = true

/-- Two entries are for one exclusive group of one source. -/
def SharesGroup (index : Index ν) (e f : Entry ν) : Prop :=
  e.source = f.source ∧ ∃ g, g.isExclusive = true ∧ e.IsFor index g ∧ f.IsFor index g

/-- An entry asks for an item: the catalog has it, and the rules allow it, unless it is selected
already and they are not asked. -/
structure Asks (index : Index ν) (s : Build ν) (e : Entry ν) (item : Item ν) : Prop where
  known : index.item? e.item = some item
  allowed : s.selection? item.id none = none →
    (Rules.judge index s item (index.keyOf e.source) e.group).outcome = .ok .enabled

/-- What selecting the item that an entry asks for comes to. -/
def plan (index : Index ν) (s : Build ν) (e : Entry ν) (item : Item ν) : Except (Fault ν) (Plan ν) :=
  (Plan.select index s item (index.keyOf e.source) e.group e.payload).outcome

/-- **What an entry comes to**: at most one line is said of it, and the build is changed unless it
is refused. -/
inductive Upshot (index : Index ν) (e : Entry ν) (s : Build ν) : List Text → Build ν → Prop where
  /-- The catalog has no such item. -/
  | unknown (hitem : index.item? e.item = none) :
      Upshot index e s [e.line (.unknownItem e.item)] s
  /-- The rules do not allow the item. -/
  | disallowed {item : Item ν} {reason : Reason ν} (hitem : index.item? e.item = some item)
      (hnew : s.selection? item.id none = none)
      (hjudge : (Rules.judge index s item (index.keyOf e.source) e.group).outcome
        = .ok (.disabled reason)) : Upshot index e s [e.line reason] s
  /-- The item cannot be selected. -/
  | refused {item : Item ν} {reason : Reason ν} (hasks : e.Asks index s item)
      (hplan : e.plan index s item = .ok (.keep (some reason))) : Upshot index e s [e.line reason] s
  /-- The item stays selected. -/
  | kept {item : Item ν} (hasks : e.Asks index s item)
      (hplan : e.plan index s item = .ok (.keep none)) : Upshot index e s [] s
  /-- The item is selected or taken back. -/
  | made {item : Item ν} {change : Change ν} {reason : Option (Reason ν)}
      (hasks : e.Asks index s item)
      (hplan : e.plan index s item = .ok (.commit change reason)) : Upshot index e s [] change.state

/-- An entry is refused with a line, or its item is toggled without one. -/
theorem Upshot.refused_or_toggled {index : Index ν} {e : Entry ν} {s s' : Build ν}
    {line : List Text} (h : e.Upshot index s line s') :
    (∃ reason, line = [e.line reason] ∧ s' = s) ∨
      line = [] ∧ ∃ item, index.item? e.item = some item ∧
        s.Toggle index item (index.keyOf e.source) e.group s' := by
  cases h with
  | unknown => exact .inl ⟨_, rfl, rfl⟩
  | disallowed => exact .inl ⟨_, rfl, rfl⟩
  | refused => exact .inl ⟨_, rfl, rfl⟩
  | kept hasks hplan => exact .inr ⟨rfl, _, hasks.known, Plan.select_toggles hplan⟩
  | made hasks hplan => exact .inr ⟨rfl, _, hasks.known, Plan.select_toggles hplan⟩

end Entry

open Guided (Call ask)

variable {s : Session ν (Call ν)} {e : Entry ν}

/-- An entry is read, and then it is a request. -/
theorem selectOne_eq (raw : Value ν) :
    (selectOne raw : GuidedAction ν (List Text)) = (do
      let e ← Action.lift (Traced.lift (Entry.read raw))
      let result ← Guided.select Call.runInside (.named e.item) (.named e.source) e.group e.payload
      pure (refusal (e.item ++ " (" ++ e.source ++ ")") result)) := by
  have hlift : ∀ {α β : Type} (x : Except (Fault ν) α) (f : α → Except (Fault ν) β),
      (Action.lift (Traced.lift (x >>= f)) : GuidedAction ν β)
        = Action.lift (Traced.lift x) >>= fun a => Action.lift (Traced.lift (f a)) := by
    intro α β x f
    funext s
    cases x <;> rfl
  unfold Entry.read
  simp only [hlift, bind_assoc]
  rfl

/-- A request for an item comes to what its plan does. -/
theorem request_upshot {item : Item ν} {result : Result ν} (hasks : e.Asks s.index s.state item)
    (hidle : s.announcing = false)
    (h : (Session.select Call.runInside item (s.index.keyOf e.source) e.group e.payload s).outcome
      = .ok result) :
    let s' := (Session.select Call.runInside item (s.index.keyOf e.source) e.group e.payload
      s).session
    s'.index = s.index ∧ s'.announcing = false ∧
      e.Upshot s.index s.state (refusal (e.item ++ " (" ++ e.source ++ ")") result) s'.state := by
  unfold Session.select at h ⊢
  obtain ⟨_, ⟨hp, hsame, hs⟩ | ⟨change, hp, hchanged, hr⟩⟩ :=
    Session.request_answered Call.runInside_leavesBuild h
  · rw [hs]
    refine ⟨rfl, hidle, ?_⟩
    unfold refusal
    rw [hsame]
    cases hreason : result.reason with
    | some reason =>
        rw [hreason] at hp
        exact .refused hasks hp
    | none =>
        rw [hreason] at hp
        exact .kept hasks hp
  · refine ⟨hr.index, hr.idle, ?_⟩
    unfold refusal
    rw [hr.state, hchanged]
    exact .made hasks hp

/-- The rules are asked for an item that is not selected. -/
theorem verdict_of_admits {item : Item ν} {key : SourceId} {group : Value ν} {verdict : Verdict ν}
    (h : (Guided.admits s item key group).outcome = .ok verdict) :
    (s.state.selection? item.id none = none →
      (Rules.judge s.index s.state item key group).outcome = .ok verdict) ∧
      (s.state.selection? item.id none ≠ none → verdict = .enabled) := by
  unfold Guided.admits at h
  cases hx : s.state.selection? item.id none with
  | some x =>
      rw [hx] at h
      exact ⟨nofun, fun _ => (Except.ok.inj h).symm⟩
  | none =>
      rw [hx] at h
      exact ⟨fun _ => h, fun hne => absurd rfl hne⟩

/-- **What an entry asks for** is looked up, then the rules are asked, and then it is a request. -/
theorem select_upshot (hidle : s.announcing = false) {result : Result ν}
    (h : (Guided.select Call.runInside (.named e.item) (.named e.source) e.group e.payload
      s).outcome = .ok result) :
    let s' := (Guided.select Call.runInside (.named e.item) (.named e.source) e.group e.payload
      s).session
    s'.index = s.index ∧ s'.announcing = false ∧
      e.Upshot s.index s.state (refusal (e.item ++ " (" ++ e.source ++ ")") result) s'.state := by
  unfold Guided.select at h ⊢
  obtain ⟨found, hfound, h, hsession⟩ := Guided.ask_bind_eq_ok h
  rw [hsession]
  cases found with
  | error reason =>
      obtain rfl := Except.ok.inj h
      obtain ⟨hitem, rfl⟩ := s.index.unknown_of_resolve_named hfound
      exact ⟨rfl, hidle, .unknown hitem⟩
  | ok item =>
      have hitem := s.index.item?_of_resolve_named hfound
      dsimp only at h ⊢
      unfold Guided.withKey at h ⊢
      obtain ⟨key, hkey, h, hsession⟩ := Guided.ask_bind_eq_ok h
      rw [Index.resolve_named] at hkey
      obtain rfl := Except.ok.inj hkey
      rw [hsession]
      obtain ⟨verdict, hadmits, h, hsession⟩ := Guided.ask_bind_eq_ok h
      obtain ⟨hjudge, hselected⟩ := verdict_of_admits hadmits
      rw [hsession]
      cases verdict with
      | disabled reason =>
          obtain ⟨_, _, h, hsession⟩ := Action.lift_bind_eq_ok h
          rw [hsession]
          obtain rfl := Except.ok.inj h
          -- the rules do not refuse what is selected, since they are not asked
          have hnew : s.state.selection? item.id none = none :=
            Classical.byContradiction fun hne => nomatch hselected hne
          exact ⟨rfl, hidle, .disallowed hitem hnew (hjudge hnew)⟩
      | enabled =>
          dsimp only at h ⊢
          exact request_upshot ⟨hitem, hjudge⟩ hidle h

/-! ## One entry after another -/

/-- What the entries of a file come to, one after another. -/
inductive Upshots (index : Index ν) :
    List (Entry ν) → Build ν → List (List Text) → Build ν → Prop where
  | nil {s : Build ν} : Upshots index [] s [] s
  | cons {e : Entry ν} {es : List (Entry ν)} {s s' s'' : Build ν} {line : List Text}
      {lines : List (List Text)} (h : e.Upshot index s line s')
      (hrest : Upshots index es s' lines s'') : Upshots index (e :: es) s (line :: lines) s''

/-- The entries of a list of a file. -/
def entriesOf (name : Text) (file : Members ν) : Except (Fault ν) (List (Entry ν)) := do
  (← Value.elementsOf name file).mapM Entry.read

theorem selectOne_upshot {raw : Value ν} (hidle : s.announcing = false) {line : List Text}
    (h : (selectOne raw s).outcome = .ok line) :
    let s' := (selectOne raw s).session
    s'.index = s.index ∧ s'.announcing = false ∧
      ∃ e, Entry.read raw = .ok e ∧ e.Upshot s.index s.state line s'.state := by
  rw [selectOne_eq] at h ⊢
  obtain ⟨e, he, h, hsession⟩ := Action.lift_bind_eq_ok h
  rw [hsession]
  rw [← map_eq_pure_bind, Action.map_apply] at h ⊢
  obtain ⟨result, hresult, rfl⟩ := except_map_eq_ok.mp h
  obtain ⟨hindex, hidle', hupshot⟩ := select_upshot hidle hresult
  exact ⟨hindex, hidle', e, he, hupshot⟩

/-- **The selections of a file are made one after another.** -/
theorem mapM_selectOne_upshots {raws : List (Value ν)} (hidle : s.announcing = false)
    {lines : List (List Text)} (h : ((raws.mapM selectOne) s).outcome = .ok lines) :
    let s' := ((raws.mapM selectOne) s).session
    s'.index = s.index ∧ s'.announcing = false ∧
      ∃ entries, raws.mapM Entry.read = .ok entries ∧
        Upshots s.index entries s.state lines s'.state := by
  induction raws generalizing s lines with
  | nil =>
      obtain rfl := Except.ok.inj h
      exact ⟨rfl, hidle, [], rfl, .nil⟩
  | cons raw rest ih =>
      rw [List.mapM_cons] at h ⊢
      cases hline : (selectOne raw s).outcome with
      | error fault =>
          rw [Action.bind_of_error hline] at h
          cases h
      | ok line =>
          rw [Action.bind_of_ok hline, ← map_eq_pure_bind, Action.map_apply] at h ⊢
          obtain ⟨others, hothers, rfl⟩ := except_map_eq_ok.mp h
          obtain ⟨hindex, hidle', e, he, hupshot⟩ := selectOne_upshot hidle hline
          obtain ⟨hindex', hidle'', entries, hentries, hrest⟩ := ih hidle' hothers
          rw [hindex] at hindex' hrest
          refine ⟨hindex', hidle'', e :: entries, ?_, .cons hupshot hrest⟩
          rw [List.mapM_cons, he, hentries]
          rfl

theorem selectAll_upshots {name : Text} {file : Members ν} (hidle : s.announcing = false)
    {selected : List Text} (h : (selectAll name file s).outcome = .ok selected) :
    let s' := (selectAll name file s).session
    s'.index = s.index ∧ s'.announcing = false ∧ ∃ entries lines,
      entriesOf name file = .ok entries ∧ selected = lines.flatten ∧
        Upshots s.index entries s.state lines s'.state := by
  unfold selectAll at h ⊢
  obtain ⟨raws, hraws, h, hsession⟩ := Action.lift_bind_eq_ok h
  rw [hsession]
  rw [← map_eq_pure_bind, Action.map_apply] at h ⊢
  obtain ⟨lines, hlines, rfl⟩ := except_map_eq_ok.mp h
  obtain ⟨hindex, hidle', entries, hentries, hupshots⟩ := mapM_selectOne_upshots hidle hlines
  exact ⟨hindex, hidle', entries, lines, except_bind_eq_ok.mpr ⟨raws, hraws, hentries⟩, rfl,
    hupshots⟩

namespace Upshots

variable {index : Index ν} {es : List (Entry ν)} {s s' : Build ν} {lines : List (List Text)}

/-- The entries before one of them, that one, and the entries after it. -/
theorem split (h : Upshots index es s lines s') {i : Nat} {e : Entry ν} (he : es[i]? = some e) :
    ∃ line s₁ s₂, lines[i]? = some line ∧ Upshots index (es.take i) s (lines.take i) s₁ ∧
      e.Upshot index s₁ line s₂ ∧
      Upshots index (es.drop (i + 1)) s₂ (lines.drop (i + 1)) s' := by
  induction h generalizing i with
  | nil => simp at he
  | @cons e' es s s₁ s' line lines h hrest ih =>
      cases i with
      | zero =>
          obtain rfl : e' = e := by simpa using he
          exact ⟨line, s, s₁, rfl, .nil, h, hrest⟩
      | succ i =>
          obtain ⟨line', t, t', hline, hbefore, hthis, hafter⟩ := ih (by simpa using he)
          exact ⟨line', t, t', by simpa using hline, .cons h hbefore, hthis, hafter⟩

/-- A step forwards: what is selected stays, or the entry takes it back or replaces it. -/
theorem mem_or_of_upshot {e : Entry ν} {line : List Text} (h : e.Upshot index s line s')
    {x : Selection ν} (hx : x ∈ s.selections) :
    x ∈ s'.selections ∨ line = [] ∧ (e.Names index x ∨ e.Replaces index x) := by
  rcases h.refused_or_toggled with ⟨_, _, rfl⟩ | ⟨rfl, item, hitem, h⟩
  · exact Or.inl hx
  have hid := index.id_of_item? hitem
  cases h with
  | keep => exact Or.inl hx
  | @back y hy hof =>
      simp only [Selection.isOf, Bool.and_eq_true, decide_eq_true_eq] at hof
      by_cases hsame : x.id = y.id ∧ x.source = y.source
      · exact Or.inr ⟨rfl, Or.inl ⟨by rw [hsame.1, hof.1, hid], by rw [hsame.2, hof.2]⟩⟩
      · refine Or.inl (List.mem_filter.mpr ⟨hx, ?_⟩)
        simpa using Decidable.not_and_iff_or_not.mp hsame
  | @put g y others hnew hg hgroup hroom hof =>
      by_cases hstays : x ∈ others
      · exact Or.inl (List.mem_append_left _ hstays)
      -- only an exclusive group makes a member go
      · cases hroom with
        | loose => exact absurd hx hstays
        | free => exact absurd hx hstays
        | spare => exact absurd hx hstays
        | @instead g _ hl _ =>
            have hin : x.isIn (index.keyOf e.source) g.id = true := by
              rw [← Bool.not_eq_false]
              exact fun hout => hstays (List.mem_filter.mpr ⟨hx, by rw [hout]; rfl⟩)
            refine Or.inr ⟨rfl, Or.inr ⟨?_, g, by simp [Group.isExclusive, hl],
              ⟨item, hitem, hg⟩, hin⟩⟩
            rw [← hid]
            exact hnew x hx

/-- **What is selected stays, or a later entry takes it back or replaces it.** -/
theorem mem_or (h : Upshots index es s lines s') {x : Selection ν} (hx : x ∈ s.selections) :
    x ∈ s'.selections ∨ ∃ (j : Nat) (f : Entry ν), es[j]? = some f ∧ lines[j]? = some [] ∧
      (f.Names index x ∨ f.Replaces index x) := by
  induction h with
  | nil => exact Or.inl hx
  | @cons e es s s₁ s' line lines h hrest ih =>
      rcases mem_or_of_upshot h hx with hx | ⟨rfl, hloses⟩
      · rcases ih hx with hx | ⟨j, f, hf, hline, hloses⟩
        · exact Or.inl hx
        · exact Or.inr ⟨j + 1, f, by simpa using hf, by simpa using hline, hloses⟩
      · exact Or.inr ⟨0, e, rfl, rfl, hloses⟩

/-- A step backwards: what is selected was selected before, or the entry has named it. -/
theorem named_of_upshot {e : Entry ν} {line : List Text} (h : e.Upshot index s line s')
    {x : Selection ν} (hx : x ∈ s'.selections) :
    x ∈ s.selections ∨ line = [] ∧ e.Names index x := by
  rcases h.refused_or_toggled with ⟨_, _, rfl⟩ | ⟨rfl, item, hitem, h⟩
  · exact Or.inl hx
  cases h with
  | keep => exact Or.inl hx
  | back => exact Or.inl (List.mem_filter.mp hx).1
  | @put g y others hnew hg hgroup hroom hof =>
      simp only [Selection.isOf, Bool.and_eq_true, decide_eq_true_eq] at hof
      rcases hroom.mem_or_eq hx with hx | rfl
      · exact Or.inl hx
      · exact Or.inr ⟨rfl, by rw [hof.1, index.id_of_item? hitem], hof.2⟩

/-- **What is selected was selected from the beginning, or an entry has named it.** -/
theorem named_of_mem (h : Upshots index es s lines s') {x : Selection ν} (hx : x ∈ s'.selections) :
    x ∈ s.selections ∨ ∃ (j : Nat) (f : Entry ν), es[j]? = some f ∧ lines[j]? = some [] ∧
      f.Names index x := by
  induction h with
  | nil => exact Or.inl hx
  | @cons e es s s₁ s' line lines h hrest ih =>
      rcases ih hx with hx | ⟨j, f, hf, hline, hnames⟩
      · rcases named_of_upshot h hx with hx | ⟨rfl, hnames⟩
        · exact Or.inl hx
        · exact Or.inr ⟨0, e, rfl, rfl, hnames⟩
      · exact Or.inr ⟨j + 1, f, by simpa using hf, by simpa using hline, hnames⟩

end Upshots

/-! ## The level of a file -/

/-- **What the level of a file comes to** on a new build: it is aimed at, or one line says that it
is out of range. -/
inductive Aims (config : Config) (file : Members ν) : List Text → Build ν → Prop where
  /-- The file names no level. -/
  | unnamed (hlevel : Value.memberOrNull "targetLevel" file = .null) :
      Aims config file [] (Build.initial config)
  /-- The level is in range. -/
  | aimed {n : Int} (hlevel : (Value.memberOrNull "targetLevel" file).toWhole = .ok n)
      (hleast : config.minLevel ≤ n) (hmost : n ≤ config.maxLevel) :
      Aims config file [] { targetLevel := .whole n }
  /-- The level is out of range. -/
  | refused {n : Int} (hlevel : (Value.memberOrNull "targetLevel" file).toWhole = .ok n)
      (hrange : n < config.minLevel ∨ config.maxLevel < n) :
      Aims config file
        ["target level: " ++
          (Reason.levelOutside config.minLevel config.maxLevel n : Reason ν).text]
        (Build.initial config)

theorem Aims.selections {config : Config} {file : Members ν} {aimed : List Text} {s : Build ν}
    (h : Aims config file aimed s) : s.selections = [] := by
  cases h <;> rfl

/-- **The level of a file** is aimed at in a session on a new build. -/
theorem aim_aims {file : Members ν} (hidle : s.announcing = false)
    (hfresh : s.state = Build.initial s.config) {aimed : List Text}
    (h : (aim file s).outcome = .ok aimed) :
    let s' := (aim file s).session
    s'.index = s.index ∧ s'.announcing = false ∧ Aims s.config file aimed s'.state := by
  unfold aim at h ⊢
  dsimp only at h ⊢
  split at h
  · rename_i hnull
    rw [if_pos hnull]
    obtain rfl := Except.ok.inj h
    refine ⟨rfl, hidle, ?_⟩
    show Aims s.config file [] s.state
    rw [hfresh]
    exact .unnamed (Value.isNull_iff.mp hnull)
  · rename_i hnamed
    rw [if_neg hnamed]
    obtain ⟨n, hlevel, h, hsession⟩ := Action.lift_bind_eq_ok h
    rw [hsession]
    rw [← map_eq_pure_bind, Action.map_apply] at h ⊢
    obtain ⟨result, hresult, rfl⟩ := except_map_eq_ok.mp h
    obtain ⟨_, _, hresult, hsession⟩ := Action.lift_bind_eq_ok hresult
    dsimp only
    unfold Session.setField
    rw [hsession]
    obtain ⟨_, ⟨hp, _, hs⟩ | ⟨change, hp, _, hr⟩⟩ :=
      Session.request_answered Call.runInside_leavesBuild hresult
    · rw [Plan.setField, if_pos rfl, hfresh] at hp
      rw [hs]
      refine ⟨rfl, hidle, ?_⟩
      rw [hfresh]
      obtain ⟨m, hm, hkept⟩ := Plan.setLevel_keeps hp
      obtain rfl : n = m := by simpa using hm
      rcases hkept with ⟨hrange, hreason⟩ |
        ⟨hleast, hmost, ⟨r, hsettled, _⟩ | ⟨hsame, hreason⟩⟩
      · rw [hreason]
        exact .refused hlevel hrange
      · -- a new build has no settled level
        cases hsettled
      · obtain rfl : s.config.minLevel = n := by simpa [Build.initial] using hsame
        rw [hreason]
        exact .aimed hlevel hleast hmost
    · rw [Plan.setField, if_pos rfl, hfresh] at hp
      refine ⟨hr.index, hr.idle, ?_⟩
      obtain ⟨m, hm, hreason, hleast, hmost, _, hstate⟩ := Plan.setLevel_commits hp
      obtain rfl : n = m := by simpa using hm
      rw [hr.state, hstate, hreason, Build.aimedAt_initial]
      exact .aimed hlevel hleast hmost

/-! ## The rest of a file -/

/-- The state with its selections as they are. -/
def selectionsStay (index : Index ν) (config : Config) (l : List (Selection ν)) :
    Contract ν where
  index := index
  config := config
  holds := fun state _ => state.selections = l

variable {index : Index ν} {config : Config} {l : List (Selection ν)} {file : Members ν}

/-- Setting a field other than the level leaves the selections alone. -/
theorem setField_keepsAt {name : Text} {value : Value ν} (hname : name ≠ fieldNames.targetLevel)
    (hs : (selectionsStay index config l).Meets s) :
    (selectionsStay index config l).KeepsAt s (Session.setField Call.runInside name value) := by
  refine .bind (.lift hs fun _ _ => trivial) fun _ _ hs' => ?_
  refine .request (.of_all fun _ => trivial) hs' Call.runInside_leavesBuild
    (Plan.noViolation_setField _ _ _ _ _) fun p hp => ?_
  refine (Plan.setField_sets hp).mono fun state hsets => ?_
  have hstay : state.selections = l := by
    rw [(hsets.sameChoices hname).selections]
    exact hs.holds
  exact ⟨hstay, fun _ _ _ _ => hstay⟩

/-- Setting the other fields leaves the selections alone. -/
theorem setNamed_keepsAt {names : List Text} (hnames : fieldNames.targetLevel ∉ names)
    (hs : (selectionsStay index config l).Meets s) :
    (selectionsStay index config l).KeepsAt s (names.forM (setNamed file)) := by
  induction names generalizing s with
  | nil => exact .pure hs ()
  | cons name rest ih =>
      rw [List.mem_cons, not_or] at hnames
      refine .bind ?_ fun _ _ hs' => ih hnames.2 hs'
      unfold setNamed
      split
      · rw [map_eq_pure_bind]
        refine .bind (setField_keepsAt (fun h => hnames.1 h.symm) hs) fun _ _ hs' => ?_
        exact .pure hs' ()
      · exact .pure hs ()

/-! ## All entries -/

/-- **What may become of an entry** of a file: it is refused with a line, or it is accepted without
one. Then its item is selected in the end, or the same is asked for by another accepted entry,
which takes it back, or a later accepted entry puts another item into the same exclusive group. -/
inductive Fate (index : Index ν) (entries : List (Entry ν)) (lines : List (List Text))
    (final : Build ν) (i : Nat) (e : Entry ν) : Prop where
  | refused (reason : Reason ν) (h : lines[i]? = some [e.line reason])
  | selected (haccepted : lines[i]? = some [])
      (h : (final.selection? e.item (some (index.keyOf e.source))).isSome)
  | repeated (haccepted : lines[i]? = some []) {j : Nat} {f : Entry ν} (hj : j ≠ i)
      (hf : entries[j]? = some f) (hother : lines[j]? = some []) (hitem : f.item = e.item)
      (hsource : f.source = e.source)
  | replaced (haccepted : lines[i]? = some []) {j : Nat} {f : Entry ν} (hj : i < j)
      (hf : entries[j]? = some f) (hother : lines[j]? = some []) (hitem : f.item ≠ e.item)
      (hshares : e.SharesGroup index f)

omit [Number ν] in
theorem keyOf_inj {a b : Text} (h : index.keyOf a = index.keyOf b) : a = b := by
  rw [← index.keyOf_name a, h, index.keyOf_name]

omit [Number ν] in
/-- An entry whose item was put into the build shares its group with one that replaces it. -/
theorem Entry.Replaces.sharesGroup {e f : Entry ν} {item : Item ν} {g : Option (Group ν)}
    {x : Selection ν} (h : f.Replaces index x) (hitem : index.item? e.item = some item)
    (hg : (Rules.resolveGroup index item (index.keyOf e.source) e.group).outcome = .ok g)
    (hgroup : index.groupNamed (index.keyOf e.source).name x.group = .ok g)
    (hof : x.isOf item.id (some (index.keyOf e.source)) = true) : e.SharesGroup index f := by
  obtain ⟨hne, g', hexclusive, ⟨item', hitem', hg'⟩, hin⟩ := h
  simp only [Selection.isOf, Selection.isIn, Bool.and_eq_true, decide_eq_true_eq] at hof hin
  have hsource : e.source = f.source := keyOf_inj (hof.2.symm.trans hin.1)
  refine ⟨hsource, g', hexclusive, ⟨item, hitem, ?_⟩, item', hitem', hg'⟩
  -- the group of the selection is found by the id that it keeps
  have hfound := Plan.groupOf?_of_resolveGroup hg'
  rw [index.keyOf_name] at hfound
  rw [Value.isText_iff.mp hin.2, index.keyOf_name, index.groupNamed_text, hsource, hfound] at hgroup
  obtain rfl := Except.ok.inj hgroup
  exact hg

/-- Only the selections of the last state matter. -/
theorem Fate.of_selections_eq {entries : List (Entry ν)} {lines : List (List Text)}
    {final final' : Build ν} {i : Nat} {e : Entry ν} (h : Fate index entries lines final i e)
    (hsame : final'.selections = final.selections) : Fate index entries lines final' i e := by
  cases h with
  | refused reason h => exact .refused reason h
  | selected haccepted h =>
      refine .selected haccepted ?_
      unfold Build.selection? at h ⊢
      rw [hsame]
      exact h
  | repeated haccepted hj hf hother hitem hsource =>
      exact .repeated haccepted hj hf hother hitem hsource
  | replaced haccepted hj hf hother hitem hshares =>
      exact .replaced haccepted hj hf hother hitem hshares

/-- **What an entry comes to in the end**, by what stood before it and what comes after it. -/
theorem Upshots.fate {entries : List (Entry ν)} {s s' : Build ν} {lines : List (List Text)}
    (h : Upshots index entries s lines s') (hfresh : s.selections = []) {i : Nat} {e : Entry ν}
    (he : entries[i]? = some e) : Fate index entries lines s' i e := by
  obtain ⟨line, s₁, s₂, hline, hbefore, hthis, hafter⟩ := h.split he
  rcases hthis.refused_or_toggled with ⟨reason, rfl, rfl⟩ | ⟨rfl, item, hitem, htoggle⟩
  · exact .refused reason hline
  have hearlier : ∀ {x : Selection ν}, x ∈ s₁.selections →
      x.isOf item.id (some (index.keyOf e.source)) = true → Fate index entries lines s' i e := by
    intro x hx hof
    simp only [Selection.isOf, Bool.and_eq_true, decide_eq_true_eq] at hof
    rcases hbefore.named_of_mem hx with hx | ⟨j, f, hf, hother, hnames⟩
    · rw [hfresh] at hx
      cases hx
    · rw [List.getElem?_take] at hf hother
      split at hf
      · rename_i hj
        rw [if_pos hj] at hother
        refine .repeated hline (Nat.ne_of_lt hj) hf hother ?_ ?_
        · rw [← hnames.1, hof.1, index.id_of_item? hitem]
        · exact keyOf_inj (hnames.2.symm.trans hof.2)
      · cases hf
  cases htoggle with
  | keep hx hof => exact hearlier hx hof
  | back hx hof => exact hearlier hx hof
  | @put g x others hnew hg hgroup hroom hof =>
      have hx : x ∈ others ++ [x] := List.mem_append_right _ (List.mem_singleton.mpr rfl)
      rcases hafter.mem_or hx with hx | ⟨j, f, hf, hother, hloses⟩
      · -- it is still selected in the end
        refine .selected hline (List.find?_isSome.mpr ⟨x, hx, ?_⟩)
        rw [← index.id_of_item? hitem]
        exact hof
      · rw [List.getElem?_drop] at hf hother
        rcases hloses with hnames | hreplaces
        · simp only [Selection.isOf, Bool.and_eq_true, decide_eq_true_eq] at hof
          refine .repeated hline (j := i + 1 + j) (by omega) hf hother ?_ ?_
          · rw [← hnames.1, hof.1, index.id_of_item? hitem]
          · exact keyOf_inj (hnames.2.symm.trans hof.2)
        · refine .replaced hline (j := i + 1 + j) (by omega) hf hother ?_
            (hreplaces.sharesGroup hitem hg hgroup hof)
          simp only [Selection.isOf, Bool.and_eq_true, decide_eq_true_eq] at hof
          rw [← index.id_of_item? hitem, ← hof.1]
          exact hreplaces.1.symm

/-- **Replaying a file loses no entry silently**, but for those that an entry of the same item
takes back and those that a later member of their exclusive group replaces. If a file of a new
build is replayed without a fault, its level is aimed at and its entries are then made one after
another; the answer is the line on the level, if there is one, and the lines of the entries, at
most one for each. Every entry meets one of the four fates. -/
theorem accounted {catalog : Catalog ν} {config : Config} {s : Session ν (Call ν)}
    (hs : (Guided.newBuild catalog config).outcome = .ok s) {file : Members ν}
    (hfile : Value.lookup "originalLevel" file = none) {rejected : List Text}
    (h : (replay file s).outcome = .ok rejected) :
    let final := (replay file s).session.state
    ∃ entries aimed lines start made,
      Aims config file aimed start ∧ entriesOf "selections" file = .ok entries ∧
      Upshots s.index entries start lines made ∧ final.selections = made.selections ∧
      rejected = aimed ++ lines.flatten ∧
      ∀ i e, entries[i]? = some e → Fate s.index entries lines final i e := by
  intro final
  have hfresh : s.config = config ∧ s.state = Build.initial config ∧ s.announcing = false := by
    obtain rfl := Except.ok.inj hs
    exact ⟨rfl, rfl, rfl⟩
  obtain ⟨rfl, hinitial, hidle⟩ := hfresh
  have hfinal : final = (replay file s).session.state := rfl
  unfold replay at h hfinal
  rw [hfile] at h hfinal
  dsimp only at h hfinal
  -- first the level, which selects nothing
  obtain ⟨aimed, haimed, h, hsession⟩ := Action.bind_eq_ok h
  rw [hsession] at hfinal
  obtain ⟨hindex, hidle, haims⟩ := aim_aims hidle hinitial haimed
  -- then the selections, one after another
  obtain ⟨selected, hselected, h, hsession⟩ := Action.bind_eq_ok h
  rw [hsession] at hfinal
  obtain ⟨hindex', hidle', entries, lines, hentries, rfl, hupshots⟩ :=
    selectAll_upshots hidle hselected
  rw [hindex] at hupshots
  -- then the other fields, which leave the selections alone
  obtain ⟨_, _, h, hsession⟩ := Action.bind_eq_ok h
  rw [hsession] at hfinal
  have hunnamed : fieldNames.targetLevel ∉ fieldsOfFile := by decide
  obtain ⟨_, _, _, hstay⟩ := (setNamed_keepsAt hunnamed ⟨hindex', rfl, hidle', rfl⟩
    fun _ _ => trivial).1
  have hselections : final.selections = _ := (congrArg Build.selections hfinal).trans hstay
  exact ⟨entries, aimed, lines, _, _, haims, hentries, hupshots, hselections,
    (Except.ok.inj h).symm, fun i e he =>
      (hupshots.fate haims.selections he).of_selections_eq hselections⟩

/-- The entry of an item in the group of the first of two sources. -/
def sharedEntry (id : Text) : Value Double :=
  .object [("groupId", .text "g"), ("id", .text id), ("source", .text "A")]

/-- Of two items of one exclusive group the second one is selected in the end. -/
theorem accounted_sharedGroups :
    let s := Guided.sharedStart {}
    let file : Members Double := [("selections", .list [sharedEntry "x", sharedEntry "y"])]
    let final := (replay file s).session.state
    (∃ entries aimed lines start made,
      Aims {} file aimed start ∧ entriesOf "selections" file = .ok entries ∧
      Upshots s.index entries start lines made ∧ final.selections = made.selections ∧
      [] = aimed ++ lines.flatten ∧
      ∀ i e, entries[i]? = some e → Fate s.index entries lines final i e) ∧
    final.selections.map Selection.id = (["y"] : List Text) := by
  intro s file final
  obtain ⟨rejected, h, hempty⟩ := except_eq_ok_of_any (p := List.isEmpty)
    (x := (replay file s).outcome) (by decide +kernel)
  obtain rfl := List.isEmpty_iff.mp hempty
  exact ⟨accounted (Guided.newBuild_sharedGroups {}) rfl h, by decide +kernel⟩

/-- A session on a new build from the two sources and an item that is in no group. -/
def looseStart : Session Double (Call Double) where
  index := { catalog := sharedGroups.addItem (plainItem "w") }
  config := {}
  state := { targetLevel := .whole 1 }

/-- **An item that stands twice in a file** is selected and then taken back: it is not selected
in the end, and no line says so. -/
theorem repeated_unselected :
    let entry : Value Double := .object [("id", .text "w"), ("source", .text "A")]
    let file : Members Double := [("selections", .list [entry, entry])]
    (Guided.newBuild (sharedGroups.addItem (plainItem "w")) {}).outcome = .ok looseStart ∧
      Value.lookup "originalLevel" file = none ∧
      entriesOf "selections" file = .ok [⟨"w", "A", .null, .null⟩, ⟨"w", "A", .null, .null⟩] ∧
      (replay file looseStart).outcome = .ok [] ∧
      (replay file looseStart).session.state.selection? "w"
        (some (looseStart.index.keyOf "A")) = none := by
  intro entry file
  obtain ⟨rejected, h, hempty⟩ := except_eq_ok_of_any (p := List.isEmpty)
    (x := (replay file looseStart).outcome) (by decide +kernel)
  obtain rfl := List.isEmpty_iff.mp hempty
  refine ⟨rfl, rfl, rfl, h, Option.isNone_iff_eq_none.mp ?_⟩
  decide +kernel

end Replay

end CharacterBuild
