import CharacterBuild.Proofs.Calls
import CharacterBuild.Proofs.Ends

set_option autoImplicit false

/-! # When questions are answered

A question about a build that a session has reached may end in a fault, although nothing is asked
for that does not exist. `Guided.queries_end` says exactly when: the rules and the pages of the
sources fail on a pool that cannot price what is selected in it, the page of the attributes on
values that are no atoms or cannot be put in order, and the record on attributes that are raised
without being amounts. Three things bring this about, none of which is ever checked: the property
that a pool counts costs in, how often an item is held, and the values of attributes.

Everything else is answered. What an invariant is needed for is the group of a selection: it is
kept as it was given, but what could not stand as a key was refused when the item was selected
(`Build.GroupsRead`).
-/

namespace CharacterBuild

variable {ν : Type} [Number ν]

/-! ## Groups that can be read -/

/-- The group of every open selection is named by an atom. -/
def Build.GroupsRead (s : Build ν) : Prop :=
  ∀ x ∈ s.selections, x.locked = false → ∃ a, x.group = .atom a

namespace Build.GroupsRead

variable {index : Index ν}

omit [Number ν] in
theorem atom_of_groupNamed {source : Text} {group : Value ν} {g : Option (Group ν)}
    (h : index.groupNamed source group = .ok g) : ∃ a, group = .atom a := by
  obtain ⟨a, ha, _⟩ := except_bind_eq_ok.mp h
  exact Value.ends_key_iff.mp ⟨a, ha⟩

/-- Items are put only into groups that can be read. -/
theorem lasting : Selection.Lasting index fun x => ∃ a, x.group = .atom a where
  put := fun _ _ hgroup _ => atom_of_groupNamed hgroup
  revise := by
    rintro x y ⟨a, ha⟩ hplace _
    exact ⟨a, hplace.group.trans ha⟩

end Build.GroupsRead

namespace Guided

/-- The contract of all sessions: groups of open selections can be read. -/
def groupsReadContract (index : Index ν) (config : Config) : Contract ν where
  index := index
  config := config
  holds := fun s _ => s.GroupsRead

/-- **In every build that a session reaches the groups of open selections can be read.** -/
theorem groupsRead_after {catalog : Catalog ν} {config : Config} {s : Session ν (Call ν)}
    (hs : (newBuild catalog config).outcome = .ok s) (calls : List (Call ν)) :
    (after s calls).state.GroupsRead := by
  have hmeets : (groupsReadContract s.index config).Meets (after s calls) :=
    lasting_after Build.GroupsRead.lasting hs calls
  exact hmeets.holds

end Guided

/-! ## What the rules say -/

namespace Rules

variable {index : Index ν} {state : Build ν} {item : Item ν} {source : SourceId}
  {group : Value ν} {g : Group ν}

omit [Number ν] in
theorem exists_resolveGroup (a : Atom ν) :
    ∃ g, (resolveGroup index item source (.atom a)).outcome = .ok g := by
  unfold resolveGroup
  split
  · exact ⟨_, rfl⟩
  · obtain ⟨g, hg⟩ := index.exists_groupNamed_atom source.name a
    exact ⟨g, index.group_outcome hg⟩

/-- The cost of an item in a group can be compared with what is left in its pool: the pool can
price what is selected in it, and the item has a cost. -/
def CanPay (index : Index ν) (state : Build ν) (item : Item ν) (g : Group ν) : Prop :=
  ∀ unlock spending, g.kind = .pointBuy unlock spending → spending.effect = .spend →
    (∀ x ∈ state.selections, unlock.CanPrice index.catalog x) ∧
      Ends (item.cost spending.costProperty)

section

variable (hzero : (Number.ofInt? 0 : Option ν).isSome = true)

include hzero

theorem ends_payable_iff :
    Ends (payable index state item g).outcome ↔ CanPay index state item g := by
  unfold payable CanPay
  cases hkind : g.kind with
  | choice c => exact ⟨fun _ => nofun, fun _ => .ok _⟩
  | pointBuy unlock spending =>
      dsimp only
      cases heffect : spending.effect with
      | earn =>
          refine ⟨fun _ u p h hspend => ?_, fun _ => .ok _⟩
          obtain ⟨rfl, rfl⟩ := GroupKind.pointBuy.inj h
          rw [heffect] at hspend
          cases hspend
      | spend =>
          have hasked : (∀ u p, GroupKind.pointBuy unlock spending = .pointBuy u p →
              p.effect = .spend → (∀ x ∈ state.selections, u.CanPrice index.catalog x) ∧
                Ends (item.cost p.costProperty)) ↔
              (∀ x ∈ state.selections, unlock.CanPrice index.catalog x) ∧
                Ends (item.cost spending.costProperty) := by
            refine ⟨fun h => h _ _ rfl heffect, fun h u p heq _ => ?_⟩
            obtain ⟨rfl, rfl⟩ := GroupKind.pointBuy.inj heq
            exact h
          rw [hasked, ← Balance.ends_iff hzero]
          constructor
          · rintro ⟨verdict, h⟩
            obtain ⟨balance, hbalance, h⟩ := Traced.outcome_bind_eq_ok.mp h
            obtain ⟨cost, hcost, _⟩ := Traced.outcome_bind_eq_ok.mp h
            exact ⟨⟨balance, hbalance⟩, cost, hcost⟩
          · rintro ⟨⟨balance, hbalance⟩, cost, hcost⟩
            rw [Traced.outcome_bind_of_ok hbalance, Traced.outcome_bind_of_ok (a := cost) hcost]
            split <;> exact .ok _

/-- The rules ask what an item costs in a group. -/
structure AsksCost (index : Index ν) (state : Build ν) (item : Item ν) (source : SourceId)
    (group : Value ν) (g : Group ν) : Prop where
  owned : (ownerVerdict index state item source).isEnabled = true
  resolved : (resolveGroup index item source group).outcome = .ok (some g)
  offered : ((memberVerdict (some g) item).andThen
    (roomVerdict state (some g) item source)).isEnabled = true
  unselected : state.isSelected item.id = false

/-- **The rules judge an item unless they ask for a cost that cannot be told.** -/
theorem ends_judge_iff (hgroup : ∃ a, group = .atom a) :
    Ends (judge index state item source group).outcome ↔
      ∀ g, AsksCost index state item source group g → CanPay index state item g := by
  unfold judge
  cases howner : ownerVerdict index state item source with
  | disabled reason =>
      refine ⟨fun _ g h => ?_, fun _ => .ok _⟩
      have howned := h.owned
      rw [howner] at howned
      cases howned
  | enabled =>
      obtain ⟨a, rfl⟩ := hgroup
      obtain ⟨found, hfound⟩ : ∃ found,
          (resolveGroup index item source (.atom a)).outcome = .ok found := exists_resolveGroup a
      dsimp only
      rw [Traced.outcome_bind_of_ok hfound]
      cases hoffered : (memberVerdict found item).andThen (roomVerdict state found item source) with
      | disabled reason =>
          refine ⟨fun _ g h => ?_, fun _ => .ok _⟩
          -- the group that is resolved does not offer the item
          obtain rfl := Except.ok.inj (hfound.symm.trans h.resolved)
          have hyes := h.offered
          rw [hoffered] at hyes
          cases hyes
      | enabled =>
          dsimp only
          have hverdict : Ends (costVerdict index state found item >>= fun cost =>
              pure (cost.andThen (levelVerdict state found item source))).outcome ↔
              Ends (costVerdict index state found item).outcome := by
            rw [← map_eq_pure_bind, Traced.outcome_map, Ends.map_iff]
          rw [hverdict]
          unfold costVerdict
          cases found with
          | none =>
              refine ⟨fun _ g h => ?_, fun _ => .ok _⟩
              cases hfound.symm.trans h.resolved
          | some g =>
              dsimp only
              split
              · rename_i hselected
                refine ⟨fun _ g h => ?_, fun _ => .ok _⟩
                rw [h.unselected] at hselected
                cases hselected
              · rename_i hselected
                rw [ends_payable_iff hzero]
                refine ⟨fun h g' hasks => ?_, fun h => h g ⟨?_, hfound, ?_, ?_⟩⟩
                · obtain rfl := Option.some.inj (Except.ok.inj (hfound.symm.trans hasks.resolved))
                  exact h
                · rw [howner]
                  rfl
                · rw [hoffered]
                  rfl
                · simpa using hselected

omit hzero in
/-- The rules ask what another piece of a selected item costs in the group of its selection. -/
def AsksCostAgain (index : Index ν) (state : Build ν) (item : Item ν) (source : SourceId)
    (group : Value ν) (g : Group ν) : Prop :=
  ∃ x, state.selection? item.id (some source) = some x ∧ item.stackable = true ∧
    x.locked = false ∧ g.usesPoints = true ∧
    (resolveGroup index item source (x.group.orElse group)).outcome = .ok (some g)

/-- **The rules judge another piece of an item likewise.** -/
theorem ends_judgeQuantity_iff (hread : state.GroupsRead) (hgroup : ∃ a, group = .atom a) :
    Ends (judgeQuantity index state item source group).outcome ↔
      (state.selection? item.id (some source) = none →
        ∀ g, AsksCost index state item source group g → CanPay index state item g) ∧
      ∀ g, AsksCostAgain index state item source group g → CanPay index state item g := by
  unfold judgeQuantity
  cases hx : state.selection? item.id (some source) with
  | none =>
      have hnone : ∀ g, ¬ AsksCostAgain index state item source group g := by
        rintro g ⟨x, hx', _⟩
        rw [hx] at hx'
        cases hx'
      rw [ends_judge_iff hzero hgroup]
      exact ⟨fun h => ⟨fun _ => h, fun g hasks => absurd hasks (hnone g)⟩, fun h => h.1 rfl⟩
  | some x =>
      -- there is something to pay only for a stackable item that is not settled
      have hasked : ∀ {g}, AsksCostAgain index state item source group g →
          item.stackable = true ∧ x.locked = false ∧ g.usesPoints = true ∧
            (resolveGroup index item source (x.group.orElse group)).outcome = .ok (some g) := by
        rintro g ⟨x', hx', h⟩
        obtain rfl := Option.some.inj (hx.symm.trans hx')
        exact h
      dsimp only
      split
      · rename_i hsingle
        refine ⟨fun _ => ⟨nofun, fun g h => ?_⟩, fun _ => .ok _⟩
        rw [(hasked h).1] at hsingle
        cases hsingle
      · rename_i hstackable
        split
        · rename_i hlocked
          refine ⟨fun _ => ⟨nofun, fun g h => ?_⟩, fun _ => .ok _⟩
          rw [(hasked h).2.1] at hlocked
          cases hlocked
        · rename_i hopen
          have hatom : ∃ a, x.group.orElse group = .atom a := by
            unfold Value.orElse
            split
            · exact hread x (Build.mem_of_selection? hx) (by simpa using hopen)
            · exact hgroup
          obtain ⟨a, ha⟩ := hatom
          obtain ⟨found, hfound⟩ : ∃ found,
              (resolveGroup index item source (.atom a)).outcome = .ok found :=
            exists_resolveGroup a
          rw [← ha] at hfound
          rw [Traced.outcome_bind_of_ok hfound]
          cases hfilter : found.filter Group.usesPoints with
          | none =>
              refine ⟨fun _ => ⟨nofun, fun g h => ?_⟩, fun _ => .ok _⟩
              obtain rfl := Except.ok.inj (hfound.symm.trans (hasked h).2.2.2)
              simp [(hasked h).2.2.1] at hfilter
          | some g =>
              obtain ⟨rfl, huses⟩ := Option.filter_eq_some_iff.mp hfilter
              dsimp only
              rw [ends_payable_iff hzero]
              refine ⟨fun h => ⟨nofun, fun g' hasks => ?_⟩, fun h => h.2 g ⟨x, hx, ?_⟩⟩
              · obtain rfl := Option.some.inj
                  (Except.ok.inj (hfound.symm.trans (hasked hasks).2.2.2))
                exact h
              · exact ⟨by simpa using hstackable, by simpa using hopen, huses, hfound⟩

end

end Rules

/-! ## What the pages say -/

namespace Completeness

variable {index : Index ν} {config : Config} {state : Build ν} {source page : Text}

/-- The page of a source can be told: each pool that counts can price what is selected from the
source. -/
def SourceTold (index : Index ν) (state : Build ν) (source : Text) : Prop :=
  ∀ u ∈ activeUnlocks index state source, ∀ pool, u.2 = .pointBuy pool →
    ∀ x ∈ state.selectionsOf (index.keyOf source), pool.CanPrice index.catalog x

/-- What a page lacks can be told. -/
def PageTold (index : Index ν) (config : Config) (state : Build ν) (page : Text) : Prop :=
  (page = attributesPage → AttributesTold config state) ∧
    (page ≠ attributesPage → page ≠ infoPage → SourceTold index state page)

theorem ends_optionIssue {x : Selection ν} (hread : x.locked = false → ∃ a, x.group = .atom a) :
    Ends (optionIssue index state source x) := by
  unfold optionIssue
  split
  · exact .ok _
  · rename_i hopen
    obtain ⟨a, ha⟩ := hread (by simpa using hopen)
    have hlevel : ∃ level, index.levelOf source x.group = .ok level := by
      rw [ha]
      cases a <;> exact ⟨_, rfl⟩
    obtain ⟨level, hlevel⟩ := hlevel
    rw [Ends.bind_of_ok hlevel]
    split
    · split <;> exact .ok _
    · exact .ok _

section

variable (hzero : (Number.ofInt? 0 : Option ν).isSome = true)

include hzero

theorem ends_unlockIssue_iff {selections : List (Selection ν)} {u : Int × Unlock ν} :
    Ends (unlockIssue index source selections u).outcome ↔
      ∀ pool, u.2 = .pointBuy pool → ∀ x ∈ selections, pool.CanPrice index.catalog x := by
  unfold unlockIssue
  cases hu : u.2 with
  | reward r => exact ⟨fun _ => nofun, fun _ => .ok _⟩
  | choice c => exact ⟨fun _ => nofun, fun _ => .ok _⟩
  | pointBuy pool =>
      have hasked : (∀ p, Unlock.pointBuy pool = .pointBuy p →
          ∀ x ∈ selections, p.CanPrice index.catalog x) ↔
          ∀ x ∈ selections, pool.CanPrice index.catalog x := by
        refine ⟨fun h => h pool rfl, fun h p heq => ?_⟩
        obtain rfl := Unlock.pointBuy.inj heq
        exact h
      rw [hasked, ← Balance.ends_iff hzero]
      constructor
      · rintro ⟨issue, h⟩
        obtain ⟨balance, hbalance, _⟩ := Traced.outcome_bind_eq_ok.mp h
        exact ⟨balance, hbalance⟩
      · rintro ⟨balance, hbalance⟩
        rw [Traced.outcome_bind_of_ok hbalance]
        split <;> exact .ok _

/-- **The page of a source is told unless a pool cannot price what is selected.** -/
theorem ends_sourceIssues_iff (hread : state.GroupsRead) :
    Ends (sourceIssues index state source).outcome ↔ SourceTold index state source := by
  have hoptions : Ends ((state.selectionsOf (index.keyOf source)).mapM
      (optionIssue index state source)) := by
    rw [Ends.mapM_iff]
    exact fun x hx => ends_optionIssue (hread x (List.mem_filter.mp hx).1)
  obtain ⟨options, hoptions⟩ := hoptions
  have hunlocks : Ends ((activeUnlocks index state source).mapM (unlockIssue index source
      (state.selectionsOf (index.keyOf source)))).outcome ↔ SourceTold index state source := by
    rw [Traced.outcome_mapM, Ends.mapM_iff]
    exact forall_congr' fun u => imp_congr_right fun _ => ends_unlockIssue_iff hzero
  rw [← hunlocks]
  unfold sourceIssues
  rw [Traced.outcome_bind_of_ok (index.sourceId_outcome source)]
  constructor
  · rintro ⟨issues, h⟩
    obtain ⟨unlocks, hunlocks, _⟩ := Traced.outcome_bind_eq_ok.mp h
    exact ⟨unlocks, hunlocks⟩
  · rintro ⟨unlocks, hunlocks⟩
    rw [Traced.outcome_bind_of_ok hunlocks, Traced.outcome_bind_of_ok (a := options) hoptions]
    exact .ok _

theorem ends_issues_iff (hread : state.GroupsRead) :
    Ends (issues index config state page).outcome ↔ PageTold index config state page := by
  unfold issues PageTold
  split
  · rename_i hpage
    exact ends_attributeIssues_iff.trans ⟨fun h => ⟨fun _ => h, fun hne => absurd hpage hne⟩,
      fun h => h.1 hpage⟩
  · rename_i hpage
    split
    · rename_i hinfo
      exact ⟨fun _ => ⟨fun h => absurd h hpage, fun _ hne => absurd hinfo hne⟩, fun _ => .ok _⟩
    · rename_i hinfo
      cases hfound : index.source? page with
      | some source =>
          have hsource : Ends (sourceIssues index state page).outcome ↔
              SourceTold index state page := ends_sourceIssues_iff hzero hread
          exact hsource.trans ⟨fun h => ⟨fun hattr => absurd hattr hpage, fun _ _ => h⟩,
            fun h => h.2 hpage hinfo⟩
      | none =>
          refine ⟨fun _ => ⟨fun hattr => absurd hattr hpage, fun _ _ u hu => ?_⟩, fun _ => .ok _⟩
          -- a page that is not that of a source unlocks nothing
          cases hentry : index.entry? page with
          | none => simp [activeUnlocks, Index.unlocks, hentry] at hu
          | some e =>
              obtain ⟨source, hsource, _⟩ := index.mem_of_entry? hentry
              have hsome : index.source? page = some source := Directory.find?_of_mem hsource
              rw [hfound] at hsome
              cases hsome

theorem ends_allIssues_iff (hread : state.GroupsRead) :
    Ends (allIssues index config state).outcome ↔
      ∀ page ∈ openPages index state, PageTold index config state page := by
  rw [allIssues_outcome, Ends.map_iff, pageIssues, Ends.mapM_iff]
  exact forall_congr' fun page => imp_congr_right fun _ => ends_issues_iff hzero hread

theorem ends_report_iff (hread : state.GroupsRead) :
    Ends (report index config state).outcome ↔
      ∀ page ∈ openPages index state, PageTold index config state page := by
  rw [report_outcome, Ends.map_iff, ← ends_allIssues_iff hzero hread, allIssues_outcome,
    Ends.map_iff]

end

end Completeness

/-! ## Questions -/

namespace Guided

/-- A question about a build: what the rules say to an item from a source, for a group that is
named or not, whether a page or all of them are complete, what they lack, and the record. -/
inductive Query where
  | judge (item source : Text) (group : Option Text)
  | judgeQuantity (item source : Text) (group : Option Text)
  | isDone (page : Option Text)
  | pageText (page : Text)
  | allIssues
  | report
  | assemble

namespace Query

omit [Number ν] in
/-- A group that is named by its id, or not at all. -/
def groupOf : Option Text → Value ν
  | none => .null
  | some id => .text id

/-- The call by which a question is asked. -/
def call : Query → Call ν
  | judge item source group => .judge (.named item) (.named source) (groupOf group)
  | judgeQuantity item source group => .judgeQuantity (.named item) (.named source) (groupOf group)
  | isDone page => .isDone page
  | pageText page => .pageText page
  | allIssues => .allIssues
  | report => .report
  | assemble => .assemble

/-- **What has to be so of a build for a question to be answered.** -/
def Told (s : Session ν (Call ν)) : Query → Prop
  | judge id source group => ∀ item, s.index.item? id = some item → ∀ g,
      Rules.AsksCost s.index s.state item (s.index.keyOf source) (groupOf group) g →
        Rules.CanPay s.index s.state item g
  | judgeQuantity id source group => ∀ item, s.index.item? id = some item →
      (s.state.selection? item.id (some (s.index.keyOf source)) = none → ∀ g,
        Rules.AsksCost s.index s.state item (s.index.keyOf source) (groupOf group) g →
          Rules.CanPay s.index s.state item g) ∧
      ∀ g, Rules.AsksCostAgain s.index s.state item (s.index.keyOf source) (groupOf group) g →
        Rules.CanPay s.index s.state item g
  | isDone (some page) | pageText page => Completeness.PageTold s.index s.config s.state page
  | isDone none | allIssues | report => ∀ page ∈ Completeness.openPages s.index s.state,
      Completeness.PageTold s.index s.config s.state page
  | assemble => ∀ name ∈ Record.raisedNames s.index s.state.targetLevel,
      Record.Raisable s.state.attributes name

end Query

theorem ends_ask_iff {α β : Type} {question : Session ν (Call ν) → Traced ν α} {f : α → β}
    {s : Session ν (Call ν)} :
    Ends ((f <$> ask question) s).outcome ↔ Ends (question s).outcome := by
  rw [Action.map_apply, ask_apply, Ends.map_iff]

/-- A judgement of an item by its id is one of the item, if there is one. -/
theorem ends_judgeItem_iff {s : Session ν (Call ν)} {id source : Text}
    {judgement : Item ν → SourceId → Traced ν (Verdict ν)} :
    Ends (judgeItem s (.named id) (.named source) judgement).outcome ↔
      ∀ item, s.index.item? id = some item →
        Ends (judgement item (s.index.keyOf source)).outcome := by
  unfold judgeItem
  cases hitem : s.index.item? id with
  | none =>
      have hresolve : ((ItemMention.named id).resolve s.index).outcome
          = .ok (.error (.unknownItem id)) := by
        unfold ItemMention.resolve
        dsimp only
        rw [hitem]
        rfl
      rw [Traced.outcome_bind_of_ok hresolve]
      exact ⟨fun _ => nofun, fun _ => .ok _⟩
  | some item =>
      rw [Traced.outcome_bind_of_ok (s.index.resolve_named_of_item? hitem)]
      dsimp only
      rw [Traced.outcome_bind_of_ok (s.index.resolve_named source)]
      simp

/-- **When a question about a build that a session has reached is answered.** -/
theorem ends_query_iff (hzero : (Number.ofInt? 0 : Option ν).isSome = true)
    {s : Session ν (Call ν)} (hread : s.state.GroupsRead) (q : Query) :
    Ends (q.call.run s).outcome ↔ q.Told s := by
  have hatom : ∀ group : Option Text, ∃ a, (Query.groupOf group : Value ν) = .atom a := by
    intro group
    cases group <;> exact ⟨_, rfl⟩
  cases q with
  | judge id source group =>
      refine ends_ask_iff.trans (ends_judgeItem_iff.trans ?_)
      exact forall_congr' fun item => imp_congr_right fun _ =>
        Rules.ends_judge_iff hzero (hatom group)
  | judgeQuantity id source group =>
      refine ends_ask_iff.trans (ends_judgeItem_iff.trans ?_)
      exact forall_congr' fun item => imp_congr_right fun _ =>
        Rules.ends_judgeQuantity_iff hzero hread (hatom group)
  | isDone page =>
      refine ends_ask_iff.trans ?_
      cases page with
      | some page =>
          unfold Guided.isDone
          rw [Completeness.isDone_outcome, Ends.map_iff]
          exact Completeness.ends_issues_iff hzero hread
      | none =>
          unfold Guided.isDone
          rw [← map_eq_pure_bind, Traced.outcome_map, Ends.map_iff]
          exact Completeness.ends_allIssues_iff hzero hread
  | pageText page =>
      refine ends_ask_iff.trans ?_
      rw [Completeness.pageText_outcome, Ends.map_iff]
      exact Completeness.ends_issues_iff hzero hread
  | allIssues => exact ends_ask_iff.trans (Completeness.ends_allIssues_iff hzero hread)
  | report => exact ends_ask_iff.trans (Completeness.ends_report_iff hzero hread)
  | assemble => exact ends_ask_iff.trans (Record.ends_assemble_iff hzero)

end Guided

end CharacterBuild
