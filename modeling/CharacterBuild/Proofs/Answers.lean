import CharacterBuild.Proofs.Calls
import Mathlib.Tactic.TFAE

set_option autoImplicit false

/-! # The answers about completeness

Whether a build is complete can be asked in many ways: for the list of what it lacks, page by page
for a truth value or a text, for the report on all pages, and by finishing it
(`Guided.complete_tfae`). All of them come down to the pages on which something is to be decided:
the build is complete if none of these pages lacks anything (`Completeness.allIssues_eq_nil_iff`).
The texts say the same since there are words for everything that may be missing
(`Lack.message_ne_empty`), so no line and no block of a report is empty (`Text.join_ne_empty`).
-/

namespace CharacterBuild

variable {ν : Type}

/-! ## Texts that are not empty -/

namespace Text

theorem eq_empty_iff {t : Text} : t = "" ↔ t.points = [] :=
  ⟨fun h => by rw [h]; rfl, fun h => by cases t; cases h; rfl⟩

@[simp] theorem append_eq_empty {s t : Text} : s ++ t = "" ↔ s = "" ∧ t = "" := by
  rw [eq_empty_iff, eq_empty_iff, eq_empty_iff]
  exact List.append_eq_nil_iff

@[simp] theorem ofString_eq_empty {s : String} : ofString s = "" ↔ s = "" := by
  rw [eq_empty_iff]
  simp [ofString, ofChars]

/-- Texts with something in between come out empty only if there are none. -/
theorem join_ne_empty {between : Text} {parts : List Text} (hparts : parts ≠ [])
    (h : ∀ p ∈ parts, p ≠ "") : join between parts ≠ "" := by
  rw [ne_eq, eq_empty_iff]
  cases parts with
  | nil => exact absurd rfl hparts
  | cons p rest =>
      have hp : p.points ≠ [] := fun hnil => h p (by simp) (eq_empty_iff.mpr hnil)
      -- the first text stands at the beginning, whatever follows
      cases rest with
      | nil => simpa [join] using hp
      | cons q rest => simp [join, List.intercalate_cons_cons, hp]

end Text

variable [Number ν]

/-- There are words for everything that may be missing. -/
theorem Lack.message_ne_empty (l : Lack ν) : l.message ≠ "" := by
  cases l <;> simp [message]

namespace Completeness

variable {index : Index ν} {config : Config} {state : Build ν} {page : Text}

/-! ## What the pages lack -/

/-- The lines on what a page lacks. -/
def block (found : List (Issue ν)) : Text := Text.join "\n" (found.map fun i => i.lack.message)

/-- What each page lacks on which something is to be decided. -/
def pageIssues (index : Index ν) (config : Config) (state : Build ν) :
    Except (Fault ν) (List (List (Issue ν))) :=
  (openPages index state).mapM fun page => (issues index config state page).outcome

theorem block_ne_empty {found : List (Issue ν)} (h : found ≠ []) : block found ≠ "" := by
  refine Text.join_ne_empty (by simpa using h) fun line hline => ?_
  obtain ⟨i, _, rfl⟩ := List.mem_map.mp hline
  exact i.lack.message_ne_empty

@[simp] theorem block_eq_empty_iff {found : List (Issue ν)} : block found = "" ↔ found = [] := by
  constructor
  · intro h
    cases found with
    | nil => rfl
    | cons i rest => exact absurd h (block_ne_empty (List.cons_ne_nil i rest))
  · rintro rfl
    rfl

theorem isDone_outcome : (isDone index config state page).outcome
    = (issues index config state page).outcome.map List.isEmpty := by
  unfold isDone
  rw [← map_eq_pure_bind, Traced.outcome_map]

theorem pageText_outcome : (pageText index config state page).outcome
    = (issues index config state page).outcome.map block := by
  unfold pageText
  rw [← map_eq_pure_bind, Traced.outcome_map]
  rfl

theorem allIssues_outcome : (allIssues index config state).outcome
    = (pageIssues index config state).map List.flatten := by
  unfold allIssues
  rw [← map_eq_pure_bind, Traced.outcome_map, Traced.outcome_mapM]
  rfl

/-- The report has the blocks of the pages that lack something. -/
theorem report_outcome : (report index config state).outcome
    = (pageIssues index config state).map fun pages =>
      Text.join "\n\n" ((pages.filter fun found => !found.isEmpty).map block) := by
  have hfilter : ∀ pages : List (List (Issue ν)), (pages.map block).filter (fun b => b ≠ ("" : Text))
      = (pages.filter fun found => !found.isEmpty).map block := by
    intro pages
    rw [List.filter_map]
    congr 1
    refine List.filter_congr fun found _ => ?_
    simp [← List.isEmpty_iff]
  unfold report
  rw [← map_eq_pure_bind, Traced.outcome_map, Traced.outcome_mapM]
  simp only [pageText_outcome, mapM_map]
  rw [pageIssues]
  cases (openPages index state).mapM fun page => (issues index config state page).outcome with
  | error fault => rfl
  | ok pages => exact congrArg (fun blocks => Except.ok (Text.join "\n\n" blocks)) (hfilter pages)

/-! ## When nothing is missing -/

theorem isDone_eq_true_iff : (isDone index config state page).outcome = .ok true ↔
    (issues index config state page).outcome = .ok [] := by
  rw [isDone_outcome, except_map_eq_ok]
  simp

theorem pageText_eq_empty_iff : (pageText index config state page).outcome = .ok "" ↔
    (issues index config state page).outcome = .ok [] := by
  rw [pageText_outcome, except_map_eq_ok]
  simp

theorem pageIssues_all_nil_iff :
    (∃ pages, pageIssues index config state = .ok pages ∧ ∀ found ∈ pages, found = []) ↔
      ∀ page ∈ openPages index state, (issues index config state page).outcome = .ok [] := by
  rw [pageIssues, mapM_eq_ok_forall_iff]
  simp

/-- **A build lacks nothing if no page does on which something is to be decided.** -/
theorem allIssues_eq_nil_iff : (allIssues index config state).outcome = .ok [] ↔
    ∀ page ∈ openPages index state, (issues index config state page).outcome = .ok [] := by
  rw [allIssues_outcome, except_map_eq_ok, ← pageIssues_all_nil_iff]
  simp only [List.flatten_eq_nil_iff]

theorem report_eq_empty_iff : (report index config state).outcome = .ok "" ↔
    ∀ page ∈ openPages index state, (issues index config state page).outcome = .ok [] := by
  rw [report_outcome, except_map_eq_ok, ← pageIssues_all_nil_iff]
  refine exists_congr fun pages => and_congr_right fun _ => ?_
  constructor
  · intro h found hfound
    cases found with
    | nil => rfl
    | cons i rest =>
        -- the block of this page would be among those of the report
        have hmem : i :: rest ∈ pages.filter fun found => !found.isEmpty := by simpa using hfound
        refine absurd h (Text.join_ne_empty (fun hnil => ?_) fun b hb => ?_)
        · rw [List.map_eq_nil_iff.mp hnil] at hmem
          cases hmem
        · obtain ⟨found, hfound, rfl⟩ := List.mem_map.mp hb
          exact block_ne_empty (by simpa using (List.mem_filter.mp hfound).2)
  · intro h
    have hnone : (pages.filter fun found => !found.isEmpty) = [] :=
      List.filter_eq_nil_iff.mpr fun found hfound => by simp [h found hfound]
    rw [hnone]
    rfl

end Completeness

/-! ## Finishing a build -/

namespace Guided

variable {s : Session ν (Call ν)}

/-- A build is finished if it lacks nothing, and else there is a report on what it lacks. -/
theorem finalize_eq_ok {finished : Except Text (Record ν)}
    (h : (finalize s).outcome = .ok finished) :
    (∃ record, (Completeness.allIssues s.index s.config s.state).outcome = .ok [] ∧
      (Record.assemble s.index s.state).outcome = .ok record ∧ finished = .ok record) ∨
    ∃ issues text, (Completeness.allIssues s.index s.config s.state).outcome = .ok issues ∧
      issues ≠ [] ∧ (Completeness.report s.index s.config s.state).outcome = .ok text ∧
      finished = .error text := by
  unfold finalize at h
  obtain ⟨issues, hissues, h⟩ := Traced.outcome_bind_eq_ok.mp h
  cases issues with
  | nil =>
      simp only [List.isEmpty_nil, if_true, Traced.outcome_map] at h
      obtain ⟨record, hrecord, rfl⟩ := except_map_eq_ok.mp h
      exact .inl ⟨record, hissues, hrecord, rfl⟩
  | cons i rest =>
      simp only [List.isEmpty_cons, Bool.false_eq_true, if_false, Traced.outcome_map] at h
      obtain ⟨text, htext, rfl⟩ := except_map_eq_ok.mp h
      exact .inr ⟨i :: rest, text, hissues, List.cons_ne_nil i rest, htext, rfl⟩

/-- A build that can be finished, or reported on, is finished exactly if it lacks nothing. -/
theorem isOk_iff_of_finalize {finished : Except Text (Record ν)}
    (h : (finalize s).outcome = .ok finished) : finished.isOk = true ↔
      (Completeness.allIssues s.index s.config s.state).outcome = .ok [] := by
  rcases finalize_eq_ok h with ⟨record, hissues, _, rfl⟩ | ⟨issues, text, hissues, hne, _, rfl⟩
  · simp [hissues, Except.isOk, Except.toBool]
  · simp [hissues, hne, Except.isOk, Except.toBool]

theorem isDone_none_iff : (isDone s none).outcome = .ok true ↔
    (Completeness.allIssues s.index s.config s.state).outcome = .ok [] := by
  unfold isDone
  rw [← map_eq_pure_bind, Traced.outcome_map, except_map_eq_ok]
  simp

/-- The answers to the questions whether a build is complete. -/
theorem complete_tfae {finished : Except Text (Record ν)}
    (h : (finalize s).outcome = .ok finished) :
    [(Completeness.allIssues s.index s.config s.state).outcome = .ok [],
      ∀ page ∈ Completeness.openPages s.index s.state,
        (Completeness.isDone s.index s.config s.state page).outcome = .ok true,
      ∀ page ∈ Completeness.openPages s.index s.state,
        (Completeness.pageText s.index s.config s.state page).outcome = .ok "",
      (Completeness.report s.index s.config s.state).outcome = .ok "",
      (isDone s none).outcome = .ok true,
      ∃ record, (Record.assemble s.index s.state).outcome = .ok record ∧
        finished = .ok record].TFAE := by
  tfae_have 1 ↔ 2 := by
    simp only [Completeness.isDone_eq_true_iff]
    exact Completeness.allIssues_eq_nil_iff
  tfae_have 1 ↔ 3 := by
    simp only [Completeness.pageText_eq_empty_iff]
    exact Completeness.allIssues_eq_nil_iff
  tfae_have 1 ↔ 4 := Completeness.allIssues_eq_nil_iff.trans Completeness.report_eq_empty_iff.symm
  tfae_have 1 ↔ 5 := isDone_none_iff.symm
  tfae_have 1 ↔ 6 := by
    rw [← isOk_iff_of_finalize h]
    rcases finalize_eq_ok h with ⟨record, _, hrecord, rfl⟩ | ⟨issues, text, _, _, _, rfl⟩
    · exact ⟨fun _ => ⟨record, hrecord, rfl⟩, fun _ => rfl⟩
    · exact ⟨nofun, fun ⟨_, _, heq⟩ => nomatch heq⟩
  tfae_finish

/-- The report on a build that lacks something says all that it lacks, page by page. -/
theorem report_of_unfinished {text : Text} (h : (finalize s).outcome = .ok (.error text)) :
    text ≠ "" ∧ (Completeness.report s.index s.config s.state).outcome = .ok text ∧
    ∃ pages, Completeness.pageIssues s.index s.config s.state = .ok pages ∧
      (Completeness.allIssues s.index s.config s.state).outcome = .ok pages.flatten ∧
      text = Text.join "\n\n"
        ((pages.filter fun found => !found.isEmpty).map Completeness.block) := by
  rcases finalize_eq_ok h with ⟨_, _, _, heq⟩ | ⟨issues, text', hissues, hne, htext, heq⟩
  · cases heq
  · obtain rfl := Except.error.inj heq
    refine ⟨fun hempty => ?_, htext, ?_⟩
    · -- an empty report would say that nothing is missing
      rw [hempty, Completeness.report_eq_empty_iff, ← Completeness.allIssues_eq_nil_iff,
        hissues] at htext
      exact hne (Except.ok.inj htext)
    · rw [Completeness.report_outcome, except_map_eq_ok] at htext
      obtain ⟨pages, hpages, hjoin⟩ := htext
      refine ⟨pages, hpages, ?_, hjoin.symm⟩
      rw [Completeness.allIssues_outcome, hpages]
      rfl

theorem ask_apply {κ α : Type} (question : Session ν κ → Traced ν α) (s : Session ν κ) :
    ask question s = ⟨s, (question s).notes, [], (question s).outcome⟩ := by
  unfold ask
  rw [Action.session_bind]
  rfl

end Guided

end CharacterBuild
