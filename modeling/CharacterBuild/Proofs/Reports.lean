import CharacterBuild.CommandLine
import CharacterBuild.Proofs.Answers
import Mathlib.Data.List.Forall2

set_option autoImplicit false

/-! # Reports on files

A command line has a build file replayed against a file of definitions, and prints a report on the
session that this comes to. The report says the same as the session when it is asked, as text
(`Report.text_of_finalize`) and as a document (`Report.document_of_finalize`), and with that all
answers about completeness agree (`Guided.answers_agree`).

Only the exit code falls short of them. It is meant to tell whether the build is complete, but it
also tells whether the report came out (`Report.exitCode_printed_iff`), and the report on a build
that is complete need not come out: a document cannot be written if two numbers of the inventory
were merged into one with too many digits, and a text cannot be printed if what was refused, or the
name of a page, has half a surrogate pair in it (`Report.canPrint_text_iff`).
-/

namespace CharacterBuild

variable {ν : Type}

/-! ## Texts that can be put out -/

namespace Text

/-- No character is half a surrogate pair. -/
theorem canPrint_ofString (s : String) : (ofString s).canPrint = true := by
  refine List.all_eq_true.mpr fun p hp => ?_
  obtain ⟨c, _, rfl⟩ := List.mem_map.mp hp
  have hval : (CodePoint.ofChar c).val = c.val.toNat := rfl
  have hc := c.valid
  simp only [UInt32.isValidChar, Nat.isValidChar] at hc
  simp only [CodePoint.isHighHalf, CodePoint.isLowHalf, hval, Bool.not_eq_true', Bool.or_eq_false_iff,
    Bool.and_eq_false_iff, decide_eq_false_iff_not]
  omega

@[simp] theorem canPrint_append (s t : Text) :
    (s ++ t).canPrint = (s.canPrint && t.canPrint) := List.all_append

/-- Texts with something in between can be put out if each of them can. -/
theorem canPrint_join {between : Text} (h : between.canPrint = true) (parts : List Text) :
    (join between parts).canPrint = parts.all canPrint := by
  induction parts with
  | nil => rfl
  | cons p rest ih =>
      cases rest with
      | nil => simp [join, canPrint]
      | cons q rest =>
          rw [join_cons_cons, canPrint_append, canPrint_append, h, Bool.and_true, ih]
          rfl

end Text

variable [Number ν]

theorem Level.canPrint_str (l : Level ν) : l.toValue.str.canPrint = true := by
  cases l with
  | whole n => exact Text.canPrint_ofString _
  | real x => exact Text.canPrint_ofString _
  | flag b => cases b <;> exact Text.canPrint_ofString _

/-! ## Reporting on files -/

theorem Action.outcome_bind_pure {κ α β : Type} (f : α → β) (x : Action ν κ α) (s : Session ν κ) :
    ((x >>= fun a => pure (f a)) s).outcome = (x s).outcome.map f := by
  rw [← map_eq_pure_bind, map_apply]

/-- Going through a list with actions that leave the session. -/
theorem Action.mapM_of_session_eq {κ α β : Type} {f : α → Action ν κ β} {s : Session ν κ}
    (h : ∀ a, (f a s).session = s) (l : List α) :
    ((l.mapM f) s).session = s ∧ ((l.mapM f) s).outcome = l.mapM fun a => (f a s).outcome := by
  induction l with
  | nil => exact ⟨rfl, rfl⟩
  | cons a rest ih =>
      rw [List.mapM_cons, List.mapM_cons]
      cases ha : (f a s).outcome with
      | error fault =>
          rw [bind_of_error ha]
          exact ⟨h a, rfl⟩
      | ok b =>
          rw [bind_of_ok ha, h a, ← map_eq_pure_bind, map_apply]
          refine ⟨ih.1, ?_⟩
          dsimp only
          rw [ih.2]
          cases rest.mapM fun a => (f a s).outcome <;> rfl

namespace Report

open Guided (Call ask)

variable {s : Session ν (Call ν)} {rejected : List Text} {finished : Except Text (Record ν)}

/-- The line on a page that is complete or not. -/
def lineOf (page : Text) (complete : Bool) : Text :=
  "  " ++ page ++ ": " ++ (if complete then "complete" else "incomplete")

/-- The lines on all pages on which something is to be decided. -/
def pageLines (index : Index ν) (config : Config) (state : Build ν) : Except (Fault ν) (List Text) :=
  (Completeness.openPages index state).mapM fun page =>
    (Completeness.isDone index config state page).outcome.map (lineOf page)

/-- Two files can be read, and when the one is replayed against the other, this comes to a session
and to what was refused. -/
def Replays (files : Files) (s : Session ν (Call ν)) (rejected : List Text) : Prop :=
  ∃ definitions build catalog config start,
    load files.definitionsName files.definitions = .ok definitions ∧
    load files.buildName files.build = .ok build ∧
    (Catalog.read (.object definitions)).outcome = .ok catalog ∧
    Config.read ((Value.memberOrNull "config" definitions).orElse (.object [])) = .ok config ∧
    (Guided.newBuild catalog config).outcome = .ok start ∧
    (Replay.replay build start).outcome = .ok rejected ∧ (Replay.replay build start).session = s

theorem plain_outcome {lines : List Text} {text : Text}
    (hlines : pageLines s.index s.config s.state = .ok lines)
    (htext : (Completeness.report s.index s.config s.state).outcome = .ok text) :
    (plain rejected s).outcome = .ok (Text.join "\n"
      (overview s.state ++ refusals rejected ++ ("pages:" : Text) :: lines ++ lacks text)) := by
  have hpage : ∀ page, (pageLine page s).session = s ∧ (pageLine page s).outcome
      = (Completeness.isDone s.index s.config s.state page).outcome.map (lineOf page) := by
    intro page
    unfold pageLine
    rw [← map_eq_pure_bind, Action.map_apply, Guided.ask_apply]
    exact ⟨rfl, rfl⟩
  obtain ⟨hsame, hmapped⟩ := Action.mapM_of_session_eq (fun page => (hpage page).1)
    (Completeness.openPages s.index s.state)
  have hok : (((Completeness.openPages s.index s.state).mapM pageLine) s).outcome = .ok lines := by
    rw [hmapped, ← hlines]
    simp only [hpage]
    rfl
  unfold plain
  rw [Action.session_bind, Action.bind_of_ok hok, hsame, Guided.ask_bind_of_ok htext]
  rfl

theorem document_outcome {issues : List (Issue ν)}
    (hissues : (Completeness.allIssues s.index s.config s.state).outcome = .ok issues) :
    (document rejected finished s).outcome =
      if Json.canWrite (content rejected finished issues) then
        .ok (Json.write .indented 0 (content rejected finished issues))
      else .error .unreadable := by
  unfold document
  rw [Guided.ask_bind_of_ok hissues]
  dsimp only
  split <;> rfl

/-- The report on two files is made in the session that the replay comes to. -/
theorem ofFiles_outcome {files : Files} (hreplays : Replays files s rejected)
    (h : (Guided.finalize s).outcome = .ok finished) (asDocument : Bool) :
    (ofFiles asDocument files : Traced ν Report).outcome
      = ((if asDocument then document rejected finished else plain rejected) s).outcome.map
        fun text => ⟨finished.isOk, text⟩ := by
  obtain ⟨definitions, build, catalog, config, start, hdefinitions, hbuild, hcatalog, hconfig,
    hstart, hrejected, rfl⟩ := hreplays
  unfold ofFiles
  rw [Traced.outcome_bind_of_ok (a := definitions) hdefinitions,
    Traced.outcome_bind_of_ok (a := build) hbuild, Traced.outcome_bind_of_ok hcatalog,
    Traced.outcome_bind_of_ok (a := config) hconfig, Traced.outcome_bind_of_ok hstart]
  show (replayed asDocument build start).outcome = _
  unfold replayed
  rw [Action.bind_of_ok hrejected, Guided.ask_bind_of_ok h]
  cases asDocument with
  | true => exact Action.outcome_bind_pure (mk finished.isOk) _ _
  | false => exact Action.outcome_bind_pure (mk finished.isOk) _ _

/-! ## What a report says -/

variable {line : CommandLine} {definitions build : String}

/-- What the text of a report says of a build that was finished or not. -/
def closing (finished : Except Text (Record ν)) : List Text :=
  match finished with
  | .ok _ => []
  | .error text => ["", "Please complete the following:", text]

/-- When a build was finished or reported on, everything that a report asks for has an answer. -/
theorem exists_answers (h : (Guided.finalize s).outcome = .ok finished) : ∃ issues text,
    (Completeness.allIssues s.index s.config s.state).outcome = .ok issues ∧
      (Completeness.report s.index s.config s.state).outcome = .ok text ∧
      finished.isOk = issues.isEmpty ∧ lacks text = closing finished := by
  rcases Guided.finalize_eq_ok h with
    ⟨record, hissues, _, rfl⟩ | ⟨issues, text, hissues, hne, htext, rfl⟩
  · refine ⟨[], "", hissues, ?_, rfl, rfl⟩
    exact Completeness.report_eq_empty_iff.mpr (Completeness.allIssues_eq_nil_iff.mp hissues)
  · have hopen : issues.isEmpty = false := by simpa using hne
    have hsays : text.isEmpty = false := by
      have hne := (Guided.report_of_unfinished h).1
      rw [ne_eq, Text.eq_empty_iff] at hne
      simpa [Text.isEmpty] using hne
    exact ⟨issues, text, hissues, htext, hopen.symm, by simp [lacks, closing, hsays]⟩

/-- If the pages can be judged, each has its line. -/
theorem exists_pageLines {issues : List (Issue ν)}
    (hissues : (Completeness.allIssues s.index s.config s.state).outcome = .ok issues) :
    ∃ lines, pageLines s.index s.config s.state = .ok lines := by
  rw [Completeness.allIssues_outcome, except_map_eq_ok] at hissues
  obtain ⟨pages, hpages, _⟩ := hissues
  have hjudged := mapM_eq_ok_forall_iff.mp ⟨pages, hpages, fun _ _ => trivial⟩
  have hlines : ∀ page ∈ Completeness.openPages s.index s.state, ∃ line,
      (Completeness.isDone s.index s.config s.state page).outcome.map (lineOf page) = .ok line ∧
        True := by
    intro page hpage
    obtain ⟨found, hfound, _⟩ := hjudged page hpage
    rw [Completeness.isDone_outcome, hfound]
    exact ⟨_, rfl, trivial⟩
  obtain ⟨lines, hlines, _⟩ := mapM_eq_ok_forall_iff.mpr hlines
  exact ⟨lines, hlines⟩

/-- **The report as text** says which pages are complete, and what is missing if anything is. -/
theorem text_of_finalize (hplain : line.asDocument = false)
    (hreplays : Replays (line.files definitions build) s rejected)
    (h : (Guided.finalize s).outcome = .ok finished) {issues : List (Issue ν)}
    (hissues : (Completeness.allIssues s.index s.config s.state).outcome = .ok issues) :
    ∃ lines, pageLines s.index s.config s.state = .ok lines ∧
      (line.report definitions build : Traced ν Report).outcome = .ok ⟨issues.isEmpty, Text.join "\n"
        (overview s.state ++ refusals rejected ++ ("pages:" : Text) :: lines ++
          closing finished)⟩ := by
  obtain ⟨issues', text, hissues', htext, hcomplete, hlacks⟩ := exists_answers h
  obtain rfl := Except.ok.inj (hissues.symm.trans hissues')
  obtain ⟨lines, hlines⟩ := exists_pageLines hissues
  refine ⟨lines, hlines, ?_⟩
  rw [CommandLine.report, hplain, ofFiles_outcome hreplays h false]
  simp only [Bool.false_eq_true, if_false]
  rw [plain_outcome hlines htext, hlacks, hcomplete]
  rfl

/-- What a document says of one thing that is missing. -/
structure TellsIssue (i : Issue ν) (v : Value ν) : Prop where
  page : v.member "page" = .ok (.text i.page)
  level : v.member "level" = .ok (match i.level with
    | some n => .whole n
    | none => .null)
  category : v.member "category" = .ok (.text i.lack.category)
  message : v.member "message" = .ok (.text i.lack.message)

/-- **What a document says** of a build that was finished or not. -/
structure Tells (rejected : List Text) (finished : Except Text (Record ν))
    (issues : List (Issue ν)) (v : Value ν) : Prop where
  complete : v.member "complete" = .ok (.bool issues.isEmpty)
  rejected : v.member "rejected" = .ok (.list (rejected.map .text))
  issues : ∃ told, v.member "issues" = .ok (.list told) ∧ List.Forall₂ TellsIssue issues told
  build : v.member "build" = .ok (match finished with
    | .ok record => record.toValue Json.nameOfKey
    | .error _ => .null)
  report : v.member "report" = .ok (match finished with
    | .ok _ => .null
    | .error text => .text text)

theorem tellsIssue_issueValue (i : Issue ν) : TellsIssue i (issueValue i) where
  page := rfl
  level := by
    show Except.ok ((i.level.map Value.whole).getD .null) = _
    cases i.level <;> rfl
  category := rfl
  message := rfl

/-- **The report as a document** says what was refused, what is missing and what was recorded. It
cannot be written if a number in it has too many digits. -/
theorem document_of_finalize (hdocument : line.asDocument = true)
    (hreplays : Replays (line.files definitions build) s rejected)
    (h : (Guided.finalize s).outcome = .ok finished) {issues : List (Issue ν)}
    (hissues : (Completeness.allIssues s.index s.config s.state).outcome = .ok issues) :
    ∃ told, Tells rejected finished issues told ∧
      (line.report definitions build : Traced ν Report).outcome =
        if Json.canWrite told then .ok ⟨issues.isEmpty, Json.write .indented 0 told⟩
        else .error .unreadable := by
  obtain ⟨issues', text, hissues', htext, hcomplete, hlacks⟩ := exists_answers h
  obtain rfl := Except.ok.inj (hissues.symm.trans hissues')
  have htold : List.Forall₂ TellsIssue issues (issues.map issueValue) := by
    rw [List.forall₂_map_right_iff]
    exact List.forall₂_same.mpr fun i _ => tellsIssue_issueValue i
  refine ⟨content rejected finished issues, ?_, ?_⟩
  · cases finished with
    | ok record =>
        refine ⟨?_, rfl, ⟨_, rfl, htold⟩, rfl, rfl⟩
        rw [← hcomplete]
        rfl
    | error text =>
        refine ⟨?_, rfl, ⟨_, rfl, htold⟩, rfl, rfl⟩
        rw [← hcomplete]
        rfl
  · rw [CommandLine.report, hdocument, ofFiles_outcome hreplays h true]
    simp only [if_true]
    rw [document_outcome hissues, hcomplete]
    split <;> rfl

/-! ## Exit codes -/

/-- **The exit code is zero if the report comes out and says that the build is complete.** -/
theorem exitCode_printed_iff :
    exitCode (line.printed definitions build : Traced ν Report).outcome = 0 ↔
      ∃ report, (line.report definitions build : Traced ν Report).outcome = .ok report ∧
        report.complete = true ∧ report.text.canPrint = true := by
  unfold CommandLine.printed
  rw [Traced.outcome_bind]
  cases (line.report definitions build : Traced ν Report).outcome with
  | error fault => simp [exitCode, Except.bind]
  | ok report =>
      show exitCode (report.printed : Except (Fault ν) Report) = 0 ↔ _
      unfold printed
      by_cases hprint : report.text.canPrint = true
      · simp [exitCode, hprint]
      · simp [exitCode, hprint]

/-- The text on a complete build can be printed if no half of a surrogate pair stands in what was
refused or in the name of a page. -/
theorem canPrint_text_iff {lines : List Text} {record : Record ν}
    (hlines : pageLines s.index s.config s.state = .ok lines)
    (hdone : ∀ page ∈ Completeness.openPages s.index s.state,
      (Completeness.isDone s.index s.config s.state page).outcome = .ok true) :
    (Text.join "\n" (overview s.state ++ refusals rejected ++ ("pages:" : Text) :: lines ++
      closing (.ok record))).canPrint = true ↔
      (∀ r ∈ rejected, r.canPrint = true) ∧
        ∀ page ∈ Completeness.openPages s.index s.state, page.canPrint = true := by
  have hall : lines = (Completeness.openPages s.index s.state).map fun page => lineOf page true := by
    refine eq_map_of_mapM_eq_ok (fun page hpage line hline => ?_) hlines
    rw [hdone page hpage] at hline
    exact (Except.ok.inj hline).symm
  have hpages : lines.all Text.canPrint = (Completeness.openPages s.index s.state).all
      Text.canPrint := by
    rw [hall, List.all_map]
    refine List.all_congr rfl fun page => ?_
    simp [lineOf, Text.canPrint_ofString]
  have hrefused : (refusals rejected).all Text.canPrint = rejected.all Text.canPrint := by
    unfold refusals
    cases rejected with
    | nil => rfl
    | cons r rest => simp [Text.canPrint_ofString, List.all_map, Function.comp_def]
  have hview : (overview s.state).all Text.canPrint = true := by
    have hmode : s.state.mode.name.canPrint = true := by
      cases s.state.mode <;> exact Text.canPrint_ofString _
    simp [overview, Text.canPrint_ofString, Level.canPrint_str, hmode]
  rw [Text.canPrint_join (Text.canPrint_ofString _)]
  simp only [closing, List.append_nil, List.all_append, List.all_cons, hview, hrefused, hpages,
    Text.canPrint_ofString, Bool.true_and, Bool.and_eq_true, List.all_eq_true]

/-- **The exit code beside a text** is zero if the build is complete and the text can be printed. -/
theorem exitCode_text (h : (Guided.finalize s).outcome = .ok finished) {issues : List (Issue ν)}
    (hissues : (Completeness.allIssues s.index s.config s.state).outcome = .ok issues)
    {lines : List Text} (hlines : pageLines s.index s.config s.state = .ok lines)
    (hmade : (line.report definitions build : Traced ν Report).outcome = .ok ⟨issues.isEmpty,
      Text.join "\n" (overview s.state ++ refusals rejected ++ ("pages:" : Text) :: lines ++
        closing finished)⟩) :
    exitCode (line.printed definitions build : Traced ν Report).outcome = 0 ↔ issues = [] ∧
      (∀ r ∈ rejected, r.canPrint = true) ∧
      ∀ page ∈ Completeness.openPages s.index s.state, page.canPrint = true := by
  have hcode : exitCode (line.printed definitions build : Traced ν Report).outcome = 0 ↔
      issues = [] ∧ (Text.join "\n" (overview s.state ++ refusals rejected ++
        ("pages:" : Text) :: lines ++ closing finished)).canPrint = true := by
    rw [exitCode_printed_iff, hmade]
    simp
  rw [hcode]
  refine and_congr_right fun hnone => ?_
  -- with nothing missing the build was finished, and all pages are complete
  rw [hnone] at hissues
  have htfae := Guided.complete_tfae h
  obtain ⟨record, _, rfl⟩ := (htfae.out 0 5).mp hissues
  exact canPrint_text_iff hlines ((htfae.out 0 1).mp hissues)

-- a build that is complete, though an item was refused whose id is half a surrogate pair
example :
    let line : CommandLine := ⟨"definitions", "build", false, false⟩
    let definitions := "\x7b\"config\":\x7b\"requireName\":false\x7d\x7d"
    let build := "\x7b\"selections\":[\x7b\"id\":\"\\ud800\",\"source\":\"A\"\x7d]\x7d"
    (line.report definitions build : Traced Double Report).outcome.toOption.any complete = true ∧
      exitCode (line.printed definitions build : Traced Double Report).outcome = 1 := by
  decide +kernel

/-- **The exit code beside a document** is zero if the build is complete and the document can be
written: what is written can be printed. -/
theorem exitCode_document {issues : List (Issue ν)} {told : Value ν}
    (hmade : (line.report definitions build : Traced ν Report).outcome =
      if Json.canWrite told then .ok ⟨issues.isEmpty, Json.write .indented 0 told⟩
      else .error .unreadable) :
    exitCode (line.printed definitions build : Traced ν Report).outcome = 0 ↔
      issues = [] ∧ Json.canWrite told = true := by
  rw [exitCode_printed_iff, hmade]
  by_cases hwrite : Json.canWrite told = true
  · simp [hwrite, Text.canPrint_ofString]
  · simp [hwrite]

/-- A report that is made is one on the session that the replay comes to. -/
theorem replays_of_ofFiles {asDocument : Bool} {files : Files} {report : Report}
    (h : (ofFiles asDocument files : Traced ν Report).outcome = .ok report) :
    ∃ (s : Session ν (Call ν)) (rejected : List Text) (finished : Except Text (Record ν)),
      Replays files s rejected ∧ (Guided.finalize s).outcome = .ok finished := by
  unfold ofFiles at h
  obtain ⟨definitions, hdefinitions, h⟩ := Traced.outcome_bind_eq_ok.mp h
  obtain ⟨build, hbuild, h⟩ := Traced.outcome_bind_eq_ok.mp h
  obtain ⟨catalog, hcatalog, h⟩ := Traced.outcome_bind_eq_ok.mp h
  obtain ⟨config, hconfig, h⟩ := Traced.outcome_bind_eq_ok.mp h
  obtain ⟨start, hstart, h⟩ := Traced.outcome_bind_eq_ok.mp h
  have h : (replayed asDocument build start).outcome = .ok report := h
  unfold replayed at h
  cases hrejected : (Replay.replay build start).outcome with
  | error fault =>
      rw [Action.bind_of_error hrejected] at h
      cases h
  | ok rejected =>
      rw [Action.bind_of_ok hrejected] at h
      cases hfinished : (Guided.finalize (Replay.replay build start).session).outcome with
      | error fault =>
          rw [Guided.ask_bind_of_error hfinished] at h
          cases h
      | ok finished =>
          exact ⟨_, rejected, finished, ⟨definitions, build, catalog, config, start, hdefinitions,
            hbuild, hcatalog, hconfig, hstart, hrejected, rfl⟩, hfinished⟩

end Report

/-! ## All answers -/

namespace Guided

/-- **All answers about completeness agree**, if a build can be finished or reported on at all. It
lacks nothing, each page is complete, no page has anything to say, the report is empty, the build
as a whole is complete, and it is finished: these are the same. Otherwise it is answered with a
report that is not empty and has the messages of all that is missing, in order, in a block for each
page that lacks something. What a command line prints says the same, as text and as a document. Its
exit code is zero if the build is complete and the report comes out: no half of a surrogate pair
stands in the text, and no number in the document has too many digits. -/
theorem answers_agree {s : Session ν (Call ν)} {finished : Except Text (Record ν)}
    (h : (finalize s).outcome = .ok finished) :
    [(Completeness.allIssues s.index s.config s.state).outcome = .ok [],
      ∀ page ∈ Completeness.openPages s.index s.state,
        (Completeness.isDone s.index s.config s.state page).outcome = .ok true,
      ∀ page ∈ Completeness.openPages s.index s.state,
        (Completeness.pageText s.index s.config s.state page).outcome = .ok "",
      (Completeness.report s.index s.config s.state).outcome = .ok "",
      (isDone s none).outcome = .ok true,
      ∃ record, (Record.assemble s.index s.state).outcome = .ok record ∧
        finished = .ok record].TFAE ∧
    (∀ text, finished = .error text → text ≠ "" ∧
      (Completeness.report s.index s.config s.state).outcome = .ok text ∧
      ∃ pages, Completeness.pageIssues s.index s.config s.state = .ok pages ∧
        (Completeness.allIssues s.index s.config s.state).outcome = .ok pages.flatten ∧
        text = Text.join "\n\n"
          ((pages.filter fun found => !found.isEmpty).map Completeness.block)) ∧
    ∀ (line : CommandLine) (definitions build : String) (rejected : List Text),
      Report.Replays (line.files definitions build) s rejected →
      let made : Traced ν Report := line.report definitions build
      let printed : Traced ν Report := line.printed definitions build
      ∃ issues, (Completeness.allIssues s.index s.config s.state).outcome = .ok issues ∧
        (line.asDocument = false →
          (∃ lines, Report.pageLines s.index s.config s.state = .ok lines ∧
            made.outcome = .ok ⟨issues.isEmpty, Text.join "\n"
              (Report.overview s.state ++ Report.refusals rejected ++ ("pages:" : Text) :: lines ++
                Report.closing finished)⟩) ∧
          (Report.exitCode printed.outcome = 0 ↔ issues = [] ∧
            (∀ r ∈ rejected, r.canPrint = true) ∧
            ∀ page ∈ Completeness.openPages s.index s.state, page.canPrint = true)) ∧
        (line.asDocument = true → ∃ document, Report.Tells rejected finished issues document ∧
          made.outcome = (if Json.canWrite document then
            .ok ⟨issues.isEmpty, Json.write .indented 0 document⟩ else .error .unreadable) ∧
          (Report.exitCode printed.outcome = 0 ↔
            issues = [] ∧ Json.canWrite document = true)) := by
  refine ⟨complete_tfae h, fun text htext => ?_,
    fun line definitions build rejected hreplays => ?_⟩
  · subst htext
    exact report_of_unfinished h
  intro made printed
  obtain ⟨issues, _, hissues, _, _, _⟩ := Report.exists_answers h
  refine ⟨issues, hissues, fun hplain => ?_, fun hdocument => ?_⟩
  · obtain ⟨lines, hlines, htext⟩ := Report.text_of_finalize hplain hreplays h hissues
    exact ⟨⟨lines, hlines, htext⟩, Report.exitCode_text h hissues hlines htext⟩
  · obtain ⟨told, htold, hwritten⟩ := Report.document_of_finalize hdocument hreplays h hissues
    exact ⟨told, htold, hwritten, Report.exitCode_document hwritten⟩

/-- The command line that asks for a report as text. -/
def textLine : CommandLine where
  definitions := "definitions"
  build := "build"
  asDocument := false
  verbose := false

/-- A source that offers an item. -/
def openDefinitions : String :=
  "\x7b\"items\":\x7b\"x\":\x7b\x7d\x7d,\"sources\":\x7b\"A\":\x7b\"levels\":[" ++
    "\x7b\"level\":1,\"unlocks\":[\x7b\"id\":\"g\",\"type\":\"choice\",\"items\":[\"x\"]," ++
    "\"maxChoices\":1\x7d]\x7d]\x7d\x7d\x7d"

/-- Nothing is chosen in an empty file, so there is a report on what is missing, and the exit code is
one. -/
theorem answers_agree_openDefinitions :
    ∃ (s : Session Double (Call Double)) (rejected : List Text) (text : Text),
      Report.Replays (textLine.files openDefinitions "\x7b\x7d") s rejected ∧
      (finalize s).outcome = .ok (.error text) ∧
      text ≠ "" ∧ (Completeness.report s.index s.config s.state).outcome = .ok text ∧
      Report.exitCode
        (textLine.printed openDefinitions "\x7b\x7d" : Traced Double Report).outcome ≠ 0 := by
  obtain ⟨report, hreport, hcomplete⟩ := except_eq_ok_of_any (p := fun r : Report => !r.complete)
    (x := (textLine.report openDefinitions "\x7b\x7d" : Traced Double Report).outcome)
    (by decide +kernel)
  obtain ⟨s, rejected, finished, hreplays, hfinished⟩ := Report.replays_of_ofFiles hreport
  obtain ⟨_, hunfinished, hlines⟩ := answers_agree hfinished
  obtain ⟨issues, hissues, hplain, _⟩ := hlines textLine openDefinitions "\x7b\x7d" rejected hreplays
  obtain ⟨⟨lines, _, hmade⟩, hzero⟩ := hplain rfl
  -- the report that was made says that something is missing
  obtain rfl := Except.ok.inj (hreport.symm.trans hmade)
  have hsome : issues ≠ [] := by
    rintro rfl
    cases hcomplete
  cases finished with
  | ok record =>
      have hnone := (isOk_iff_of_finalize hfinished).mp rfl
      exact absurd (Except.ok.inj (hissues.symm.trans hnone)) hsome
  | error text =>
      obtain ⟨hne, htext, _⟩ := hunfinished text rfl
      exact ⟨s, rejected, text, hreplays, hfinished, hne, htext, fun h => hsome (hzero.mp h).1⟩

end Guided

end CharacterBuild
