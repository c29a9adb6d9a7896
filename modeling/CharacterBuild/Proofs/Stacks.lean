import CharacterBuild.Build.Inventory
import CharacterBuild.Number.Double
import CharacterBuild.Proofs.Groups
import Mathlib.Algebra.BigOperators.Group.List.Basic
import Mathlib.Algebra.Ring.Int.Defs
import Mathlib.Data.List.Induction
import Mathlib.Data.List.Nodup

set_option autoImplicit false

/-! # What is stacked of an inventory

An inventory is merged line by line. What has been merged of some lines can also be told at once
(`Merged.of`): the lines of single items are kept, and under each id that is stacked there is one
stack with all that its lines count and with all their sources. `Merged.add_of` shows that one line
more makes the same of it as telling it anew, and `merge_eq_ok` concludes for any number of lines.

A line counts its quantity, and one if it has none. A quantity of zero counts one as well, so a
stack holds more than its lines give by the number of lines that give zero (`merged_quantity`).
-/

namespace CharacterBuild

/-! ## Directories -/

/-- Entering a key again leaves it where it is, and a new one stands behind the others. -/
theorem Directory.put_map {κ β : Type} [DecidableEq κ] {keys : List κ} {value value' : κ → β} {k : κ}
    (hkeys : keys.Nodup) (hsame : ∀ key ∈ keys, key ≠ k → value key = value' key) :
    put k (value' k) (keys.map fun key => (key, value key))
      = (if k ∈ keys then keys else keys ++ [k]).map fun key => (key, value' key) := by
  induction keys with
  | nil => rfl
  | cons key rest ih =>
      obtain ⟨hkey, hrest⟩ := List.nodup_cons.mp hkeys
      rw [List.map_cons, put]
      by_cases hk : key = k
      · subst hk
        have hothers : rest.map (fun other => (other, value other))
            = rest.map fun other => (other, value' other) := by
          refine List.map_congr_left fun other hother => ?_
          rw [hsame other (by simp [hother]) fun h => hkey (h ▸ hother)]
        simp [hothers]
      · have hput := ih hrest fun other hother => hsame other (by simp [hother])
        have hin : k ∈ key :: rest ↔ k ∈ rest := by simp [Ne.symm hk]
        rw [if_neg (by simpa using hk), hput, hsame key (by simp) hk]
        by_cases hold : k ∈ rest
        · simp [hold]
        · simp [hold, Ne.symm hk]

variable {ν : Type}

namespace Inventory

/-! ## Lines -/

/-- A line that can be merged: an atom names its item, and its quantity is whole, null or absent. -/
structure Mergeable (line : Members ν) : Prop where
  named : ∃ a, Value.lookup "id" line = some (.atom a)
  counted : ∀ v, Value.lookup "quantity" line = some v → v = .null ∨ ∃ n, v = .whole n

/-- The id of the item that a line names. -/
def itemId? (line : Members ν) : Option Text :=
  match Value.lookup "id" line with
  | some (.text id) => some id
  | _ => none

/-- A line of an item of the catalog that cannot be stacked. -/
def isSingle (catalog : Catalog ν) (line : Members ν) : Bool :=
  ((itemId? line).bind catalog.item?).any fun item => !item.stackable

/-- The id under which a line is stacked. -/
def stackId? (catalog : Catalog ν) (line : Members ν) : Option Text :=
  (itemId? line).filter fun id => (catalog.item? id).any Item.stackable

/-- The quantity that a line gives; a line that gives none is for one. -/
def given (line : Members ν) : Int :=
  match Value.lookup "quantity" line with
  | some (.whole n) => n
  | _ => 1

/-- How much a line counts: what it gives, and one if it gives zero. -/
def countOf (line : Members ν) : Int := if given line = 0 then 1 else given line

/-- The parts of the source of a line. -/
def partsOf [Number ν] (line : Members ν) : List Text :=
  sourcesOf ((Value.memberOrNull "source" line).orElse (.text "")).str

variable {catalog : Catalog ν} {lines : List (Members ν)} {line : Members ν} {id : Text}

theorem stackId?_eq_some : stackId? catalog line = some id ↔
    itemId? line = some id ∧ ∃ item, catalog.item? id = some item ∧ item.stackable = true := by
  unfold stackId?
  rw [Option.filter_eq_some_iff, Option.any_eq_true]

theorem isSingle_iff : isSingle catalog line = true ↔
    ∃ id item, itemId? line = some id ∧ catalog.item? id = some item ∧ item.stackable = false := by
  unfold isSingle
  rw [Option.any_eq_true]
  constructor
  · rintro ⟨item, hitem, hsingle⟩
    obtain ⟨id, hid, hfound⟩ := Option.bind_eq_some_iff.mp hitem
    exact ⟨id, item, hid, hfound, by simpa using hsingle⟩
  · rintro ⟨id, item, hid, hfound, hsingle⟩
    exact ⟨item, Option.bind_eq_some_iff.mpr ⟨id, hid, hfound⟩, by simp [hsingle]⟩

/-- A line is not single and stacked at once. -/
theorem stackId?_of_isSingle (h : isSingle catalog line = true) : stackId? catalog line = none := by
  obtain ⟨id, item, hid, hfound, hsingle⟩ := isSingle_iff.mp h
  refine Option.eq_none_iff_forall_ne_some.mpr fun other hother => ?_
  obtain ⟨hother, item', hfound', hstackable⟩ := stackId?_eq_some.mp hother
  rw [hid] at hother
  obtain rfl := Option.some.inj hother
  rw [hfound] at hfound'
  obtain rfl := Option.some.inj hfound'
  rw [hsingle] at hstackable
  cases hstackable

/-- A line of no item of the catalog is neither kept nor stacked. -/
theorem unlisted_of_none (h : (itemId? line).bind catalog.item? = none) :
    isSingle catalog line = false ∧ stackId? catalog line = none := by
  constructor
  · unfold isSingle
    rw [h]
    rfl
  · refine Option.eq_none_iff_forall_ne_some.mpr fun id hid => ?_
    obtain ⟨hid, item, hfound, _⟩ := stackId?_eq_some.mp hid
    rw [hid, Option.bind_some, hfound] at h
    cases h

/-! ## Stacks -/

/-- The ids that are stacked, in the order in which they first occur. -/
def stackIds (catalog : Catalog ν) (lines : List (Members ν)) : List Text :=
  (lines.filterMap (stackId? catalog)).eraseDups

/-- The lines that are stacked under an id. -/
def linesOf (catalog : Catalog ν) (id : Text) (lines : List (Members ν)) : List (Members ν) :=
  lines.filter fun line => stackId? catalog line = some id

theorem mem_stackIds : id ∈ stackIds catalog lines ↔ ∃ line ∈ lines, stackId? catalog line = some id := by
  unfold stackIds
  rw [List.mem_eraseDups, List.mem_filterMap]

theorem nodup_stackIds (catalog : Catalog ν) (lines : List (Members ν)) :
    (stackIds catalog lines).Nodup :=
  nodup_eraseDups _

theorem linesOf_eq_nil (h : id ∉ stackIds catalog lines) : linesOf catalog id lines = [] := by
  refine List.filter_eq_nil_iff.mpr fun line hline hid => ?_
  exact h (mem_stackIds.mpr ⟨line, hline, of_decide_eq_true hid⟩)

theorem linesOf_concat (id : Text) (lines : List (Members ν)) (line : Members ν) :
    linesOf catalog id (lines ++ [line])
      = linesOf catalog id lines ++ if stackId? catalog line = some id then [line] else [] := by
  unfold linesOf
  rw [List.filter_append]
  by_cases h : stackId? catalog line = some id <;> simp [h]

variable [Number ν]

/-- The stack of an id: what its lines count, and their sources, each once. -/
def stackOf (catalog : Catalog ν) (id : Text) (lines : List (Members ν)) : Stack ν where
  quantity := .whole ((linesOf catalog id lines).map countOf).sum
  sources := ((linesOf catalog id lines).flatMap partsOf).eraseDups

/-- What has been merged of some lines. -/
def Merged.of (catalog : Catalog ν) (lines : List (Members ν)) : Merged ν where
  kept := lines.filter (isSingle catalog)
  joined := ⟨(stackIds catalog lines).map fun id => (id, stackOf catalog id lines), by
    refine List.pairwise_map.mpr ((nodup_stackIds catalog lines).imp fun hne => ?_)
    simpa using hne⟩

/-- The lines of an inventory, merged by item. -/
def mergedLines (catalog : Catalog ν) (lines : List (Members ν)) : List (Members ν) :=
  lines.filter (isSingle catalog) ++
    (stackIds catalog lines).map fun id => (stackOf catalog id lines).line id

omit [Number ν] in
theorem Merged.eq_of_entries {merged merged' : Merged ν} (hkept : merged.kept = merged'.kept)
    (hentries : merged.joined.entries = merged'.joined.entries) : merged = merged' := by
  obtain ⟨kept, joined⟩ := merged
  obtain ⟨kept', joined'⟩ := merged'
  obtain rfl : kept = kept' := hkept
  obtain rfl : joined = joined' := Directory.eq_of_entries hentries
  rfl

theorem stackOf_eq_empty (h : id ∉ stackIds catalog lines) : stackOf catalog id lines = {} := by
  unfold stackOf
  rw [linesOf_eq_nil h]
  rfl

/-- A line that is not stacked under an id does not matter to its stack. -/
theorem stackOf_concat_of_ne (h : stackId? catalog line ≠ some id) :
    stackOf catalog id (lines ++ [line]) = stackOf catalog id lines := by
  unfold stackOf
  rw [linesOf_concat, if_neg h, List.append_nil]

/-- Under an id the stack is found, or an empty one taken. -/
theorem Merged.find?_of (catalog : Catalog ν) (lines : List (Members ν)) (id : Text) :
    ((Merged.of catalog lines).joined.find? id).getD {} = stackOf catalog id lines := by
  have hfind : (Merged.of catalog lines).joined.find? id
      = ((stackIds catalog lines).find? (· = id)).map fun id => stackOf catalog id lines := by
    unfold Directory.find? Merged.of
    rw [List.find?_map, Option.map_map]
    rfl
  rw [hfind]
  cases hid : (stackIds catalog lines).find? (· = id) with
  | none =>
      have hnew : id ∉ stackIds catalog lines := fun hmem => by
        simpa using List.find?_eq_none.mp hid id hmem
      rw [stackOf_eq_empty hnew]
      rfl
  | some id' =>
      obtain rfl : id' = id := by simpa using List.find?_some hid
      rfl

/-- What a line counts is the quantity that is added. -/
theorem toAmount_quantity (hline : Mergeable line) :
    ((Value.memberOrNull "quantity" line).orElse (.whole 1)).toAmount
      = .ok (.whole (countOf line) : Amount ν) := by
  unfold Value.memberOrNull countOf given
  cases hq : Value.lookup "quantity" line with
  | none => rfl
  | some v =>
      rw [Option.getD_some]
      rcases hline.counted v hq with rfl | ⟨n, rfl⟩
      · rfl
      · by_cases hzero : n = 0
        · subst hzero
          rfl
        · have htrue : (Value.whole n : Value ν).isTrue = true := by
            simpa [Value.isTrue, Atom.isTrue, Amount.isTrue] using hzero
          rw [Value.orElse, if_pos htrue]
          dsimp only
          rw [if_neg hzero]
          rfl

/-- A line that is stacked under an id adds to the stack what it counts, and its sources. -/
theorem Stack.add_of (hline : Mergeable line) (hid : stackId? catalog line = some id) :
    (stackOf catalog id lines).add line = .ok (stackOf catalog id (lines ++ [line])) := by
  have hsum : stackOf catalog id (lines ++ [line])
      = ⟨.whole (((linesOf catalog id lines).map countOf).sum + countOf line),
        addSources (stackOf catalog id lines).sources (partsOf line)⟩ := by
    unfold stackOf addSources
    rw [foldl_addNew_eraseDups, linesOf_concat, if_pos hid]
    simp
  rw [hsum]
  unfold add
  rw [toAmount_quantity hline]
  rfl

omit [Number ν] in
/-- The item that is looked up for a line. -/
theorem itemOf_of_named {a : Atom ν} (ha : Value.lookup "id" line = some (.atom a)) :
    itemOf catalog (.atom a) = .ok ((itemId? line).bind catalog.item?) := by
  unfold itemId?
  rw [ha]
  cases a <;> rfl

/-- The id of an item is the text of the atom that names it. -/
theorem str_of_named {a : Atom ν} (ha : Value.lookup "id" line = some (.atom a))
    (hid : itemId? line = some id) : (Value.atom a).str = id := by
  unfold itemId? at hid
  rw [ha] at hid
  cases a with
  | text name => exact Option.some.inj hid
  | _ => cases hid

namespace Merged

/-- A line that is not stacked leaves the stacks as they are. -/
theorem of_concat_unstacked (hid : stackId? catalog line = none) :
    Merged.of catalog (lines ++ [line])
      = { Merged.of catalog lines with kept := (lines ++ [line]).filter (isSingle catalog) } := by
  have hstacks : ∀ id, stackOf catalog id (lines ++ [line]) = stackOf catalog id lines :=
    fun id => stackOf_concat_of_ne (by simp [hid])
  refine eq_of_entries rfl ?_
  show (stackIds catalog (lines ++ [line])).map _ = (stackIds catalog lines).map _
  simp [stackIds, hid, hstacks]

/-- A stacked line changes the stack of its id, which stands behind the others if it is new. -/
theorem of_concat_stacked (hid : stackId? catalog line = some id) :
    Merged.of catalog (lines ++ [line]) = { Merged.of catalog lines with
      joined := (Merged.of catalog lines).joined.insert id
        (stackOf catalog id (lines ++ [line])) } := by
  have hsingle : isSingle catalog line = false := by
    rw [← Bool.not_eq_true]
    intro h
    rw [stackId?_of_isSingle h] at hid
    cases hid
  have hothers : ∀ other ∈ stackIds catalog lines, other ≠ id →
      stackOf catalog other lines = stackOf catalog other (lines ++ [line]) := by
    intro other _ hother
    refine (stackOf_concat_of_ne ?_).symm
    rw [hid]
    exact fun h => hother (Option.some.inj h).symm
  have hids : stackIds catalog (lines ++ [line])
      = if id ∈ stackIds catalog lines then stackIds catalog lines
        else stackIds catalog lines ++ [id] := by
    unfold stackIds
    rw [List.filterMap_append, List.filterMap_cons_some hid, List.filterMap_nil, eraseDups_concat]
    simp only [List.mem_eraseDups]
  refine eq_of_entries ?_ ?_
  · show (lines ++ [line]).filter (isSingle catalog) = lines.filter (isSingle catalog)
    simp [hsingle]
  · show (stackIds catalog (lines ++ [line])).map _
      = Directory.put id _ ((stackIds catalog lines).map _)
    rw [hids]
    exact (Directory.put_map (nodup_stackIds catalog lines) hothers).symm

/-- **One line more makes of what has been merged what is told anew.** -/
theorem add_of (catalog : Catalog ν) (lines : List (Members ν)) (hline : Mergeable line) :
    ((Merged.of catalog lines).add catalog line).outcome
      = .ok (Merged.of catalog (lines ++ [line])) := by
  obtain ⟨a, ha⟩ := hline.named
  have hmember : (Value.object line).member "id" = .ok (.atom a) := by
    unfold Value.member
    dsimp only
    rw [ha]
  unfold add
  rw [Traced.outcome_bind_of_ok (a := .atom a) hmember,
    Traced.outcome_bind_of_ok (itemOf_of_named ha)]
  cases hitem : (itemId? line).bind catalog.item? with
  | none =>
      obtain ⟨hsingle, hid⟩ := unlisted_of_none hitem
      have hkept : (lines ++ [line]).filter (isSingle catalog) = lines.filter (isSingle catalog) := by
        simp [hsingle]
      rw [of_concat_unstacked hid, hkept]
      rfl
  | some item =>
      obtain ⟨id, hid, hfound⟩ := Option.bind_eq_some_iff.mp hitem
      dsimp only
      by_cases hstackable : item.stackable = true
      · have hstacked : stackId? catalog line = some id :=
          stackId?_eq_some.mpr ⟨hid, item, hfound, hstackable⟩
        have hadd : (((Merged.of catalog lines).joined.find? id).getD {}).add line
            = .ok (stackOf catalog id (lines ++ [line])) := by
          rw [find?_of]
          exact Stack.add_of hline hstacked
        rw [if_pos hstackable, str_of_named ha hid, Traced.outcome_bind_of_ok hadd,
          of_concat_stacked hstacked]
        rfl
      · have hsingle : isSingle catalog line = true :=
          isSingle_iff.mpr ⟨id, item, hid, hfound, by simpa using hstackable⟩
        have hkept : (lines ++ [line]).filter (isSingle catalog)
            = lines.filter (isSingle catalog) ++ [line] := by
          simp [hsingle]
        rw [if_neg hstackable, of_concat_unstacked (stackId?_of_isSingle hsingle), hkept]
        rfl

theorem lines_of (catalog : Catalog ν) (lines : List (Members ν)) :
    (Merged.of catalog lines).lines = mergedLines catalog lines := by
  unfold Merged.lines Merged.of mergedLines
  rw [List.map_map]
  rfl

end Merged

/-- **What is merged of lines that can be merged.** -/
theorem merge_eq_ok (catalog : Catalog ν) (h : ∀ line ∈ lines, Mergeable line) :
    (merge catalog lines).outcome = .ok (mergedLines catalog lines) := by
  have hfold : (lines.foldlM (Merged.add catalog) {}).outcome = .ok (Merged.of catalog lines) := by
    induction lines using List.reverseRecOn with
    | nil => rfl
    | append_singleton lines line ih =>
        rw [List.foldlM_append, Traced.outcome_bind_of_ok (ih fun l hl => h l (by simp [hl])),
          List.foldlM_cons, Traced.outcome_bind_of_ok (Merged.add_of catalog lines (h line (by simp)))]
        rfl
  unfold merge
  rw [Traced.outcome_bind_of_ok hfold]
  exact congrArg Except.ok (Merged.lines_of catalog lines)

/-! ## Quantities -/

omit [Number ν] in
/-- The line of a stack is stacked under its id. -/
theorem stackId?_line (stack : Stack ν) (hid : id ∈ stackIds catalog lines) :
    stackId? catalog (stack.line id) = some id := by
  obtain ⟨line, _, hline⟩ := mem_stackIds.mp hid
  exact stackId?_eq_some.mpr ⟨rfl, (stackId?_eq_some.mp hline).2⟩

/-- **Of a stacked id there is one line**, the line of its stack. -/
theorem linesOf_mergedLines (catalog : Catalog ν) (lines : List (Members ν)) (id : Text) :
    linesOf catalog id (mergedLines catalog lines)
      = if id ∈ stackIds catalog lines then [(stackOf catalog id lines).line id] else [] := by
  have hkept : linesOf catalog id (lines.filter (isSingle catalog)) = [] := by
    refine List.filter_eq_nil_iff.mpr fun line hline h => ?_
    have hnone := stackId?_of_isSingle (List.mem_filter.mp hline).2
    rw [of_decide_eq_true h] at hnone
    cases hnone
  have hstacked : linesOf catalog id
      ((stackIds catalog lines).map fun id => (stackOf catalog id lines).line id)
      = ((stackIds catalog lines).filter (· = id)).map fun id =>
        (stackOf catalog id lines).line id := by
    unfold linesOf
    rw [List.filter_map]
    refine congrArg (List.map _) (List.filter_congr fun other hother => ?_)
    have hline := stackId?_line (stackOf catalog other lines) hother
    simp [hline]
  unfold mergedLines
  rw [linesOf, List.filter_append]
  rw [← linesOf, ← linesOf, hkept, hstacked, List.nil_append, List.filter_eq]
  by_cases hid : id ∈ stackIds catalog lines
  · rw [if_pos hid, List.count_eq_one_of_mem (nodup_stackIds catalog lines) hid]
    rfl
  · rw [if_neg hid, List.count_eq_zero.mpr hid]
    rfl

omit [Number ν] in
/-- Lines count what they give, and one more for each that gives zero. -/
theorem sum_countOf (lines : List (Members ν)) : (lines.map countOf).sum
    = (lines.map given).sum + lines.countP fun line => given line = 0 := by
  induction lines with
  | nil => rfl
  | cons line rest ih =>
      rw [List.map_cons, List.map_cons, List.sum_cons, List.sum_cons, List.countP_cons, ih]
      by_cases hzero : given line = 0
      · have hcount : countOf line = 1 := if_pos hzero
        simp only [hcount, hzero, decide_true, if_true]
        omega
      · have hcount : countOf line = given line := if_neg hzero
        simp only [hcount, hzero, decide_false, Bool.false_eq_true, if_false]
        omega

/-- **The quantity of a merged line.** Lines that can be merged are merged to one line for each id
that is stacked. Its quantity is what the lines of the id give, and one more for each that gives
zero; so it is the sum of what they give exactly if none gives zero. -/
theorem merged_quantity (catalog : Catalog ν) {lines : List (Members ν)}
    (h : ∀ line ∈ lines, Mergeable line) :
    ∃ merged, (merge catalog lines).outcome = .ok merged ∧
      ∀ id ∈ stackIds catalog lines, ∃ line n, linesOf catalog id merged = [line] ∧
        Value.lookup "quantity" line = some (.whole n) ∧
        n = ((linesOf catalog id lines).map given).sum
          + (linesOf catalog id lines).countP (fun line => given line = 0) ∧
        (n = ((linesOf catalog id lines).map given).sum ↔
          ∀ line ∈ linesOf catalog id lines, given line ≠ 0) := by
  refine ⟨_, merge_eq_ok catalog h, fun id hid =>
    ⟨(stackOf catalog id lines).line id, _, ?_, rfl, sum_countOf _, ?_⟩⟩
  · rw [linesOf_mergedLines, if_pos hid]
  · rw [sum_countOf]
    have hnone : (linesOf catalog id lines).countP (fun line => given line = 0) = 0 ↔
        ∀ line ∈ linesOf catalog id lines, given line ≠ 0 := by
      simp [List.countP_eq_zero]
    rw [← hnone]
    omega

/-- An item that can be stacked, alone in a catalog. -/
def rations : Catalog Double := Catalog.addItem {} {
  id := "r"
  itemType := "equipment"
  name := "r"
  description := ""
  weight := Number.ofNumeral (.decimal false 0 0)
  stackable := true
  options := []
  givenLimit := none
  properties := .empty }

/-- A line of some rations. -/
def ration (n : Int) : Members Double := [("id", .text "r"), ("quantity", .whole n)]

theorem ration_mergeable (n : Int) : Mergeable (ration n) where
  named := ⟨_, rfl⟩
  counted := fun _ hv => Or.inr ⟨n, (Option.some.inj hv).symm⟩

/-- Five rations, none and two less are four, since none counts one. -/
theorem merged_quantity_rations : ∃ merged line,
    (merge rations [ration 5, ration 0, ration (-2)]).outcome = .ok merged ∧
    linesOf rations "r" merged = [line] ∧ Value.lookup "quantity" line = some (.whole 4) := by
  have hlines : ∀ line ∈ [ration 5, ration 0, ration (-2)], Mergeable line := by
    intro line hline
    simp only [List.mem_cons, List.not_mem_nil, or_false] at hline
    rcases hline with rfl | rfl | rfl <;> exact ration_mergeable _
  obtain ⟨merged, hmerged, hall⟩ := merged_quantity rations hlines
  obtain ⟨line, n, hline, hquantity, hn, _⟩ := hall "r" (by decide +kernel)
  have hfour : n = 4 := hn.trans (by decide +kernel)
  rw [hfour] at hquantity
  exact ⟨merged, line, hmerged, hline, hquantity⟩

end Inventory

end CharacterBuild
