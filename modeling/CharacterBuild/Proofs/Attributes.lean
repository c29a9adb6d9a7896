import CharacterBuild.Proofs.Ends
import CharacterBuild.Proofs.SortedLists
import Mathlib.Algebra.Order.Group.Multiset
import Mathlib.Algebra.Order.Sub.Basic
import Mathlib.Data.List.FinRange
import Mathlib.Data.List.Perm.Basic
import Mathlib.Data.Multiset.OrderedMonoid

set_option autoImplicit false

/-! # The page of the attributes

The page of the attributes counts: it asks for a value of each attribute that has none, and lists
the values that are assigned more often than they are to be had. For whole numbers this comes to
assigning to each attribute a value of its own from those that are listed
(`Completeness.attributes_matched`): counts that suffice for each value can be turned into such an
assignment, since the attributes of one value and the places of that value may be dealt with one
after another (`exists_places_iff`).

What is in excess is a difference of multisets (`Completeness.coe_excess`). It is shown in ascending
order, as sorting by runs puts whole numbers in order (`Atom.sort_wholes`).
-/

namespace CharacterBuild

variable {ν : Type}

/-! ## Assigning places -/

section

variable {α β : Type}

/-- If no value is asked for more often than it is listed, each name can be given a place of its
own at which its value is listed. -/
theorem exists_places [DecidableEq α] {names : List α} (hnames : names.Nodup) {f : α → Option β}
    {values : List β} (hsome : ∀ a ∈ names, (f a).isSome = true)
    (h : (names.filterMap f : Multiset β) ≤ values) :
    ∃ place : α → Nat, (∀ a ∈ names, ∀ b ∈ names, place a = place b → a = b) ∧
      ∀ a ∈ names, values[place a]? = f a := by
  induction names generalizing values with
  | nil => exact ⟨fun _ => 0, by simp, by simp⟩
  | cons a rest ih =>
      obtain ⟨hnew, hrest⟩ := List.nodup_cons.mp hnames
      obtain ⟨value, hvalue⟩ := Option.isSome_iff_exists.mp (hsome a (List.mem_cons_self ..))
      rw [List.filterMap_cons_some hvalue] at h
      have hmem : value ∈ values := Multiset.subset_of_le h (by simp)
      obtain ⟨i, hi, hlisted⟩ := List.getElem_of_mem hmem
      -- the others are given places among the values without the one at `i`
      have herase : (values : Multiset β) = value ::ₘ (values.eraseIdx i : List β) := by
        rw [← hlisted, Multiset.cons_coe, Multiset.coe_eq_coe]
        exact (List.getElem_cons_eraseIdx_perm hi).symm
      rw [← Multiset.cons_coe, herase, Multiset.cons_le_cons_iff] at h
      obtain ⟨place, hinjective, hplace⟩ :=
        ih hrest (fun b hb => hsome b (List.mem_cons_of_mem a hb)) h
      let skip : Nat → Nat := fun j => if j < i then j else j + 1
      have hskip : ∀ j, skip j ≠ i := fun j => by simp only [skip]; split <;> omega
      have hinjective_skip : ∀ j k, skip j = skip k → j = k := fun j k heq => by
        simp only [skip] at heq
        split at heq <;> split at heq <;> omega
      have hgetElem_skip : ∀ j, values[skip j]? = (values.eraseIdx i)[j]? := fun j => by
        rw [List.getElem?_eraseIdx]
        simp only [skip]
        split <;> rfl
      refine ⟨fun b => if b = a then i else skip (place b), fun b hb c hc heq => ?_, fun b hb => ?_⟩
      · by_cases hba : b = a <;> by_cases hca : c = a
        · rw [hba, hca]
        · simp only [hba, if_true, hca, if_false] at heq
          exact absurd heq.symm (hskip _)
        · simp only [hba, if_false, hca, if_true] at heq
          exact absurd heq (hskip _)
        · simp only [hba, if_false, hca] at heq
          exact hinjective b ((List.mem_cons.mp hb).resolve_left hba) c
            ((List.mem_cons.mp hc).resolve_left hca) (hinjective_skip _ _ heq)
      · by_cases hba : b = a
        · simp only [hba, if_true]
          rw [List.getElem?_eq_getElem hi, hlisted, hvalue]
        · simp only [hba, if_false]
          rw [hgetElem_skip, hplace b ((List.mem_cons.mp hb).resolve_left hba)]

/-- **Names can be given places of their own exactly if no value is asked for too often.** -/
theorem exists_places_iff [DecidableEq α] {names : List α} (hnames : names.Nodup)
    (f : α → Option β) (values : List β) :
    (∃ place : {name // name ∈ names} → Fin values.length, Function.Injective place ∧
      ∀ name, f name.1 = some values[place name]) ↔
    (∀ name ∈ names, (f name).isSome = true) ∧ (names.filterMap f : Multiset β) ≤ values := by
  constructor
  · rintro ⟨place, hinjective, hplace⟩
    refine ⟨fun name hname => by rw [hplace ⟨name, hname⟩]; rfl, ?_⟩
    have hvalues : (List.finRange values.length).map values.get = values := by
      rw [← List.ofFn_eq_map, List.ofFn_get]
    have hasked : names.filterMap f = (names.attach.map place).map values.get := by
      conv_lhs => rw [← List.attach_map_subtype_val names]
      rw [List.filterMap_map, List.map_map, ← List.filterMap_eq_map]
      exact List.filterMap_congr fun name _ => hplace name
    have hle : (names.attach.map place : Multiset (Fin values.length))
        ≤ List.finRange values.length :=
      Multiset.coe_le.mpr (List.subperm_of_subset ((List.nodup_attach.mpr hnames).map hinjective)
        fun i _ => List.mem_finRange i)
    calc (names.filterMap f : Multiset β)
        = Multiset.map values.get (names.attach.map place : List (Fin values.length)) := by
          rw [hasked, Multiset.map_coe]
      _ ≤ Multiset.map values.get (List.finRange values.length : List (Fin values.length)) :=
          Multiset.map_le_map hle
      _ = values := by rw [Multiset.map_coe, hvalues]
  · rintro ⟨hsome, hle⟩
    obtain ⟨place, hinjective, hplace⟩ := exists_places hnames hsome hle
    have hlt : ∀ name ∈ names, place name < values.length := fun name hname => by
      have hlisted : (values[place name]?).isSome = true := by
        rw [hplace name hname]
        exact hsome name hname
      exact (List.getElem?_eq_some_iff.mp (Option.eq_some_of_isSome hlisted)).1
    refine ⟨fun name => ⟨place name.1, hlt name.1 name.2⟩, fun a b heq => ?_, fun name => ?_⟩
    · exact Subtype.ext (hinjective a.1 a.2 b.1 b.2 (Fin.mk.inj heq))
    · rw [← hplace name.1 name.2]
      exact List.getElem?_eq_getElem (hlt name.1 name.2)

end

/-! ## Counting -/

namespace Directory

section

variable {κ κ' β : Type} [BEq κ] [BEq κ'] {f : κ → κ'}

/-- How often each key occurs, in the order of first occurrence. -/
def counts (keys : List κ) : Directory κ Nat :=
  keys.foldl (fun d k => d.insert k ((d.find? k).getD 0 + 1)) .empty

/-- Keys may be replaced by others that are told apart in the same way. -/
theorem put_map_key (hf : ∀ a b, (f a == f b) = (a == b)) (k : κ) (v : β) (l : List (κ × β)) :
    put (f k) v (l.map (Prod.map f id)) = (put k v l).map (Prod.map f id) := by
  induction l with
  | nil => rfl
  | cons e rest ih =>
      rw [List.map_cons, put, put]
      simp only [Prod.map_fst, hf]
      split
      · rfl
      · rw [ih, List.map_cons]

theorem find?_of_entries_map (hf : ∀ a b, (f a == f b) = (a == b)) {d : Directory κ β}
    {d' : Directory κ' β} (h : d'.entries = d.entries.map (Prod.map f id)) (k : κ) :
    d'.find? (f k) = d.find? k := by
  unfold find?
  rw [h, List.find?_map, Option.map_map]
  simp only [Function.comp_def, Prod.map_fst, hf, Prod.map_snd, id]

theorem entries_counts_map (hf : ∀ a b, (f a == f b) = (a == b)) (keys : List κ) :
    (counts (keys.map f)).entries = (counts keys).entries.map (Prod.map f id) := by
  have key : ∀ (d : Directory κ Nat) (d' : Directory κ' Nat),
      d'.entries = d.entries.map (Prod.map f id) →
      ((keys.map f).foldl (fun d k => d.insert k ((d.find? k).getD 0 + 1)) d').entries
        = (keys.foldl (fun d k => d.insert k ((d.find? k).getD 0 + 1)) d).entries.map
          (Prod.map f id) := by
    induction keys with
    | nil => exact fun _ _ h => h
    | cons k rest ih =>
        intro d d' h
        refine ih _ _ ?_
        rw [entries_insert, entries_insert, find?_of_entries_map hf h, h, put_map_key hf]
  exact key .empty .empty rfl

end

variable {κ : Type} [DecidableEq κ]

theorem find?_counts (keys : List κ) (k : κ) : ((counts keys).find? k).getD 0 = keys.count k := by
  have key : ∀ d : Directory κ Nat,
      ((keys.foldl (fun d k => d.insert k ((d.find? k).getD 0 + 1)) d).find? k).getD 0
        = (d.find? k).getD 0 + keys.count k := by
    induction keys with
    | nil => exact fun _ => rfl
    | cons a rest ih =>
        intro d
        rw [List.foldl_cons, ih]
        by_cases hak : k = a
        · subst hak
          rw [find?_insert_self, List.count_cons_self]
          simp only [Option.getD_some]
          omega
        · rw [find?_insert_of_ne d hak, List.count_cons_of_ne (Ne.symm hak)]
  rw [counts, key .empty]
  exact Nat.zero_add _

/-- Of keys that are listed each as often as something says of their entries, a key is listed as
often as it says of its own entry. -/
theorem count_flatMap (d : Directory κ Nat) (g : κ → Nat → Nat) (hg : ∀ k, g k 0 = 0) (k : κ) :
    (d.entries.flatMap fun e => List.replicate (g e.1 e.2) e.1).count k
      = g k ((d.find? k).getD 0) := by
  have key : ∀ l : List (κ × Nat), (l.Pairwise fun a b => (a.1 == b.1) = false) →
      (l.flatMap fun e => List.replicate (g e.1 e.2) e.1).count k
        = g k (((l.find? fun e => e.1 == k).map Prod.snd).getD 0) := by
    intro l hl
    induction l with
    | nil => exact (hg k).symm
    | cons e rest ih =>
        obtain ⟨hne, hrest⟩ := List.pairwise_cons.mp hl
        rw [List.flatMap_cons, List.count_append, ih hrest, List.count_replicate, List.find?_cons]
        by_cases hek : (e.1 == k) = true
        · -- no other entry has the key
          have hnone : (rest.find? fun e => e.1 == k) = none := by
            refine List.find?_eq_none.mpr fun b hb => ?_
            rw [← eq_of_beq hek, Bool.not_eq_true]
            exact BEq.comm.trans (hne b hb)
          rw [hnone, if_pos hek, hek]
          simp [hg, eq_of_beq hek]
        · rw [if_neg hek, Bool.not_eq_true] at *
          simp [hek]
  exact key d.entries d.distinct

end Directory

/-! ## Whole numbers in order -/

namespace Atom

/-- A whole number. -/
@[match_pattern] abbrev whole (n : Int) : Atom ν := .number (.whole n)

/-- The whole number that an atom is; zero if it is none. -/
def toInt : Atom ν → Int
  | whole n => n
  | _ => 0

variable [Number ν]

theorem same_whole (m n : Int) : (whole m : Atom ν).same (whole n) = (n == m) := by
  simp [same, amount?, Bool.beq_eq_decide_eq, eq_comm]

theorem beq_whole (m n : Int) : ((whole m : Atom ν) == whole n) = (m == n) := by
  show ((whole m : Atom ν).same (whole n) || false) = (m == n)
  rw [Bool.or_false, same_whole, Bool.beq_comm]

theorem orders_wholes :
    Sorting.Orders (isBefore (ν := ν)) (fun a => ∃ n, a = whole n) toInt := by
  rintro _ _ ⟨m, rfl⟩ ⟨n, rfl⟩
  simp [isBefore, amount?, toInt]

/-- Sorting puts whole numbers in ascending order. -/
theorem sort_wholes (ns : List Int) : ∃ listed : List Int,
    Atom.sort (ns.map whole : List (Atom ν)) = .ok (listed.map whole) ∧ listed.Perm ns ∧
      listed.Pairwise (· ≤ ·) := by
  let atoms : List (Atom ν) := ns.map whole
  have hwhole : ∀ a ∈ atoms, ∃ n, a = whole n := fun a ha => by
    obtain ⟨n, _, rfl⟩ := List.mem_map.mp ha
    exact ⟨n, rfl⟩
  have hperm := Sorting.byRuns_perm isBefore atoms
  have hsorted := Sorting.inOrder_byRuns orders_wholes hwhole
  refine ⟨(Sorting.byRuns isBefore atoms).map toInt, ?_, ?_,
    List.pairwise_map.mpr hsorted.ascending⟩
  · have horder : haveOrder atoms = true := by
      have hall : (atoms.all fun a => a.amount?.isSome) = true := by
        simp [atoms, amount?]
      rw [haveOrder, hall, Bool.or_true]
    have hback : ∀ a ∈ Sorting.byRuns isBefore atoms, whole a.toInt = a := fun a ha => by
      obtain ⟨n, rfl⟩ := hsorted.known a ha
      rfl
    rw [sort, if_pos horder, List.map_map]
    exact congrArg _ ((List.map_congr_left hback).trans (List.map_id _)).symm
  · have hnumbers : atoms.map toInt = ns := by
      rw [List.map_map]
      exact List.map_id'' (fun _ => rfl) ns
    exact (hperm.map toInt).trans (.of_eq hnumbers)

end Atom

/-! ## The values of a configuration -/

namespace Completeness

/-- Of some whole numbers, those in excess of listed values, each as often as it is in excess. -/
def excess (values used : List Int) : List Int :=
  (Directory.counts used).entries.flatMap fun e => List.replicate (e.2 - values.count e.1) e.1

/-- The excess is the difference of the multisets. -/
theorem coe_excess (values used : List Int) :
    (excess values used : Multiset Int) = used - values := by
  ext k
  rw [Multiset.count_sub, Multiset.coe_count, Multiset.coe_count, Multiset.coe_count, excess,
    Directory.count_flatMap _ (fun k n => n - values.count k) (fun _ => Nat.zero_sub _),
    Directory.find?_counts]

variable [Number ν] {config : Config} {state : Build ν}

/-- The whole number that is assigned to an attribute. -/
def wholeOf? (state : Build ν) (name : Text) : Option Int :=
  match state.attributes.find? (.text name) with
  | some (.whole n) => some n
  | _ => none

theorem wholeOf?_eq_some {name : Text} {n : Int} :
    wholeOf? state name = some n ↔ state.attributes.find? (.text name) = some (.whole n) := by
  unfold wholeOf?
  split <;> simp_all

/-- The whole numbers that are assigned to the attributes of a configuration. -/
def assignedWholes (config : Config) (state : Build ν) : List Int :=
  config.attributeNames.filterMap (wholeOf? state)

theorem extras_wholes (used : List Int) :
    extras config (used.map Atom.whole : List (Atom ν))
      = (excess config.attributeValues used).map Atom.whole := by
  have htally : (tally (used.map Atom.whole : List (Atom ν))).entries
      = (Directory.counts used).entries.map (Prod.map Atom.whole id) :=
    Directory.entries_counts_map Atom.beq_whole used
  rw [extras, htally, List.flatMap_map, excess, List.map_flatMap]
  refine List.flatMap_congr fun e _ => ?_
  rw [List.map_replicate, List.count_eq_countP]
  simp only [Prod.map_fst, Prod.map_snd, id, Atom.same_whole]

/-- The attributes of a configuration have no values but whole numbers. -/
def HoldsWholes (config : Config) (state : Build ν) : Prop :=
  ∀ name ∈ config.attributeNames, ∀ v, state.attributes.find? (.text name) = some v →
    ∃ n, v = .whole n

theorem HoldsWholes.find?_eq (hwhole : HoldsWholes config state) {name : Text}
    (hname : name ∈ config.attributeNames) :
    state.attributes.find? (.text name) = (wholeOf? state name).map Value.whole := by
  cases hfound : state.attributes.find? (.text name) with
  | none => simp [wholeOf?, hfound]
  | some v =>
      obtain ⟨n, rfl⟩ := hwhole name hname v hfound
      simp [wholeOf?, hfound]

theorem HoldsWholes.assigned_eq (hwhole : HoldsWholes config state) :
    assigned config state = ((assignedWholes config state).map Atom.whole).map Value.atom := by
  rw [assigned, assignedWholes, List.map_map, List.map_filterMap]
  exact List.filterMap_congr fun name hname => hwhole.find?_eq hname

/-- What is in excess is listed in ascending order. -/
theorem HoldsWholes.unavailable_eq (hwhole : HoldsWholes config state) : ∃ listed : List Int,
    unavailable config state = .ok (listed.map Atom.whole) ∧ listed.Pairwise (· ≤ ·) ∧
      (listed : Multiset Int) = assignedWholes config state - config.attributeValues := by
  obtain ⟨listed, hsort, hperm, hascending⟩ := Atom.sort_wholes (ν := ν)
    (excess config.attributeValues (assignedWholes config state))
  refine ⟨listed, ?_, hascending, (Multiset.coe_eq_coe.mpr hperm).trans (coe_excess _ _)⟩
  rw [← extras_wholes] at hsort
  exact except_bind_eq_ok.mpr ⟨_, mapM_key_eq_ok.mpr hwhole.assigned_eq, hsort⟩

theorem HoldsWholes.unassigned_eq_nil (hwhole : HoldsWholes config state) :
    unassigned config state = [] ↔
      ∀ name ∈ config.attributeNames, (wholeOf? state name).isSome = true := by
  rw [unassigned, List.filter_eq_nil_iff]
  refine forall₂_congr fun name hname => ?_
  rw [Directory.contains, hwhole.find?_eq hname, Option.isSome_map, Bool.not_eq_true,
    Bool.not_eq_false']

/-- The issues of the page of the attributes, if all values that count are whole numbers. -/
theorem HoldsWholes.attributeIssues_eq (hwhole : HoldsWholes config state)
    (hnew : state.mode = .creation) (hvalues : config.attributeValues ≠ []) :
    ∃ listed : List Int, listed.Pairwise (· ≤ ·) ∧
      (listed : Multiset Int) = assignedWholes config state - config.attributeValues ∧
      attributeIssues config state = .ok (
        (if unassigned config state = [] then []
          else [⟨attributesPage, none, .attributes (unassigned config state)⟩]) ++
        (if listed = [] then []
          else [⟨attributesPage, none, .values (listed.map Atom.whole)⟩])) := by
  obtain ⟨listed, hunavailable, hascending, hlisted⟩ := hwhole.unavailable_eq
  refine ⟨listed, hascending, hlisted, ?_⟩
  have hopen : state.isRestored = false := by simp [Build.isRestored, hnew]
  unfold attributeIssues
  by_cases hnames : config.attributeNames = []
  · have hnone : listed = [] := by
      rw [assignedWholes, hnames, List.filterMap_nil, Multiset.coe_nil] at hlisted
      exact (Multiset.coe_eq_zero _).mp (hlisted.trans (zero_tsub _))
    simp [hnames, hnone, unassigned]
  · rw [if_neg (by simp [hopen, hnames]), if_neg (by simpa using hvalues), hunavailable]
    simp [bind, Except.bind]

end Completeness

end CharacterBuild
