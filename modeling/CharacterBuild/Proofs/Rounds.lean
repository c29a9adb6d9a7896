import CharacterBuild.Proofs.Categories
import CharacterBuild.Proofs.Rational
import Mathlib.Tactic.Ring

set_option autoImplicit false

/-! # Rounds of assembling and restoring

A record can be restored into a new build, and that build can be assembled again. The attributes
that are restored are those of the record, which has the bonuses of all levels added already, and
assembling adds the same bonuses once more: so each round raises the attributes by all bonuses
(`Record.attributes_accrue`), while the bonuses and the health stay what they are, since they depend
on the level alone. A record survives a round unchanged exactly if all its bonuses are zero. The
numbers are exact ones here.
-/

namespace CharacterBuild

/-! ## Entries under texts -/

section

variable {ν : Type} [Number ν]

namespace Directory

/-- What is found under a text is what is entered under it. -/
theorem find?_text_iff {d : Directory (Atom ν) (Value ν)} {name : Text} {v : Value ν} :
    d.find? (.text name) = some v ↔ (.text name, v) ∈ d.entries := by
  constructor
  · intro h
    obtain ⟨⟨k, v'⟩, he, rfl⟩ := Option.map_eq_some_iff.mp h
    have hk : k = .text name := Record.beq_text_iff.mp (by simpa using List.find?_some he)
    exact hk ▸ List.mem_of_find?_eq_some he
  · intro h
    have hself : ((.text name : Atom ν) == .text name) = true := Record.beq_text_iff.mpr rfl
    have hfind := find?_eq_some_of_pairwise (fun a b => a.1 == b.1) d.distinct h hself
    exact Option.map_eq_some_iff.mpr ⟨(.text name, v), hfind, rfl⟩

theorem find?_text_eq_none_iff {d : Directory (Atom ν) (Value ν)} {name : Text} :
    d.find? (.text name) = none ↔ .text name ∉ d.keys := by
  rw [Option.eq_none_iff_forall_ne_some]
  constructor
  · intro hnone hmem
    obtain ⟨⟨k, v⟩, he, rfl⟩ := List.mem_map.mp hmem
    exact hnone v (find?_text_iff.mpr he)
  · intro hnot v hfound
    exact hnot (List.mem_map_of_mem (find?_text_iff.mp hfound))

theorem find?_insert_text_self (d : Directory (Atom ν) (Value ν)) (name : Text) (v : Value ν) :
    (d.insert (.text name) v).find? (.text name) = some v := by
  have hput : ∀ l : List (Atom ν × Value ν), (.text name, v) ∈ put (.text name) v l := by
    intro l
    induction l with
    | nil => exact List.mem_singleton.mpr rfl
    | cons e rest ih =>
        unfold put
        split
        · rename_i he
          rw [← Record.beq_text_iff.mp he]
          exact List.mem_cons_self
        · exact List.mem_cons_of_mem _ ih
  exact find?_text_iff.mpr (hput d.entries)

/-- A key that is entered is added to the others, unless it is known. -/
theorem keys_insert {κ β : Type} [BEq κ] (d : Directory κ β) (k : κ) (v : β) :
    (d.insert k v).keys = if (d.find? k).isSome then d.keys else d.keys ++ [k] := by
  have hput : ∀ l : List (κ × β), (put k v l).map Prod.fst
      = if (l.find? fun e => e.1 == k).isSome then l.map Prod.fst else l.map Prod.fst ++ [k] := by
    intro l
    induction l with
    | nil => rfl
    | cons e rest ih =>
        unfold put
        rw [List.find?_cons]
        cases he : e.1 == k with
        | true => rfl
        | false =>
            rw [if_neg Bool.false_ne_true, List.map_cons, ih]
            split <;> rfl
  unfold find?
  rw [Option.isSome_map]
  exact hput d.entries

theorem text_mem_keys_insert (d : Directory (Atom ν) (Value ν)) (name : Text) (v : Value ν) :
    .text name ∈ (d.insert (.text name) v).keys := by
  have hentry := find?_text_iff.mp (d.find?_insert_text_self name v)
  exact List.mem_map_of_mem hentry

theorem mem_keys_insert {κ β : Type} [BEq κ] {d : Directory κ β} {k' : κ} (h : k' ∈ d.keys) (k : κ)
    (v : β) : k' ∈ (d.insert k v).keys := by
  rw [keys_insert]
  split
  · exact h
  · exact List.mem_append_left _ h

end Directory

/-- A directory under texts is restored as it was. -/
theorem Plan.directoryOf_named {d : Directory (Atom ν) (Value ν)}
    (hkeys : ∀ e ∈ d.entries, ∃ name, e.1 = .text name) :
    directoryOf (.object d.named) = .ok d := by
  have hraw : ((Value.object d.named).orElse (.object [])).pairs = .ok d.entries := by
    rw [← Directory.pairs_named hkeys]
    unfold Value.orElse
    split
    · rfl
    · rename_i hnone
      cases hd : d.named with
      | nil => rfl
      | cons m rest => rw [hd] at hnone; exact absurd rfl hnone
  unfold directoryOf
  rw [hraw]
  exact congrArg Except.ok (Directory.ofList_entries d)

/-- Members can always be restored as a directory. -/
theorem Plan.exists_directoryOf (ms : Members ν) :
    ∃ d, directoryOf (.object ms) = .ok d := by
  unfold directoryOf Value.orElse
  split <;> exact ⟨_, rfl⟩

end

/-! ## Attributes that are numbers -/

namespace Record

/-- Attributes under texts, each of them a number. -/
def Numeric (attributes : Directory (Atom ℚ) (Value ℚ)) : Prop :=
  ∀ e ∈ attributes.entries, ∃ name a, e = (.text name, .number a)

/-- The number that an attribute is; zero if it has no value, or one that is no amount. -/
def score (attributes : Directory (Atom ℚ) (Value ℚ)) (name : Text) : ℚ :=
  match ((attributes.find? (.text name)).getD (.whole 0)).toAmount with
  | .ok a => a.toRat
  | .error _ => 0

/-- What some bonuses add to an attribute. -/
def bonus (bonuses : Directory Text (Amount ℚ)) (name : Text) : ℚ :=
  ((bonuses.find? name).map Amount.toRat).getD 0

variable {d d' : Directory (Atom ℚ) (Value ℚ)}

theorem score_of_find? {name : Text} {a : Amount ℚ}
    (h : d.find? (.text name) = some (.number a)) : score d name = a.toRat := by
  unfold score
  rw [h]
  rfl

theorem score_of_notMem {name : Text} (h : .text name ∉ d.keys) : score d name = 0 := by
  unfold score
  rw [Directory.find?_text_eq_none_iff.mpr h]
  rfl

theorem Numeric.exists_of_mem (h : Numeric d) {name : Text} (hmem : .text name ∈ d.keys) :
    ∃ a, d.find? (.text name) = some (.number a) := by
  obtain ⟨⟨k, v⟩, he, rfl⟩ := List.mem_map.mp hmem
  obtain ⟨_, a, heq⟩ := h _ he
  obtain ⟨_, rfl⟩ := Prod.mk.inj heq
  exact ⟨a, Directory.find?_text_iff.mpr he⟩

theorem Numeric.toAmount (h : Numeric d) (name : Text) :
    ∃ a, ((d.find? (.text name)).getD (.whole 0)).toAmount = .ok a ∧ a.toRat = score d name := by
  by_cases hmem : (.text name : Atom ℚ) ∈ d.keys
  · obtain ⟨a, hfound⟩ := h.exists_of_mem hmem
    exact ⟨a, by rw [hfound]; rfl, (score_of_find? hfound).symm⟩
  · refine ⟨.whole 0, ?_, by rw [score_of_notMem hmem]; rfl⟩
    rw [Directory.find?_text_eq_none_iff.mpr hmem]
    rfl

theorem Numeric.insert (h : Numeric d) (name : Text) (a : Amount ℚ) :
    Numeric (d.insert (.text name) (.number a)) := by
  refine Directory.forall_mem_put h ⟨name, a, rfl⟩ fun e he => ?_
  obtain ⟨name', _, rfl⟩ := h e he
  exact ⟨name', a, rfl⟩

theorem score_insert (d : Directory (Atom ℚ) (Value ℚ)) (name : Text) (a : Amount ℚ)
    (other : Text) : score (d.insert (.text name) (.number a)) other
      = if other = name then a.toRat else score d other := by
  unfold score
  split_ifs with h
  · rw [h, Directory.find?_insert_text_self]
    rfl
  · rw [find?_insert_text d h]

/-- Numbers are alike if they are equal. -/
theorem alike_number_iff {a b : Amount ℚ} :
    (Value.number a : Value ℚ).alike (.number b) = true ↔ a.toRat = b.toRat := by
  have hcoincides : a.coincides b = false := by
    cases a <;> cases b <;> rfl
  show (a.same b || a.coincides b) = true ↔ _
  rw [hcoincides, Bool.or_false, Amount.same, Amount.compare_eq_cmp, decide_eq_true_iff,
    Option.some.injEq, cmp_eq_eq_iff]

/-- **Attributes under the same names are the same exactly if they are equal numbers.** -/
theorem Numeric.same_iff (h : Numeric d) (h' : Numeric d') (hkeys : d.keys = d'.keys) :
    d.same Value.alike d' = true ↔ ∀ name, score d name = score d' name := by
  have hsize : d.size = d'.size := by
    have hlength := congrArg List.length hkeys
    simpa [Directory.keys, Directory.size] using hlength
  unfold Directory.same
  rw [hsize, decide_eq_true rfl, Bool.true_and, List.all_eq_true]
  constructor
  · intro hall name
    by_cases hmem : (.text name : Atom ℚ) ∈ d.keys
    · obtain ⟨a, hfound⟩ := h.exists_of_mem hmem
      obtain ⟨a', hfound'⟩ := h'.exists_of_mem (hkeys ▸ hmem)
      have halike := hall _ (Directory.find?_text_iff.mp hfound)
      rw [hfound'] at halike
      rw [score_of_find? hfound, score_of_find? hfound']
      exact alike_number_iff.mp halike
    · rw [score_of_notMem hmem, score_of_notMem (hkeys ▸ hmem)]
  · intro hequal e he
    obtain ⟨name, a, rfl⟩ := h e he
    have hfound := Directory.find?_text_iff.mpr he
    have hmem : (.text name : Atom ℚ) ∈ d.keys := List.mem_map_of_mem he
    obtain ⟨a', hfound'⟩ := h'.exists_of_mem (hkeys ▸ hmem)
    dsimp only
    rw [hfound']
    refine alike_number_iff.mpr ?_
    rw [← score_of_find? hfound, ← score_of_find? hfound', hequal]

/-! ## Raising them -/

/-- Attributes after some bonuses have been added to them. -/
structure Raised (bonuses : List (Text × Amount ℚ)) (d d' : Directory (Atom ℚ) (Value ℚ)) :
    Prop where
  numeric : Numeric d'
  score : ∀ name, score d' name
    = score d name + (((bonuses.find? fun e => e.1 == name).map Prod.snd).map Amount.toRat).getD 0
  /-- What has a bonus has a value. -/
  known : ∀ e ∈ bonuses, .text e.1 ∈ d'.keys
  kept : ∀ k ∈ d.keys, k ∈ d'.keys
  /-- Where all that is raised has a value before, nothing is added. -/
  same : (∀ e ∈ bonuses, .text e.1 ∈ d.keys) → d'.keys = d.keys

/-- **Numbers can be raised by any bonuses.** -/
theorem Numeric.raise {bonuses : List (Text × Amount ℚ)}
    (hdistinct : bonuses.Pairwise fun a b => (a.1 == b.1) = false) (h : Numeric d) :
    ∃ d', bonuses.foldlM (fun attributes e => do
        let value ← ((attributes.find? (.text e.1)).getD (.whole 0)).toAmount
        let sum ← Amount.orTooLarge (value.add? e.2)
        .ok (attributes.insert (.text e.1) (.number sum))) d
      = (.ok d' : Except (Fault ℚ) (Directory (Atom ℚ) (Value ℚ))) ∧ Raised bonuses d d' := by
  induction bonuses generalizing d with
  | nil => exact ⟨d, rfl, h, fun name => (add_zero _).symm, nofun, fun k hk => hk, fun _ => rfl⟩
  | cons e rest ih =>
      obtain ⟨hfirst, hrest⟩ := List.pairwise_cons.mp hdistinct
      obtain ⟨a, ha, hcounts⟩ := h.toAmount e.1
      obtain ⟨sum, hsum, htotal⟩ := Amount.add?_eq_some a e.2
      obtain ⟨d', hraise, hraised⟩ := ih hrest (h.insert e.1 sum)
      refine ⟨d', ?_, hraised.numeric, fun name => ?_, fun e' he' => ?_, fun k hk => ?_,
        fun hall => ?_⟩
      · rw [List.foldlM_cons, ha]
        dsimp only [bind, Except.bind]
        rw [hsum]
        exact hraise
      · rw [hraised.score, score_insert, List.find?_cons]
        by_cases hname : name = e.1
        · -- no other bonus is on this name
          have hnone : (rest.find? fun e => e.1 == name) = none :=
            List.find?_eq_none.mpr fun e' he' => by
              rw [hname, beq_iff_eq]
              exact fun heq => by simpa [heq] using hfirst e' he'
          rw [if_pos hname, hnone, htotal, hcounts, hname, beq_self_eq_true]
          show _ + 0 = _ + e.2.toRat
          rw [add_zero]
        · have hne : (e.1 == name) = false := beq_false_of_ne (Ne.symm hname)
          rw [if_neg hname, hne]
      · rcases List.mem_cons.mp he' with rfl | he'
        · exact hraised.kept _ (d.text_mem_keys_insert _ _)
        · exact hraised.known e' he'
      · exact hraised.kept k (Directory.mem_keys_insert hk _ _)
      · have hhead : (d.insert (.text e.1) (.number sum)).keys = d.keys := by
          obtain ⟨v, hv⟩ := h.exists_of_mem (hall e (by simp))
          rw [Directory.keys_insert, hv]
          rfl
        rw [hraised.same fun e' he' => by rw [hhead]; exact hall e' (by simp [he']), hhead]

end Record

/-! ## Reading the inventory -/

/-- With exact numbers, a value is a whole number or of a kind that readers skip. -/
theorem Value.isSkipped_of_toWhole {v : Value ℚ} {fault : Fault ℚ}
    (h : v.toWhole = .error fault) : fault.isSkipped = true := by
  unfold toWhole at h
  split at h
  · cases h
  · -- an exact number has a whole part
    cases h
  · cases h
  · split at h
    · cases h
    · exact Except.error.inj h ▸ rfl
  · exact Except.error.inj h ▸ rfl

namespace InventoryLine

/-- A line of the inventory is read or skipped. -/
theorem exists_read (raw : Value ℚ) : ∃ e, (read raw).outcome = .ok e := by
  unfold read
  split
  · split
    · exact ⟨none, rfl⟩
    · dsimp only
      unfold Traced.orSkip
      split
      · rename_i e he
        exact ⟨e, he⟩
      · rename_i fault hfault
        rw [Traced.outcome_map, Traced.outcome_lift] at hfault
        rw [if_pos (Value.isSkipped_of_toWhole (except_map_eq_error.mp hfault))]
        exact ⟨none, rfl⟩
  · exact ⟨none, rfl⟩

theorem exists_readAll (raws : List (Value ℚ)) : ∃ lines, (readAll raws).outcome = .ok lines := by
  obtain ⟨read, hread⟩ : Ends (raws.mapM fun raw => (read raw).outcome) :=
    Ends.mapM_iff.mpr fun raw _ => exists_read raw
  refine ⟨read.filterMap fun e => e, ?_⟩
  unfold readAll
  rw [Traced.outcome_bind_of_ok (a := read) (by rw [Traced.outcome_mapM]; exact hread)]
  rfl

end InventoryLine

/-! ## Rounds -/

namespace Record

section

variable {ν : Type} [Number ν]

/-- The call that restores a build from the value of its record. -/
def restoring (b : Record ν) : Except (Fault ν) (Guided.Call ν) := do
  let saved := b.toValue fun a => (Value.atom a).str
  let lists ← Category.listed.mapM fun c => do (← saved.member c.name).elements
  let attributes ← saved.member "attributes"
  let inventory ← saved.member Category.inventory.name
  let info ← saved.member "info"
  let level ← saved.member "level"
  .ok (.restore (lists.flatten.map .saved) ⟨attributes, inventory, info, level⟩)

/-- The record that is assembled again after a new build has been restored from a record. -/
def again (catalog : Catalog ν) (config : Config) (b : Record ν) :
    Except (Fault ν) (Record ν) := do
  let fresh ← (Guided.newBuild catalog config).outcome
  let call ← b.restoring
  let turn := call.run fresh
  let _ ← turn.outcome
  (assemble turn.session.index turn.session.state).outcome

/-- The record after some rounds of restoring and assembling. -/
def rounds (catalog : Catalog ν) (config : Config) : Nat → Record ν → Except (Fault ν) (Record ν)
  | 0, b => .ok b
  | n + 1, b => do (← rounds catalog config n b).again catalog config

/-- What is restored of a record beside its selections. -/
def rest (b : Record ν) : Restored ν where
  attributes := .object b.attributes.named
  inventory := .list ((b.entries .inventory).map .object)
  info := .object b.info.named
  level := b.level.toValue

/-- The members of a record that it is restored from. -/
theorem members_toValue (b : Record ν) :
    let saved := b.toValue fun a => (Value.atom a).str
    (Category.listed.mapM fun c => do (← saved.member c.name).elements)
        = .ok (Category.listed.map fun c => (b.entries c).map .object) ∧
      saved.member "attributes" = .ok b.rest.attributes ∧
      saved.member Category.inventory.name = .ok b.rest.inventory ∧
      saved.member "info" = .ok b.rest.info ∧ saved.member "level" = .ok b.rest.level := by
  intro saved
  unfold saved toValue
  cases b.restoredAt <;> exact ⟨rfl, rfl, rfl, rfl, rfl⟩

theorem restoring_eq (b : Record ν) :
    b.restoring = .ok (.restore (b.listed.map fun e => .saved (.object e)) b.rest) := by
  obtain ⟨hlists, hattributes, hinventory, hinfo, hlevel⟩ := b.members_toValue
  have hlisted : (Category.listed.map fun c => (b.entries c).map Value.object).flatten.map .saved
      = b.listed.map fun e => SavedSelection.saved (.object e) := by
    unfold listed
    rw [List.map_flatten, List.map_map, List.map_flatMap]
    exact congrArg List.flatten (List.map_congr_left fun c _ => List.map_map)
  unfold restoring
  dsimp only
  rw [hlists, hattributes, hinventory, hinfo, hlevel, ← hlisted]
  rfl

end

variable {index : Index ℚ} {config : Config} {state : Build ℚ} {b : Record ℚ}

/-- A build whose attributes are numbers has a record, and there they are raised. -/
theorem exists_assemble (index : Index ℚ) (state : Build ℚ) (h : Numeric state.attributes) :
    ∃ b, (assemble index state).outcome = .ok b ∧ b.Records index state ∧
      Raised b.attributeBonuses.entries state.attributes b.attributes := by
  have hends : Ends (assemble index state).outcome := by
    refine (ends_assemble_iff rfl).mpr fun name _ => ?_
    obtain ⟨a, ha, _⟩ := h.toAmount name
    exact ⟨a, ha, by cases a <;> rfl⟩
  obtain ⟨b, hb⟩ := hends
  have hrecords := records_of_assemble hb
  obtain ⟨attributes, hraise, hraised⟩ := h.raise b.attributeBonuses.distinct
  obtain rfl : attributes = b.attributes :=
    Except.ok.inj (hraise.symm.trans hrecords.attributes)
  exact ⟨b, hb, hrecords, hraised⟩

section

variable {catalog : Catalog ℚ} {s : Session ℚ (Guided.Call ℚ)}
  (hs : (Guided.newBuild catalog config).outcome = .ok s) (hrecords : b.Records s.index state)
  (hnumeric : Numeric b.attributes) (hleast : ¬ b.level < (config.minLevel : Level ℚ))
  (hmost : ¬ (config.maxLevel : Level ℚ) < b.level)

include hnumeric in
/-- What a record holds beside its selections can be read, the attributes as they are. -/
theorem exists_reads : ∃ inventory info, b.rest.Reads b.attributes inventory info := by
  have htexts : ∀ e ∈ b.attributes.entries, ∃ name, e.1 = .text name := by
    intro e he
    obtain ⟨name, a, rfl⟩ := hnumeric e he
    exact ⟨name, rfl⟩
  obtain ⟨inventory, hinventory⟩ :=
    InventoryLine.exists_readAll ((b.entries .inventory).map Value.object)
  obtain ⟨info, hinfo⟩ := Plan.exists_directoryOf b.info.named
  refine ⟨inventory, info, Plan.directoryOf_named htexts, ⟨_, ?_, hinventory⟩, hinfo⟩
  unfold rest
  dsimp only
  cases b.entries .inventory <;> rfl

include hleast hmost in
/-- A level in range is restored as it is. -/
theorem restoredLevel_rest : Plan.restoredLevel config b.rest.level = .ok b.level := by
  have hvalue : Level.ofValue? b.rest.level = some b.level := by
    show Level.ofValue? b.level.toValue = some b.level
    cases b.level <;> rfl
  unfold Plan.restoredLevel
  rw [hvalue]
  dsimp only
  rw [if_neg (by simp [hleast, hmost])]

include hs hrecords hnumeric hleast hmost

/-- **A round raises the attributes of a record** by the bonuses of the next one. -/
theorem again_of_records (hpass : config.checksState = true → ¬ b.level < ((1 : Int) : Level ℚ)) :
    ∃ state' b', b.again catalog config = .ok b' ∧ b'.Records s.index state' ∧
      state'.targetLevel = b.level ∧
      Raised b'.attributeBonuses.entries b.attributes b'.attributes := by
  obtain ⟨inventory, info, hreads⟩ := exists_reads hnumeric
  obtain ⟨settled, hsettle⟩ := Plan.exists_settle []
    ((state.categorised s.index.catalog).map (Selection.reread s.index))
  have hsettles := Guided.settles_restore hs hrecords.resolveAll_listed hsettle
    (restoredLevel_rest hleast hmost) hreads hpass
  obtain ⟨b', hb', hrecords', hraised⟩ :=
    exists_assemble s.index (Build.resumed b.level settled b.attributes inventory info) hnumeric
  refine ⟨_, b', ?_, hrecords', rfl, hraised⟩
  unfold again
  rw [hs, restoring_eq]
  refine except_bind_eq_ok.mpr ⟨_, rfl, except_bind_eq_ok.mpr ⟨_, rfl, ?_⟩⟩
  refine except_bind_eq_ok.mpr ⟨_, hsettles.outcome, ?_⟩
  rw [hsettles.silent.index, hsettles.silent.state]
  exact hb'

/-- Below level one a record is not restored where states are checked. -/
theorem again_below_one (hchecks : config.checksState = true)
    (hlow : b.level < ((1 : Int) : Level ℚ)) :
    b.again catalog config = .error (.violated [.levelTooLow b.level]) := by
  obtain ⟨inventory, info, hreads⟩ := exists_reads hnumeric
  obtain ⟨settled, hsettle⟩ := Plan.exists_settle []
    ((state.categorised s.index.catalog).map (Selection.reread s.index))
  have hbarred := (Guided.restore_below_one hs hrecords.resolveAll_listed hsettle
    (restoredLevel_rest hleast hmost) hreads hchecks hlow).2
  unfold again
  rw [hs, restoring_eq]
  dsimp only [bind, Except.bind]
  rw [hbarred]

/-- **Every round adds the bonuses once more.** -/
theorem rounds_of_records (hpass : config.checksState = true → ¬ b.level < ((1 : Int) : Level ℚ))
    (hknown : ∀ e ∈ b.attributeBonuses.entries, .text e.1 ∈ b.attributes.keys) (n : Nat) :
    ∃ stateₙ bₙ, rounds catalog config n b = .ok bₙ ∧ bₙ.Records s.index stateₙ ∧
      bₙ.level = b.level ∧ Numeric bₙ.attributes ∧
      bₙ.attributeBonuses = b.attributeBonuses ∧ bₙ.healthBonus = b.healthBonus ∧
      bₙ.attributes.keys = b.attributes.keys ∧
      ∀ name, score bₙ.attributes name
        = score b.attributes name + n * bonus b.attributeBonuses name := by
  induction n with
  | zero =>
      exact ⟨state, b, rfl, hrecords, rfl, hnumeric, rfl, rfl, rfl, fun name => by simp⟩
  | succ n ih =>
      obtain ⟨stateₙ, bₙ, hbₙ, hrecordsₙ, hlevelₙ, hnumericₙ, hbonusesₙ, hhealthₙ, hkeysₙ,
        hscoreₙ⟩ := ih
      obtain ⟨state', b', hb', hrecords', htarget, hraised⟩ := again_of_records hs hrecordsₙ
        hnumericₙ (by rw [hlevelₙ]; exact hleast) (by rw [hlevelₙ]; exact hmost)
        (by rw [hlevelₙ]; exact hpass)
      have hlevel : b'.level = b.level := by rw [hrecords'.level, htarget, hlevelₙ]
      -- the bonuses depend on the level alone
      have hsums : (b'.attributeBonuses, b'.healthBonus) = (b.attributeBonuses, b.healthBonus) := by
        have hfirst := hrecords.sums
        have hlast := hrecords'.sums
        rw [← hrecords.level] at hfirst
        rw [← hrecords'.level, hlevel, hfirst] at hlast
        exact (Except.ok.inj hlast).symm
      obtain ⟨hbonuses, hhealth⟩ := Prod.mk.inj hsums
      rw [hbonuses] at hraised
      refine ⟨state', b', ?_, hrecords', hlevel, hraised.numeric, hbonuses, hhealth, ?_,
        fun name => ?_⟩
      · exact except_bind_eq_ok.mpr ⟨bₙ, hbₙ, hb'⟩
      · rw [hraised.same fun e he => by rw [hkeysₙ]; exact hknown e he, hkeysₙ]
      · rw [hraised.score, hscoreₙ]
        show _ + bonus b.attributeBonuses name = _
        push_cast
        ring

end

/-- **A record is not stable under restoring and assembling.** Of a build whose attributes are
numbers and whose level is in range there is a record. Where states are checked and the level is
below one, it cannot be restored. Otherwise each round of restoring it and assembling again ends in
a record with the same bonuses and the same health, whose attributes have the bonuses added once
more: after `n` rounds, `n + 1` times. So the attributes are those of the first record only if
nothing is added at all. -/
theorem attributes_accrue {catalog : Catalog ℚ} {s : Session ℚ (Guided.Call ℚ)}
    (hs : (Guided.newBuild catalog config).outcome = .ok s) (hnumeric : Numeric state.attributes)
    (hleast : ¬ state.targetLevel < (config.minLevel : Level ℚ))
    (hmost : ¬ (config.maxLevel : Level ℚ) < state.targetLevel) :
    ∃ b, (assemble s.index state).outcome = .ok b ∧
      (config.checksState = true → state.targetLevel < ((1 : Int) : Level ℚ) →
        b.again catalog config = .error (.violated [.levelTooLow state.targetLevel])) ∧
      ((config.checksState = true → ¬ state.targetLevel < ((1 : Int) : Level ℚ)) →
        ∀ n, ∃ bₙ, rounds catalog config n b = .ok bₙ ∧
          bₙ.attributeBonuses = b.attributeBonuses ∧ bₙ.healthBonus = b.healthBonus ∧
          (∀ name, score bₙ.attributes name
            = score state.attributes name + (n + 1) * bonus b.attributeBonuses name) ∧
          (bₙ.attributes.same Value.alike b.attributes = true ↔
            n = 0 ∨ ∀ name, bonus b.attributeBonuses name = 0)) := by
  obtain ⟨b, hb, hrecords, hraised⟩ := exists_assemble s.index state hnumeric
  rw [← hrecords.level] at hleast hmost ⊢
  refine ⟨b, hb, again_below_one hs hrecords hraised.numeric hleast hmost, fun hpass n => ?_⟩
  obtain ⟨_, bₙ, hbₙ, _, _, hnumericₙ, hbonuses, hhealth, hkeys, hscore⟩ :=
    rounds_of_records hs hrecords hraised.numeric hleast hmost hpass hraised.known n
  have hfirst : ∀ name, score b.attributes name
      = score state.attributes name + bonus b.attributeBonuses name := hraised.score
  refine ⟨bₙ, hbₙ, hbonuses, hhealth, fun name => ?_, ?_⟩
  · rw [hscore, hfirst]
    ring
  · rw [hnumericₙ.same_iff hraised.numeric hkeys]
    constructor
    · intro hsame
      by_cases hn : n = 0
      · exact .inl hn
      · refine .inr fun name => ?_
        have hnothing := hsame name
        rw [hscore, add_eq_left] at hnothing
        exact (mul_eq_zero.mp hnothing).resolve_left (Nat.cast_ne_zero.mpr hn)
    · intro h name
      rw [hscore]
      rcases h with rfl | hnone
      · simp
      · rw [hnone, mul_zero, add_zero]

/-! ## A reward on the first level -/

/-- A source whose first level grants health and a point of strength. -/
def rewardSource : Source ℚ where
  key := ⟨"T", .primary⟩
  name := "T"
  description := ""
  tiers := [⟨1, [.reward ⟨"r", "r", ⟨2, Directory.empty.insert "str" 1⟩⟩]⟩]
  repeatPolicy := none

/-- A new build from this source. -/
def rewardStart : Session ℚ (Guided.Call ℚ) where
  index := { catalog := Catalog.addSource {} rewardSource }
  config := {}
  state := { targetLevel := .whole 1 }

/-- A build with three points of strength. -/
def strongBuild : Build ℚ where
  attributes := Directory.empty.insert (.text "str") (.whole 3)

/-- With the reward these are four points, and after a round five. -/
theorem attributes_accrue_rewardSource :
    ∃ b b', (assemble rewardStart.index strongBuild).outcome = .ok b ∧
      b.again (Catalog.addSource {} rewardSource) {} = .ok b' ∧
      b'.attributeBonuses = b.attributeBonuses ∧ bonus b.attributeBonuses "str" = 1 ∧
      score b'.attributes "str" = 5 ∧ ¬ b'.attributes.same Value.alike b.attributes = true := by
  have hstart : (Guided.newBuild (Catalog.addSource {} rewardSource) {}).outcome
      = .ok rewardStart := rfl
  have hnumeric : Numeric strongBuild.attributes := by
    intro e he
    exact ⟨"str", .whole 3, List.mem_singleton.mp he⟩
  obtain ⟨b, hb, _, hrounds⟩ := attributes_accrue hstart hnumeric (by decide +kernel)
    (by decide +kernel)
  obtain ⟨b', hb', hbonuses, _, hscore, hsame⟩ := hrounds (fun _ => by decide +kernel) 1
  have hone : bonus b.attributeBonuses "str" = 1 := by
    obtain ⟨sums, hsums, hbonus⟩ := except_eq_ok_of_any
      (p := fun sums : Directory Text (Amount ℚ) × Amount ℚ => decide (bonus sums.1 "str" = 1))
      (x := rewardSums rewardStart.index (.whole 1)) (by decide +kernel)
    obtain rfl := Except.ok.inj (hsums.symm.trans (records_of_assemble hb).sums)
    exact of_decide_eq_true hbonus
  have hthree : score strongBuild.attributes "str" = 3 := by decide +kernel
  refine ⟨b, b', hb, hb', hbonuses, hone, ?_, fun h => ?_⟩
  · rw [hscore, hthree, hone]
    norm_num
  · rcases hsame.mp h with h | hnone
    · cases h
    · rw [hnone] at hone
      exact absurd hone (by norm_num)

end Record

end CharacterBuild
