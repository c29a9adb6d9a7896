import CharacterBuild.Proofs.Holding
import CharacterBuild.Proofs.Replaying
import CharacterBuild.Proofs.Saved

set_option autoImplicit false

/-! # Saved forms read back

A saved selection is read as an entry with a payload (`Replay.Entry.read_saved`), and paying that
payload makes the very selection again, if it is held as its item allows and is not settled
(`Plan.pay_payload`). A saved line of the inventory is read as the same line, but for a quantity of
zero, which counts as left out (`InventoryLine.readAll_saved`). A directory under texts is read from
its members as it was (`Plan.textKeyed_named`).
-/

namespace CharacterBuild

variable {ν : Type}

/-! ## Payloads -/

theorem name_mem_of_mem_partsSaved {parts : List (Text × Option (Value ν))} {m : Text × Value ν}
    (h : m ∈ partsSaved parts) : m.1 ∈ parts.map Prod.fst := by
  obtain ⟨p, hp, hm⟩ := List.mem_flatMap.mp h
  refine List.mem_map.mpr ⟨p, hp, ?_⟩
  unfold Selection.savedMember at hm
  split at hm
  · rw [List.mem_singleton.mp hm]
  · cases hm

namespace Selection

variable (x : Selection ν)

/-- The parts of a selection that are passed on as its payload. -/
def payloadParts : List (Text × Option (Value ν)) :=
  [("quantity", x.quantity.map .whole), ("equipped", x.equipped.map .bool),
   ("selections", if x.options.isEmpty then none else some (.list x.options))]

/-- The payload of a selection. -/
def payload : Members ν := partsSaved x.payloadParts

theorem lookup_payload {name : Text} {v : Option (Value ν)} (h : (name, v) ∈ x.payloadParts) :
    Value.lookup name x.payload = v :=
  lookup_partsSaved (by simp only [payloadParts, List.map_cons, List.map_nil]; decide) h

/-- A payload that says what a selection is: its quantity and whether it is equipped, where that is
set, and its options, which may be left out if there are none. -/
structure IsSaidBy (ms : Members ν) : Prop where
  known : ∀ m ∈ ms, m.1 ∈ Plan.payloadNames
  quantity : Value.lookup "quantity" ms = x.quantity.map .whole
  equipped : Value.lookup "equipped" ms = x.equipped.map .bool
  options : Value.lookup "selections" ms = some (.list x.options) ∨
    Value.lookup "selections" ms = none ∧ x.options = []

theorem isSaidBy_payload : x.IsSaidBy x.payload where
  known := fun _ hm => name_mem_of_mem_partsSaved hm
  quantity := x.lookup_payload (by simp [payloadParts])
  equipped := x.lookup_payload (by simp [payloadParts])
  options := by
    have hlookup : Value.lookup "selections" x.payload
        = if x.options.isEmpty then none else some (.list x.options) :=
      x.lookup_payload (by simp [payloadParts])
    rw [hlookup]
    cases ho : x.options with
    | nil => exact Or.inr ⟨rfl, rfl⟩
    | cons o rest => exact Or.inl rfl

end Selection

variable [Number ν]

namespace Replay

/-- What is passed on of an object are its members under the names of a payload. -/
theorem payloadOf_object (ms : Members ν) : payloadOf (.object ms)
    = .ok (partsSaved (Plan.payloadNames.map fun name => (name, Value.lookup name ms))) := by
  have hfound : (Plan.payloadNames.mapM fun name => do
      if ← (Value.object ms).has name then .ok (some (name, ← (Value.object ms).member name))
      else .ok none : Except (Fault ν) (List (Option (Text × Value ν))))
      = .ok (Plan.payloadNames.map fun name => (Value.lookup name ms).map fun v => (name, v)) := by
    refine mapM_eq_ok_map fun name _ => ?_
    show (if (Value.lookup name ms).isSome then _ else _) = _
    cases h : Value.lookup name ms with
    | none => rfl
    | some v =>
        show (do let w ← Value.member name (.object ms); .ok (some (name, w))) = _
        unfold Value.member
        dsimp only
        rw [h]
        rfl
  -- what is found under a name is what is saved under it
  have key : ∀ names : List Text, (names.map fun name =>
      (Value.lookup name ms).map fun v => (name, v)).filterMap (fun m => m)
        = partsSaved (names.map fun name => (name, Value.lookup name ms)) := by
    intro names
    induction names with
    | nil => rfl
    | cons name rest ih =>
        rw [partsSaved, List.map_cons, List.map_cons, List.flatMap_cons]
        cases Value.lookup name ms with
        | none => exact ih
        | some v => exact congrArg ((name, v) :: ·) ih
  exact except_bind_eq_ok.mpr ⟨_, hfound, congrArg Except.ok (key _)⟩

theorem payloadOf_saved (x : Selection ν) : payloadOf (.object x.saved) = .ok x.payload := by
  have hquantity : Value.lookup "quantity" x.saved = x.quantity.map .whole :=
    x.lookup_saved (by simp [Selection.parts])
  have hequipped : Value.lookup "equipped" x.saved = x.equipped.map .bool :=
    x.lookup_saved (by simp [Selection.parts])
  have hoptions : Value.lookup "selections" x.saved
      = if x.options.isEmpty then none else some (.list x.options) :=
    x.lookup_saved (by simp [Selection.parts])
  rw [payloadOf_object]
  simp only [Plan.payloadNames, List.map_cons, List.map_nil, hquantity, hequipped, hoptions]
  rfl

/-- **A saved selection is an entry for its item**, from its source, in its group. -/
theorem Entry.read_saved (x : Selection ν) : Entry.read (.object x.saved)
    = .ok ⟨x.id, x.source.name, x.group,
        if x.payload.isEmpty then .null else .object x.payload⟩ := by
  have hid : (Value.object x.saved).member "id" = .ok (.text x.id) := by
    unfold Value.member
    dsimp only
    rw [x.lookup_saved (v := some (.text x.id)) (by simp [Selection.parts])]
  have hsource : (Value.object x.saved).member "source" = .ok (.text x.source.name) := by
    unfold Value.member
    dsimp only
    rw [x.lookup_saved (v := some (.text x.source.name)) (by simp [Selection.parts])]
  unfold Entry.read
  rw [payloadOf_saved, hid, hsource]
  show Except.ok (Entry.mk _ _ (Value.memberOrNull "groupId" x.saved) _) = _
  rw [x.memberOrNull_saved_group]
  rfl

end Replay

/-! ## Paying -/

/-- Of options that an item offers, each is kept once, as far as there is room. -/
theorem Options.clean_of_offered {item : Item ν} {options : List (Value ν)}
    (h : ∀ o ∈ options, ∃ id ∈ item.optionIds, o = .text id) (id : Text) :
    (clean (some item) id (.list options)).outcome = (cut item id (distinct options)).outcome := by
  have hmarked : ((distinct options).mapM fun o => do .ok (o, ← isOf item o) :
      Except (Fault ν) (List (Value ν × Bool)))
      = .ok ((distinct options).map fun o => (o, true)) := by
    refine mapM_eq_ok_map fun o ho => ?_
    obtain ⟨s, hs, rfl⟩ := h o (mem_of_mem_firstsBy ho)
    have hisOf : isOf item (.text s) = .ok true := congrArg Except.ok (List.elem_eq_true_of_mem hs)
    rw [hisOf]
    rfl
  unfold clean
  rw [Traced.outcome_bind_of_ok (a := options) rfl, Traced.outcome_bind_of_ok hmarked]
  -- none of them is unknown, so nothing is noted
  have hunknown : (((distinct options).map fun o => (o, true)).filter fun m => !m.2).map Prod.fst
      = [] := by
    rw [filter_unmarked fun _ => true]
    simp
  have hkept : (((distinct options).map fun o => (o, true)).filter fun m => m.2).map Prod.fst
      = distinct options := by
    rw [filter_marked fun _ => true]
    simp
  dsimp only
  rw [hunknown, hkept]
  rfl

/-- Options that fit an item are kept as they are. -/
theorem Options.clean_of_fits {item : Item ν} {options : List (Value ν)}
    (h : item.FitsOptions options) (id : Text) :
    (clean (some item) id (.list options)).outcome = .ok (options, none) := by
  have hdistinct : distinct options = options := by
    refine firstsBy_eq_self (h.distinct.imp_of_mem fun {a b} ha hb hne => ?_)
    obtain ⟨s, _, rfl⟩ := h.offered a ha
    obtain ⟨t, _, rfl⟩ := h.offered b hb
    rw [Value.alike_text, decide_eq_false_iff_not]
    rintro rfl
    exact hne rfl
  rw [clean_of_offered h.offered, hdistinct]
  unfold cut
  cases hl : item.optionLimit with
  | none => rfl
  | some limit =>
      dsimp only
      rw [if_neg (Nat.not_lt.mpr (h.bounded limit hl))]
      rfl

namespace Plan

/-- An object whose members have known names has no unknown keys. -/
theorem unknownKeys_eq_nil {known : List Text} {ms : Members ν} (h : ∀ m ∈ ms, m.1 ∈ known) :
    unknownKeys known (.object ms) = .ok [] := by
  have hkeys : ((ms.map fun m => Value.text m.1).mapM Value.key :
      Except (Fault ν) (List (Atom ν))) = .ok (ms.map fun m => .text m.1) := by
    rw [List.mapM_map]
    exact mapM_eq_ok_map fun m _ => rfl
  have hnone : ((firstsBy Atom.alike (ms.map fun m => Atom.text m.1)).filter fun k =>
      !known.any fun name => k.same (.text name)) = ([] : List (Atom ν)) := by
    refine List.filter_eq_nil_iff.mpr fun k hk => ?_
    obtain ⟨m, hm, rfl⟩ := List.mem_map.mp (mem_of_mem_firstsBy hk)
    have hknown : (known.any fun name => (Atom.text m.1 : Atom ν).same (.text name)) = true :=
      List.any_eq_true.mpr ⟨m.1, h m hm, by simp [Atom.same]⟩
    simp [hknown]
  unfold unknownKeys Value.distinctKeys Value.elements
  dsimp only
  rw [show ((Except.ok (ms.map fun m => Value.text m.1) : Except (Fault ν) _) >>= fun l => do
      let atoms ← l.mapM Value.key
      Except.ok (firstsBy Atom.alike atoms))
      = .ok (firstsBy Atom.alike (ms.map fun m => Atom.text m.1)) from
    except_bind_eq_ok.mpr ⟨_, rfl, except_bind_eq_ok.mpr ⟨_, hkeys, rfl⟩⟩]
  show Atom.sort _ = _
  rw [hnone]
  rfl

variable {item : Item ν} {x y : Selection ν} {ms : Members ν}

theorem payQuantity_said (hms : x.IsSaidBy ms) (hheld : item.Holds x) (hy : y.quantity = none) :
    payQuantity item (.object ms) y = .ok ({ y with quantity := x.quantity }, none) := by
  unfold payQuantity Value.has Value.member
  dsimp only
  rw [hms.quantity]
  cases hq : x.quantity with
  | none =>
      show Except.ok _ = _
      rw [← hy]
  | some n =>
      have hpositive := hheld.positive n hq
      have hmax : max 1 n = n := by omega
      have hkept : heldQuantity (some item) n = (n, none) := by
        unfold heldQuantity
        dsimp only
        refine if_neg fun h => ?_
        simp only [Bool.and_eq_true, Bool.not_eq_true', decide_eq_true_eq] at h
        have hsingle := hheld.single h.1 n hq
        omega
      show Except.ok ({ y with quantity := some (heldQuantity (some item) (max 1 n)).1 },
        (heldQuantity (some item) (max 1 n)).2) = _
      rw [hmax, hkept]

theorem payEquipped_said (hms : x.IsSaidBy ms) (hy : y.equipped = none) :
    payEquipped (.object ms) y = .ok { y with equipped := x.equipped } := by
  unfold payEquipped Value.has Value.member
  dsimp only
  rw [hms.equipped]
  cases he : x.equipped with
  | none =>
      show Except.ok _ = _
      rw [← hy]
  | some b => rfl

theorem payOptions_said (hms : x.IsSaidBy ms) (hheld : item.Holds x) (hy : y.options = []) :
    (payOptions item (.object ms) y).outcome = .ok ({ y with options := x.options }, none) := by
  unfold payOptions Value.has Value.member
  dsimp only
  rcases hms.options with hgiven | ⟨hleft, hnone⟩
  · have hclean := Options.clean_of_fits hheld.options item.id
    rw [hgiven, Traced.outcome_bind_of_ok (a := true) rfl, if_pos rfl,
      Traced.outcome_bind_of_ok (a := .list x.options) rfl, Traced.outcome_bind_of_ok hclean]
    rfl
  · rw [hleft, hnone]
    show Except.ok _ = _
    rw [← hy]

/-- **A payload that says what a selection is makes it as it was**, with no reason to tell. -/
theorem pay_said (hms : x.IsSaidBy ms) (hheld : item.Holds x) (hid : x.id = item.id)
    (hopen : x.locked = false) :
    (pay item (.object ms) { id := item.id, source := x.source, group := x.group }).outcome
      = .ok (x, none) := by
  unfold pay
  rw [Traced.outcome_bind_of_ok (unknownKeys_eq_nil hms.known), if_neg (by simp),
    Traced.outcome_bind_of_ok (payQuantity_said hms hheld rfl)]
  dsimp only
  rw [Traced.outcome_bind_of_ok (payEquipped_said hms rfl)]
  rw [Traced.outcome_bind_of_ok (payOptions_said hms hheld rfl)]
  show Except.ok (({ x with id := item.id, locked := false } : Selection ν), none) = _
  rw [← hid, ← hopen]

/-- **Paying its payload makes a selection as it was**, with no reason to tell. -/
theorem pay_payload (hheld : item.Holds x) (hid : x.id = item.id) (hopen : x.locked = false) :
    (pay item (.object x.payload) { id := item.id, source := x.source, group := x.group }).outcome
      = .ok (x, none) :=
  pay_said x.isSaidBy_payload hheld hid hopen

/-- Without members, a payload is the same as none. -/
theorem orElse_object (ms : Members ν) : (Value.object ms).orElse (.object []) = .object ms := by
  cases ms with
  | nil => rfl
  | cons m rest => rfl

/-- The payload that an entry passes on of a selection is the same as its payload. -/
theorem payload_orElse (x : Selection ν) :
    (if x.payload.isEmpty then Value.null else .object x.payload).orElse (.object [])
      = .object x.payload := by
  cases x.payload with
  | nil => rfl
  | cons m rest => exact orElse_object (m :: rest)

end Plan

/-! ## The inventory -/

omit [Number ν] in
theorem Traced.outcome_orSkip_of_ok {α : Type} {x : Traced ν α} {onFault : Fault ν → Traced ν α}
    {a : α} (h : x.outcome = .ok a) : (x.orSkip onFault).outcome = .ok a := by
  unfold Traced.orSkip
  rw [h]
  exact h

namespace InventoryLine

/-- What is read of a saved line: a quantity of zero counts as left out, which is one. -/
def reread (e : InventoryLine ν) : InventoryLine ν :=
  { e with quantity := if e.quantity = 0 then 1 else e.quantity }

omit [Number ν] in
theorem reread_eq_self {e : InventoryLine ν} (h : e.quantity ≠ 0) : e.reread = e := by
  rw [reread, if_neg h]

/-- A saved line is read as it was, but for a quantity of zero. -/
theorem read_saved (e : InventoryLine ν) :
    (read (.object e.saved)).outcome = .ok (some e.reread) := by
  have hid : Value.lookup "id" e.saved = some (.text e.id) := e.lookup_saved (by simp [parts])
  have hquantity : Value.memberOrNull "quantity" e.saved = .whole e.quantity :=
    memberOrNull_of_lookup (e.lookup_saved (by simp [parts, unlessNull, Value.isNull]))
  have hsource : Value.memberOrNull "source" e.saved = e.source :=
    memberOrNull_of_lookup (e.lookup_saved (by simp [parts]))
  have hequipped : (Value.memberOrNull "equipped" e.saved).toFlag? = e.equipped := by
    have hlookup : Value.lookup "equipped" e.saved = e.equipped.map .bool :=
      e.lookup_saved (by simp [parts])
    unfold Value.memberOrNull
    rw [hlookup]
    cases e.equipped <;> rfl
  have hkept : (Value.whole e.quantity : Value ν).orElse (.whole 1)
      = .whole (if e.quantity = 0 then 1 else e.quantity) := by
    by_cases hzero : e.quantity = 0 <;>
      simp [Value.orElse, Value.isTrue, Atom.isTrue, Amount.isTrue, hzero]
  unfold read
  dsimp only
  rw [hid]
  dsimp only
  rw [hquantity, hsource, hequipped, hkept]
  exact Traced.outcome_orSkip_of_ok rfl

/-- A saved inventory is read line by line. -/
theorem readAll_saved_eq (lines : List (InventoryLine ν)) :
    (readAll (lines.map fun e => .object e.saved)).outcome = .ok (lines.map reread) := by
  have hread : ((lines.map fun e => Value.object e.saved).mapM read).outcome
      = .ok (lines.map fun e => some e.reread) := by
    rw [Traced.outcome_mapM, List.mapM_map]
    exact mapM_eq_ok_map fun e _ => read_saved e
  unfold readAll
  rw [Traced.outcome_bind_of_ok hread]
  show Except.ok ((lines.map fun e => some e.reread).filterMap fun e => e) = _
  rw [List.filterMap_map]
  exact congrArg Except.ok (congrFun List.filterMap_eq_map lines)

/-- **A saved inventory is read as it was**, if no quantity is zero. -/
theorem readAll_saved {lines : List (InventoryLine ν)} (h : ∀ e ∈ lines, e.quantity ≠ 0) :
    (readAll (lines.map fun e => .object e.saved)).outcome = .ok lines := by
  rw [readAll_saved_eq]
  exact congrArg Except.ok ((List.map_congr_left fun e he => reread_eq_self (h e he)).trans
    (List.map_id _))

end InventoryLine

/-! ## Directories -/

/-- The members for the entries of a directory. -/
def Directory.named (d : Directory (Atom ν) (Value ν)) : Members ν :=
  d.entries.map fun e => ((Value.atom e.1).str, e.2)

theorem Directory.pairs_named {d : Directory (Atom ν) (Value ν)}
    (hkeys : ∀ e ∈ d.entries, ∃ name, e.1 = .text name) :
    (d.named.map fun m => ((.text m.1, m.2) : Atom ν × Value ν)) = d.entries := by
  unfold named
  rw [List.map_map]
  refine (List.map_congr_left fun e he => ?_).trans (List.map_id _)
  obtain ⟨name, hname⟩ := hkeys e he
  show ((.text (Value.atom e.1).str, e.2) : Atom ν × Value ν) = e
  rw [hname]
  exact Prod.ext hname.symm rfl

/-- **A directory under texts is read from its members as it was**, if reading leaves its values
as they are. -/
theorem Plan.textKeyed_named {d : Directory (Atom ν) (Value ν)} {ofValue : Value ν → Value ν}
    (hkeys : ∀ e ∈ d.entries, ∃ name, e.1 = .text name)
    (hvalues : ∀ e ∈ d.entries, ofValue e.2 = e.2) :
    textKeyed (.object d.named) ofValue = .ok d := by
  have hentries : (d.entries.map fun e => ((.text (Value.atom e.1).str, ofValue e.2) :
      Atom ν × Value ν)) = d.entries := by
    refine (List.map_congr_left fun e he => ?_).trans (List.map_id _)
    obtain ⟨name, hname⟩ := hkeys e he
    rw [hname, hvalues e he]
    exact Prod.ext hname.symm rfl
  unfold textKeyed
  refine except_bind_eq_ok.mpr ⟨d.entries, congrArg Except.ok (Directory.pairs_named hkeys), ?_⟩
  rw [Directory.ofList_entries]
  show Except.ok (Directory.ofList (d.entries.map _)) = _
  rw [hentries, Directory.ofList_entries]

end CharacterBuild
