import CharacterBuild.Proofs.Agreement
import CharacterBuild.Proofs.Answers
import CharacterBuild.Proofs.Saved
import CharacterBuild.Proofs.Stacks

set_option autoImplicit false

/-! # Computations that end in a value

When the parts of a question about a build end in a value, and when in a fault. Each part has one
lemma, which says by an equivalence what has to be so of the data: a balance can be told if all its
costs can be and fit (`Balance.ends_iff`), the page of the attributes if the values that are used
are atoms which can be put in order (`Completeness.ends_attributeIssues_iff`), and a record if the
attributes that are raised are amounts (`Record.ends_assemble_iff`). Everything else about a record
always ends in a value.
-/

namespace CharacterBuild

variable {ν : Type} {ε α β : Type}

/-- The computation ends in a value. -/
def Ends (x : Except ε α) : Prop := ∃ a, x = .ok a

namespace Ends

@[simp] theorem ok (a : α) : Ends (.ok a : Except ε α) := ⟨a, rfl⟩

@[simp] theorem not_error (e : ε) : ¬ Ends (.error e : Except ε α) := nofun

theorem bind_iff {x : Except ε α} {f : α → Except ε β} :
    Ends (x >>= f) ↔ ∃ a, x = .ok a ∧ Ends (f a) := by
  cases x <;> simp [bind, Except.bind]

theorem bind_of_ok {x : Except ε α} {f : α → Except ε β} {a : α} (h : x = .ok a) :
    Ends (x >>= f) ↔ Ends (f a) := by
  subst h
  exact Iff.rfl

@[simp] theorem map_iff {x : Except ε α} {f : α → β} : Ends (x.map f) ↔ Ends x := by
  cases x <;> simp [Except.map]

theorem mapM_iff {f : α → Except ε β} {l : List α} :
    Ends (l.mapM f) ↔ ∀ a ∈ l, Ends (f a) := by
  simpa [Ends] using mapM_eq_ok_forall_iff (f := f) (l := l) (P := fun _ => True)

/-- Going through a list with an accumulator, if it depends on the elements alone which steps end
in a value, as long as an invariant holds of the accumulator. -/
theorem foldlM_iff {f : β → α → Except ε β} {I : β → Prop} {P : α → Prop}
    (hstep : ∀ b a, I b → P a → ∃ b', f b a = .ok b' ∧ I b')
    (hends : ∀ b a, I b → Ends (f b a) → P a) {l : List α} {b : β} (hb : I b) :
    (Ends (l.foldlM f b) ↔ ∀ a ∈ l, P a) ∧ ∀ r, l.foldlM f b = .ok r → I r := by
  induction l generalizing b with
  | nil => exact ⟨by simp [pure, Except.pure], fun r hr => Except.ok.inj hr ▸ hb⟩
  | cons a rest ih =>
      rw [List.foldlM_cons]
      by_cases ha : P a
      · obtain ⟨b', hb', hI⟩ := hstep b a hb ha
        obtain ⟨hiff, hkept⟩ := ih hI
        refine ⟨?_, fun r hr => ?_⟩
        · rw [bind_of_ok hb', hiff]
          simp [ha]
        · rw [hb'] at hr
          exact hkept r hr
      · -- the first step fails, and so does the whole
        have hnone : ¬ Ends (f b a) := fun h => ha (hends b a hb h)
        refine ⟨⟨fun h => ?_, fun h => absurd (h a (by simp)) ha⟩, fun r hr => ?_⟩
        · obtain ⟨b', hb', _⟩ := bind_iff.mp h
          exact absurd ⟨b', hb'⟩ hnone
        · obtain ⟨b', hb', _⟩ := except_bind_eq_ok.mp hr
          exact absurd ⟨b', hb'⟩ hnone

end Ends

/-- The outcome of going through a list with an accumulator goes through the outcomes. -/
theorem Traced.outcome_foldlM (f : β → α → Traced ν β) (l : List α) (b : β) :
    (l.foldlM f b).outcome = l.foldlM (fun b a => (f b a).outcome) b := by
  induction l generalizing b with
  | nil => rfl
  | cons a rest ih =>
      rw [List.foldlM_cons, List.foldlM_cons, outcome_bind]
      simp only [ih]
      rfl

variable [Number ν]

/-! ## Costs -/

omit [Number ν] in
theorem Value.ends_key_iff {v : Value ν} : Ends v.key ↔ ∃ a, v = .atom a := by
  cases v <;> simp [key]

/-- A cost is a number with a fraction, or nothing at all. -/
theorem Item.cost_real_or_zero {item : Item ν} {property : Value ν} {cost : Amount ν}
    (h : item.cost property = .ok cost) : (∃ r, cost = .real r) ∨ cost = .whole 0 := by
  unfold Item.cost at h
  split at h
  · exact Or.inl ⟨_, (Except.ok.inj h).symm⟩
  · obtain ⟨a, _, h⟩ := except_bind_eq_ok.mp h
    split at h
    · rename_i name _
      rw [← Except.ok.inj h]
      cases item.properties.find? name with
      | some r => exact Or.inl ⟨r, rfl⟩
      | none => exact Or.inr rfl
    · exact Or.inr (Except.ok.inj h).symm

/-- A cost can be taken as often as a selection holds its item: the count has to fit beside a
fraction. -/
def Selection.Fits (x : Selection ν) : Amount ν → Prop
  | .whole _ => True
  | .real _ => (Number.ofInt? x.count : Option ν).isSome = true

/-- A pool can price a selection, if it counts it at all. -/
def PointBuy.CanPrice (unlock : PointBuy ν) (catalog : Catalog ν) (x : Selection ν) : Prop :=
  ∀ group item, unlock.group? x.group = some group → catalog.item? x.id = some item →
    ∃ cost, item.cost group.costProperty = .ok cost ∧ x.Fits cost

/-- Among machine numbers there is a zero. -/
theorem isSome_ofInt?_zero : (Number.ofInt? 0 : Option Double).isSome = true := by decide +kernel

section

variable (hzero : (Number.ofInt? 0 : Option ν).isSome = true)

include hzero

/-- The cost of a selection is an amount that can be joined to a fraction. -/
theorem Selection.exists_cost {x : Selection ν} {item : Item ν} {property : Value ν}
    {cost : Amount ν} (h : item.cost property = .ok cost) (hfits : x.Fits cost) :
    ∃ total r, x.cost item property = .ok total ∧ total.toReal? = some r := by
  rw [Selection.cost, h]
  rcases Item.cost_real_or_zero h with ⟨r, rfl⟩ | rfl
  · obtain ⟨n, hn⟩ := Option.isSome_iff_exists.mp hfits
    refine ⟨.real (n * r), n * r, ?_, rfl⟩
    simp [bind, Except.bind, Amount.mul?, Amount.combine, Amount.toReal?, hn, Amount.orTooLarge]
  · obtain ⟨r, hr⟩ := Option.isSome_iff_exists.mp hzero
    refine ⟨.whole 0, r, ?_, hr⟩
    simp [bind, Except.bind, Amount.orTooLarge]

omit hzero in
theorem Selection.fits_of_cost {x : Selection ν} {item : Item ν} {property : Value ν}
    (h : Ends (x.cost item property)) :
    ∃ cost, item.cost property = .ok cost ∧ x.Fits cost := by
  obtain ⟨cost, hcost, total, htotal⟩ := Ends.bind_iff.mp h
  refine ⟨cost, hcost, ?_⟩
  cases cost with
  | whole n => trivial
  | real r =>
      cases hn : (Number.ofInt? x.count : Option ν) with
      | some n => simp [Fits, hn]
      | none => simp [Amount.mul?, Amount.combine, Amount.toReal?, hn, Amount.orTooLarge] at htotal

/-! ## Balances -/

namespace Balance

variable {catalog : Catalog ν} {unlock : PointBuy ν}

omit hzero in
theorem exists_joined (onInt : Int → Int → Int) (onReal : ν → ν → ν) (y : ν) {total : Amount ν}
    {r : ν} (h : total.toReal? = some r) :
    Amount.orTooLarge (Amount.combine onInt onReal (.real y) total)
      = .ok (.real (onReal y r)) := by
  have hjoined : Amount.combine onInt onReal (.real y) total = some (.real (onReal y r)) := by
    have hfraction : (Amount.real y).toReal? = some y := rfl
    unfold Amount.combine
    dsimp only
    rw [hfraction, h]
  rw [hjoined]
  rfl

/-- A selection that can be priced leads from a fraction to a fraction. -/
theorem afterSelection_of_canPrice {x : Selection ν} (h : unlock.CanPrice catalog x) (y : ν) :
    ∃ z, (afterSelection catalog unlock (.real y) x).outcome = .ok (.real z) := by
  unfold afterSelection
  cases hgroup : unlock.group? x.group with
  | none => exact ⟨y, rfl⟩
  | some group =>
      cases hitem : catalog.item? x.id with
      | none => exact ⟨y, rfl⟩
      | some item =>
          obtain ⟨cost, hcost, hfits⟩ := h group item hgroup hitem
          obtain ⟨total, r, htotal, hr⟩ := Selection.exists_cost hzero hcost hfits
          dsimp only
          rw [Traced.outcome_bind_of_ok (a := total) htotal]
          cases group.effect with
          | earn => exact ⟨_, exists_joined _ _ y hr⟩
          | spend => exact ⟨_, exists_joined _ _ y hr⟩

omit hzero in
theorem canPrice_of_afterSelection {x : Selection ν} {current : Amount ν}
    (h : Ends (afterSelection catalog unlock current x).outcome) : unlock.CanPrice catalog x := by
  intro group item hgroup hitem
  unfold afterSelection at h
  rw [hgroup] at h
  dsimp only at h
  rw [hitem] at h
  obtain ⟨a, h⟩ := h
  obtain ⟨total, htotal, _⟩ := Traced.outcome_bind_eq_ok.mp h
  exact Selection.fits_of_cost ⟨total, htotal⟩

/-- **A balance can be told exactly if every selection that counts can be priced.** -/
theorem ends_iff {selections : List (Selection ν)} :
    Ends (ofSelections catalog unlock selections).outcome ↔
      ∀ x ∈ selections, unlock.CanPrice catalog x := by
  -- the balance starts with a fraction and stays one
  have hfold := Ends.foldlM_iff (l := selections) (I := fun a : Amount ν => ∃ y, a = .real y)
    (f := fun current x => (afterSelection catalog unlock current x).outcome)
    (P := unlock.CanPrice catalog)
    (by
      rintro _ x ⟨y, rfl⟩ hx
      obtain ⟨z, hz⟩ := afterSelection_of_canPrice hzero hx y
      exact ⟨_, hz, z, rfl⟩)
    (fun _ x _ h => canPrice_of_afterSelection h) (b := .real unlock.pool.initial) ⟨_, rfl⟩
  rw [← hfold.1, ← Traced.outcome_foldlM]
  unfold ofSelections
  rw [Traced.outcome_bind]
  cases (selections.foldlM (afterSelection catalog unlock) (.real unlock.pool.initial)).outcome with
  | error fault => simp [Except.bind]
  | ok current => simp [Except.bind]

end Balance

end

/-! ## The page of the attributes -/

namespace Completeness

variable {config : Config} {state : Build ν}

/-- Among some values that are used, those beyond the ones that are listed. -/
def extras (config : Config) (used : List (Atom ν)) : List (Atom ν) :=
  (tally used).entries.flatMap fun e => List.replicate
    (e.2 - config.attributeValues.countP fun v => e.1.same (.number (.whole v))) e.1

/-- The values that are assigned to attributes. -/
def assigned (config : Config) (state : Build ν) : List (Value ν) :=
  config.attributeNames.filterMap fun name => state.attributes.find? (.text name)

omit [Number ν] in
theorem mapM_key_eq_ok {values : List (Value ν)} {atoms : List (Atom ν)} :
    values.mapM Value.key = .ok atoms ↔ values = atoms.map Value.atom := by
  induction values generalizing atoms with
  | nil => cases atoms <;> simp [pure, Except.pure]
  | cons v rest ih =>
      rw [List.mapM_cons, except_bind_eq_ok]
      constructor
      · rintro ⟨a, ha, h⟩
        obtain ⟨others, hothers, h⟩ := except_bind_eq_ok.mp h
        obtain rfl : a :: others = atoms := Except.ok.inj h
        obtain ⟨a', rfl⟩ := Value.ends_key_iff.mp ⟨a, ha⟩
        obtain rfl : a' = a := Except.ok.inj ha
        rw [List.map_cons, ih.mp hothers]
      · intro h
        cases atoms with
        | nil => cases h
        | cons a others =>
            obtain ⟨rfl, hrest⟩ := List.cons.inj h
            exact ⟨a, rfl, except_bind_eq_ok.mpr ⟨others, ih.mpr hrest, rfl⟩⟩

theorem ends_sort_iff {atoms : List (Atom ν)} :
    Ends (Atom.sort atoms) ↔ Atom.haveOrder atoms = true := by
  unfold Atom.sort
  split
  · rename_i h
    exact ⟨fun _ => h, fun _ => .ok _⟩
  · rename_i h
    exact ⟨fun hends => absurd hends (Ends.not_error _), fun h' => absurd h' h⟩

theorem ends_unavailable_iff : Ends (unavailable config state) ↔
    ∃ used, assigned config state = used.map Value.atom ∧
      Atom.haveOrder (extras config used) = true := by
  unfold unavailable
  rw [Ends.bind_iff]
  exact exists_congr fun used => and_congr mapM_key_eq_ok ends_sort_iff

/-- The page of the attributes can be told: it asks for nothing, or all values that are assigned
are atoms, and those that are not to be had can be put in order. -/
def AttributesTold (config : Config) (state : Build ν) : Prop :=
  state.isRestored = false → config.attributeNames ≠ [] → config.attributeValues ≠ [] →
    ∃ used, assigned config state = used.map Value.atom ∧
      Atom.haveOrder (extras config used) = true

theorem ends_attributeIssues_iff :
    Ends (attributeIssues config state) ↔ AttributesTold config state := by
  unfold attributeIssues AttributesTold
  split
  · rename_i hnothing
    refine ⟨fun _ hopen hnames _ => ?_, fun _ => .ok _⟩
    rw [hopen, Bool.false_or, List.isEmpty_iff] at hnothing
    exact absurd hnothing hnames
  · rename_i hasked
    rw [Bool.or_eq_true, not_or, List.isEmpty_iff, Bool.not_eq_true] at hasked
    dsimp only
    split
    · rename_i hvalues
      exact ⟨fun _ _ _ hsome => absurd (List.isEmpty_iff.mp hvalues) hsome, fun _ => .ok _⟩
    · rename_i hvalues
      rw [List.isEmpty_iff] at hvalues
      rw [Ends.bind_iff, ← ends_unavailable_iff]
      refine ⟨fun ⟨extra, hextra, _⟩ _ _ _ => ⟨extra, hextra⟩, fun h => ?_⟩
      obtain ⟨extra, hextra⟩ := h hasked.1 hasked.2 hvalues
      exact ⟨extra, hextra, .ok _⟩

end Completeness

/-! ## Records -/

namespace Inventory

omit [Number ν] in
theorem mergeable_selection (x : Selection ν) : Mergeable x.saved where
  named := ⟨.text x.id, x.lookup_saved (by simp [Selection.parts])⟩
  counted := fun v hv => by
    rw [x.lookup_saved (v := x.quantity.map .whole) (by simp [Selection.parts])] at hv
    obtain ⟨n, _, rfl⟩ := Option.map_eq_some_iff.mp hv
    exact Or.inr ⟨n, rfl⟩

omit [Number ν] in
theorem mergeable_line (e : InventoryLine ν) : Mergeable e.saved where
  named := ⟨.text e.id, e.lookup_saved (by simp [InventoryLine.parts])⟩
  counted := fun v hv => by
    rw [e.lookup_saved (v := some (.whole e.quantity)) (by simp [InventoryLine.parts])] at hv
    exact Or.inr ⟨e.quantity, (Option.some.inj hv).symm⟩

end Inventory

namespace Record

variable {index : Index ν} {state : Build ν}

/-- The attributes that the rewards up to a level raise. -/
def raisedNames (index : Index ν) (level : Level ν) : List Text :=
  (index.rewardsThrough level).flatMap fun r => r.2.2.grant.attributes.keys

/-- An attribute can be raised if its value is an amount that can be joined to a fraction. -/
def Raisable (attributes : Directory (Atom ν) (Value ν)) (name : Text) : Prop :=
  ∃ a : Amount ν, ((attributes.find? (.text name)).getD (.whole 0)).toAmount = .ok a ∧
    a.toReal?.isSome = true

/-- Bonuses that are fractions, on the attributes of some names. -/
structure Bonuses (names : List Text) (bonuses : Directory Text (Amount ν)) : Prop where
  real : ∀ name a, bonuses.find? name = some a → ∃ y, a = .real y
  found : ∀ name, (bonuses.find? name).isSome = true ↔ name ∈ names

omit [Number ν] in
theorem Bonuses.insert {names : List Text} {bonuses : Directory Text (Amount ν)}
    (h : Bonuses names bonuses) (name : Text) (y : ν) :
    Bonuses (names ++ [name]) (bonuses.insert name (.real y)) := by
  have hfind : ∀ other, (bonuses.insert name (.real y)).find? other
      = if other = name then some (.real y) else bonuses.find? other := by
    intro other
    split
    · rename_i hother
      rw [hother, Directory.find?_insert_self]
    · rename_i hother
      exact Directory.find?_insert_of_ne bonuses hother _
  refine ⟨fun other a ha => ?_, fun other => ?_⟩
  · rw [hfind] at ha
    split at ha
    · exact ⟨y, (Option.some.inj ha).symm⟩
    · exact h.real other a ha
  · rw [hfind, List.mem_append, List.mem_singleton]
    split
    · rename_i hother
      simp [hother]
    · rename_i hother
      simp [h.found, hother]

section

variable (hzero : (Number.ofInt? 0 : Option ν).isSome = true)

include hzero

/-- Adding a fraction to nothing or to a fraction gives a fraction. -/
theorem exists_add {a : Amount ν} (h : a = .whole 0 ∨ ∃ y, a = .real y) (x : ν) :
    ∃ z, Amount.orTooLarge (a.add? (.real x)) = .ok (.real z) := by
  rcases h with rfl | ⟨y, rfl⟩
  · obtain ⟨z, hz⟩ := Option.isSome_iff_exists.mp hzero
    refine ⟨z + x, ?_⟩
    simp [Amount.add?, Amount.combine, Amount.toReal?, hz, Amount.orTooLarge]
  · exact ⟨y + x, rfl⟩

theorem addBonuses_eq_ok {names : List Text} {bonuses : Directory Text (Amount ν)}
    (h : Bonuses names bonuses) (grant : Grant ν) :
    ∃ bonuses', addBonuses bonuses grant = .ok bonuses' ∧
      Bonuses (names ++ grant.attributes.keys) bonuses' := by
  unfold addBonuses Directory.keys
  induction grant.attributes.entries generalizing names bonuses with
  | nil => exact ⟨bonuses, rfl, by simpa using h⟩
  | cons e rest ih =>
      have hheld : (bonuses.find? e.1).getD (.whole 0) = .whole 0 ∨
          ∃ y, (bonuses.find? e.1).getD (.whole 0) = .real y := by
        cases hfound : bonuses.find? e.1 with
        | none => exact Or.inl rfl
        | some a => exact Or.inr (h.real _ _ hfound)
      obtain ⟨z, hz⟩ := exists_add hzero hheld e.2
      obtain ⟨bonuses', hrest, hbonuses⟩ := ih (h.insert e.1 z)
      refine ⟨bonuses', ?_, by simpa using hbonuses⟩
      rw [List.foldlM_cons, hz]
      exact hrest

/-- **The rewards can always be summed**, and raise the attributes that they name. -/
theorem rewardSums_eq_ok (index : Index ν) (level : Level ν) :
    ∃ bonuses health, rewardSums index level = .ok (bonuses, health) ∧
      Bonuses (raisedNames index level) bonuses := by
  unfold rewardSums raisedNames
  -- the health is nothing at first, and a fraction after the first reward
  have hfold : ∀ {names bonuses} {health : Amount ν}, Bonuses names bonuses →
      (health = .whole 0 ∨ ∃ y, health = .real y) →
      ∃ bonuses' health', (index.rewardsThrough level).foldlM (fun sums r => do
          let health ← Amount.orTooLarge (sums.2.add? (.real r.2.2.grant.health))
          let bonuses ← addBonuses sums.1 r.2.2.grant
          .ok (bonuses, health)) (bonuses, health) = .ok (bonuses', health') ∧
        Bonuses (names ++ (index.rewardsThrough level).flatMap fun r =>
          r.2.2.grant.attributes.keys) bonuses' := by
    induction index.rewardsThrough level with
    | nil => exact fun h _ => ⟨_, _, rfl, by simpa using h⟩
    | cons r rest ih =>
        intro names bonuses health h hhealth
        obtain ⟨z, hz⟩ := exists_add hzero hhealth r.2.2.grant.health
        obtain ⟨bonuses', hadd, hbonuses⟩ := addBonuses_eq_ok hzero h r.2.2.grant
        obtain ⟨bonuses'', health'', hrest, hall⟩ := ih hbonuses (Or.inr ⟨z, rfl⟩)
        refine ⟨bonuses'', health'', ?_, by simpa [List.append_assoc] using hall⟩
        rw [List.foldlM_cons, hz]
        dsimp only [bind, Except.bind]
        rw [hadd]
        exact hrest
  have hempty : Bonuses [] (Directory.empty : Directory Text (Amount ν)) :=
    ⟨nofun, by simp⟩
  obtain ⟨bonuses, health, hsums, hbonuses⟩ := hfold hempty (Or.inl rfl)
  exact ⟨bonuses, health, hsums, by simpa using hbonuses⟩

end

/-- A text is like no other atom. -/
theorem beq_text_iff {a : Atom ν} {name : Text} : (a == .text name) = true ↔ a = .text name := by
  show Atom.alike a (.text name) = true ↔ _
  cases a <;> simp [Atom.alike, Atom.same, Atom.amount?, Atom.coincides]

/-- Raising one attribute leaves the others. -/
theorem find?_insert_text (d : Directory (Atom ν) (Value ν)) {name other : Text}
    (h : other ≠ name) (v : Value ν) :
    (d.insert (.text name) v).find? (.text other) = d.find? (.text other) := by
  have hput : ∀ l : List (Atom ν × Value ν),
      ((Directory.put (.text name) v l).find? fun e => e.1 == .text other)
        = l.find? fun e => e.1 == .text other := by
    intro l
    induction l with
    | nil =>
        have hne : ((.text name : Atom ν) == .text other) = false := by
          rw [← Bool.not_eq_true, beq_text_iff]
          exact fun heq => h (Atom.text.inj heq).symm
        simp [Directory.put, hne]
    | cons e rest ih =>
        unfold Directory.put
        split
        · rename_i he
          have hne : (e.1 == .text other) = false := by
            rw [← Bool.not_eq_true, beq_text_iff, beq_text_iff.mp he]
            exact fun heq => h (Atom.text.inj heq).symm
          simp [hne]
        · simp only [List.find?_cons, ih]
  unfold Directory.find?
  rw [Directory.entries_insert, hput]

/-- Attributes can be raised by fractions exactly if each of them can. -/
theorem ends_raise_iff {l : List (Text × Amount ν)} (hreal : ∀ e ∈ l, ∃ y, e.2 = .real y)
    (hdistinct : l.Pairwise fun a b => (a.1 == b.1) = false)
    {attributes : Directory (Atom ν) (Value ν)} :
    Ends (l.foldlM (fun attributes e => do
        let value ← ((attributes.find? (.text e.1)).getD (.whole 0)).toAmount
        let sum ← Amount.orTooLarge (value.add? e.2)
        .ok (attributes.insert (.text e.1) (.number sum))) attributes)
      ↔ ∀ e ∈ l, Raisable attributes e.1 := by
  induction l generalizing attributes with
  | nil => simp [pure, Except.pure]
  | cons e rest ih =>
      obtain ⟨hfirst, hrest⟩ := List.pairwise_cons.mp hdistinct
      obtain ⟨y, hy⟩ := hreal e (by simp)
      -- what is raised later has another name
      have hsame : ∀ v, ∀ e' ∈ rest, Raisable (attributes.insert (.text e.1) v) e'.1 ↔
          Raisable attributes e'.1 := by
        intro v e' he'
        unfold Raisable
        rw [find?_insert_text attributes _ v]
        exact fun heq => by simpa [heq] using hfirst e' he'
      rw [List.foldlM_cons, Ends.bind_iff, List.forall_mem_cons]
      constructor
      · rintro ⟨raised, hraised, hothers⟩
        obtain ⟨a, ha, hraised⟩ := except_bind_eq_ok.mp hraised
        obtain ⟨sum, hsum, hraised⟩ := except_bind_eq_ok.mp hraised
        obtain rfl := Except.ok.inj hraised
        refine ⟨⟨a, ha, ?_⟩, fun e' he' => (hsame _ e' he').mp
          ((ih (fun e he => hreal e (by simp [he])) hrest).mp hothers e' he')⟩
        cases hfits : a.toReal? with
        | some x => rfl
        | none =>
            -- an amount that is too large could not have been raised
            cases a with
            | real x => cases hfits
            | whole n =>
                rw [hy] at hsum
                simp only [Amount.toReal?] at hfits
                simp [Amount.add?, Amount.combine, Amount.toReal?, hfits, Amount.orTooLarge] at hsum
      · rintro ⟨⟨a, ha, hfits⟩, hothers⟩
        obtain ⟨x, hx⟩ := Option.isSome_iff_exists.mp hfits
        have hsum : Amount.orTooLarge (a.add? e.2) = .ok (.real (x + y)) := by
          rw [hy]
          cases a with
          | real x' =>
              obtain rfl := Option.some.inj hx
              rfl
          | whole n =>
              simp only [Amount.toReal?] at hx
              simp [Amount.add?, Amount.combine, Amount.toReal?, hx, Amount.orTooLarge]
        refine ⟨_, except_bind_eq_ok.mpr ⟨a, ha, except_bind_eq_ok.mpr ⟨_, hsum, rfl⟩⟩, ?_⟩
        exact (ih (fun e he => hreal e (by simp [he])) hrest).mpr fun e' he' =>
          (hsame _ e' he').mpr (hothers e' he')

/-- **A record can be made exactly if the attributes that are raised can be.** -/
theorem ends_assemble_iff (hzero : (Number.ofInt? 0 : Option ν).isSome = true) :
    Ends (assemble index state).outcome ↔
      ∀ name ∈ raisedNames index state.targetLevel, Raisable state.attributes name := by
  obtain ⟨bonuses, health, hsums, hbonuses⟩ := rewardSums_eq_ok hzero index state.targetLevel
  have hlines : ∀ line ∈ state.inventory.map InventoryLine.saved ++
      entriesOf index.catalog state.selections .inventory, Inventory.Mergeable line := by
    intro line hline
    rcases List.mem_append.mp hline with hline | hline
    · obtain ⟨e, _, rfl⟩ := List.mem_map.mp hline
      exact Inventory.mergeable_line e
    · obtain ⟨x, _, rfl⟩ := List.mem_map.mp hline
      exact Inventory.mergeable_selection x
  have hinventory := Inventory.merge_eq_ok index.catalog hlines
  have hraised : (∀ e ∈ bonuses.entries, Raisable state.attributes e.1) ↔
      ∀ name ∈ raisedNames index state.targetLevel, Raisable state.attributes name := by
    constructor
    · intro h name hname
      obtain ⟨a, ha⟩ := Option.isSome_iff_exists.mp ((hbonuses.found name).mpr hname)
      exact h (name, a) (Directory.mem_of_find? ha)
    · intro h e he
      refine h e.1 ((hbonuses.found e.1).mp ?_)
      rw [Directory.find?_of_mem (v := e.2) he]
      rfl
  rw [← hraised, ← ends_raise_iff (fun e he => hbonuses.real e.1 e.2 (Directory.find?_of_mem he))
    bonuses.distinct]
  unfold assemble
  dsimp only
  rw [Traced.outcome_bind_of_ok (Plan.outcome_forM_note (fun n => n) _),
    Traced.outcome_bind_of_ok hinventory,
    Traced.outcome_bind_of_ok (a := (bonuses, health)) hsums]
  dsimp only
  rw [Traced.outcome_bind]
  show Ends (Except.bind (raisedAttributes state.attributes bonuses) _)
    ↔ Ends (raisedAttributes _ _)
  cases raisedAttributes state.attributes bonuses with
  | error fault => simp [Except.bind]
  | ok attributes => simp [Except.bind]

end Record

end CharacterBuild
