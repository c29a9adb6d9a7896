import CharacterBuild.Number.Double
import CharacterBuild.Build.Selection
import CharacterBuild.Proofs.Ends
import CharacterBuild.Proofs.Skipping

set_option autoImplicit false

/-! # Numbers beyond all bounds

A malformed entry is skipped, but for one kind of fault: a whole number that is too large for a
number with a fraction, or an infinite number where a whole one is asked for, is let through by all
readers and ends the reading of the whole document. For each reader there is a condition on the data
under which this happens (`Item.Overflows`, `Tier.Overflows`, and so on up to `Catalog.Overflows`);
it says which number is met, and that the reader gets that far. `reading_ends` says that this is all
that keeps a document from being read.
-/

namespace CharacterBuild

variable {ν α β : Type}

/-! ## Overflow -/

/-- A computation ends in the fault of a number beyond all bounds exactly under a condition, and
otherwise in a value or in a fault that is skipped. -/
inductive OverflowsIff : Except (Fault ν) α → Prop → Prop
  | ok {p : Prop} (hp : ¬ p) (a : α) : OverflowsIff (.ok a) p
  | skipped {p : Prop} (hp : ¬ p) {fault : Fault ν} (hs : fault.isSkipped = true) :
      OverflowsIff (.error fault) p
  | outOfRange {p : Prop} (hp : p) : OverflowsIff (.error .outOfRange) p

/-- A computation ends in a value, unless a condition makes it end in the fault of a number beyond
all bounds. -/
inductive EndsUnless : Except (Fault ν) α → Prop → Prop
  | ok {p : Prop} (hp : ¬ p) (a : α) : EndsUnless (.ok a) p
  | outOfRange {p : Prop} (hp : p) : EndsUnless (.error .outOfRange) p

namespace OverflowsIff

variable {x : Except (Fault ν) α} {p q : Prop}

theorem congr (h : OverflowsIff x p) (hpq : p ↔ q) : OverflowsIff x q := by
  rwa [← hpq]

/-- The second step may overflow once the first one has ended in a value. -/
theorem bind {f : α → Except (Fault ν) β} {r : α → Prop} (hx : OverflowsIff x p)
    (hf : ∀ a, x = .ok a → OverflowsIff (f a) (r a)) :
    OverflowsIff (x.bind f) (p ∨ ∃ a, x = .ok a ∧ r a) := by
  cases hx with
  | ok hp a => exact (hf a rfl).congr (by simp [hp])
  | skipped hp hs => exact .skipped (by simp [hp]) hs
  | outOfRange hp => exact .outOfRange (Or.inl hp)

/-- The second step is the same in this respect whatever comes of the first one. -/
theorem andThen {f : α → Except (Fault ν) β} (hx : OverflowsIff x p)
    (hf : ∀ a, OverflowsIff (f a) q) : OverflowsIff (x.bind f) (p ∨ Ends x ∧ q) :=
  (hx.bind fun a _ => hf a).congr (by simp [Ends])

theorem last (hx : OverflowsIff x p) (f : α → β) : OverflowsIff (x.bind fun a => .ok (f a)) p :=
  (hx.andThen (q := False) fun a => .ok not_false (f a)).congr (by simp)

theorem map (h : OverflowsIff x p) (f : α → β) : OverflowsIff (x.map f) p := by
  cases h with
  | ok hp a => exact .ok hp (f a)
  | skipped hp hs => exact .skipped hp hs
  | outOfRange hp => exact .outOfRange hp

/-- Going through a list overflows at the first element that is not read. -/
theorem mapM {f : α → Except (Fault ν) β} {r : α → Prop} (hf : ∀ a, OverflowsIff (f a) (r a))
    (l : List α) : OverflowsIff (l.mapM f)
      (∃ before a after, l = before ++ a :: after ∧ (∀ b ∈ before, Ends (f b)) ∧ r a) := by
  induction l with
  | nil => exact .ok (by simp) []
  | cons a rest ih =>
      rw [List.mapM_cons]
      refine ((hf a).andThen fun b => ih.last (b :: ·)).congr ⟨?_, ?_⟩
      · rintro (ha | ⟨hb, before, a', after, hrest, hbefore, ha'⟩)
        · exact ⟨[], a, rest, rfl, nofun, ha⟩
        · refine ⟨a :: before, a', after, by rw [hrest]; rfl, ?_, ha'⟩
          exact List.forall_mem_cons.mpr ⟨hb, hbefore⟩
      · rintro ⟨before, a', after, h, hbefore, ha'⟩
        cases before with
        | nil =>
            obtain ⟨rfl, _⟩ := List.cons.inj h
            exact Or.inl ha'
        | cons b before =>
            obtain ⟨rfl, hrest⟩ := List.cons.inj h
            obtain ⟨hb, hbefore⟩ := List.forall_mem_cons.mp hbefore
            exact Or.inr ⟨hb, before, a', after, hrest, hbefore, ha'⟩

end OverflowsIff

namespace EndsUnless

variable {x : Except (Fault ν) α} {p q : Prop}

theorem congr (h : EndsUnless x p) (hpq : p ↔ q) : EndsUnless x q := by
  rwa [← hpq]

theorem overflowsIff (h : EndsUnless x p) : OverflowsIff x p := by
  cases h with
  | ok hp a => exact .ok hp a
  | outOfRange hp => exact .outOfRange hp

theorem bind {f : α → Except (Fault ν) β} (hx : EndsUnless x p)
    (hf : ∀ a, EndsUnless (f a) q) : EndsUnless (x.bind f) (p ∨ q) := by
  cases hx with
  | ok hp a => exact (hf a).congr (by simp [hp])
  | outOfRange hp => exact .outOfRange (Or.inl hp)

theorem map (h : EndsUnless x p) (f : α → β) : EndsUnless (x.map f) p := by
  cases h with
  | ok hp a => exact .ok hp (f a)
  | outOfRange hp => exact .outOfRange hp

theorem orThen {f : α → Except (Fault ν) β} (hx : EndsUnless x p)
    (hf : ∀ a, OverflowsIff (f a) q) : OverflowsIff (x.bind f) (p ∨ q) := by
  cases hx with
  | ok hp a => exact (hf a).congr (by simp [hp])
  | outOfRange hp => exact .outOfRange (Or.inl hp)

theorem mapM {f : α → Except (Fault ν) β} {r : α → Prop} (hf : ∀ a, EndsUnless (f a) (r a))
    (l : List α) : EndsUnless (l.mapM f) (∃ a ∈ l, r a) := by
  induction l with
  | nil => exact .ok (by simp) []
  | cons a rest ih =>
      rw [List.mapM_cons]
      exact ((hf a).bind fun b => ih.map (b :: ·)).congr (by simp)

/-- **A list is read to its end unless one of its entries overflows.** -/
theorem keepRead {read : α → Except (Fault ν) β} {r : α → Prop}
    (h : ∀ a, OverflowsIff (read a) (r a)) (l : List α) :
    EndsUnless (keepRead (l.map read)) (∃ a ∈ l, r a) := by
  induction l with
  | nil => exact .ok (by simp) []
  | cons a rest ih =>
      have ha := h a
      rw [List.map_cons]
      generalize read a = x at ha
      cases ha with
      | ok hnot b => exact (ih.map (b :: ·)).congr (by simp [hnot])
      | skipped hnot hs =>
          rw [keepRead_skipped hs]
          exact ih.congr (by simp [hnot])
      | outOfRange hr => exact .outOfRange ⟨a, List.mem_cons_self, hr⟩

/-- What cannot be read is left out, unless it overflows. -/
theorem orSkip (h : OverflowsIff x p) (build : α → β) (skipped : Fault ν → Note ν)
    (instead : β) : EndsUnless (((build <$> Traced.lift x).orSkip fun fault => do
      Traced.note (skipped fault)
      pure instead).outcome) p := by
  have hstep := Traced.outcome_orSkip_bind (build <$> Traced.lift x) skipped instead pure
  rw [bind_pure, Traced.outcome_map, Traced.outcome_lift] at hstep
  rw [hstep]
  cases h with
  | ok hp a => exact .ok hp (build a)
  | skipped hp hs =>
      dsimp only [Except.map]
      rw [if_pos hs]
      exact .ok hp instead
  | outOfRange hp => exact .outOfRange hp

end EndsUnless

/-! ## Values -/

namespace Value

theorem overflowsIff_member (name : Text) (v : Value ν) : OverflowsIff (v.member name) False := by
  cases v with
  | object ms =>
      unfold member
      dsimp only
      split
      · exact .ok not_false _
      · exact .skipped not_false rfl
  | list items => exact .skipped not_false rfl
  | atom a => exact .skipped not_false rfl

theorem overflowsIff_word (table : List (Text × α)) (v : Value ν) :
    OverflowsIff (v.word table) False := by
  unfold word
  split
  · exact .ok not_false _
  · exact .skipped not_false rfl

theorem overflowsIff_elements (v : Value ν) : OverflowsIff v.elements False := by
  unfold elements
  split
  · exact .ok not_false _
  · exact .ok not_false _
  · exact .ok not_false _
  · exact .skipped not_false rfl

variable [Number ν]

theorem overflowsIff_elementsOf (name : Text) (ms : Members ν) :
    OverflowsIff (elementsOf name ms) False :=
  overflowsIff_elements _

/-- A whole number that is too large for a number with a fraction. -/
def IsHuge (v : Value ν) : Prop :=
  ∃ n, (Number.ofInt? n : Option ν) = none ∧ (v = .whole n ∨ ∃ b, v = .bool b ∧ ofBool b = n)

/-- A number that has no whole part, since it is infinite. -/
def IsInfinite (v : Value ν) : Prop := ∃ x, v = .real x ∧ Number.truncate x = .infinite

theorem endsUnless_ofInt? (n : Int) :
    EndsUnless (match (Number.ofInt? n : Option ν) with
      | some x => .ok x
      | none => .error .outOfRange : Except (Fault ν) ν) ((Number.ofInt? n : Option ν) = none) := by
  cases (Number.ofInt? n : Option ν) with
  | some x => exact .ok (by simp) x
  | none => exact .outOfRange rfl

/-- A number always stands for one with a fraction, unless it is too large. -/
theorem endsUnless_toReal_number (a : Amount ν) :
    EndsUnless (number a).toReal (number a).IsHuge := by
  cases a with
  | real x => exact .ok (by simp [IsHuge]) x
  | whole n => exact (endsUnless_ofInt? n).congr (by simp [IsHuge])

theorem overflowsIff_toReal (v : Value ν) : OverflowsIff v.toReal v.IsHuge := by
  cases v with
  | atom a =>
      cases a with
      | null => exact .skipped (by simp [IsHuge]) rfl
      | bool b => exact (endsUnless_ofInt? (ofBool b)).overflowsIff.congr (by simp [IsHuge])
      | number a => exact (endsUnless_toReal_number a).overflowsIff
      | text s =>
          unfold toReal
          dsimp only
          split
          · exact .ok (by simp [IsHuge]) _
          · exact .skipped (by simp [IsHuge]) rfl
  | list items => exact .skipped (by simp [IsHuge]) rfl
  | object ms => exact .skipped (by simp [IsHuge]) rfl

theorem overflowsIff_toWhole (v : Value ν) : OverflowsIff v.toWhole v.IsInfinite := by
  cases v with
  | atom a =>
      cases a with
      | null => exact .skipped (by simp [IsInfinite]) rfl
      | bool b => exact .ok (by simp [IsInfinite]) _
      | number a =>
          cases a with
          | whole n => exact .ok (by simp [IsInfinite]) n
          | real x =>
              unfold toWhole
              dsimp only
              cases h : Number.truncate x with
              | whole n => exact .ok (by simp [IsInfinite, h]) n
              | infinite => exact .outOfRange ⟨x, rfl, h⟩
              | nan => exact .skipped (by simp [IsInfinite, h]) rfl
      | text s =>
          unfold toWhole
          dsimp only
          split
          · exact .ok (by simp [IsInfinite]) _
          · exact .skipped (by simp [IsInfinite]) rfl
  | list items => exact .skipped (by simp [IsInfinite]) rfl
  | object ms => exact .skipped (by simp [IsInfinite]) rfl

theorem overflowsIff_toWhole? (v : Value ν) : OverflowsIff v.toWhole? v.IsInfinite := by
  unfold toWhole?
  split
  · exact .ok (by simp [IsInfinite]) none
  · exact .ok (by simp [IsInfinite]) none
  · exact v.overflowsIff_toWhole.map some

end Value

/-! ## Items -/

section

variable [Number ν]

theorem NestedOption.overflowsIff_read (v : Value ν) :
    OverflowsIff (NestedOption.read v) False := by
  cases v with
  | object ms => exact (Value.overflowsIff_member "id" (.object ms)).last _
  | list items => exact .ok not_false _
  | atom a => exact .ok not_false _

namespace Item

/-- A number under a name of its own, too large for the cost that it stands for. -/
def IsHugeCost (m : Text × Value ν) : Prop :=
  m.1 ∉ memberNames ∧ (∃ a : Amount ν, m.2 = .number a) ∧ m.2.IsHuge

theorem endsUnless_readProperty (m : Text × Value ν) :
    EndsUnless (readProperty m) (IsHugeCost m) := by
  obtain ⟨name, v⟩ := m
  unfold readProperty IsHugeCost
  dsimp only
  split
  · rename_i a
    by_cases hname : name ∈ memberNames
    · rw [if_pos (List.contains_iff_mem.mpr hname)]
      exact .ok (fun h => h.1 hname) none
    · rw [if_neg (fun h => hname (List.contains_iff_mem.mp h))]
      exact ((Value.endsUnless_toReal_number a).map _).congr (by simp [hname])
  · rename_i hnot
    exact .ok (fun ⟨_, ⟨a, ha⟩, _⟩ => hnot a ha) none

/-- The options of an item can be read, so that its reader gets to the numbers. -/
def OptionsRead (ms : Members ν) : Prop :=
  ∃ raws, Value.elementsOf "options" ms = .ok raws ∧ ∀ v ∈ raws, Ends (NestedOption.read v)

/-- Where an item has a number beyond all bounds. -/
inductive Overflows (ms : Members ν) : Prop
  | cost (options : OptionsRead ms) (m : Text × Value ν) (listed : m ∈ ms) (huge : IsHugeCost m)
  | weight (options : OptionsRead ms)
      (huge : ((Value.memberOrNull "weight" ms).orElse (.whole 0)).IsHuge)
  | limit (options : OptionsRead ms) (weight : Ends (Value.realOf "weight" ms))
      (infinite : (Value.memberOrNull "maxChoices" ms).IsInfinite)

theorem overflowsIff_read (id : Text) (ms : Members ν) :
    OverflowsIff (Item.read id (.object ms)) (Overflows ms) := by
  unfold Item.read
  -- no cost is skipped, so a huge one overflows wherever it stands among the members
  refine ((Value.overflowsIff_elementsOf "options" ms).bind fun raws _ =>
    (OverflowsIff.mapM NestedOption.overflowsIff_read raws).andThen fun options =>
    (EndsUnless.mapM endsUnless_readProperty ms).orThen fun properties =>
    (Value.overflowsIff_toReal _).andThen fun weight =>
    (Value.overflowsIff_toWhole? _).last _).congr ?_
  simp only [and_false, exists_false, false_or, Ends.mapM_iff]
  constructor
  · rintro ⟨raws, hraws, hoptions, ⟨m, hm, hhuge⟩ | hweight | ⟨hweight, hlimit⟩⟩
    · exact .cost ⟨raws, hraws, hoptions⟩ m hm hhuge
    · exact .weight ⟨raws, hraws, hoptions⟩ hweight
    · exact .limit ⟨raws, hraws, hoptions⟩ hweight hlimit
  · rintro (⟨⟨raws, hraws, hoptions⟩, m, hm, hhuge⟩ | ⟨⟨raws, hraws, hoptions⟩, hweight⟩ |
      ⟨⟨raws, hraws, hoptions⟩, hweight, hlimit⟩)
    · exact ⟨raws, hraws, hoptions, Or.inl ⟨m, hm, hhuge⟩⟩
    · exact ⟨raws, hraws, hoptions, Or.inr (Or.inl hweight)⟩
    · exact ⟨raws, hraws, hoptions, Or.inr (Or.inr ⟨hweight, hlimit⟩)⟩

end Item

/-! ## Unlocks -/

namespace Grant

/-- The attributes that a reward names. -/
def attributesOf (raw : Value ν) : Members ν :=
  (Value.memberOrNull "attributes" raw.asPart).asPart

/-- Where a reward has a number beyond all bounds. -/
inductive Overflows (raw : Value ν) : Prop
  | attribute (before : Members ν) (m : Text × Value ν) (after : Members ν)
      (listed : attributesOf raw = before ++ m :: after)
      (readable : ∀ b ∈ before, Ends b.2.toReal) (huge : m.2.IsHuge)
  | health (readable : ∀ m ∈ attributesOf raw, Ends m.2.toReal)
      (huge : ((Value.memberOrNull "health" raw.asPart).orElse (.whole 0)).IsHuge)

theorem overflowsIff_read (raw : Value ν) :
    OverflowsIff (Grant.read raw).outcome (Overflows raw) := by
  unfold Grant.read
  simp only [Traced.outcome_bind, Value.outcome_partMembers, Traced.outcome_lift,
    Traced.outcome_pure]
  -- an attribute before the huge one that cannot be read has the reward skipped instead
  refine ((OverflowsIff.mapM (r := fun m => m.2.IsHuge)
    (fun m => (Value.overflowsIff_toReal m.2).map _) _).andThen fun attributes =>
    (Value.overflowsIff_toReal _).last _).congr ?_
  simp only [Ends.mapM_iff, Ends.map_iff, readAttribute]
  constructor
  · rintro (⟨before, m, after, hlisted, hbefore, hhuge⟩ | ⟨hreadable, hhuge⟩)
    · exact .attribute before m after hlisted hbefore hhuge
    · exact .health hreadable hhuge
  · rintro (⟨before, m, after, hlisted, hbefore, hhuge⟩ | ⟨hreadable, hhuge⟩)
    · exact Or.inl ⟨before, m, after, hlisted, hbefore, hhuge⟩
    · exact Or.inr ⟨hreadable, hhuge⟩

end Grant

/-- Where a group of a point pool has a number beyond all bounds. -/
inductive PointGroup.Overflows : Value ν → Prop
  | limit {ms : Members ν} (id : Ends ((Value.object ms).member "id"))
      (effect : Ends (((Value.lookup "pointModifier" ms).getD
        (.text PoolEffect.spend.name)).word PoolEffect.words))
      (infinite : (Value.memberOrNull "maxChoices" ms).IsInfinite) : Overflows (.object ms)

theorem PointGroup.overflowsIff_read (raw : Value ν) :
    OverflowsIff (PointGroup.read raw) (PointGroup.Overflows raw) := by
  cases raw with
  | object ms =>
      unfold PointGroup.read
      refine ((Value.overflowsIff_member "id" (.object ms)).andThen fun id =>
        (Value.overflowsIff_word _ _).andThen fun effect =>
        (Value.overflowsIff_toWhole? _).last _).congr ?_
      simp only [false_or]
      constructor
      · rintro ⟨hid, heffect, hlimit⟩
        exact .limit hid heffect hlimit
      · rintro ⟨hid, heffect, hlimit⟩
        exact ⟨hid, heffect, hlimit⟩
  | list items => exact .skipped nofun rfl
  | atom a => exact .skipped nofun rfl

/-- Where a point pool has a number beyond all bounds. -/
inductive PointBuy.Overflows (ms : Members ν) : Prop
  | initial (huge : ((Value.memberOrNull "initialValue"
      (Value.memberOrNull "pointPool" ms).asPart).orElse (.whole 0)).IsHuge)
  | group (initial : Ends (Value.realOf "initialValue" (Value.memberOrNull "pointPool" ms).asPart))
      (raws : List (Value ν)) (listed : Value.elementsOf "groups" ms = .ok raws)
      (raw : Value ν) (mem : raw ∈ raws) (overflows : PointGroup.Overflows raw)

theorem PointBuy.overflowsIff_read (id name : Text) (ms : Members ν) :
    OverflowsIff (PointBuy.read id name ms).outcome (PointBuy.Overflows ms) := by
  unfold PointBuy.read
  simp only [Traced.outcome_bind, Value.outcome_partMembers, Traced.outcome_lift,
    Traced.outcome_readEach, Traced.outcome_pure]
  refine ((Value.overflowsIff_toReal _).andThen fun initial =>
    (Value.overflowsIff_elementsOf "groups" ms).bind fun raws _ =>
    (EndsUnless.keepRead PointGroup.overflowsIff_read raws).overflowsIff.last _).congr ?_
  simp only [false_or]
  constructor
  · rintro (hhuge | ⟨hinitial, raws, hraws, raw, hraw, hover⟩)
    · exact .initial hhuge
    · exact .group hinitial raws hraws raw hraw hover
  · rintro (hhuge | ⟨hinitial, raws, hraws, raw, hraw, hover⟩)
    · exact Or.inl hhuge
    · exact Or.inr ⟨hinitial, raws, hraws, raw, hraw, hover⟩

namespace Unlock

/-- Where an unlock of a kind has a number beyond all bounds. -/
def KindOverflows (ms : Members ν) : Kind → Prop
  | .reward => Grant.Overflows (Value.memberOrNull "rewards" ms)
  | .choice => (Value.memberOrNull "maxChoices" ms).IsInfinite
  | .pointBuy => PointBuy.Overflows ms

/-- Where an unlock has a number beyond all bounds. -/
inductive Overflows : Value ν → Prop
  | ofKind {ms : Members ν} (kind : Kind)
      (type : ((Value.object ms).member "type").bind (Value.word kindWords) = .ok kind)
      (id : Ends ((Value.object ms).member "id")) (overflows : KindOverflows ms kind) :
      Overflows (.object ms)

/-- The rest of an unlock overflows as an unlock of its kind does. -/
theorem overflowsIff_of_kind (id name : Text) (ms : Members ν) (kind : Kind) :
    OverflowsIff (match kind with
      | .reward => do
        let grant ← Grant.read (Value.memberOrNull "rewards" ms)
        pure (.reward ⟨id, name, grant⟩)
      | .choice => .choice <$> Traced.lift (Choice.read id name ms)
      | .pointBuy => .pointBuy <$> PointBuy.read id name ms : Traced ν (Unlock ν)).outcome
      (KindOverflows ms kind) := by
  cases kind with
  | reward =>
      dsimp only
      rw [Traced.outcome_bind]
      exact (Grant.overflowsIff_read _).last _
  | choice =>
      dsimp only
      rw [Traced.outcome_map]
      exact ((Value.overflowsIff_toWhole? _).last _).map _
  | pointBuy =>
      dsimp only
      rw [Traced.outcome_map]
      exact (PointBuy.overflowsIff_read id name ms).map _

theorem overflowsIff_read (raw : Value ν) :
    OverflowsIff (Unlock.read raw).outcome (Overflows raw) := by
  cases raw with
  | object ms =>
      unfold Unlock.read
      simp only [Traced.outcome_bind, Traced.outcome_lift]
      refine (((Value.overflowsIff_member "type" (.object ms)).andThen fun type =>
        type.overflowsIff_word kindWords).bind fun kind _ =>
        (Value.overflowsIff_member "id" (.object ms)).andThen fun id =>
        overflowsIff_of_kind id.str _ ms kind).congr ?_
      simp only [false_or, and_false]
      constructor
      · rintro ⟨kind, htype, hid, hover⟩
        exact .ofKind kind htype hid hover
      · rintro ⟨kind, htype, hid, hover⟩
        exact ⟨kind, htype, hid, hover⟩
  | list items => exact .skipped nofun rfl
  | atom a => exact .skipped nofun rfl

end Unlock

/-! ## Sources -/

/-- Where a tier has a number beyond all bounds. -/
inductive Tier.Overflows : Value ν → Prop
  | level {ms : Members ν} (v : Value ν) (found : (Value.object ms).member "level" = .ok v)
      (infinite : v.IsInfinite) : Overflows (.object ms)
  | bonus {ms : Members ν} (level : Ends (((Value.object ms).member "level").bind Value.toWhole))
      (given : (Value.memberOrNull "rewards" ms).isTrue = true)
      (overflows : Grant.Overflows (Value.memberOrNull "rewards" ms)) : Overflows (.object ms)
  | unlock {ms : Members ν} (level : Ends (((Value.object ms).member "level").bind Value.toWhole))
      (bonus : (Value.memberOrNull "rewards" ms).isTrue = true →
        Ends (Grant.read (Value.memberOrNull "rewards" ms)).outcome)
      (raws : List (Value ν)) (listed : Value.elementsOf "unlocks" ms = .ok raws)
      (raw : Value ν) (mem : raw ∈ raws) (overflows : Unlock.Overflows raw) :
      Overflows (.object ms)

namespace Tier

theorem overflowsIff_readBonus (source : Text) (level : Int) (ms : Members ν) :
    OverflowsIff (readBonus source level ms).outcome
      ((Value.memberOrNull "rewards" ms).isTrue = true ∧
        Grant.Overflows (Value.memberOrNull "rewards" ms)) := by
  unfold readBonus
  dsimp only
  by_cases hgiven : (Value.memberOrNull "rewards" ms).isTrue = true
  · rw [if_pos hgiven, Traced.outcome_bind]
    exact ((Grant.overflowsIff_read _).last _).congr (by simp [hgiven])
  · rw [if_neg hgiven]
    exact .ok (by simp [hgiven]) _

theorem ends_readBonus (source : Text) (level : Int) (ms : Members ν) :
    Ends (readBonus source level ms).outcome ↔
      ((Value.memberOrNull "rewards" ms).isTrue = true →
        Ends (Grant.read (Value.memberOrNull "rewards" ms)).outcome) := by
  unfold readBonus
  dsimp only
  by_cases hgiven : (Value.memberOrNull "rewards" ms).isTrue = true
  · rw [if_pos hgiven, ← map_eq_pure_bind, Traced.outcome_map]
    simp [hgiven]
  · rw [if_neg hgiven]
    simp [hgiven]

theorem overflowsIff_read (source : Text) (raw : Value ν) :
    OverflowsIff (Tier.read source raw).outcome (Overflows raw) := by
  cases raw with
  | object ms =>
      unfold Tier.read
      simp only [Traced.outcome_bind, Traced.outcome_lift, Traced.outcome_readEach,
        Traced.outcome_pure]
      refine (((Value.overflowsIff_member "level" (.object ms)).bind fun v _ =>
        v.overflowsIff_toWhole).bind fun level _ =>
        (overflowsIff_readBonus source level ms).andThen fun bonus =>
        (Value.overflowsIff_elementsOf "unlocks" ms).bind fun raws _ =>
        (EndsUnless.keepRead Unlock.overflowsIff_read raws).overflowsIff.last _).congr ?_
      simp only [false_or, ends_readBonus]
      constructor
      · rintro (⟨v, hv, hinfinite⟩ | ⟨level, hlevel, ⟨hgiven, hover⟩ |
          ⟨hbonus, raws, hraws, raw, hraw, hover⟩⟩)
        · exact .level v hv hinfinite
        · exact .bonus ⟨level, hlevel⟩ hgiven hover
        · exact .unlock ⟨level, hlevel⟩ hbonus raws hraws raw hraw hover
      · rintro (⟨v, hv, hinfinite⟩ | ⟨⟨level, hlevel⟩, hgiven, hover⟩ |
          ⟨⟨level, hlevel⟩, hbonus, raws, hraws, raw, hraw, hover⟩)
        · exact Or.inl ⟨v, hv, hinfinite⟩
        · exact Or.inr ⟨level, hlevel, Or.inl ⟨hgiven, hover⟩⟩
        · exact Or.inr ⟨level, hlevel, Or.inr ⟨hbonus, raws, hraws, raw, hraw, hover⟩⟩
  | list items => exact .skipped nofun rfl
  | atom a => exact .skipped nofun rfl

end Tier

/-- Where a source has a number beyond all bounds. -/
inductive Source.Overflows (ms : Members ν) : Prop
  | tier (origin : Ends (((Value.lookup "origin" ms).getD (.text Origin.primary.name)).word
        Origin.words))
      (raws : List (Value ν)) (listed : Value.elementsOf "levels" ms = .ok raws)
      (raw : Value ν) (mem : raw ∈ raws) (overflows : Tier.Overflows raw)

theorem Source.overflowsIff_read (name : Text) (ms : Members ν) :
    OverflowsIff (Source.read name (.object ms)).outcome (Source.Overflows ms) := by
  have hpolicy : ∀ v : Value ν, OverflowsIff (if v.isTrue then
      (v.word RepeatPolicy.words).map some else .ok none) False := by
    intro v
    split
    · exact (v.overflowsIff_word _).map some
    · exact .ok not_false none
  unfold Source.read
  simp only [Traced.outcome_bind, Traced.outcome_lift, Traced.outcome_readEach,
    Traced.outcome_pure]
  refine ((Value.overflowsIff_word _ _).andThen fun origin =>
    (Value.overflowsIff_elementsOf "levels" ms).bind fun raws _ =>
    (EndsUnless.keepRead (Tier.overflowsIff_read name) raws).overflowsIff.andThen fun tiers =>
    (hpolicy _).last _).congr ?_
  simp only [false_or, and_false, or_false]
  constructor
  · rintro ⟨horigin, raws, hraws, raw, hraw, hover⟩
    exact .tier horigin raws hraws raw hraw hover
  · rintro ⟨horigin, raws, hraws, raw, hraw, hover⟩
    exact ⟨horigin, raws, hraws, raw, hraw, hover⟩

/-! ## Documents -/

theorem Item.overflowsIff_readMember (m : Text × Value ν) :
    OverflowsIff (Item.readMember m) (∃ ms, m.2 = .object ms ∧ Item.Overflows ms) := by
  obtain ⟨id, v⟩ := m
  cases v with
  | object ms => exact (Item.overflowsIff_read id ms).congr (by simp)
  | list items => exact .skipped (by simp) rfl
  | atom a => exact .skipped (by simp) rfl

theorem Source.overflowsIff_readMember (m : Text × Value ν) :
    OverflowsIff (Source.readMember m) (∃ ms, m.2 = .object ms ∧ Source.Overflows ms) := by
  obtain ⟨name, v⟩ := m
  cases v with
  | object ms => exact (Source.overflowsIff_read name ms).congr (by simp)
  | list items => exact .skipped (by simp) rfl
  | atom a => exact .skipped (by simp) rfl

/-- Where a document has a number beyond all bounds. -/
inductive Catalog.Overflows (ms : Members ν) : Prop
  | source (name : Text) (source : Members ν)
      (listed : (name, .object source) ∈ (Value.memberOrNull "sources" ms).asPart)
      (overflows : Source.Overflows source)
  | item (id : Text) (item : Members ν)
      (listed : (id, .object item) ∈ (Value.memberOrNull "items" ms).asPart)
      (overflows : Item.Overflows item)

theorem Catalog.endsUnless_read (ms : Members ν) :
    EndsUnless (Catalog.read (.object ms)).outcome (Catalog.Overflows ms) := by
  rw [Catalog.outcome_read]
  refine ((EndsUnless.keepRead Source.overflowsIff_readMember _).bind fun sources =>
    (EndsUnless.keepRead Item.overflowsIff_readMember _).bind (q := False)
      fun items => .ok not_false _).congr ?_
  simp only [or_false]
  constructor
  · rintro (⟨⟨name, _⟩, hm, source, rfl, hover⟩ | ⟨⟨id, _⟩, hm, item, rfl, hover⟩)
    · exact .source name source hm hover
    · exact .item id item hm hover
  · rintro (⟨name, source, hm, hover⟩ | ⟨id, item, hm, hover⟩)
    · exact Or.inl ⟨(name, .object source), hm, source, rfl, hover⟩
    · exact Or.inr ⟨(id, .object item), hm, item, rfl, hover⟩

/-! ## Saved builds -/

/-- Where a saved selection has a number beyond all bounds. -/
inductive Selection.Overflows : Value ν → Prop
  | quantity {ms : Members ν} (id : Ends ((Value.object ms).member "id"))
      (source : Ends ((Value.object ms).member "source"))
      (infinite : (Value.memberOrNull "quantity" ms).IsInfinite) : Overflows (.object ms)

theorem Selection.endsUnless_read (catalog : Catalog ν) (raw : Value ν) :
    EndsUnless (Selection.read catalog raw).outcome (Selection.Overflows raw) := by
  cases raw with
  | object ms =>
      unfold Selection.read
      cases hid : (Value.object ms).member "id" with
      | error fault =>
          refine .ok ?_ none
          rintro ⟨⟨id, h⟩, _, _⟩
          rw [hid] at h
          cases h
      | ok id =>
          cases hsource : (Value.object ms).member "source" with
          | error fault =>
              refine .ok ?_ none
              rintro ⟨_, ⟨source, h⟩, _⟩
              rw [hsource] at h
              cases h
          | ok source =>
              have hiff : (Value.memberOrNull "quantity" ms).IsInfinite ↔ Overflows (.object ms) :=
                ⟨fun h => .quantity ⟨id, hid⟩ ⟨source, hsource⟩ h, fun ⟨_, _, h⟩ => h⟩
              dsimp only [bind, Except.bind, Value.members]
              -- the source only decides under which key the selection is entered
              cases catalog.source? source.str with
              | none =>
                  exact (EndsUnless.orSkip (Value.overflowsIff_toWhole? _) _ _ none).congr hiff
              | some definition =>
                  exact (EndsUnless.orSkip (Value.overflowsIff_toWhole? _) _ _ none).congr hiff
  | list items => exact .ok nofun none
  | atom a => exact .ok nofun none

/-- Where a saved line of the inventory has a number beyond all bounds. -/
inductive InventoryLine.Overflows : Value ν → Prop
  | quantity {ms : Members ν} (id : (Value.lookup "id" ms).isSome = true)
      (infinite : ((Value.memberOrNull "quantity" ms).orElse (.whole 1)).IsInfinite) :
      Overflows (.object ms)

theorem InventoryLine.endsUnless_read (raw : Value ν) :
    EndsUnless (InventoryLine.read raw).outcome (InventoryLine.Overflows raw) := by
  cases raw with
  | object ms =>
      unfold InventoryLine.read
      dsimp only
      cases hid : Value.lookup "id" ms with
      | none =>
          refine .ok ?_ none
          rintro ⟨h, _⟩
          rw [hid] at h
          cases h
      | some id =>
          exact (EndsUnless.orSkip (Value.overflowsIff_toWhole _) _ _ none).congr
            ⟨fun h => .quantity (by rw [hid]; rfl) h, fun ⟨_, h⟩ => h⟩
  | list items => exact .ok nofun none
  | atom a => exact .ok nofun none

end

end CharacterBuild
