import CharacterBuild.Number.Double
import CharacterBuild.Proofs.Groups

set_option autoImplicit false

/-! # Values that are like themselves

Likeness of values is reflexive, as long as no object names two of its members alike
(`Value.alike_self`): what is not a number equals nothing, but it coincides with its own occurrence.
For numbers of double precision this goes back to how they are compared: of a number that is taken
apart, either the comparison with itself says that it is equal, or the bits say that it is not a
number.
-/

namespace CharacterBuild

/-- Every number equals itself, or is an occurrence of what is not a number and coincides with
itself. -/
class SelfLike (ν : Type) [Number ν] : Prop where
  self_like : ∀ x : ν, Number.compare x x = some .eq ∨ Number.coincide x x = true

/-! ## Numbers of double precision -/

section

open Float.Model

theorem compare_unpacked_self {u : UnpackedFloat} (h : u ≠ .notANumber) :
    u.compare u = some .eq := by
  cases u with
  | notANumber => exact absurd rfl h
  | infinity sign => cases sign <;> rfl
  | zero sign => cases sign <;> rfl
  | finite sign m e hm =>
      have hself : (Ord.compare e e).then (Ord.compare m m) = .eq := by simp
      cases sign with
      | positive => exact congrArg some hself
      | negative => exact congrArg (fun o : Ordering => some o.swap) hself

/-- Bits that unpack to what is not a number have no parts either. -/
theorem Binary.ofBits_eq_nan {bits : UInt64}
    (h : UnpackedFloat.unpack Format.binary64 bits.toBitVec = .notANumber) :
    ofBits bits = nan := by
  by_cases hexponent : @UnpackedFloat.unpackExponent Format.binary64 bits.toBitVec = -1#11
  · have hspecial := (if_pos hexponent).symm.trans h
    by_cases hmantissa : @UnpackedFloat.unpackMantissa Format.binary64 bits.toBitVec = 0#52
    · cases (if_pos hmantissa).symm.trans hspecial
    have hfield := congrArg BitVec.toNat hexponent
    have hfraction : (@UnpackedFloat.unpackMantissa Format.binary64 bits.toBitVec).toNat ≠ 0 :=
      fun hzero => hmantissa (BitVec.eq_of_toNat_eq hzero)
    -- the exponent and the fraction are the same digits of the bits on both sides
    simp [UnpackedFloat.unpackExponent, Nat.shiftRight_eq_div_pow] at hfield
    simp [UnpackedFloat.unpackMantissa] at hfraction
    unfold ofBits twoTo
    simp [hfield, hfraction]
  -- below the largest exponent there are numbers only
  · have hfinite := (if_neg hexponent).symm.trans h
    by_cases hsmall : @UnpackedFloat.unpackExponent Format.binary64 bits.toBitVec = 0#11
    · have hsubnormal := (if_pos hsmall).symm.trans hfinite
      by_cases hmantissa : @UnpackedFloat.unpackMantissa Format.binary64 bits.toBitVec = 0#52
      · cases (dif_pos hmantissa).symm.trans hsubnormal
      · cases (dif_neg hmantissa).symm.trans hsubnormal
    · cases (if_neg hsmall).symm.trans hfinite

/-- Bits without parts unpack to what is not a number. -/
theorem Binary.unpack_eq_notANumber {bits : UInt64} (h : ofBits bits = nan) :
    UnpackedFloat.unpack Format.binary64 bits.toBitVec = .notANumber := by
  by_cases hexponent : @UnpackedFloat.unpackExponent Format.binary64 bits.toBitVec = -1#11
  · by_cases hmantissa : @UnpackedFloat.unpackMantissa Format.binary64 bits.toBitVec = 0#52
    · -- without a fraction this is an infinity
      have hfield := congrArg BitVec.toNat hexponent
      have hfraction := congrArg BitVec.toNat hmantissa
      simp [UnpackedFloat.unpackExponent, Nat.shiftRight_eq_div_pow] at hfield
      simp [UnpackedFloat.unpackMantissa] at hfraction
      unfold ofBits twoTo at h
      simp [hfield, hfraction] at h
    · exact (if_pos hexponent).trans (if_neg hmantissa)
  · have hfield : (@UnpackedFloat.unpackExponent Format.binary64 bits.toBitVec).toNat ≠ 2047 :=
      fun heq => hexponent (BitVec.eq_of_toNat_eq heq)
    simp [UnpackedFloat.unpackExponent, Nat.shiftRight_eq_div_pow] at hfield
    unfold ofBits twoTo at h
    dsimp only at h
    rw [if_neg (by simpa using hfield)] at h
    split at h <;> cases h

/-- Machine numbers are ordered as what they unpack to. -/
theorem Double.order_eq (x y : Double) :
    x.order y = if x.value.toModel.unpack.compare y.value.toModel.unpack = some .lt then some .lt
      else if y.value.toModel.unpack.compare x.value.toModel.unpack = some .lt then some .gt
      else if x.value.toModel.unpack.compare y.value.toModel.unpack = some .eq then some .eq
      else none := by
  have hlt : ∀ a b : Float,
      a < b ↔ a.toModel.unpack.compare b.toModel.unpack = some .lt := fun a b =>
    ⟨fun h => eq_of_beq (of_decide_eq_true h), fun h => decide_eq_true (beq_iff_eq.mpr h)⟩
  have heq : (x.value == y.value) = true ↔
      x.value.toModel.unpack.compare y.value.toModel.unpack = some .eq := by
    show (x.value.toModel.unpack.compare y.value.toModel.unpack == some .eq) = true ↔ _
    exact beq_iff_eq
  simp only [order, hlt, heq]

/-- What is not a number cannot be compared. -/
theorem Double.order_of_nan {x y : Double} (h : x.parts = .nan) : x.order y = none := by
  have hnan : x.value.toModel.unpack = .notANumber := Binary.unpack_eq_notANumber h
  have hleft : x.value.toModel.unpack.compare y.value.toModel.unpack = none := by
    rw [hnan]
    cases y.value.toModel.unpack <;> rfl
  have hright : y.value.toModel.unpack.compare x.value.toModel.unpack = none := by
    rw [hnan]
    cases y.value.toModel.unpack <;> rfl
  rw [order_eq, hleft, hright]
  rfl

end

instance : SelfLike Double where
  self_like := by
    intro x
    show x.order x = some .eq ∨ (x.parts = .nan && x.parts = .nan && x.mark = x.mark) = true
    by_cases hnan : x.value.toModel.unpack = .notANumber
    · have hparts : x.parts = .nan := Binary.ofBits_eq_nan hnan
      exact Or.inr (by simp [hparts])
    · have hself := compare_unpacked_self hnan
      refine Or.inl ?_
      rw [Double.order_eq, hself]
      rfl

/-! ## Values -/

variable {ν : Type}

/-- No object of the value names two of its members alike. -/
inductive Value.NamesDiffer : Value ν → Prop where
  | atom (a : Atom ν) : NamesDiffer (.atom a)
  | list {items : List (Value ν)} (hitems : ∀ v ∈ items, NamesDiffer v) :
      NamesDiffer (.list items)
  | object {ms : Members ν} (hnames : (ms.map Prod.fst).Nodup)
      (hmembers : ∀ m ∈ ms, NamesDiffer m.2) : NamesDiffer (.object ms)

namespace Value

/-- A member of an object whose names differ is found by its name. -/
theorem lookup_of_mem {ms : Members ν} (hnames : (ms.map Prod.fst).Nodup) {m : Text × Value ν}
    (hm : m ∈ ms) : lookup m.1 ms = some m.2 := by
  have hpairwise : ms.Pairwise fun m m' => decide (m.1 = m'.1) = false :=
    (List.pairwise_map.mp hnames).imp decide_eq_false
  unfold lookup
  rw [find?_eq_some_of_pairwise (fun m m' => decide (m.1 = m'.1)) hpairwise hm (by simp)]
  rfl

theorem namesDiffer_memberOrNull {ms : Members ν} (h : (object ms).NamesDiffer) (name : Text) :
    (memberOrNull name ms).NamesDiffer := by
  cases h with
  | object _ hmembers =>
      unfold memberOrNull
      cases hfound : lookup name ms with
      | none => exact .atom .null
      | some v =>
          obtain ⟨m, hm, rfl⟩ := Option.map_eq_some_iff.mp hfound
          exact hmembers m (List.mem_of_find?_eq_some hm)

end Value

variable [Number ν] [SelfLike ν]

theorem Atom.alike_self (a : Atom ν) : a.alike a = true := by
  cases a with
  | null => rfl
  | bool b => simp [Atom.alike, Atom.same, Atom.amount?]
  | text s => simp [Atom.alike, Atom.same]
  | number n =>
      cases n with
      | whole n => simp [Atom.alike, Atom.same, Atom.amount?]
      | real x =>
          rcases SelfLike.self_like x with h | h <;>
            simp [Atom.alike, Atom.same, Atom.amount?, Amount.same, Amount.compare,
              Atom.coincides, Amount.coincides, h]

/-- **A value is like itself**, if no object of it names two of its members alike. -/
theorem Value.alike_self {v : Value ν} (h : v.NamesDiffer) : v.alike v = true := by
  induction h with
  | atom a => exact a.alike_self
  | @list items _ ih =>
      have key : ∀ rest : List (Value ν), rest ⊆ items → alikeItems rest rest = true := by
        intro rest
        induction rest with
        | nil => exact fun _ => rfl
        | cons v rest ihrest =>
            intro hsub
            rw [alikeItems, ih v (hsub (List.mem_cons_self ..)), Bool.true_and]
            exact ihrest fun w hw => hsub (List.mem_cons_of_mem _ hw)
      exact key items (List.Subset.refl _)
  | @object ms hnames _ ih =>
      -- each of the members is found again by its name
      have key : ∀ rest : Members ν, rest ⊆ ms → alikeMembers rest ms = true := by
        intro rest
        induction rest with
        | nil => exact fun _ => rfl
        | cons m rest ihrest =>
            intro hsub
            have hm : m ∈ ms := hsub (List.mem_cons_self ..)
            rw [alikeMembers, lookup_of_mem hnames hm]
            dsimp only
            rw [ih m hm, Bool.true_and]
            exact ihrest fun m' hm' => hsub (List.mem_cons_of_mem _ hm')
      show (decide (ms.length = ms.length) && alikeMembers ms ms) = true
      rw [decide_eq_true rfl, Bool.true_and]
      exact key ms (List.Subset.refl _)

end CharacterBuild
