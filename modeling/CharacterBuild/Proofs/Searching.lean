import CharacterBuild.Sorting.Search

set_option autoImplicit false

/-! # What is counted at the front of a list

If no element with a property comes after one without it, both ways of counting the front find all
elements with the property and no other one (`Sorting.parted_countByHalving`,
`Sorting.parted_countByStrides`), wherever they look.
-/

namespace CharacterBuild.Sorting

/-! ## Places -/

/-- Up to `stop`, no place from `start` on has the property after one without it. -/
def Leads (has : Nat → Bool) (start stop : Nat) : Prop :=
  ∀ i j, start ≤ i → i ≤ j → j < stop → has j = true → has i = true

/-- The places from `start` up to `stop` that have the property are those before `k`. -/
structure Parts (has : Nat → Bool) (start stop k : Nat) : Prop where
  start_le : start ≤ k
  le_stop : k ≤ stop
  before : ∀ i, start ≤ i → i < k → has i = true
  after : ∀ i, k ≤ i → i < stop → has i = false

theorem Leads.mono {has : Nat → Bool} {start stop start' stop' : Nat} (h : Leads has start stop)
    (hstart : start ≤ start') (hstop : stop' ≤ stop) : Leads has start' stop' :=
  fun i j hi hij hj => h i j (by omega) hij (by omega)

/-- Of no places at all there is nothing to tell apart. -/
theorem Parts.none (has : Nat → Bool) (start : Nat) : Parts has start (start + 0) start :=
  ⟨Nat.le_refl _, Nat.le_refl _, fun _ hi hlt => absurd hi (Nat.not_le_of_lt hlt),
    fun _ hi hlt => absurd hi (Nat.not_le_of_lt hlt)⟩

theorem Middle.place_lt (middle : Middle) {size : Nat} (h : size ≠ 0) :
    middle.place size < size := by
  cases middle with
  | lower => simp only [place]; omega
  | upper => simp only [place]; omega

theorem parts_bisect (middle : Middle) {has : Nat → Bool} {fuel start size : Nat}
    (hfuel : size ≤ fuel) (h : Leads has start (start + size)) :
    Parts has start (start + size) (bisect middle has fuel start size) := by
  induction fuel generalizing start size with
  | zero =>
      obtain rfl : size = 0 := by omega
      exact .none has start
  | succ fuel ih =>
      unfold bisect
      by_cases hsize : size = 0
      · rw [if_pos hsize, hsize]
        exact .none has start
      rw [if_neg hsize]
      have hlt := middle.place_lt hsize
      generalize middle.place size = k at hlt
      dsimp only
      by_cases hk : has (start + k) = true
      · -- all places up to the middle have the property
        rw [if_pos hk]
        have hstop : start + k + 1 + (size - k - 1) = start + size := by omega
        have hleads : Leads has (start + k + 1) (start + k + 1 + (size - k - 1)) :=
          h.mono (by omega) (by omega)
        have hrest := ih (by omega) hleads
        rw [hstop] at hrest
        refine ⟨by have := hrest.start_le; omega, hrest.le_stop, fun i hi hik => ?_, hrest.after⟩
        by_cases hle : i ≤ start + k
        · exact h i (start + k) hi hle (by omega) hk
        · exact hrest.before i (by omega) hik
      · -- no place from the middle on has it
        rw [if_neg hk]
        have hleads : Leads has start (start + k) := h.mono (by omega) (by omega)
        have hrest := ih (by omega) hleads
        refine ⟨hrest.start_le, by have := hrest.le_stop; omega, hrest.before, fun i hi hstop => ?_⟩
        by_cases hle : i < start + k
        · exact hrest.after i hi hle
        · exact Bool.eq_false_iff.mpr fun hi' =>
            hk (h (start + k) i (by omega) (by omega) hstop hi')

/-- Strides end between a place that has the property and one that lacks it or lies beyond. -/
theorem stride_spec {has : Nat → Bool} {size fuel last next : Nat} (hlast : has last = true)
    (hsize : last < size) (hnext : last < next) (hfuel : size ≤ next + fuel) :
    let r := stride has size fuel last next
    has r.1 = true ∧ r.1 < size ∧ r.1 < r.2 ∧ (r.2 < size → has r.2 = false) := by
  induction fuel generalizing last next with
  | zero => exact ⟨hlast, hsize, hnext, fun h => by simp only [stride] at h; omega⟩
  | succ fuel ih =>
      unfold stride
      by_cases hgo : (decide (next < size) && has next) = true
      · rw [if_pos hgo]
        obtain ⟨hlt, hhas⟩ := Bool.and_eq_true_iff.mp hgo
        exact ih hhas (of_decide_eq_true hlt) (by omega) (by omega)
      · rw [if_neg hgo]
        refine ⟨hlast, hsize, hnext, fun hlt => Bool.eq_false_iff.mpr fun hhas => hgo ?_⟩
        exact Bool.and_eq_true_iff.mpr ⟨decide_eq_true hlt, hhas⟩

/-! ## Elements -/

variable {α : Type}

/-- The first `n` elements of a list are those that have a property. -/
structure Parted (p : α → Bool) (l : List α) (n : Nat) : Prop where
  take : ∀ x ∈ l.take n, p x = true
  drop : ∀ x ∈ l.drop n, p x = false

section

variable {p : α → Bool} {l : List α}

theorem hasAt_toArray {i : Nat} (hi : i < l.length) : hasAt p l.toArray i = p l[i] := by
  simp [hasAt, hi]

theorem leads_of_pairwise (h : l.Pairwise fun x y => p y = true → p x = true) :
    Leads (hasAt p l.toArray) 0 l.length := by
  intro i j _ hij hj
  rw [hasAt_toArray hj, hasAt_toArray (Nat.lt_of_le_of_lt hij hj)]
  rcases Nat.lt_or_eq_of_le hij with hlt | rfl
  · exact List.pairwise_iff_getElem.mp h i j _ hj hlt
  · exact id

theorem Parted.of_parts {n : Nat} (h : Parts (hasAt p l.toArray) 0 l.length n) : Parted p l n where
  take x hx := by
    obtain ⟨i, hi, rfl⟩ := List.mem_take_iff_getElem.mp hx
    exact (hasAt_toArray _).symm.trans (h.before i (Nat.zero_le i) (by omega))
  drop x hx := by
    obtain ⟨i, hi, rfl⟩ := List.mem_drop_iff_getElem.mp hx
    exact (hasAt_toArray _).symm.trans (h.after _ (by omega) (by omega))

/-- **Halving counts the elements with the property**, if they stand at the front. -/
theorem parted_countByHalving (middle : Middle)
    (h : l.Pairwise fun x y => p y = true → p x = true) :
    Parted p l (countByHalving middle p l) := by
  have hleads : Leads (hasAt p l.toArray) 0 (0 + l.length) := by
    rw [Nat.zero_add]
    exact leads_of_pairwise h
  have hparts := parts_bisect middle (Nat.le_refl l.length) hleads
  rw [Nat.zero_add] at hparts
  exact .of_parts hparts

/-- **Strides count the elements with the property**, if they stand at the front. -/
theorem parted_countByStrides (middle : Middle)
    (h : l.Pairwise fun x y => p y = true → p x = true) :
    Parted p l (countByStrides middle p l) := by
  have hleads := leads_of_pairwise h
  refine .of_parts ?_
  unfold countByStrides
  dsimp only
  by_cases hfirst : hasAt p l.toArray 0 = true
  · rw [if_pos hfirst]
    have hpos : 0 < l.length := List.length_pos_iff.mpr fun hnil => by
      simp [hasAt, hnil] at hfirst
    obtain ⟨hlast, hlt, hnext, hstop⟩ := stride_spec hfirst hpos Nat.zero_lt_one
      (Nat.le_add_left l.length 1)
    generalize stride (hasAt p l.toArray) l.length l.length 0 1 = r at hlast hlt hnext hstop
    obtain ⟨last, next⟩ := r
    dsimp only at hlast hlt hnext hstop ⊢
    -- the halving takes place between the last two places that the strides have looked at
    have hsize : last + 1 + (min next l.length - last - 1) = min next l.length := by omega
    have hparts := parts_bisect middle (Nat.le_refl (min next l.length - last - 1))
      (hleads.mono (Nat.zero_le (last + 1)) (by omega))
    rw [hsize] at hparts
    refine ⟨Nat.zero_le _, by have := hparts.le_stop; omega, fun i _ hi => ?_, fun i hi hlen => ?_⟩
    · by_cases hle : i ≤ last
      · exact hleads i last (Nat.zero_le i) hle hlt hlast
      · exact hparts.before i (by omega) hi
    · by_cases hmin : i < min next l.length
      · exact hparts.after i hi hmin
      · refine Bool.eq_false_iff.mpr fun hhas => ?_
        have hback := hleads next i (Nat.zero_le next) (by omega) hlen hhas
        rw [hstop (by omega)] at hback
        cases hback
  · rw [if_neg hfirst]
    refine ⟨Nat.le_refl 0, Nat.zero_le _, fun i _ hi => by omega, fun i hi hlen => ?_⟩
    exact Bool.eq_false_iff.mpr fun hhas => hfirst (hleads 0 i (Nat.le_refl 0) hi hlen hhas)

end

end CharacterBuild.Sorting
