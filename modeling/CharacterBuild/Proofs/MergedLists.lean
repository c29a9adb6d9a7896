import CharacterBuild.Proofs.Searching
import CharacterBuild.Sorting.Merging
import Mathlib.Algebra.Order.Group.Multiset
import Mathlib.Order.OrderDual
import Mathlib.Tactic.Abel

set_option autoImplicit false

/-! # Two lists in order make one list in order

Merging two lists moves elements about and loses none of them, whatever the relation says that they
are merged by (`Sorting.coe_merge`). Where the relation is the order of some keys, the result of
merging ascending lists ascends (`Sorting.InOrder.merge`). The invariant is that everything moved so
far ascends and comes before all that is left (`Merging.Ready`): it holds at the start, and some
elements may be moved if nothing of the other list comes before any of them, whether it is one
element or as many as strides have counted. A merging keeps what its steps keep
(`Manner.Keeps.ends`).

Merging from the back is merging from the front in the dual order, so all this is shown once for
both manners.
-/

namespace CharacterBuild.Sorting

variable {α β : Type}

/-! ## Nothing is lost -/

namespace Merging

/-- All elements, whether they have been moved or not. -/
def all (m : Merging α) : Multiset α := m.moved + m.held + m.free

/-- How many elements have not been moved. -/
def size (m : Merging α) : Nat := m.held.length + m.free.length

@[simp] theorem all_moveHeld (m : Merging α) (n : Nat) : (m.moveHeld n).all = m.all := by
  have hheld : (m.held.take n : Multiset α) + m.held.drop n = m.held := by
    rw [Multiset.coe_add, List.take_append_drop]
  simp only [all, moveHeld, ← Multiset.coe_add, Multiset.coe_reverse, ← hheld]
  abel

@[simp] theorem all_moveFree (m : Merging α) (n : Nat) : (m.moveFree n).all = m.all := by
  have hfree : (m.free.take n : Multiset α) + m.free.drop n = m.free := by
    rw [Multiset.coe_add, List.take_append_drop]
  simp only [all, moveFree, ← Multiset.coe_add, Multiset.coe_reverse, ← hfree]
  abel

theorem coe_result (m : Merging α) : (m.result : Multiset α) = m.all := by
  simp only [all, result, ← Multiset.coe_add, Multiset.coe_reverse]
  abel

theorem size_moveHeld (m : Merging α) (n : Nat) :
    (m.moveHeld n).size = m.size - min n m.held.length := by
  simp only [size, moveHeld, List.length_drop]
  omega

theorem size_moveFree (m : Merging α) (n : Nat) :
    (m.moveFree n).size = m.size - min n m.free.length := by
  simp only [size, moveFree, List.length_drop]
  omega

theorem isOver_of_held_eq_nil {m : Merging α} (h : m.held = []) : m.isOver = true := by
  simp [isOver, h]

theorem isOver_of_free_eq_nil {m : Merging α} (h : m.free = []) : m.isOver = true := by
  simp [isOver, h]

end Merging

namespace Manner

variable {manner : Manner α}

/-! ## How a merging goes on and ends -/

/-- A round is two strides, one over each list, but the second one is left out if there is nothing
to compare any more. -/
theorem round_eq (manner : Manner α) (m : Merging α) :
    ∃ first second : Merging α → Merging α × Nat,
      (first = manner.passHeld ∧ second = manner.passFree ∨
        first = manner.passFree ∧ second = manner.passHeld) ∧
      (manner.round m).1 = if (first m).1.isOver then (first m).1 else (second (first m).1).1 := by
  unfold round
  cases manner.heldLeads with
  | true =>
      refine ⟨_, _, Or.inl ⟨rfl, rfl⟩, ?_⟩
      by_cases h : (manner.passHeld m).1.isOver = true <;> simp [h]
  | false =>
      refine ⟨_, _, Or.inr ⟨rfl, rfl⟩, ?_⟩
      by_cases h : (manner.passFree m).1.isOver = true <;> simp [h]

theorem size_passHeld_le (manner : Manner α) (m : Merging α) :
    (manner.passHeld m).1.size ≤ m.size := by
  unfold passHeld
  split
  · exact Nat.le_refl _
  · dsimp only
    split <;> simp only [Merging.size_moveFree, Merging.size_moveHeld] <;> omega

theorem size_passFree_le (manner : Manner α) (m : Merging α) :
    (manner.passFree m).1.size ≤ m.size := by
  unfold passFree
  split
  · exact Nat.le_refl _
  · dsimp only
    split <;> simp only [Merging.size_moveFree, Merging.size_moveHeld] <;> omega

/-- Strides over the list that is held move something, or there is nothing to compare any more. -/
theorem size_passHeld_lt {m : Merging α} (h : ¬ (manner.passHeld m).1.isOver = true) :
    (manner.passHeld m).1.size < m.size := by
  unfold passHeld at h ⊢
  split at h
  · rename_i hfree
    exact (h (m.isOver_of_free_eq_nil hfree)).elim
  · rename_i next rest hfree
    dsimp only at h ⊢
    have hpos : 0 < m.free.length := by rw [hfree]; exact Nat.zero_lt_succ _
    split
    · rename_i hends
      exact (h (by rw [if_pos hends]; exact hends)).elim
    · simp only [Merging.size, Merging.moveFree, Merging.moveHeld, List.length_drop]
      omega

theorem size_passFree_lt {m : Merging α} (h : ¬ (manner.passFree m).1.isOver = true) :
    (manner.passFree m).1.size < m.size := by
  unfold passFree at h ⊢
  split at h
  · rename_i hheld
    exact (h (m.isOver_of_held_eq_nil hheld)).elim
  · rename_i next rest hheld
    dsimp only at h ⊢
    have hpos : 0 < m.held.length := by rw [hheld]; exact Nat.zero_lt_succ _
    split
    · rename_i hends
      exact (h (by rw [if_pos hends]; exact hends)).elim
    · simp only [Merging.size, Merging.moveFree, Merging.moveHeld, List.length_drop]
      omega

theorem size_round_lt {m : Merging α} (h : ¬ (manner.round m).1.isOver = true) :
    (manner.round m).1.size < m.size := by
  obtain ⟨first, second, hpasses, hround⟩ := manner.round_eq m
  rw [hround] at h ⊢
  rcases hpasses with ⟨rfl, rfl⟩ | ⟨rfl, rfl⟩
  · by_cases hends : (manner.passHeld m).1.isOver = true
    · rw [if_pos hends] at h
      exact (h hends).elim
    · rw [if_neg hends]
      exact Nat.lt_of_le_of_lt (manner.size_passFree_le _) (size_passHeld_lt hends)
  · by_cases hends : (manner.passFree m).1.isOver = true
    · rw [if_pos hends] at h
      exact (h hends).elim
    · rw [if_neg hends]
      exact Nat.lt_of_le_of_lt (manner.size_passHeld_le _) (size_passFree_lt hends)

/-- What neither strides nor moving one element change. -/
structure Keeps (manner : Manner α) (I : Merging α → Prop) : Prop where
  passHeld : ∀ m, I m → I (manner.passHeld m).1
  passFree : ∀ m, I m → I (manner.passFree m).1
  one : ∀ m held free rest rest', m.held = held :: rest → m.free = free :: rest' → I m →
    I (if manner.freeFirst free held then m.moveFree 1 else m.moveHeld 1)

theorem Keeps.round {I : Merging α → Prop} (h : manner.Keeps I) {m : Merging α} (hm : I m) :
    I (manner.round m).1 := by
  obtain ⟨first, second, hpasses, hround⟩ := manner.round_eq m
  rw [hround]
  rcases hpasses with ⟨rfl, rfl⟩ | ⟨rfl, rfl⟩
  · split
    · exact h.passHeld m hm
    · exact h.passFree _ (h.passHeld m hm)
  · split
    · exact h.passFree m hm
    · exact h.passHeld _ (h.passFree m hm)

/-- **A merging ends, and keeps what its steps keep.** Each step moves an element, so as many steps
as there are elements will do. -/
theorem Keeps.ends {I : Merging α → Prop} (h : manner.Keeps I) (fuel : Nat) :
    (∀ patience heldRun freeRun m, I m → m.size ≤ fuel →
      let last := (manner.stepwise fuel patience heldRun freeRun m).1
      I last ∧ last.isOver = true) ∧
    ∀ patience m, I m → m.size ≤ fuel →
      let last := (manner.rounds fuel patience m).1
      I last ∧ last.isOver = true := by
  induction fuel with
  | zero =>
      have hover : ∀ m : Merging α, m.size ≤ 0 → m.isOver = true := fun m hm =>
        m.isOver_of_held_eq_nil (List.length_eq_zero_iff.mp (by unfold Merging.size at hm; omega))
      exact ⟨fun _ _ _ m hm hsize => ⟨hm, hover m hsize⟩, fun _ m hm hsize => ⟨hm, hover m hsize⟩⟩
  | succ fuel ih =>
      obtain ⟨ihstep, ihround⟩ := ih
      -- after a step the merging is over, or goes on in one of the two ways
      have hgo : ∀ (next : Merging α) (strides : Prop) [Decidable strides] (a b c d e : Nat),
          I next → (¬ next.isOver = true → next.size ≤ fuel) →
          let last := (if next.isOver then (next, a)
            else if strides then manner.rounds fuel b next
            else manner.stepwise fuel c d e next).1
          I last ∧ last.isOver = true := by
        intro next strides _ a b c d e hnext hless
        dsimp only
        by_cases hover : next.isOver = true
        · rw [if_pos hover]
          exact ⟨hnext, hover⟩
        · rw [if_neg hover]
          split
          · exact ihround _ _ hnext (hless hover)
          · exact ihstep _ _ _ _ hnext (hless hover)
      constructor
      · intro patience heldRun freeRun m hm hsize
        unfold stepwise
        split
        · rename_i held rest free rest' hheld hfree
          have hnext := h.one m held free rest rest' hheld hfree hm
          have hpos : 0 < m.held.length ∧ 0 < m.free.length := by simp [hheld, hfree]
          have hsum : m.size = m.held.length + m.free.length := rfl
          by_cases hfirst : manner.freeFirst free held = true
          · rw [if_pos hfirst] at hnext ⊢
            exact hgo _ _ _ _ _ _ _ hnext fun _ => by rw [Merging.size_moveFree]; omega
          · rw [if_neg hfirst] at hnext ⊢
            exact hgo _ _ _ _ _ _ _ hnext fun _ => by rw [Merging.size_moveHeld]; omega
        · rename_i hlists
          refine ⟨hm, ?_⟩
          cases hheld : m.held with
          | nil => exact m.isOver_of_held_eq_nil hheld
          | cons held rest =>
              cases hfree : m.free with
              | nil => exact m.isOver_of_free_eq_nil hfree
              | cons free rest' => exact (hlists held rest free rest' hheld hfree).elim
      · intro patience m hm hsize
        unfold rounds
        exact hgo (manner.round m).1 _ _ _ _ _ _ (h.round hm) fun hover => by
          have := size_round_lt hover
          omega

/-- Two lists are merged into the result of a merging that is over and has kept what its steps
keep. -/
theorem Keeps.run {I : Merging α → Prop} (h : manner.Keeps I) (patience : Nat) {held free : List α}
    (hstart : I ((Merging.mk [] held free).moveFree 1)) :
    ∃ last : Merging α, I last ∧ last.isOver = true ∧
      (manner.run patience held free).1 = last.result := by
  unfold Manner.run
  dsimp only
  split
  · exact ⟨_, hstart, ‹_›, rfl⟩
  · have hsize : ((Merging.mk [] held free).moveFree 1).size ≤ held.length + free.length := by
      rw [Merging.size_moveFree]
      exact Nat.sub_le _ _
    obtain ⟨hkept, hover⟩ := (h.ends _).1 patience 0 0 _ hstart hsize
    exact ⟨_, hkept, hover, rfl⟩

/-! ## Nothing is lost on the way -/

theorem all_passHeld (manner : Manner α) (m : Merging α) : (manner.passHeld m).1.all = m.all := by
  unfold passHeld
  split
  · rfl
  · dsimp only
    split <;> simp

theorem all_passFree (manner : Manner α) (m : Merging α) : (manner.passFree m).1.all = m.all := by
  unfold passFree
  split
  · rfl
  · dsimp only
    split <;> simp

theorem coe_run (manner : Manner α) (patience : Nat) (held free : List α) :
    ((manner.run patience held free).1 : Multiset α) = held + free := by
  have hkeeps : manner.Keeps fun m => m.all = (held : Multiset α) + free := by
    refine ⟨fun m hm => (all_passHeld manner m).trans hm,
      fun m hm => (all_passFree manner m).trans hm, fun m _ _ _ _ _ _ hm => ?_⟩
    split
    · exact (m.all_moveFree 1).trans hm
    · exact (m.all_moveHeld 1).trans hm
  have hstart : ((Merging.mk [] held free).moveFree 1).all = (held : Multiset α) + free := by
    rw [Merging.all_moveFree]
    simp [Merging.all]
  obtain ⟨last, hall, -, hresult⟩ := hkeeps.run patience hstart
  rw [hresult, Merging.coe_result, hall]

end Manner

/-! ## Lists in order -/

variable [LinearOrder β] {p : α → Prop} {key : α → β}

/-- A relation is the order of the keys, as far as elements with a property go. -/
def Orders (less : α → α → Bool) (p : α → Prop) (key : α → β) : Prop :=
  ∀ x y, p x → p y → (less x y = true ↔ key x < key y)

/-- A list of elements with a property, in ascending order of their keys. -/
structure InOrder (p : α → Prop) (key : α → β) (l : List α) : Prop where
  known : ∀ x ∈ l, p x
  ascending : l.Pairwise fun x y => key x ≤ key y

theorem InOrder.sublist {l l' : List α} (h : InOrder p key l) (hsub : l'.Sublist l) :
    InOrder p key l' :=
  ⟨fun x hx => h.known x (hsub.subset hx), h.ascending.sublist hsub⟩

theorem InOrder.append {l l' : List α} (h : InOrder p key l) (h' : InOrder p key l')
    (hle : ∀ x ∈ l, ∀ y ∈ l', key x ≤ key y) : InOrder p key (l ++ l') :=
  ⟨fun x hx => (List.mem_append.mp hx).elim (h.known x) (h'.known x),
    List.pairwise_append.mpr ⟨h.ascending, h'.ascending, hle⟩⟩

/-- Back to front, a list is in the dual order. -/
theorem InOrder.reverse {l : List α} (h : InOrder p key l) :
    InOrder p (fun x => OrderDual.toDual (key x)) l.reverse :=
  ⟨fun x hx => h.known x (List.mem_reverse.mp hx), List.pairwise_reverse.mpr h.ascending⟩

theorem InOrder.of_reverse {l : List α}
    (h : InOrder p (fun x => OrderDual.toDual (key x)) l) : InOrder p key l.reverse :=
  ⟨fun x hx => h.known x (List.mem_reverse.mp hx), List.pairwise_reverse.mpr h.ascending⟩

/-- In the two parts of a list in order, what stands before comes before. -/
theorem InOrder.le_of_take_drop {l : List α} (h : InOrder p key l) (n : Nat) :
    ∀ x ∈ l.take n, ∀ y ∈ l.drop n, key x ≤ key y := by
  have hparts := h.ascending
  rw [← List.take_append_drop n l] at hparts
  exact (List.pairwise_append.mp hparts).2.2

theorem InOrder.head_le {l : List α} (h : InOrder p key l) {x : α} (hx : x ∈ l.head?) :
    ∀ y ∈ l, key x ≤ key y := by
  cases l with
  | nil => cases hx
  | cons a rest =>
      obtain rfl : a = x := by simpa using hx
      intro y hy
      rcases List.mem_cons.mp hy with rfl | hy
      · exact le_refl _
      · exact List.rel_of_pairwise_cons h.ascending hy

theorem InOrder.le_getLast {l : List α} (h : InOrder p key l) {x : α} (hx : x ∈ l.getLast?) :
    ∀ y ∈ l, key y ≤ key x := by
  intro y hy
  have hhead : x ∈ l.reverse.head? := by rwa [List.head?_reverse]
  exact OrderDual.toDual_le_toDual.mp (h.reverse.head_le hhead y (List.mem_reverse.mpr hy))

/-! ## What is counted in a list in order -/

section

variable {less : α → α → Bool} {l : List α} {a : α}

theorem not_less_iff (horders : Orders less p key) (hl : InOrder p key l) (ha : p a) {x : α}
    (hx : x ∈ l) : (!less a x) = true ↔ key x ≤ key a := by
  rw [Bool.not_eq_true', ← Bool.not_eq_true, horders a x ha (hl.known x hx), not_lt]

theorem less_iff (horders : Orders less p key) (hl : InOrder p key l) (ha : p a) {x : α}
    (hx : x ∈ l) : less x a = true ↔ key x < key a :=
  horders x a (hl.known x hx) ha

/-- The elements that do not come after another one stand at the front. -/
theorem pairwise_not_less (horders : Orders less p key) (hl : InOrder p key l) (ha : p a) :
    l.Pairwise fun x y => (!less a y) = true → (!less a x) = true :=
  hl.ascending.imp_of_mem fun hx hy hle hy' => (not_less_iff horders hl ha hx).mpr
    (le_trans hle ((not_less_iff horders hl ha hy).mp hy'))

/-- The elements that come before another one stand at the front. -/
theorem pairwise_less (horders : Orders less p key) (hl : InOrder p key l) (ha : p a) :
    l.Pairwise fun x y => less y a = true → less x a = true :=
  hl.ascending.imp_of_mem fun hx hy hle hy' => (less_iff horders hl ha hx).mpr
    (lt_of_le_of_lt hle ((less_iff horders hl ha hy).mp hy'))

/-- The first `n` elements are those that do not come after another one. -/
theorem Parted.le {n : Nat} (hn : Parted (fun x => !less a x) l n) (horders : Orders less p key)
    (hl : InOrder p key l) (ha : p a) :
    (∀ x ∈ l.take n, key x ≤ key a) ∧ ∀ x ∈ l.drop n, key a < key x := by
  refine ⟨fun x hx => (not_less_iff horders hl ha (List.mem_of_mem_take hx)).mp (hn.take x hx),
    fun x hx => ?_⟩
  rw [← not_le, ← not_less_iff horders hl ha (List.mem_of_mem_drop hx), hn.drop x hx]
  exact Bool.false_ne_true

/-- The first `n` elements are those that come before another one. -/
theorem Parted.lt {n : Nat} (hn : Parted (fun x => less x a) l n) (horders : Orders less p key)
    (hl : InOrder p key l) (ha : p a) :
    (∀ x ∈ l.take n, key x < key a) ∧ ∀ x ∈ l.drop n, key a ≤ key x := by
  refine ⟨fun x hx => (less_iff horders hl ha (List.mem_of_mem_take hx)).mp (hn.take x hx),
    fun x hx => ?_⟩
  rw [← not_lt, ← less_iff horders hl ha (List.mem_of_mem_drop hx), hn.drop x hx]
  exact Bool.false_ne_true

end

/-! ## What is ready to be merged on -/

/-- **What has been moved is in order and comes before the rest**, both lists are in order, and no
free element comes after the last one that is held. -/
structure Merging.Ready (p : α → Prop) (key : α → β) (m : Merging α) : Prop where
  moved : InOrder p key m.moved.reverse
  held : InOrder p key m.held
  free : InOrder p key m.free
  moved_le_held : ∀ x ∈ m.moved, ∀ y ∈ m.held, key x ≤ key y
  moved_le_free : ∀ x ∈ m.moved, ∀ y ∈ m.free, key x ≤ key y
  free_le_last : ∀ x ∈ m.free, ∀ y ∈ m.held.getLast?, key x ≤ key y

namespace Merging.Ready

variable {m : Merging α}

/-- Elements that are held may be moved if no free one comes before them. -/
theorem moveHeld (h : m.Ready p key) {n : Nat}
    (hle : ∀ x ∈ m.held.take n, ∀ y ∈ m.free, key x ≤ key y) : (m.moveHeld n).Ready p key where
  moved := by
    rw [Merging.moveHeld, List.reverse_append, List.reverse_reverse]
    refine h.moved.append (h.held.sublist (List.take_sublist n _)) fun x hx y hy => ?_
    exact h.moved_le_held x (List.mem_reverse.mp hx) y (List.mem_of_mem_take hy)
  held := h.held.sublist (List.drop_sublist n _)
  free := h.free
  moved_le_held x hx y hy := by
    rcases List.mem_append.mp hx with hx | hx
    · exact h.held.le_of_take_drop n x (List.mem_reverse.mp hx) y hy
    · exact h.moved_le_held x hx y (List.mem_of_mem_drop hy)
  moved_le_free x hx y hy := by
    rcases List.mem_append.mp hx with hx | hx
    · exact hle x (List.mem_reverse.mp hx) y hy
    · exact h.moved_le_free x hx y hy
  free_le_last x hx y hy := by
    have hlast : y ∈ (m.held.drop n).getLast? := hy
    rw [List.getLast?_drop] at hlast
    split at hlast
    · cases hlast
    · exact h.free_le_last x hx y hlast

/-- Free elements may be moved if none that is held comes before them. -/
theorem moveFree (h : m.Ready p key) {n : Nat}
    (hle : ∀ x ∈ m.free.take n, ∀ y ∈ m.held, key x ≤ key y) : (m.moveFree n).Ready p key where
  moved := by
    rw [Merging.moveFree, List.reverse_append, List.reverse_reverse]
    refine h.moved.append (h.free.sublist (List.take_sublist n _)) fun x hx y hy => ?_
    exact h.moved_le_free x (List.mem_reverse.mp hx) y (List.mem_of_mem_take hy)
  held := h.held
  free := h.free.sublist (List.drop_sublist n _)
  moved_le_held x hx y hy := by
    rcases List.mem_append.mp hx with hx | hx
    · exact hle x (List.mem_reverse.mp hx) y hy
    · exact h.moved_le_held x hx y hy
  moved_le_free x hx y hy := by
    rcases List.mem_append.mp hx with hx | hx
    · exact h.free.le_of_take_drop n x (List.mem_reverse.mp hx) y hy
    · exact h.moved_le_free x hx y (List.mem_of_mem_drop hy)
  free_le_last x hx y hy := h.free_le_last x (List.mem_of_mem_drop hx) y hy

/-- Once there is nothing to compare any more, the result is in order. -/
theorem result (h : m.Ready p key) (hover : m.isOver = true) : InOrder p key m.result := by
  refine (h.moved.append h.free fun x hx y hy => ?_).append h.held fun x hx y hy => ?_
  · exact h.moved_le_free x (List.mem_reverse.mp hx) y hy
  rcases List.mem_append.mp hx with hx | hx
  · exact h.moved_le_held x (List.mem_reverse.mp hx) y hy
  · -- with a free element left, at most one is held
    have hone : m.held.length ≤ 1 := by
      rcases Bool.or_eq_true_iff.mp hover with hfree | hone
      · rw [List.isEmpty_iff.mp hfree] at hx
        cases hx
      · exact of_decide_eq_true hone
    refine h.free_le_last x hx y ?_
    match m.held, hone, hy with
    | [z], _, hy => rw [List.mem_singleton.mp hy]; rfl

end Merging.Ready

namespace Manner

variable {manner : Manner α}

section

variable (horders : Orders manner.freeFirst p key)

include horders

theorem ready_passHeld {m : Merging α} (h : m.Ready p key) : (manner.passHeld m).1.Ready p key := by
  unfold passHeld
  split
  · exact h
  rename_i next rest hfree
  have hnext : p next := h.free.known next (by rw [hfree]; exact List.mem_cons_self ..)
  obtain ⟨hle, hlt⟩ := (parted_countByStrides manner.middle
    (pairwise_not_less horders h.held hnext)).le horders h.held hnext
  generalize countByStrides manner.middle (fun x => !manner.freeFirst next x) m.held = n at hle hlt
  have hready : (m.moveHeld n).Ready p key := h.moveHeld fun x hx y hy =>
    le_trans (hle x hx) (h.free.head_le (by rw [hfree]; rfl) y hy)
  dsimp only
  split
  · exact hready
  · refine hready.moveFree fun x hx y hy => ?_
    have hx' : x ∈ m.free.take 1 := hx
    rw [hfree] at hx'
    obtain rfl := List.mem_singleton.mp hx'
    exact le_of_lt (hlt y hy)

theorem ready_passFree {m : Merging α} (h : m.Ready p key) : (manner.passFree m).1.Ready p key := by
  unfold passFree
  split
  · exact h
  rename_i next rest hheld
  have hnext : p next := h.held.known next (by rw [hheld]; exact List.mem_cons_self ..)
  obtain ⟨hlt, hle⟩ := (parted_countByStrides manner.middle
    (pairwise_less horders h.free hnext)).lt horders h.free hnext
  generalize countByStrides manner.middle (fun x => manner.freeFirst x next) m.free = n at hlt hle
  have hready : (m.moveFree n).Ready p key := h.moveFree fun x hx y hy =>
    le_trans (le_of_lt (hlt x hx)) (h.held.head_le (by rw [hheld]; rfl) y hy)
  dsimp only
  split
  · exact hready
  · refine hready.moveHeld fun x hx y hy => ?_
    have hx' : x ∈ m.held.take 1 := hx
    rw [hheld] at hx'
    obtain rfl := List.mem_singleton.mp hx'
    exact hle y hy

/-- Of the first elements of both lists, the one that goes first may be moved. -/
theorem ready_one {m : Merging α} {held free : α} {rest rest' : List α}
    (hheld : m.held = held :: rest) (hfree : m.free = free :: rest') (h : m.Ready p key) :
    (if manner.freeFirst free held then m.moveFree 1 else m.moveHeld 1).Ready p key := by
  have hless := horders free held (h.free.known free (by rw [hfree]; exact List.mem_cons_self ..))
    (h.held.known held (by rw [hheld]; exact List.mem_cons_self ..))
  split
  · rename_i hfirst
    refine h.moveFree fun x hx y hy => ?_
    rw [hfree] at hx
    obtain rfl := List.mem_singleton.mp hx
    exact le_trans (le_of_lt (hless.mp hfirst)) (h.held.head_le (by rw [hheld]; rfl) y hy)
  · rename_i hfirst
    refine h.moveHeld fun x hx y hy => ?_
    rw [hheld] at hx
    obtain rfl := List.mem_singleton.mp hx
    rw [hless, not_lt] at hfirst
    exact le_trans hfirst (h.free.head_le (by rw [hfree]; rfl) y hy)

/-- **Two lists in order are merged into one in order**, if the first free element goes first and no
free one comes after the last one that is held. -/
theorem inOrder_run {held free : List α} (patience : Nat) (hheld : InOrder p key held)
    (hfree : InOrder p key free) (hfirst : ∀ x ∈ free.head?, ∀ y ∈ held, key x ≤ key y)
    (hlast : ∀ x ∈ free, ∀ y ∈ held.getLast?, key x ≤ key y) :
    InOrder p key (manner.run patience held free).1 := by
  have hready : (Merging.mk [] held free).Ready p key :=
    ⟨⟨by simp, .nil⟩, hheld, hfree, by simp, by simp, hlast⟩
  have hstart : ((Merging.mk [] held free).moveFree 1).Ready p key := by
    refine hready.moveFree fun x hx => hfirst x ?_
    cases free with
    | nil => cases hx
    | cons a rest => rw [List.mem_singleton.mp hx]; rfl
  have hkeeps : manner.Keeps fun m => m.Ready p key :=
    ⟨fun _ hm => ready_passHeld horders hm, fun _ hm => ready_passFree horders hm,
      fun _ _ _ _ _ hheld hfree hm => ready_one horders hheld hfree hm⟩
  obtain ⟨last, hend, hover, hresult⟩ := hkeeps.run patience hstart
  rw [hresult]
  exact hend.result hover

end

end Manner

/-! ## Merging -/

omit [LinearOrder β] in
theorem coe_merge (less : α → α → Bool) (patience : Nat) (a b : List α) :
    ((merge less patience a b).1 : Multiset α) = a + b := by
  unfold merge
  split
  · rename_i hnone
    rw [List.head?_eq_none_iff.mp hnone]
    simp
  dsimp only
  split
  · simp
  split
  · simp
  rename_i first _ _ last _ _
  generalize countByStrides .upper (fun x => !less first x) a = front
  generalize b.length - countByStrides .lower (fun x => !less x last) b.reverse = middle
  have ha : (a.take front : Multiset α) + a.drop front = a := by
    rw [Multiset.coe_add, List.take_append_drop]
  have hb : (b.take middle : Multiset α) + b.drop middle = b := by
    rw [Multiset.coe_add, List.take_append_drop]
  have hmiddle : ∀ merged : List α,
      (merged : Multiset α) = (a.drop front : Multiset α) + b.take middle →
      ((a.take front ++ merged ++ b.drop middle : List α) : Multiset α) = a + b := by
    intro merged hmerged
    rw [← Multiset.coe_add, ← Multiset.coe_add, hmerged, ← ha, ← hb]
    abel
  split
  · exact hmiddle _ (Manner.coe_run ..)
  · refine hmiddle _ ?_
    rw [Multiset.coe_reverse, Manner.coe_run, Multiset.coe_reverse, Multiset.coe_reverse, add_comm]

/-- Two lists are merged by what is left of them, if the front of the first one comes before all of
the second one and the back of the second one after all that is left of the first one. -/
theorem InOrder.join {a b merged : List α} {front middle : Nat} (ha : InOrder p key a)
    (hb : InOrder p key b) (hmerged : InOrder p key merged)
    (hcoe : (merged : Multiset α) = (a.drop front : Multiset α) + b.take middle)
    (hfront : ∀ x ∈ a.take front, ∀ y ∈ b, key x ≤ key y)
    (hback : ∀ x ∈ a.drop front, ∀ y ∈ b.drop middle, key x ≤ key y) :
    InOrder p key (a.take front ++ merged ++ b.drop middle) := by
  have hmem : ∀ x ∈ merged, x ∈ a.drop front ∨ x ∈ b.take middle := fun x hx => by
    rw [← Multiset.mem_coe, hcoe, Multiset.mem_add] at hx
    exact hx
  refine ((ha.sublist (List.take_sublist front a)).append hmerged fun x hx y hy => ?_).append
    (hb.sublist (List.drop_sublist middle b)) fun x hx y hy => ?_
  · rcases hmem y hy with hy | hy
    · exact ha.le_of_take_drop front x hx y hy
    · exact hfront x hx y (List.mem_of_mem_take hy)
  · rcases List.mem_append.mp hx with hx | hx
    · exact hfront x hx y (List.mem_of_mem_drop hy)
    · rcases hmem x hx with hx | hx
      · exact hback x hx y hy
      · exact hb.le_of_take_drop middle x hx y hy

/-- The back of a list is the front of the list turned around, in the dual order. -/
theorem InOrder.back {less : α → α → Bool} (horders : Orders less p key) {b : List α}
    (hb : InOrder p key b) {last : α} (hlast : p last) :
    let middle := b.length - countByStrides .lower (fun x => !less x last) b.reverse
    (∀ y ∈ b.take middle, key y ≤ key last) ∧ ∀ y ∈ b.drop middle, key last ≤ key y := by
  intro middle
  have hdual : Orders (fun x y => less y x) p fun x => OrderDual.toDual (key x) :=
    fun x y hx hy => horders y x hy hx
  obtain ⟨hle, hlt⟩ := (parted_countByStrides .lower
    (pairwise_not_less hdual hb.reverse hlast)).le hdual hb.reverse hlast
  rw [List.take_reverse] at hle
  rw [List.drop_reverse] at hlt
  exact ⟨fun y hy => le_of_lt (OrderDual.toDual_lt_toDual.mp (hlt y (List.mem_reverse.mpr hy))),
    fun y hy => OrderDual.toDual_le_toDual.mp (hle y (List.mem_reverse.mpr hy))⟩

/-- **Merging two lists in order makes one in order.** -/
theorem InOrder.merge {less : α → α → Bool} (horders : Orders less p key) (patience : Nat)
    {a b : List α} (ha : InOrder p key a) (hb : InOrder p key b) :
    InOrder p key (Sorting.merge less patience a b).1 := by
  unfold Sorting.merge
  split
  · exact ha
  rename_i first hfirst
  have hknown : p first := hb.known first (List.mem_of_mem_head? hfirst)
  obtain ⟨hle, hlt⟩ := (parted_countByStrides .upper
    (pairwise_not_less horders ha hknown)).le horders ha hknown
  dsimp only
  generalize countByStrides .upper (fun x => !less first x) a = front at hle hlt
  have hfront : ∀ x ∈ a.take front, ∀ y ∈ b, key x ≤ key y :=
    fun x hx y hy => le_trans (hle x hx) (hb.head_le hfirst y hy)
  have hrest : InOrder p key (a.drop front) := ha.sublist (List.drop_sublist front a)
  split
  · -- nothing is left of the first list
    rename_i hnone
    refine ha.append hb fun x hx => hfront x ?_
    rw [← List.take_append_drop front a, List.getLast?_eq_none_iff.mp hnone, List.append_nil] at hx
    exact hx
  rename_i last hlast
  obtain ⟨hle_last, hlast_le⟩ := InOrder.back horders hb
    (hrest.known last (List.mem_of_mem_getLast? hlast))
  generalize b.length - countByStrides .lower (fun x => !less x last) b.reverse = middle
    at hle_last hlast_le
  have hback : ∀ x ∈ a.drop front, ∀ y ∈ b.drop middle, key x ≤ key y :=
    fun x hx y hy => le_trans (hrest.le_getLast hlast x hx) (hlast_le y hy)
  have hmiddle : InOrder p key (b.take middle) := hb.sublist (List.take_sublist middle b)
  split
  · -- nothing is left of the second list
    rename_i hempty
    have hjoined := ha.join hb hrest (by simp [List.isEmpty_iff.mp hempty]) hfront hback
    rw [List.take_append_drop] at hjoined
    rwa [← List.take_append_drop middle b, List.isEmpty_iff.mp hempty, List.nil_append]
  rename_i hnonempty
  have hhead : (b.take middle).head? = some first := by
    rw [List.head?_take, if_neg fun hzero => hnonempty (by rw [hzero]; rfl), hfirst]
  split
  · have hforward : Orders (Manner.forward less).freeFirst p key := horders
    refine ha.join hb (Manner.inOrder_run hforward patience hrest hmiddle ?_ ?_)
      (Manner.coe_run ..) hfront hback
    · rw [hhead]
      rintro _ ⟨⟩ y hy
      exact le_of_lt (hlt y hy)
    · rw [hlast]
      rintro x hx _ ⟨⟩
      exact hle_last x hx
  · -- from the back on, the second list is held and the order is the dual one
    have hdual : Orders (Manner.backward less).freeFirst p fun x => OrderDual.toDual (key x) :=
      fun x y hx hy => horders y x hy hx
    refine ha.join hb (Manner.inOrder_run hdual patience hmiddle.reverse hrest.reverse ?_
      ?_).of_reverse ?_ hfront hback
    · rw [List.head?_reverse, hlast]
      rintro _ ⟨⟩ y hy
      exact hle_last y (List.mem_reverse.mp hy)
    · rw [List.getLast?_reverse, hhead]
      rintro x hx _ ⟨⟩
      exact le_of_lt (hlt x (List.mem_reverse.mp hx))
    · rw [Multiset.coe_reverse, Manner.coe_run, Multiset.coe_reverse, Multiset.coe_reverse,
        add_comm]

end CharacterBuild.Sorting
