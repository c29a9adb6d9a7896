import CharacterBuild.Proofs.MergedLists
import CharacterBuild.Sorting.Runs

set_option autoImplicit false

/-! # Sorting by runs sorts

Sorting by runs keeps all elements, each as often as it occurs, whatever the relation says
(`Sorting.byRuns_perm`). If the relation is the order of some keys, the outcome is in ascending
order of the keys (`Sorting.inOrder_byRuns`). Every run is in order when it is put on the pile, and
merging two of them makes one in order; which runs are merged and when makes no difference to that.
-/

namespace CharacterBuild.Sorting

variable {α β : Type} [LinearOrder β] {p : α → Prop} {key : α → β} {less : α → α → Bool}

/-! ## Runs at the front of a list -/

omit [LinearOrder β] in
theorem splitFollowing_append (follows : α → α → Bool) (last : α) (l : List α) :
    (splitFollowing follows last l).1 ++ (splitFollowing follows last l).2 = l := by
  induction l generalizing last with
  | nil => rfl
  | cons x rest ih =>
      unfold splitFollowing
      split
      · dsimp only
        rw [List.cons_append, ih]
      · rfl

omit [LinearOrder β] in
/-- In a run whose elements follow on each other, each follows on all before it. -/
theorem pairwise_splitFollowing (follows : α → α → Bool) {R : α → α → Prop}
    (htrans : ∀ x y z, R x y → R y z → R x z)
    (hfollows : ∀ x y, p x → p y → follows x y = true → R x y) {last : α} {l : List α}
    (hlast : p last) (hl : ∀ x ∈ l, p x) :
    (last :: (splitFollowing follows last l).1).Pairwise R := by
  induction l generalizing last with
  | nil => exact List.pairwise_singleton R last
  | cons x rest ih =>
      have hx : p x := hl x (List.mem_cons_self ..)
      unfold splitFollowing
      split
      · rename_i hnext
        have hrest := ih hx fun y hy => hl y (List.mem_cons_of_mem x hy)
        refine List.pairwise_cons.mpr ⟨fun y hy => ?_, hrest⟩
        have hfirst := hfollows last x hlast hx hnext
        rcases List.mem_cons.mp hy with rfl | hy
        · exact hfirst
        · exact htrans last x y hfirst (List.rel_of_pairwise_cons hrest hy)
      · exact List.pairwise_singleton R last

omit [LinearOrder β] in
theorem splitRun_perm (less : α → α → Bool) (l : List α) :
    ((splitRun less l).1 ++ (splitRun less l).2).Perm l := by
  unfold splitRun
  split
  · exact .refl _
  · exact .refl _
  · rename_i x y rest
    split
    · have happend := splitFollowing_append (fun last z => less z last) y rest
      dsimp only
      refine ((List.reverse_perm _).append_right _).trans ?_
      rw [List.cons_append, List.cons_append, happend]
    · have happend := splitFollowing_append (fun last z => !less z last) y rest
      dsimp only
      rw [List.cons_append, List.cons_append, happend]

omit [LinearOrder β] in
theorem splitRun_ne_nil (less : α → α → Bool) {l : List α} (h : l ≠ []) :
    (splitRun less l).1 ≠ [] := by
  unfold splitRun
  split
  · exact absurd rfl h
  · simp
  · split <;> simp

theorem inOrder_splitRun (horders : Orders less p key) {l : List α} (hl : ∀ x ∈ l, p x) :
    InOrder p key (splitRun less l).1 := by
  refine ⟨fun x hx => hl x ((splitRun_perm less l).subset (List.mem_append_left _ hx)), ?_⟩
  unfold splitRun
  split
  · exact .nil
  · exact List.pairwise_singleton _ _
  · rename_i x y rest
    have hx : p x := hl x (by simp)
    have hy : p y := hl y (by simp)
    have hrest : ∀ z ∈ y :: rest, p z := fun z hz => hl z (List.mem_cons_of_mem x hz)
    split
    · -- a descending run is turned around
      rename_i hfalls
      have hrun := pairwise_splitFollowing (fun last z => less z last)
        (R := fun a b => key b < key a) (fun a b c hab hbc => lt_trans hbc hab)
        (fun a b ha hb hab => (horders b a hb ha).mp hab) hx hrest
      have hsplit : splitFollowing (fun last z => less z last) x (y :: rest)
          = (y :: (splitFollowing (fun last z => less z last) y rest).1,
            (splitFollowing (fun last z => less z last) y rest).2) := by
        rw [splitFollowing, if_pos hfalls]
      rw [hsplit] at hrun
      exact List.pairwise_reverse.mpr (hrun.imp le_of_lt)
    · rename_i hrises
      have hrun := pairwise_splitFollowing (fun last z => !less z last)
        (R := fun a b => key a ≤ key b) (fun a b c => le_trans)
        (fun a b ha hb hab => by
          rwa [Bool.not_eq_true', ← Bool.not_eq_true, horders b a hb ha, not_lt] at hab) hx hrest
      have hsplit : splitFollowing (fun last z => !less z last) x (y :: rest)
          = (y :: (splitFollowing (fun last z => !less z last) y rest).1,
            (splitFollowing (fun last z => !less z last) y rest).2) := by
        rw [splitFollowing, if_pos (by simpa using hrises)]
      rw [hsplit] at hrun
      exact hrun

/-! ## Insertion -/

omit [LinearOrder β] in
theorem coe_insert (less : α → α → Bool) (run : List α) (x : α) :
    (insert less run x : Multiset α) = run + {x} := by
  unfold insert
  dsimp only
  generalize countByHalving .upper (fun y => !less x y) run = n
  have hrun : (run.take n : Multiset α) + run.drop n = run := by
    rw [Multiset.coe_add, List.take_append_drop]
  rw [← Multiset.coe_add, ← Multiset.cons_coe, ← Multiset.singleton_add, ← hrun]
  abel

theorem InOrder.insert (horders : Orders less p key) {run : List α} (hrun : InOrder p key run)
    {x : α} (hx : p x) : InOrder p key (Sorting.insert less run x) := by
  obtain ⟨hle, hlt⟩ := (parted_countByHalving .upper
    (pairwise_not_less horders hrun hx)).le horders hrun hx
  unfold Sorting.insert
  dsimp only
  generalize countByHalving .upper (fun y => !less x y) run = n at hle hlt
  have hafter : InOrder p key (x :: run.drop n) := by
    refine ⟨fun y hy => ?_, List.pairwise_cons.mpr ⟨fun y hy => le_of_lt (hlt y hy),
      hrun.ascending.sublist (List.drop_sublist n run)⟩⟩
    rcases List.mem_cons.mp hy with rfl | hy
    · exact hx
    · exact hrun.known y (List.mem_of_mem_drop hy)
  refine (hrun.sublist (List.take_sublist n run)).append hafter fun y hy z hz => ?_
  rcases List.mem_cons.mp hz with rfl | hz
  · exact hle y hy
  · exact hrun.le_of_take_drop n y hy z hz

omit [LinearOrder β] in
theorem coe_foldl_insert (less : α → α → Bool) (l run : List α) :
    ((l.foldl (insert less) run : List α) : Multiset α) = run + l := by
  induction l generalizing run with
  | nil => simp
  | cons x rest ih =>
      rw [List.foldl_cons, ih, coe_insert, add_assoc, Multiset.singleton_add, Multiset.cons_coe]

theorem InOrder.foldl_insert (horders : Orders less p key) {l run : List α}
    (hrun : InOrder p key run) (hl : ∀ x ∈ l, p x) :
    InOrder p key (l.foldl (Sorting.insert less) run) := by
  induction l generalizing run with
  | nil => exact hrun
  | cons x rest ih =>
      exact ih (hrun.insert horders (hl x (List.mem_cons_self ..)))
        fun y hy => hl y (List.mem_cons_of_mem x hy)

/-! ## Piles of runs -/

/-- All elements of some runs. -/
def Run.all (runs : List (Run α)) : Multiset α := (runs.map fun run => (run.items : Multiset α)).sum

omit [LinearOrder β] in
@[simp] theorem Run.all_nil : Run.all ([] : List (Run α)) = 0 := rfl

omit [LinearOrder β] in
@[simp] theorem Run.all_cons (run : Run α) (runs : List (Run α)) :
    Run.all (run :: runs) = run.items + Run.all runs := by
  simp [Run.all]

namespace Pile

omit [LinearOrder β] in
theorem coe_join (less : α → α → Bool) (patience : Nat) (a b : Run α) :
    ((join less patience a b).1.items : Multiset α) = a.items + b.items :=
  coe_merge less patience a.items b.items

theorem inOrder_join (horders : Orders less p key) (patience : Nat) {a b : Run α}
    (ha : InOrder p key a.items) (hb : InOrder p key b.items) :
    InOrder p key (join less patience a b).1.items :=
  ha.merge horders patience hb

section

variable {depth patience size fuel : Nat}

omit [LinearOrder β] in
theorem all_settle (last : Run α) (rest : List (Run α)) :
    Run.all (settle less depth patience last rest).runs = last.items + Run.all rest := by
  induction rest generalizing last patience with
  | nil => simp [settle]
  | cons before rest ih =>
      unfold settle
      split
      · dsimp only
        rw [ih, coe_join, Run.all_cons]
        abel
      · simp

omit [LinearOrder β] in
theorem length_settle (last : Run α) (rest : List (Run α)) :
    (settle less depth patience last rest).runs.length ≤ rest.length + 1 := by
  induction rest generalizing last patience with
  | nil => exact Nat.le_refl _
  | cons before rest ih =>
      unfold settle
      split
      · exact Nat.le_trans (ih _) (Nat.le_succ _)
      · exact Nat.le_refl _

theorem inOrder_settle (horders : Orders less p key) {last : Run α} {rest : List (Run α)}
    (hlast : InOrder p key last.items) (hrest : ∀ run ∈ rest, InOrder p key run.items) :
    ∀ run ∈ (settle less depth patience last rest).runs, InOrder p key run.items := by
  induction rest generalizing last patience with
  | nil =>
      intro run hrun
      rw [List.mem_singleton.mp hrun]
      exact hlast
  | cons before rest ih =>
      have hbefore := hrest before (List.mem_cons_self ..)
      unfold settle
      split
      · exact ih (inOrder_join horders _ hbefore hlast)
          fun run hrun => hrest run (List.mem_cons_of_mem before hrun)
      · intro run hrun
        rcases List.mem_cons.mp hrun with rfl | hrun
        · exact hlast
        · exact hrest run hrun

omit [LinearOrder β] in
theorem all_push (pile : Pile α) (items : List α) :
    Run.all (push less size pile items).runs = Run.all pile.runs + items := by
  unfold push
  split
  · rename_i hnil
    simp [hnil]
  · rename_i last rest hcons
    dsimp only
    rw [Run.all_cons, all_settle, hcons, Run.all_cons]
    exact add_comm _ _

omit [LinearOrder β] in
theorem length_push (pile : Pile α) (items : List α) :
    (push less size pile items).runs.length ≤ pile.runs.length + 1 := by
  unfold push
  split
  · simp
  · rename_i last rest hcons
    rw [hcons]
    exact Nat.succ_le_succ (length_settle last rest)

theorem inOrder_push (horders : Orders less p key) {pile : Pile α} {items : List α}
    (hpile : ∀ run ∈ pile.runs, InOrder p key run.items) (hitems : InOrder p key items) :
    ∀ run ∈ (push less size pile items).runs, InOrder p key run.items := by
  unfold push
  split
  · intro run hrun
    rw [List.mem_singleton.mp hrun]
    exact hitems
  · rename_i last rest hcons
    rw [hcons] at hpile
    intro run hrun
    rcases List.mem_cons.mp hrun with rfl | hrun
    · exact hitems
    · exact inOrder_settle horders (hpile last (List.mem_cons_self ..))
        (fun run hrun => hpile run (List.mem_cons_of_mem last hrun)) run hrun

omit [LinearOrder β] in
/-- With fuel for all its runs, a pile is merged as a whole. -/
theorem coe_collapse {pile : Pile α} (hfuel : pile.runs.length ≤ fuel) :
    (collapse less fuel pile : Multiset α) = Run.all pile.runs := by
  induction fuel generalizing pile with
  | zero =>
      rw [List.length_eq_zero_iff.mp (Nat.le_zero.mp hfuel)]
      rfl
  | succ fuel ih =>
      unfold collapse
      split
      · rename_i hruns
        rw [hruns]
        rfl
      · rename_i run hruns
        simp [hruns]
      · rename_i b a hruns
        rw [coe_join, hruns, Run.all_cons, Run.all_cons, Run.all_nil]
        abel
      · rename_i c b a rest hruns
        rw [hruns] at hfuel ⊢
        simp only [List.length_cons] at hfuel
        split
        · dsimp only
          rw [ih (by simp only [List.length_cons]; omega)]
          simp only [Run.all_cons, coe_join]
          abel
        · dsimp only
          rw [ih (by simp only [List.length_cons]; omega)]
          simp only [Run.all_cons, coe_join]
          abel

theorem inOrder_collapse (horders : Orders less p key) {pile : Pile α}
    (hpile : ∀ run ∈ pile.runs, InOrder p key run.items) :
    InOrder p key (collapse less fuel pile) := by
  induction fuel generalizing pile with
  | zero => exact ⟨by simp [collapse], .nil⟩
  | succ fuel ih =>
      unfold collapse
      split
      · exact ⟨by simp, .nil⟩
      · rename_i run hruns
        exact hpile run (by simp [hruns])
      · rename_i b a hruns
        exact inOrder_join horders _ (hpile a (by simp [hruns])) (hpile b (by simp [hruns]))
      · rename_i c b a rest hruns
        rw [hruns] at hpile
        simp only [List.mem_cons, forall_eq_or_imp] at hpile
        obtain ⟨hc, hb, ha, hrest⟩ := hpile
        split
        · refine ih ?_
          simp only [List.mem_cons, forall_eq_or_imp]
          exact ⟨hc, inOrder_join horders _ ha hb, hrest⟩
        · refine ih ?_
          simp only [List.mem_cons, forall_eq_or_imp]
          exact ⟨inOrder_join horders _ hb hc, ha, hrest⟩

end

end Pile

/-! ## The whole list -/

section

variable {size least fuel : Nat}

/-- What is put on a pile next: the run at the front of a list, extended by insertion. -/
theorem inOrder_extended (horders : Orders less p key) {l : List α} (hl : ∀ x ∈ l, p x) (n : Nat) :
    InOrder p key (((splitRun less l).2.take n).foldl (insert less) (splitRun less l).1) :=
  (inOrder_splitRun horders hl).foldl_insert horders fun x hx =>
    hl x ((splitRun_perm less l).subset (List.mem_append_right _ (List.mem_of_mem_take hx)))

omit [LinearOrder β] in
theorem coe_extended (less : α → α → Bool) (l : List α) (n : Nat) :
    ((((splitRun less l).2.take n).foldl (insert less) (splitRun less l).1 : List α) : Multiset α)
      + (splitRun less l).2.drop n = l := by
  rw [coe_foldl_insert, add_assoc, Multiset.coe_add, List.take_append_drop, Multiset.coe_add]
  exact Multiset.coe_eq_coe.mpr (splitRun_perm less l)

omit [LinearOrder β] in
theorem length_rest_lt (less : α → α → Bool) {l : List α} (h : l ≠ []) (n : Nat) :
    ((splitRun less l).2.drop n).length < l.length := by
  have hlength := (splitRun_perm less l).length_eq
  have hpos := List.length_pos_iff.mpr (splitRun_ne_nil less h)
  rw [List.length_append] at hlength
  rw [List.length_drop]
  omega

omit [LinearOrder β] in
theorem all_pileUp {pile : Pile α} {l : List α} (hfuel : l.length ≤ fuel) :
    Run.all (pileUp less size least fuel pile l).runs = Run.all pile.runs + l := by
  induction fuel generalizing pile l with
  | zero =>
      rw [List.length_eq_zero_iff.mp (Nat.le_zero.mp hfuel)]
      simp [pileUp]
  | succ fuel ih =>
      cases l with
      | nil => simp [pileUp]
      | cons x rest =>
          have hlt := length_rest_lt less (List.cons_ne_nil x rest)
            (least - (splitRun less (x :: rest)).1.length)
          unfold pileUp
          dsimp only
          rw [ih (by omega), Pile.all_push, add_assoc, coe_extended]

omit [LinearOrder β] in
theorem length_pileUp {pile : Pile α} {l : List α} :
    (pileUp less size least fuel pile l).runs.length ≤ pile.runs.length + l.length := by
  induction fuel generalizing pile l with
  | zero => exact Nat.le_add_right _ _
  | succ fuel ih =>
      cases l with
      | nil => exact Nat.le_refl _
      | cons x rest =>
          have hlt := length_rest_lt less (List.cons_ne_nil x rest)
            (least - (splitRun less (x :: rest)).1.length)
          unfold pileUp
          dsimp only
          refine Nat.le_trans ih ?_
          refine Nat.le_trans (Nat.add_le_add_right (Pile.length_push _ _) _) ?_
          omega

theorem inOrder_pileUp (horders : Orders less p key) {pile : Pile α} {l : List α}
    (hpile : ∀ run ∈ pile.runs, InOrder p key run.items) (hl : ∀ x ∈ l, p x) :
    ∀ run ∈ (pileUp less size least fuel pile l).runs, InOrder p key run.items := by
  induction fuel generalizing pile l with
  | zero => exact hpile
  | succ fuel ih =>
      cases l with
      | nil => exact hpile
      | cons x rest =>
          unfold pileUp
          refine ih (Pile.inOrder_push horders hpile (inOrder_extended horders hl _)) fun y hy => ?_
          exact hl y ((splitRun_perm less _).subset
            (List.mem_append_right _ (List.mem_of_mem_drop hy)))

end

omit [LinearOrder β] in
/-- **Sorting by runs keeps all elements**, whatever relation it is by. -/
theorem byRuns_perm (less : α → α → Bool) (l : List α) : (byRuns less l).Perm l := by
  rw [← Multiset.coe_eq_coe]
  unfold byRuns
  dsimp only
  rw [Pile.coe_collapse, all_pileUp (Nat.le_refl _)]
  · simp
  · refine Nat.le_trans length_pileUp ?_
    simp

/-- **Sorting by runs sorts**, if the relation is the order of some keys. -/
theorem inOrder_byRuns (horders : Orders less p key) {l : List α} (hl : ∀ x ∈ l, p x) :
    InOrder p key (byRuns less l) :=
  Pile.inOrder_collapse horders (inOrder_pileUp horders (by simp) hl)

end CharacterBuild.Sorting
