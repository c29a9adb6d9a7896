import CharacterBuild.Sorting.Merging

set_option autoImplicit false

/-! # Sorting by runs

A list is sorted by merging the runs that it holds already: stretches in order, and stretches in
strictly descending order, which are turned around. A run that is too short takes in the
elements after it by insertion. Runs are merged as soon as the boundary between them lies deeper
in the halving of the whole list than the next boundary, so that few elements move often.

Elements that are not ordered with each other keep their places, if all others agree on where
they belong. Some relations are no order, though: what is not a number is less than nothing, and
nothing is less than it. Then the outcome depends on which elements are compared, and this file
fixes that as well.
-/

namespace CharacterBuild.Sorting

variable {α : Type}

/-- The elements after `last` up to the first one that does not follow on the one before it. -/
def splitFollowing (follows : α → α → Bool) : (last : α) → List α → List α × List α
  | _, [] => ([], [])
  | last, x :: rest =>
    if follows last x then
      let (run, others) := splitFollowing follows x rest
      (x :: run, others)
    else ([], x :: rest)

/-- The run at the front of a list in ascending order, and what follows it. -/
def splitRun (less : α → α → Bool) : List α → List α × List α
  | [] => ([], [])
  | [x] => ([x], [])
  | x :: y :: rest =>
    if less y x then
      let (run, others) := splitFollowing (fun last z => less z last) y rest
      ((x :: y :: run).reverse, others)
    else
      let (run, others) := splitFollowing (fun last z => !less z last) y rest
      (x :: y :: run, others)

/-- A run with an element put after the last one that it is not less than. -/
def insert (less : α → α → Bool) (run : List α) (x : α) : List α :=
  let n := countByHalving .upper (fun y => !less x y) run
  run.take n ++ x :: run.drop n

/-- The length up to which short runs are extended in a list of a length: the length halved
until it is below sixty-four, rounded up. `fuel` bounds how often. -/
def leastRun : (fuel length : Nat) → Nat
  | 0, length => length
  | fuel + 1, length =>
    if length < 64 then length
    else if length % 2 = 0 then leastRun fuel (length / 2)
    else leastRunUp fuel (length / 2)
where
  /-- The same, with one more for what was cut off. -/
  leastRunUp : (fuel length : Nat) → Nat
    | 0, length => length + 1
    | fuel + 1, length => if length < 64 then length + 1 else leastRunUp fuel (length / 2)

/-- A run of the list that is sorted. -/
structure Run (α : Type) where
  /-- How many elements of the list come before it. -/
  start : Nat
  items : List α
  /-- The depth of its boundary with the next run. -/
  depth : Nat

/-- The depth in the halving of `size` places at which two middles part, given as twice their
distances from the start. `fuel` bounds the depth. -/
def partingDepth (size : Nat) : (fuel a b : Nat) → Nat
  | 0, _, _ => 0
  | fuel + 1, a, b =>
    if size ≤ a then partingDepth size fuel (2 * (a - size)) (2 * (b - size)) + 1
    else if size ≤ b then 1
    else partingDepth size fuel (2 * a) (2 * b) + 1

/-- The depth of the boundary between a run and the next one, of a length, in a list of `size`
elements. -/
def Run.boundary (run : Run α) (size length : Nat) : Nat :=
  let a := 2 * run.start + run.items.length
  partingDepth size (size + 1) a (a + run.items.length + length)

/-- Runs in the order from the last one back to the first one, with the patience of merging. -/
structure Pile (α : Type) where
  runs : List (Run α)
  patience : Nat

namespace Pile

/-- Two neighbouring runs merged into one. -/
def join (less : α → α → Bool) (patience : Nat) (a b : Run α) : Run α × Nat :=
  let (items, patience) := merge less patience a.items b.items
  (⟨a.start, items, a.depth⟩, patience)

/-- The pile with its last runs merged as long as their boundary is deeper than `depth`. -/
def settle (less : α → α → Bool) (depth patience : Nat) (last : Run α) :
    List (Run α) → Pile α
  | [] => ⟨[⟨last.start, last.items, depth⟩], patience⟩
  | before :: rest =>
    if depth < before.depth then
      let (joined, patience) := join less patience before last
      settle less depth patience joined rest
    else ⟨⟨last.start, last.items, depth⟩ :: before :: rest, patience⟩

/-- The pile with a run put on it. -/
def push (less : α → α → Bool) (size : Nat) (pile : Pile α) (items : List α) : Pile α :=
  match pile.runs with
  | [] => ⟨[⟨0, items, 0⟩], pile.patience⟩
  | last :: rest =>
    let settled := settle less (last.boundary size items.length) pile.patience last rest
    ⟨⟨last.start + last.items.length, items, 0⟩ :: settled.runs, settled.patience⟩

/-- All runs of a pile merged into one list, the smaller neighbour of the last run but one
first. `fuel` bounds how many runs there are. -/
def collapse (less : α → α → Bool) : (fuel : Nat) → Pile α → List α
  | 0, _ => []
  | fuel + 1, pile =>
    match pile.runs with
    | [] => []
    | [run] => run.items
    | [b, a] => (join less pile.patience a b).1.items
    | c :: b :: a :: rest =>
      if a.items.length < c.items.length then
        let (joined, patience) := join less pile.patience a b
        collapse less fuel ⟨c :: joined :: rest, patience⟩
      else
        let (joined, patience) := join less pile.patience b c
        collapse less fuel ⟨joined :: a :: rest, patience⟩

end Pile

/-- The pile of the runs of a list of `size` elements, each of at least `least` of them if there
are so many. `fuel` bounds how many runs there are. -/
def pileUp (less : α → α → Bool) (size least : Nat) : (fuel : Nat) → Pile α → List α → Pile α
  | 0, pile, _ => pile
  | _, pile, [] => pile
  | fuel + 1, pile, l =>
    let (run, rest) := splitRun less l
    let missing := least - run.length
    let run := (rest.take missing).foldl (insert less) run
    pileUp less size least fuel (pile.push less size run) (rest.drop missing)

/-- A list in ascending order by a relation that says which elements are less than others. -/
def byRuns (less : α → α → Bool) (l : List α) : List α :=
  let size := l.length
  let pile := pileUp less size (leastRun size size) size ⟨[], Manner.patienceAtFirst⟩ l
  pile.collapse less (size + 1)

end CharacterBuild.Sorting
