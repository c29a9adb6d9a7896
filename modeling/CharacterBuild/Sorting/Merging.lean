import CharacterBuild.Sorting.Search

set_option autoImplicit false

/-! # Merging two lists in order

Two lists in order are merged into one, the elements of the first list before those of the
second that they are not ordered with. The list that is not longer is held, the other one is
free. Elements are moved one by one until one list has won so often in a row that it is worth
counting by strides how many of its elements come next. How often that is, the patience, is
carried from one merging to the next: it falls while strides pay and rises when they do not.
-/

namespace CharacterBuild.Sorting

variable {α : Type}

/-- Two lists on their way into one. -/
structure Merging (α : Type) where
  /-- What has been moved, the last one first. -/
  moved : List α
  /-- The list whose last element ends the merging. -/
  held : List α
  free : List α

namespace Merging

/-- Nothing is to be compared any more. -/
def isOver (m : Merging α) : Bool := m.free.isEmpty || m.held.length ≤ 1

/-- The merged list once the merging is over. -/
def result (m : Merging α) : List α := m.moved.reverse ++ m.free ++ m.held

/-- Move the first `n` elements of the list that is held. -/
def moveHeld (m : Merging α) (n : Nat) : Merging α :=
  ⟨(m.held.take n).reverse ++ m.moved, m.held.drop n, m.free⟩

/-- Move the first `n` elements of the list that is free. -/
def moveFree (m : Merging α) (n : Nat) : Merging α :=
  ⟨(m.free.take n).reverse ++ m.moved, m.held, m.free.drop n⟩

end Merging

/-- How two lists are merged. -/
structure Manner (α : Type) where
  /-- Whether an element of the free list goes before one of the list that is held. -/
  freeFirst : α → α → Bool
  middle : Middle
  /-- A round starts with the list that is held. -/
  heldLeads : Bool

/-- Merging from the front on: the first list is held. -/
def Manner.forward (less : α → α → Bool) : Manner α :=
  ⟨fun free held => less free held, .upper, true⟩

/-- Merging from the back on: the second list is held, and both are turned around. -/
def Manner.backward (less : α → α → Bool) : Manner α :=
  ⟨fun free held => less held free, .lower, false⟩

namespace Manner

/-- Move the elements that are held and go before the next free one, and then this one. The
count is of the former. -/
def passHeld (manner : Manner α) (m : Merging α) : Merging α × Nat :=
  match m.free with
  | [] => (m, 0)
  | next :: _ =>
    let n := countByStrides manner.middle (fun h => !manner.freeFirst next h) m.held
    let m := m.moveHeld n
    (if m.isOver then m else m.moveFree 1, n)

/-- Move the free elements that go before the next one that is held, and then this one. The
count is of the former. -/
def passFree (manner : Manner α) (m : Merging α) : Merging α × Nat :=
  match m.held with
  | [] => (m, 0)
  | next :: _ =>
    let n := countByStrides manner.middle (fun f => manner.freeFirst f next) m.free
    let m := m.moveFree n
    (if m.isOver then m else m.moveHeld 1, n)

/-- One round of strides over both lists, with the greater one of the two counts. -/
def round (manner : Manner α) (m : Merging α) : Merging α × Nat :=
  let (first, second) :=
    if manner.heldLeads then (manner.passHeld, manner.passFree)
    else (manner.passFree, manner.passHeld)
  let (m, n) := first m
  if m.isOver then (m, n)
  else
    let (m, k) := second m
    (m, max n k)

/-- The patience at the start, and the count that makes strides worth while. -/
def patienceAtFirst : Nat := 7

mutual

/-- Move elements one by one. `heldRun` and `freeRun` say how often in a row each list has won,
`fuel` bounds how many elements are moved. -/
def stepwise (manner : Manner α) : (fuel patience heldRun freeRun : Nat) → Merging α →
    Merging α × Nat
  | 0, patience, _, _, m => (m, patience)
  | fuel + 1, patience, heldRun, freeRun, m =>
    match m.held, m.free with
    | held :: _, free :: _ =>
      if manner.freeFirst free held then
        let m := m.moveFree 1
        if m.isOver then (m, patience)
        else if patience ≤ freeRun + 1 then rounds manner fuel patience m
        else stepwise manner fuel patience 0 (freeRun + 1) m
      else
        let m := m.moveHeld 1
        if m.isOver then (m, patience)
        else if patience ≤ heldRun + 1 then rounds manner fuel patience m
        else stepwise manner fuel patience (heldRun + 1) 0 m
    | _, _ => (m, patience)

/-- Move elements in rounds, as long as they are worth while. -/
def rounds (manner : Manner α) : (fuel patience : Nat) → Merging α → Merging α × Nat
  | 0, patience, m => (m, patience)
  | fuel + 1, patience, m =>
    let (m, n) := manner.round m
    if m.isOver then (m, patience)
    else if patienceAtFirst ≤ n then rounds manner fuel (max 1 (patience - 1)) m
    else stepwise manner fuel (patience + 1) 0 0 m

end

/-- The whole of two lists whose first free element goes first, with the patience after it. -/
def run (manner : Manner α) (patience : Nat) (held free : List α) : List α × Nat :=
  let m := (Merging.mk [] held free).moveFree 1
  if m.isOver then (m.result, patience)
  else
    let (m, patience) := manner.stepwise (held.length + free.length) patience 0 0 m
    (m.result, patience)

end Manner

/-- Two lists in order merged into one, with the patience after it. The front of the first list
and the back of the second one that are in place already take no part. -/
def merge (less : α → α → Bool) (patience : Nat) (a b : List α) : List α × Nat :=
  match b.head? with
  | none => (a, patience)
  | some first =>
    let front := countByStrides .upper (fun x => !less first x) a
    let restOfA := a.drop front
    match restOfA.getLast? with
    | none => (a ++ b, patience)
    | some last =>
      let back := countByStrides .lower (fun x => !less x last) b.reverse
      let restOfB := b.take (b.length - back)
      if restOfB.isEmpty then (a ++ b, patience)
      else
        let (merged, patience) :=
          if restOfA.length ≤ restOfB.length then
            (Manner.forward less).run patience restOfA restOfB
          else
            let (turned, patience) :=
              (Manner.backward less).run patience restOfB.reverse restOfA.reverse
            (turned.reverse, patience)
        (a.take front ++ merged ++ b.drop (b.length - back), patience)

end CharacterBuild.Sorting
