import CharacterBuild.Sorting.Runs
import CharacterBuild.Value.Reading

set_option autoImplicit false

/-! # The order of atoms

Amounts and truth values have an order by size, texts by their code points; the two sorts have
no common order, and null has none at all.
-/

namespace CharacterBuild

namespace Atom

variable {ν : Type} [Number ν]

/-- Whether an atom is a text. -/
def isText : Atom ν → Bool
  | text _ => true
  | _ => false

/-- Whether the first of two atoms of one sort comes before the second. -/
def isBefore (a b : Atom ν) : Bool :=
  match a, b with
  | text s, text t => s < t
  | _, _ =>
    match a.amount?, b.amount? with
    | some x, some y => x < y
    | _, _ => false

/-- Whether atoms can be put in order: there is at most one, or all are of one sort. -/
def haveOrder (atoms : List (Atom ν)) : Bool :=
  atoms.length ≤ 1 || atoms.all isText || atoms.all fun a => a.amount?.isSome

/-- Atoms in ascending order, equal ones in the order in which they stand. What is not a number
comes before nothing and after nothing, and stands wherever the sorting leaves it. -/
def sort (atoms : List (Atom ν)) : Except (Fault ν) (List (Atom ν)) :=
  if haveOrder atoms then .ok (Sorting.byRuns isBefore atoms) else .error .wrongKind

end Atom

end CharacterBuild
