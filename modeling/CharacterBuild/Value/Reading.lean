import CharacterBuild.Distinct
import CharacterBuild.Trace.Fault

set_option autoImplicit false

/-! # Reading values

What can be asked of a value of any shape: a whole number, a number with a fraction, its items,
a member. A value of the wrong kind, an absent member, an unreadable text and a number that is
too large are told apart as faults.
-/

namespace CharacterBuild

namespace Value

variable {ν : Type}

/-- The whole numbers `1` and `0` for the two truth values. -/
def ofBool (b : Bool) : Int := if b then 1 else 0

/-- The members of an object. -/
def members : Value ν → Except (Fault ν) (Members ν)
  | object ms => .ok ms
  | _ => .error .notAnObject

/-- The member of a name, or null if there is none. -/
def memberOrNull (name : Text) (ms : Members ν) : Value ν := (lookup name ms).getD null

/-- The member of a name of an object that has to have it. -/
def member (name : Text) : Value ν → Except (Fault ν) (Value ν)
  | object ms =>
    match lookup name ms with
    | some v => .ok v
    | none => .error .missingMember
  | _ => .error .wrongKind

/-- What a value is made of, one by one: the items of a list, the names of an object's members,
the code points of a text. -/
def elements : Value ν → Except (Fault ν) (List (Value ν))
  | list items => .ok items
  | object ms => .ok (ms.map fun m => text m.1)
  | text s => .ok (s.points.map fun c => text ⟨[c]⟩)
  | _ => .error .wrongKind

/-- The atom that a value is, if it may stand as a key. -/
def key : Value ν → Except (Fault ν) (Atom ν)
  | .atom a => .ok a
  | _ => .error .wrongKind

variable [Number ν]

/-- The whole number that a value stands for. A fraction is cut off, a text is read. -/
def toWhole : Value ν → Except (Fault ν) Int
  | whole n => .ok n
  | real x =>
    match Number.truncate x with
    | .whole n => .ok n
    | .infinite => .error .outOfRange
    | .nan => .error .unreadable
  | bool b => .ok (ofBool b)
  | text s =>
    match Numeral.readWhole? s with
    | some n => .ok n
    | none => .error .unreadable
  | _ => .error .wrongKind

/-- The number with a fraction that a value stands for. -/
def toReal : Value ν → Except (Fault ν) ν
  | whole n =>
    match Number.ofInt? n with
    | some x => .ok x
    | none => .error .outOfRange
  | real x => .ok x
  | bool b =>
    match Number.ofInt? (ofBool b) with
    | some x => .ok x
    | none => .error .outOfRange
  | text s =>
    match Numeral.read? s with
    | some n => .ok (Number.ofNumeral n)
    | none => .error .unreadable
  | _ => .error .wrongKind

/-- A whole number that may be left out; a truth value counts as left out. -/
def toWhole? : Value ν → Except (Fault ν) (Option Int)
  | null | bool _ => .ok none
  | v => v.toWhole.map some

/-- A truth value that may be left out. -/
def toFlag? : Value ν → Option Bool
  | null => none
  | v => some v.isTrue

/-- The texts of the items of a list; anything else holds none. -/
def texts : Value ν → List Text
  | list items => items.map str
  | _ => []

/-- Whether the code points `s` stand side by side in a text. -/
def occursIn (s : List CodePoint) : List CodePoint → Bool
  | [] => s.isEmpty
  | c :: cs => s.isPrefixOf (c :: cs) || occursIn s cs

/-- Whether the text `s` is among what a value is made of: a member's name, an item, or a part
of a text. -/
def has (s : Text) : Value ν → Except (Fault ν) Bool
  | object ms => .ok (lookup s ms).isSome
  | list items => .ok ((text s).isIn items)
  | text t => .ok (occursIn s.points t.points)
  | _ => .error .wrongKind

/-- The amount that a value counts as in a sum. -/
def toAmount : Value ν → Except (Fault ν) (Amount ν)
  | .atom a =>
    match a.amount? with
    | some x => .ok x
    | none => .error .wrongKind
  | _ => .error .wrongKind

/-- The keys of a value's elements, each once, in the order of their first occurrence. -/
def distinctKeys (v : Value ν) : Except (Fault ν) (List (Atom ν)) := do
  let atoms ← (← v.elements).mapM key
  .ok (firstsBy Atom.alike atoms)

/-- A pair of a key and a value, as a value of two elements. -/
def pair (v : Value ν) : Except (Fault ν) (Atom ν × Value ν) := do
  match ← v.elements with
  | [k, x] => .ok (← k.key, x)
  | _ => .error .unreadable

/-- The keys with their values that a value stands for: the members of an object, or a sequence
of pairs. -/
def pairs : Value ν → Except (Fault ν) (List (Atom ν × Value ν))
  | object ms => .ok (ms.map fun m => (.text m.1, m.2))
  | v => do (← v.elements).mapM pair

end Value

end CharacterBuild
