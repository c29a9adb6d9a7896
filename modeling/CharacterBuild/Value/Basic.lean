import CharacterBuild.Number.Amount

set_option autoImplicit false

/-! # Values

Catalogs, saved builds and the free fields of a build are made of values: nothing, truth
values, amounts, texts, lists, and objects with named members in a fixed order. Two values are
alike when they are equal as data: numbers by their size, with a truth value counting as one or
zero, objects whatever the order of their members, and what is not a number only if it is one
occurrence. They are the same under one condition more: neither is itself what is not a number,
though it may be part of them.
-/

namespace CharacterBuild

/-- A value without parts. -/
inductive Atom (ν : Type) where
  | null
  | bool (b : Bool)
  | number (a : Amount ν)
  | text (s : Text)
  deriving DecidableEq, Repr

/-- Data of any shape. -/
inductive Value (ν : Type) where
  | atom (a : Atom ν)
  | list (items : List (Value ν))
  | object (members : List (Text × Value ν))
  deriving Repr

instance {ν : Type} : Inhabited (Atom ν) := ⟨.null⟩

instance {ν : Type} : Inhabited (Value ν) := ⟨.atom .null⟩

/-- The members of an object. -/
abbrev Members (ν : Type) : Type := List (Text × Value ν)

namespace Atom

variable {ν : Type} [Number ν]

/-- The amount that a truth value or a number counts as. -/
def amount? : Atom ν → Option (Amount ν)
  | bool b => some (.whole (if b then 1 else 0))
  | number a => some a
  | _ => none

/-- Equality of atoms as data. -/
def same (a b : Atom ν) : Bool :=
  match a, b with
  | null, null => true
  | text s, text t => s = t
  | _, _ =>
    match a.amount?, b.amount? with
    | some x, some y => x.same y
    | _, _ => false

/-- Whether two atoms are one occurrence of what is not a number. -/
def coincides : Atom ν → Atom ν → Bool
  | number x, number y => x.coincides y
  | _, _ => false

/-- Equality of atoms as data, where what is not a number is like its own occurrence. -/
def alike (a b : Atom ν) : Bool := a.same b || a.coincides b

/-- Keys are told apart as data. -/
instance : BEq (Atom ν) := ⟨alike⟩

/-- An atom counts as true unless it is null, false, zero or the empty text. -/
def isTrue : Atom ν → Bool
  | null => false
  | bool b => b
  | number a => a.isTrue
  | text s => s ≠ ""

end Atom

namespace Value

variable {ν : Type}

/-- The absent value. -/
@[match_pattern] abbrev null : Value ν := .atom .null

/-- A truth value. -/
@[match_pattern] abbrev bool (b : Bool) : Value ν := .atom (.bool b)

/-- An amount of either sort. -/
@[match_pattern] abbrev number (a : Amount ν) : Value ν := .atom (.number a)

/-- A whole number. -/
@[match_pattern] abbrev whole (n : Int) : Value ν := .atom (.number (.whole n))

/-- A number with a fraction. -/
@[match_pattern] abbrev real (x : ν) : Value ν := .atom (.number (.real x))

/-- A text. -/
@[match_pattern] abbrev text (s : Text) : Value ν := .atom (.text s)

/-- Whether the value is absent. -/
def isNull : Value ν → Bool
  | null => true
  | _ => false

/-- Whether the value is the text `s`. -/
def isText (s : Text) : Value ν → Bool
  | text t => t = s
  | _ => false

/-- The member of a name in a list of members. -/
def lookup (name : Text) (members : Members ν) : Option (Value ν) :=
  (members.find? fun m => m.1 = name).map Prod.snd

@[simp] theorem isText_text (s t : Text) : (text t : Value ν).isText s = decide (t = s) := rfl

@[simp] theorem isNull_text (s : Text) : (text s : Value ν).isNull = false := rfl

theorem isNull_iff {v : Value ν} : v.isNull = true ↔ v = null := by
  cases v with
  | atom a => cases a <;> simp [isNull]
  | list items => simp [isNull]
  | object members => simp [isNull]

theorem isText_iff {s : Text} {v : Value ν} : v.isText s = true ↔ v = text s := by
  cases v with
  | atom a => cases a <;> simp [isText]
  | list items => simp [isText]
  | object members => simp [isText]

variable [Number ν]

mutual

/-- Equality of values as data, where what is not a number is like its own occurrence. -/
def alike : Value ν → Value ν → Bool
  | .atom a, .atom b => a.alike b
  | .list xs, .list ys => alikeItems xs ys
  | .object ms, .object ns => ms.length = ns.length && alikeMembers ms ns
  | _, _ => false

/-- Equality of two lists, item by item. -/
def alikeItems : List (Value ν) → List (Value ν) → Bool
  | [], [] => true
  | x :: xs, y :: ys => alike x y && alikeItems xs ys
  | _, _ => false

/-- Whether every member has a like value in the second object. -/
def alikeMembers : Members ν → Members ν → Bool
  | [], _ => true
  | (name, x) :: rest, ns =>
    (match lookup name ns with
      | some y => alike x y
      | none => false) && alikeMembers rest ns

end

/-- Equality of values as data, where what is not a number equals nothing. -/
def same : Value ν → Value ν → Bool
  | .atom a, .atom b => a.same b
  | v, w => v.alike w

/-- A value counts as true unless it is null, false, zero or empty. -/
def isTrue : Value ν → Bool
  | .atom a => a.isTrue
  | .list items => !items.isEmpty
  | .object members => !members.isEmpty

/-- The first of two values that counts as true, or else the second one. -/
def orElse (v w : Value ν) : Value ν := if v.isTrue then v else w

/-- Whether a list holds a like value. -/
def isIn (v : Value ν) (items : List (Value ν)) : Bool := items.any v.alike

end Value

end CharacterBuild
