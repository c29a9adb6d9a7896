import CharacterBuild.Value.Shown

set_option autoImplicit false

/-! # Levels

A build grows level by level. Levels are whole, but a restored build may give its level as any
number or as a truth value that stands for one or zero; it is kept as it was given, and levels
are compared as amounts.
-/

namespace CharacterBuild

/-- The level of a build. -/
inductive Level (ν : Type) where
  /-- A whole level. -/
  | whole (n : Int)
  /-- A level with a fraction. -/
  | real (x : ν)
  /-- A truth value that stands for level one or zero. -/
  | flag (b : Bool)
  deriving DecidableEq, Repr

namespace Level

variable {ν : Type}

instance : Coe Int (Level ν) := ⟨whole⟩

/-- The level as an amount. -/
def amount : Level ν → Amount ν
  | whole n => .whole n
  | real x => .real x
  | flag b => .whole (if b then 1 else 0)

/-- The level as a value. -/
def toValue : Level ν → Value ν
  | whole n => .whole n
  | real x => .real x
  | flag b => .bool b

/-- The level that a value stands for, if it stands for one. -/
def ofValue? : Value ν → Option (Level ν)
  | .whole n => some (whole n)
  | .real x => some (real x)
  | .bool b => some (flag b)
  | _ => none

variable [Number ν]

instance : LT (Level ν) := ⟨fun a b => a.amount < b.amount⟩

instance : LE (Level ν) := ⟨fun a b => a.amount ≤ b.amount⟩

instance (a b : Level ν) : Decidable (a < b) := inferInstanceAs (Decidable (a.amount < b.amount))

instance (a b : Level ν) : Decidable (a ≤ b) := inferInstanceAs (Decidable (a.amount ≤ b.amount))

/-- Whether two levels are equal as amounts. -/
def same (a b : Level ν) : Bool := a.amount.same b.amount

/-- The level as a message shows it. -/
def shown (l : Level ν) : Text := l.toValue.shown

/-- The level as a log counts it, without its fraction. -/
def counted : Level ν → Text
  | whole n => toString n
  | flag b => if b then "1" else "0"
  | real x =>
    match Number.truncate x with
    | .whole n => toString n
    | _ => Number.text x

@[simp] theorem whole_lt_whole {m n : Int} : (whole m : Level ν) < whole n ↔ m < n :=
  Amount.whole_lt_whole

@[simp] theorem whole_le_whole {m n : Int} : (whole m : Level ν) ≤ whole n ↔ m ≤ n :=
  Amount.whole_le_whole

@[simp] theorem whole_same_whole {m n : Int} :
    (whole m : Level ν).same (whole n) = decide (m = n) :=
  Amount.whole_same_whole

end Level

end CharacterBuild
