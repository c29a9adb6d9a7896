import CharacterBuild.Build.Violation

set_option autoImplicit false

/-! # Faults

Why an operation could not be carried out. The first faults lie in the data: they come up
when values are read, and have no wording of their own. The others are refusals of the library,
each with its message.
-/

namespace CharacterBuild

/-- Why an operation could not be carried out. -/
inductive Fault (ν : Type) where
  /-- An object lacks a member. -/
  | missingMember
  /-- A value is of a kind that the use does not admit. -/
  | wrongKind
  /-- A text or number does not say what is asked for, has too many digits for it, or cannot be put
  out. -/
  | unreadable
  /-- A number is too large. -/
  | outOfRange
  /-- Members are asked of what is not an object. -/
  | notAnObject
  /-- A file does not hold a well-formed document. -/
  | malformedDocument
  /-- A file holds a document that is not an object. -/
  | documentNotObject (file : Text)
  /-- A build is restored after it was changed. -/
  | restoredLate
  /-- A build is restored at a level outside the range of levels. -/
  | restoredOutside (least most : Int) (level : Level ν)
  /-- A target level is not a whole number. -/
  | levelNotWhole (given : Value ν)
  /-- A field may not be set directly. -/
  | fieldProtected (name : Text)
  /-- An update names unknown fields. -/
  | changesUnknown (names : List (Atom ν))
  /-- A payload names unknown fields. -/
  | payloadUnknown (names : List (Atom ν))
  /-- A change would leave the state with violations. -/
  | violated (problems : List (Violation ν))
  /-- The selections are changed while listeners are told of a change. -/
  | busy
  /-- A field is replaced while listeners are told of a change. -/
  | fieldBusy (field : Text)
  deriving Repr

namespace Fault

variable {ν : Type}

/-- A reader skips an entry with such a fault and goes on with the next one. -/
def isSkipped : Fault ν → Bool
  | missingMember | wrongKind | unreadable => true
  | _ => false

variable [Number ν]

/-- The message of a refusal; the faults of data have none. -/
def message? : Fault ν → Option Text
  | documentNotObject file => some (file ++ ": expected a JSON object")
  | restoredLate => some "populate() must be called before any other mutation"
  | restoredOutside least most level =>
    some ("Original level must be " ++ toString least ++ ".." ++ toString most ++ ", got " ++
      level.shown)
  | levelNotWhole given => some ("Target level must be an int, got " ++ given.shown)
  | fieldProtected name => some ("Field " ++ Text.quoted name ++ " cannot be set directly")
  | changesUnknown names =>
    some ("Cannot update selection fields: " ++ (Value.list (names.map .atom)).shown)
  | payloadUnknown names =>
    some ("Unsupported selection payload fields: " ++ (Value.list (names.map .atom)).shown)
  | violated problems => some (Text.join "; " (problems.map Violation.message))
  | busy => some "Selections cannot be changed from inside a change listener"
  | fieldBusy field =>
    some ("Cannot change " ++ Text.quoted field ++ " from inside a change listener")
  | _ => none

/-- A phrase for any fault: its message, or what is wrong with the data. -/
def phrase (fault : Fault ν) : Text :=
  match fault.message? with
  | some message => message
  | none =>
    match fault with
    | missingMember => "a member is missing"
    | wrongKind => "a value is of the wrong kind"
    | unreadable => "a value cannot be read or written"
    | outOfRange => "a number is too large"
    | notAnObject => "an object is expected"
    | _ => "the document is malformed"

end Fault

end CharacterBuild
