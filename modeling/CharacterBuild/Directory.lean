set_option autoImplicit false

/-! # Directories

A directory maps keys to values and keeps its entries in the order in which their keys were
first entered. Entering a known key again replaces the value and leaves the entry where it is.
Keys are told apart by `==`, which need not be equality.
-/

namespace CharacterBuild

/-- Entries with pairwise different keys, in the order in which the keys were entered. -/
structure Directory (κ β : Type) [BEq κ] where
  /-- The keys with their values. -/
  entries : List (κ × β)
  /-- No two entries have the same key. -/
  distinct : entries.Pairwise fun a b => (a.1 == b.1) = false

namespace Directory

variable {κ β γ : Type} [BEq κ]

/-- The entries with `k` mapped to `v`. -/
def put (k : κ) (v : β) : List (κ × β) → List (κ × β)
  | [] => [(k, v)]
  | e :: rest => if e.1 == k then (e.1, v) :: rest else e :: put k v rest

theorem key_of_mem_put {k : κ} {v : β} {l : List (κ × β)} {e : κ × β} (h : e ∈ put k v l) :
    e.1 = k ∨ ∃ e' ∈ l, e'.1 = e.1 := by
  induction l with
  | nil => simp [put] at h; simp [h]
  | cons a rest ih =>
    unfold put at h
    split at h
    · rcases List.mem_cons.1 h with rfl | h
      · exact Or.inr ⟨a, by simp⟩
      · exact Or.inr ⟨e, by simp [h], rfl⟩
    · rcases List.mem_cons.1 h with rfl | h
      · exact Or.inr ⟨e, by simp⟩
      · rcases ih h with h | ⟨e', he', h⟩
        · exact Or.inl h
        · exact Or.inr ⟨e', by simp [he'], h⟩

theorem pairwise_put {k : κ} {v : β} {l : List (κ × β)}
    (h : l.Pairwise fun a b => (a.1 == b.1) = false) :
    (put k v l).Pairwise fun a b => (a.1 == b.1) = false := by
  induction l with
  | nil => simp [put]
  | cons a rest ih =>
    obtain ⟨ha, hr⟩ := List.pairwise_cons.1 h
    unfold put
    split
    · exact List.pairwise_cons.2 ⟨ha, hr⟩
    · rename_i hk
      refine List.pairwise_cons.2 ⟨fun e he => ?_, ih hr⟩
      rcases key_of_mem_put he with h | ⟨e', he', h⟩
      · simpa [h] using hk
      · rw [← h]; exact ha e' he'

/-- The directory without entries. -/
def empty : Directory κ β := ⟨[], .nil⟩

instance : Inhabited (Directory κ β) := ⟨empty⟩

/-- The directory with `k` mapped to `v`. -/
def insert (d : Directory κ β) (k : κ) (v : β) : Directory κ β :=
  ⟨put k v d.entries, pairwise_put d.distinct⟩

/-- The directory of the pairs of a list, entered in order. -/
def ofList (l : List (κ × β)) : Directory κ β := l.foldl (fun d e => d.insert e.1 e.2) empty

/-- The value that a key is mapped to. -/
def find? (d : Directory κ β) (k : κ) : Option β :=
  (d.entries.find? fun e => e.1 == k).map Prod.snd

/-- Whether a key has an entry. -/
def contains (d : Directory κ β) (k : κ) : Bool := (d.find? k).isSome

/-- The keys in the order in which they were entered. -/
def keys (d : Directory κ β) : List κ := d.entries.map Prod.fst

/-- The values in the order of their keys. -/
def values (d : Directory κ β) : List β := d.entries.map Prod.snd

/-- How many keys have an entry. -/
def size (d : Directory κ β) : Nat := d.entries.length

/-- Whether two directories have the same keys with the same values, in any order. -/
def same (sameValue : β → γ → Bool) (d : Directory κ β) (d' : Directory κ γ) : Bool :=
  d.size = d'.size && d.entries.all fun e =>
    match d'.find? e.1 with
    | some v => sameValue e.2 v
    | none => false

@[simp] theorem find?_empty (k : κ) : (empty : Directory κ β).find? k = none := rfl

@[simp] theorem entries_insert (d : Directory κ β) (k : κ) (v : β) :
    (d.insert k v).entries = put k v d.entries := rfl

theorem find?_put_self [LawfulBEq κ] (k : κ) (v : β) (l : List (κ × β)) :
    ((put k v l).find? fun e => e.1 == k) = some (k, v) := by
  induction l with
  | nil => simp [put]
  | cons a rest ih =>
    unfold put
    split
    · rename_i h; simp [LawfulBEq.eq_of_beq h]
    · rename_i h; simpa [List.find?_cons, h] using ih

theorem find?_put_of_ne [LawfulBEq κ] {k k' : κ} (h : k' ≠ k) (v : β) (l : List (κ × β)) :
    ((put k v l).find? fun e => e.1 == k') = l.find? fun e => e.1 == k' := by
  induction l with
  | nil => simp [put, h.symm]
  | cons a rest ih =>
    unfold put
    split
    · rename_i hk
      have ha : (a.1 == k') = false := by
        rw [LawfulBEq.eq_of_beq hk]; simpa using h.symm
      simp [ha]
    · simp only [List.find?_cons, ih]

/-- A key that was entered is found with its value. -/
@[simp] theorem find?_insert_self [LawfulBEq κ] (d : Directory κ β) (k : κ) (v : β) :
    (d.insert k v).find? k = some v := by
  simp [find?, find?_put_self]

/-- Entering one key changes no other one. -/
theorem find?_insert_of_ne [LawfulBEq κ] (d : Directory κ β) {k k' : κ} (h : k' ≠ k) (v : β) :
    (d.insert k v).find? k' = d.find? k' := by
  simp [find?, find?_put_of_ne h]

end Directory

end CharacterBuild
