import CharacterBuild.Catalog.Reading
import CharacterBuild.Proofs.Outcome

set_option autoImplicit false

/-! # What a reader skips

Each list of a catalog is read entry by entry, and what comes of the whole depends on nothing but
what comes of the entries: `keepRead` keeps the values, skips the faults of malformed data and lets
any other fault through. The sources and the items of a catalog are read in the same way, the one
after the other (`Catalog.outcome_read`).
-/

namespace CharacterBuild

variable {ν α β γ : Type}

/-! ## Outcomes of entries -/

/-- The values among some outcomes, as long as no fault is one that is not skipped. -/
def keepRead : List (Except (Fault ν) β) → Except (Fault ν) (List β)
  | [] => .ok []
  | .ok b :: rest => (keepRead rest).map (b :: ·)
  | .error fault :: rest => if fault.isSkipped then keepRead rest else .error fault

section

variable {os os' : List (Except (Fault ν) β)} {fault : Fault ν}

@[simp] theorem keepRead_ok (b : β) : keepRead (.ok b :: os) = (keepRead os).map (b :: ·) := rfl

theorem keepRead_skipped (hs : fault.isSkipped = true) :
    keepRead (.error fault :: os) = keepRead os := if_pos hs

theorem keepRead_fault (hs : fault.isSkipped = false) :
    keepRead (.error fault :: os) = .error fault := if_neg (by simp [hs])

/-- An entry that is skipped may as well not be there. -/
theorem keepRead_without (hs : fault.isSkipped = true) :
    keepRead (os ++ .error fault :: os') = keepRead (os ++ os') := by
  induction os with
  | nil => exact keepRead_skipped hs
  | cons o rest ih =>
      rw [List.cons_append, List.cons_append]
      cases o with
      | ok b => rw [keepRead_ok, keepRead_ok, ih]
      | error fault' =>
          cases hs' : fault'.isSkipped with
          | true => rw [keepRead_skipped hs', keepRead_skipped hs', ih]
          | false => rw [keepRead_fault hs', keepRead_fault hs']

end

namespace Traced

/-- What follows an entry that may be skipped starts from the value of the entry, or from the one
that stands for a skipped entry. -/
theorem outcome_orSkip_bind (x : Traced ν α) (skipped : Fault ν → Note ν) (instead : α)
    (f : α → Traced ν β) :
    (x.orSkip (fun fault => do
      note (skipped fault)
      pure instead) >>= f).outcome = match x.outcome with
        | .ok a => (f a).outcome
        | .error fault => if fault.isSkipped then (f instead).outcome else .error fault := by
  rw [outcome_bind]
  unfold orSkip
  cases h : x.outcome with
  | ok a => rw [h]; rfl
  | error fault =>
      dsimp only
      cases hs : fault.isSkipped with
      | true => rfl
      | false => rw [if_neg (by simp), h]; rfl

/-- **What comes of reading a list depends on what comes of its entries.** -/
theorem outcome_readEach (read : α → Traced ν β) (skipped : α → Fault ν → Note ν) (l : List α) :
    (readEach read skipped l).outcome = keepRead (l.map fun a => (read a).outcome) := by
  induction l with
  | nil => rfl
  | cons a rest ih =>
      have hrest : ∀ found : Option β, (do
          let others ← readEach read skipped rest
          pure (found.toList ++ others) : Traced ν (List β)).outcome
            = (keepRead (rest.map fun a => (read a).outcome)).map (found.toList ++ ·) := by
        intro found
        rw [outcome_bind, ih]
        cases keepRead (rest.map fun a => (read a).outcome) <;> rfl
      rw [readEach, outcome_orSkip_bind, outcome_map, List.map_cons]
      cases (read a).outcome with
      | ok b => exact hrest (some b)
      | error fault =>
          dsimp only [Except.map]
          cases hs : fault.isSkipped with
          | true =>
              rw [keepRead_skipped hs, if_pos rfl, hrest]
              cases keepRead (rest.map fun a => (read a).outcome) <;> rfl
          | false => rw [keepRead_fault hs, if_neg (by simp)]

/-- What reads its entries one after the other and enters each that can be read keeps what is read
of them. -/
theorem outcome_of_steps {go : γ → List α → Traced ν γ} {read : α → Except (Fault ν) β}
    {add : γ → β → γ} (hnil : ∀ c, (go c []).outcome = .ok c)
    (hok : ∀ c a rest b, read a = .ok b → (go c (a :: rest)).outcome = (go (add c b) rest).outcome)
    (hskip : ∀ c a rest fault, read a = .error fault → fault.isSkipped = true →
      (go c (a :: rest)).outcome = (go c rest).outcome)
    (hfault : ∀ c a rest fault, read a = .error fault → fault.isSkipped = false →
      (go c (a :: rest)).outcome = .error fault) (c : γ) (l : List α) :
    (go c l).outcome = (keepRead (l.map read)).map (List.foldl add c) := by
  induction l generalizing c with
  | nil => exact hnil c
  | cons a rest ih =>
      rw [List.map_cons]
      cases h : read a with
      | ok b =>
          rw [hok c a rest b h, ih, keepRead_ok]
          cases keepRead (rest.map read) <;> rfl
      | error fault =>
          cases hs : fault.isSkipped with
          | true => rw [hskip c a rest fault h hs, ih, keepRead_skipped hs]
          | false => rw [hfault c a rest fault h hs, keepRead_fault hs]; rfl

end Traced

/-! ## Catalogs -/

/-- The members of a part of the catalog; what is not an object has none. -/
def Value.asPart : Value ν → Members ν
  | .object ms => ms
  | _ => []

variable [Number ν]

omit [Number ν] in
theorem Value.outcome_partMembers (part : Part) (v : Value ν) :
    (v.partMembers part).outcome = .ok v.asPart := by
  cases v with
  | object ms => rfl
  | list items => rfl
  | atom a => cases a <;> rfl

/-- What comes of an entry among the items. -/
def Item.readMember (m : Text × Value ν) : Except (Fault ν) (Item ν) :=
  match m.2 with
  | .object ms => Item.read m.1 (.object ms)
  | _ => .error .wrongKind

/-- What comes of an entry among the sources. -/
def Source.readMember (m : Text × Value ν) : Except (Fault ν) (Source ν) :=
  match m.2 with
  | .object ms => (Source.read m.1 (.object ms)).outcome
  | _ => .error .wrongKind

namespace Catalog

/-- One more item, if it can be read. -/
theorem outcome_readItems_cons (c : Catalog ν) (m : Text × Value ν) (rest : Members ν) :
    (c.readItems (m :: rest)).outcome = match Item.readMember m with
      | .ok item => ((c.addItem item).readItems rest).outcome
      | .error fault => if fault.isSkipped then (c.readItems rest).outcome else .error fault := by
  obtain ⟨id, v⟩ := m
  cases v with
  | object ms =>
      have hstep := Traced.outcome_orSkip_bind
        (c.addItem <$> Traced.lift (Item.read id (.object ms))) (.itemSkipped id) c
        fun c => readItems c rest
      rw [Traced.outcome_map, Traced.outcome_lift] at hstep
      refine Eq.trans hstep ?_
      show _ = match Item.read id (.object ms) with
        | .ok item => _
        | .error fault => _
      cases Item.read id (.object ms) <;> rfl
  | list items => rfl
  | atom a => rfl

theorem outcome_readItems (c : Catalog ν) (ms : Members ν) :
    (c.readItems ms).outcome = (keepRead (ms.map Item.readMember)).map (List.foldl addItem c) := by
  apply Traced.outcome_of_steps (fun _ => rfl)
  · intro c m rest item h
    rw [outcome_readItems_cons, h]
  · intro c m rest fault h hs
    rw [outcome_readItems_cons, h]
    exact if_pos hs
  · intro c m rest fault h hs
    rw [outcome_readItems_cons, h]
    exact if_neg (by simp [hs])

/-- One more source, if it can be read. -/
theorem outcome_readSources_cons (c : Catalog ν) (m : Text × Value ν) (rest : Members ν) :
    (c.readSources (m :: rest)).outcome = match Source.readMember m with
      | .ok source => ((c.addSource source).readSources rest).outcome
      | .error fault => if fault.isSkipped then (c.readSources rest).outcome else .error fault := by
  obtain ⟨name, v⟩ := m
  cases v with
  | object ms =>
      have hstep := Traced.outcome_orSkip_bind (c.addSource <$> Source.read name (.object ms))
        (.sourceSkipped name) c fun c => readSources c rest
      rw [Traced.outcome_map] at hstep
      refine Eq.trans hstep ?_
      show _ = match (Source.read name (.object ms)).outcome with
        | .ok source => _
        | .error fault => _
      cases (Source.read name (.object ms)).outcome <;> rfl
  | list items => rfl
  | atom a => rfl

theorem outcome_readSources (c : Catalog ν) (ms : Members ν) :
    (c.readSources ms).outcome
      = (keepRead (ms.map Source.readMember)).map (List.foldl addSource c) := by
  apply Traced.outcome_of_steps (fun _ => rfl)
  · intro c m rest source h
    rw [outcome_readSources_cons, h]
  · intro c m rest fault h hs
    rw [outcome_readSources_cons, h]
    exact if_pos hs
  · intro c m rest fault h hs
    rw [outcome_readSources_cons, h]
    exact if_neg (by simp [hs])

/-- **A catalog holds the sources and the items that can be read.** -/
theorem outcome_read (ms : Members ν) : (Catalog.read (.object ms)).outcome = (do
    let sources ← keepRead ((Value.memberOrNull "sources" ms).asPart.map Source.readMember)
    let items ← keepRead ((Value.memberOrNull "items" ms).asPart.map Item.readMember)
    .ok (items.foldl addItem (sources.foldl addSource {}))) := by
  unfold Catalog.read
  rw [Traced.outcome_bind_of_ok (a := ms) rfl,
    Traced.outcome_bind_of_ok (Value.outcome_partMembers _ _), Traced.outcome_bind,
    outcome_readSources]
  cases keepRead ((Value.memberOrNull "sources" ms).asPart.map Source.readMember) with
  | error fault => rfl
  | ok sources =>
      show ((Value.memberOrNull "items" ms).partMembers .items >>= _).outcome = _
      rw [Traced.outcome_bind_of_ok (Value.outcome_partMembers _ _), Traced.outcome_bind,
        outcome_readItems]
      cases keepRead ((Value.memberOrNull "items" ms).asPart.map Item.readMember) <;> rfl

end Catalog

end CharacterBuild
