import CharacterBuild.Trace.Traced

set_option autoImplicit false

/-! # Outcomes of sequences of steps

A sequence of steps ends in a value exactly if each of its steps does. The lemmas here take
such a sequence apart, so that later proofs need not open `bind`. The second part singles out
one fault, that of a state with violations: `NoViolation` says that an outcome is not this
fault, and is closed under all ways of putting steps together.
-/

namespace CharacterBuild

variable {ν α β : Type}

/-! ## Sequences that end in a value -/

theorem except_bind_eq_ok {ε : Type} {x : Except ε α} {f : α → Except ε β} {b : β} :
    (x >>= f) = .ok b ↔ ∃ a, x = .ok a ∧ f a = .ok b := by
  cases x <;> simp [bind, Except.bind]

theorem except_map_eq_ok {ε : Type} {x : Except ε α} {f : α → β} {b : β} :
    x.map f = .ok b ↔ ∃ a, x = .ok a ∧ f a = b := by
  cases x <;> simp [Except.map]

theorem except_map_eq_error {ε : Type} {x : Except ε α} {f : α → β} {e : ε} :
    x.map f = .error e ↔ x = .error e := by
  cases x <;> simp [Except.map]

theorem except_eq_ok_of_toBool {ε : Type} {x : Except ε α} (h : x.toBool = true) :
    ∃ a, x = .ok a := by
  cases x with
  | ok a => exact ⟨a, rfl⟩
  | error e => cases h

theorem except_eq_ok_of_any {ε : Type} {x : Except ε α} {p : α → Bool}
    (h : x.toOption.any p = true) : ∃ a, x = .ok a ∧ p a = true := by
  cases x with
  | ok a => exact ⟨a, rfl, h⟩
  | error e => cases h

theorem except_eq_ok_nil {ε : Type} {x : Except ε (List α)}
    (h : x.toOption.any List.isEmpty = true) : x = .ok [] := by
  obtain ⟨l, hl, hnil⟩ := except_eq_ok_of_any h
  rw [hl, List.isEmpty_iff.mp hnil]

namespace Traced

theorem outcome_bind_eq_ok {x : Traced ν α} {f : α → Traced ν β} {b : β} :
    (x >>= f).outcome = .ok b ↔ ∃ a, x.outcome = .ok a ∧ (f a).outcome = .ok b := by
  rw [outcome_bind]
  cases x.outcome <;> simp [Except.bind]

theorem outcome_bind_of_ok {x : Traced ν α} {f : α → Traced ν β} {a : α} (h : x.outcome = .ok a) :
    (x >>= f).outcome = (f a).outcome := by
  rw [outcome_bind, h]
  rfl

@[simp] theorem outcome_map (f : α → β) (x : Traced ν α) :
    (f <$> x).outcome = x.outcome.map f := by
  rw [map_eq_pure_bind, outcome_bind]
  cases x.outcome <;> rfl

/-- The outcome of going through a list is going through the outcomes. -/
theorem outcome_mapM (f : α → Traced ν β) (l : List α) :
    (l.mapM f).outcome = l.mapM fun a => (f a).outcome := by
  induction l with
  | nil => rfl
  | cons a rest ih =>
      rw [List.mapM_cons, List.mapM_cons, outcome_bind]
      simp only [outcome_bind, ih, outcome_pure]
      rfl

end Traced

/-- Going through a list, each step ends in a value with some property. -/
theorem mapM_eq_ok_forall_iff {ε : Type} {f : α → Except ε β} {l : List α} {P : β → Prop} :
    (∃ r, l.mapM f = .ok r ∧ ∀ b ∈ r, P b) ↔ ∀ a ∈ l, ∃ b, f a = .ok b ∧ P b := by
  induction l with
  | nil => simp [pure, Except.pure]
  | cons a rest ih =>
      simp only [List.mapM_cons, except_bind_eq_ok, List.forall_mem_cons, ← ih]
      constructor
      · rintro ⟨r, ⟨b, hb, bs, hbs, hr⟩, hP⟩
        obtain rfl : b :: bs = r := Except.ok.inj hr
        exact ⟨⟨b, hb, hP b (by simp)⟩, bs, hbs, fun x hx => hP x (by simp [hx])⟩
      · rintro ⟨⟨b, hb, hPb⟩, bs, hbs, hP⟩
        exact ⟨b :: bs, ⟨b, hb, bs, hbs, rfl⟩, List.forall_mem_cons.mpr ⟨hPb, hP⟩⟩

/-- What comes out of going through a list comes out of one of its elements. -/
theorem exists_of_mapM_eq_ok {ε : Type} {f : α → Except ε β} {l : List α} {r : List β} {b : β}
    (h : l.mapM f = .ok r) (hb : b ∈ r) : ∃ a ∈ l, f a = .ok b := by
  have hends : ∀ a ∈ l, ∃ b, f a = .ok b ∧ True :=
    mapM_eq_ok_forall_iff.mp ⟨r, h, fun _ _ => trivial⟩
  have hsteps : ∀ a ∈ l, ∃ b, f a = .ok b ∧ ∃ a ∈ l, f a = .ok b := by
    intro a ha
    obtain ⟨b, hb, _⟩ := hends a ha
    exact ⟨b, hb, a, ha, hb⟩
  obtain ⟨r', hr', hfrom⟩ := mapM_eq_ok_forall_iff.mpr hsteps
  obtain rfl : r = r' := Except.ok.inj (h.symm.trans hr')
  exact hfrom b hb

/-- Mapping each value afterwards maps the list of values. -/
theorem mapM_map {ε γ : Type} (f : α → Except ε β) (g : β → γ) (l : List α) :
    (l.mapM fun a => (f a).map g) = (l.mapM f).map (List.map g) := by
  induction l with
  | nil => rfl
  | cons a rest ih =>
      rw [List.mapM_cons, List.mapM_cons, ih]
      cases f a with
      | error e => rfl
      | ok b => cases rest.mapM f <;> rfl

/-- If every step that ends in a value ends in a given one, so does going through a list. -/
theorem eq_map_of_mapM_eq_ok {ε : Type} {f : α → Except ε β} {g : α → β} {l : List α}
    {r : List β} (hf : ∀ a ∈ l, ∀ b, f a = .ok b → b = g a) (h : l.mapM f = .ok r) :
    r = l.map g := by
  induction l generalizing r with
  | nil =>
      have hr : ([] : List β) = r := by simpa [pure, Except.pure] using h
      exact hr.symm
  | cons a rest ih =>
      rw [List.mapM_cons, except_bind_eq_ok] at h
      obtain ⟨b, hb, h⟩ := h
      rw [except_bind_eq_ok] at h
      obtain ⟨bs, hbs, h⟩ := h
      have hr : b :: bs = r := by simpa [pure, Except.pure] using h
      rw [← hr, hf a (by simp) b hb, ih (fun x hx => hf x (by simp [hx])) hbs, List.map_cons]

/-- If every step ends in a given value, going through a list ends in their list. -/
theorem mapM_eq_ok_map {ε : Type} {f : α → Except ε β} {g : α → β} {l : List α}
    (hf : ∀ a ∈ l, f a = .ok (g a)) : l.mapM f = .ok (l.map g) := by
  induction l with
  | nil => rfl
  | cons a rest ih =>
      rw [List.mapM_cons, hf a (by simp), ih fun b hb => hf b (by simp [hb])]
      rfl

/-- A list of marks that are computed one by one is the list with the marks. -/
theorem mapM_mark_eq_ok {ε : Type} {mark : α → Except ε Bool} {p : α → Bool} {l : List α}
    {r : List (α × Bool)} (hm : ∀ a ∈ l, ∀ b, mark a = .ok b → b = p a)
    (h : (l.mapM fun a => do .ok (a, ← mark a)) = .ok r) : r = l.map fun a => (a, p a) := by
  refine eq_map_of_mapM_eq_ok (fun a ha b hb => ?_) h
  obtain ⟨m, hmark, hb⟩ := except_bind_eq_ok.mp hb
  rw [hm a ha m hmark] at hb
  exact (Except.ok.inj hb).symm

theorem filter_marked (p : α → Bool) (l : List α) :
    ((l.map fun a => (a, p a)).filter fun m => m.2).map Prod.fst = l.filter p := by
  rw [List.filter_map, List.map_map]
  exact List.map_id _

theorem filter_unmarked (p : α → Bool) (l : List α) :
    ((l.map fun a => (a, p a)).filter fun m => !m.2).map Prod.fst = l.filter fun a => !p a := by
  rw [List.filter_map, List.map_map]
  exact List.map_id _

/-! ## Outcomes that blame no state -/

/-- The outcome is not the fault of a state with violations. -/
def NoViolation (x : Except (Fault ν) α) : Prop := ∀ problems, x ≠ .error (.violated problems)

namespace NoViolation

theorem ok (a : α) : NoViolation (.ok a : Except (Fault ν) α) := fun _ h => by cases h

theorem bind {x : Except (Fault ν) α} {f : α → Except (Fault ν) β} (hx : NoViolation x)
    (hf : ∀ a, NoViolation (f a)) : NoViolation (x >>= f) := by
  cases x with
  | ok a => exact hf a
  | error fault => exact fun problems h => hx problems (by cases h; rfl)

theorem map {x : Except (Fault ν) α} (f : α → β) (hx : NoViolation x) :
    NoViolation (x.map f) := by
  cases x with
  | ok a => exact ok _
  | error fault => exact fun problems h => hx problems (by cases h; rfl)

theorem mapM {f : α → Except (Fault ν) β} (hf : ∀ a, NoViolation (f a)) (l : List α) :
    NoViolation (l.mapM f) := by
  induction l with
  | nil => exact ok _
  | cons a rest ih =>
      rw [List.mapM_cons]
      exact (hf a).bind fun _ => ih.bind fun _ => ok _

theorem traced_bind {x : Traced ν α} {f : α → Traced ν β} (hx : NoViolation x.outcome)
    (hf : ∀ a, NoViolation (f a).outcome) : NoViolation (x >>= f).outcome := by
  rw [Traced.outcome_bind]
  exact hx.bind hf

theorem traced_map {x : Traced ν α} (f : α → β) (hx : NoViolation x.outcome) :
    NoViolation (f <$> x).outcome := by
  rw [Traced.outcome_map]
  exact hx.map f

theorem traced_mapM {f : α → Traced ν β} (hf : ∀ a, NoViolation (f a).outcome) (l : List α) :
    NoViolation (l.mapM f).outcome := by
  induction l with
  | nil => exact ok _
  | cons a rest ih =>
      rw [List.mapM_cons]
      exact traced_bind (hf a) fun _ => traced_bind ih fun _ => ok _

theorem traced_foldlM {f : β → α → Traced ν β} (hf : ∀ b a, NoViolation (f b a).outcome)
    (l : List α) (b : β) : NoViolation (l.foldlM f b).outcome := by
  induction l generalizing b with
  | nil => exact ok _
  | cons a rest ih =>
      rw [List.foldlM_cons]
      exact traced_bind (hf b a) ih

theorem traced_orSkip {x : Traced ν α} {onFault : Fault ν → Traced ν α}
    (hx : NoViolation x.outcome) (hf : ∀ fault, NoViolation (onFault fault).outcome) :
    NoViolation (x.orSkip onFault).outcome := by
  unfold Traced.orSkip
  split
  · exact hx
  · split
    · exact hf _
    · exact hx

end NoViolation

end CharacterBuild
