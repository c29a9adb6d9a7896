import CharacterBuild.Proofs.Courses

set_option autoImplicit false

/-! # A build is restored once

A build is to be restored before anything else is done with it, and only once; after that neither
its mode nor the level of the restoration is to change. What guards this is a flag of the session,
which is set when a request has changed the build and all listeners have taken the news without a
fault. Once it is set, the guard holds for good (`Guided.restore_of_changed`). But the flag falls
short of the build in two ways: a session on a given state starts without it, even if that state
was restored; and a request that a listener breaks off does not set it, although its change stays.
`Guided.restored_once` says what is guarded all the same, and that it is all that was intended if
the session starts with a build that was not restored and no listener lets out a fault.
-/

namespace CharacterBuild

variable {ν : Type} [Number ν]

namespace Guided

/-! ## Before and after a change is counted -/

/-- As long as no change is counted, the build is as it was. It takes listeners that let out no
fault to keep this. -/
def untouched (s : Session ν (Call ν)) : Contract ν where
  index := s.index
  config := s.config
  reacts := fun d => d.outcome = .ok ()
  holds := fun state changed => changed = false → state = s.state

/-- A change is counted, and the build came about as it did. -/
def fixed (s : Session ν (Call ν)) : Contract ν where
  index := s.index
  config := s.config
  holds := fun state changed =>
    changed = true ∧ state.mode = s.state.mode ∧ state.restoredAt = s.state.restoredAt

theorem untouched_allows (s : Session ν (Call ν)) (c : Call ν) : (untouched s).Allows c :=
  fun _ _ _ _ _ => .of_calm (fun _ h => h) nofun

theorem fixed_allows (s : Session ν (Call ν)) (c : Call ν) : (fixed s).Allows c := by
  rintro state changed state' ⟨rfl, hmode, hrestored⟩ heffect
  cases heffect with
  | edit h =>
      obtain ⟨hmode', hrestored'⟩ := h.origin_eq
      have hholds : (fixed s).holds state' true :=
        ⟨rfl, hmode'.trans hmode, hrestored'.trans hrestored⟩
      exact ⟨hholds, fun _ _ _ _ => hholds⟩
  | restore hchanged => cases hchanged

theorem untouched_after {s : Session ν (Call ν)} (hidle : s.announcing = false)
    (calls : List (Call ν)) (hcalm : ∀ t ∈ turns s calls, ∀ d ∈ t.deliveries, d.outcome = .ok ())
    (h : (after s calls).changed = false) : (after s calls).state = s.state :=
  (turns_keep (C := untouched s) (.of_all fun _ => trivial) (fun c _ => untouched_allows s c)
    (fun _ _ _ _ => trivial) ⟨rfl, rfl, hidle, fun _ => rfl⟩ hcalm).1.holds h

theorem fixed_after {s : Session ν (Call ν)} (hidle : s.announcing = false)
    (hchanged : s.changed = true) (calls : List (Call ν)) :
    (after s calls).changed = true ∧ (after s calls).state.mode = s.state.mode ∧
      (after s calls).state.restoredAt = s.state.restoredAt :=
  (turns_keep (C := fixed s) (.of_all fun _ => trivial) (fun c _ => fixed_allows s c)
    (fun _ _ _ _ => trivial) ⟨rfl, rfl, hidle, hchanged, rfl, rfl⟩ fun _ _ _ _ => trivial).1.holds

/-- As long as no change is counted, each call has left the build as it was, or a listener has
let out a fault in it. -/
theorem state_eq_or_broken {s : Session ν (Call ν)} (hidle : s.announcing = false)
    {front back : List (Call ν)} {c : Call ν}
    (h : (after s (front ++ c :: back)).changed = false) :
    (c.run (after s front)).session.state = (after s front).state ∨
      ∃ d ∈ (c.run (after s front)).deliveries, d.outcome ≠ .ok () := by
  have hbefore := (idle_after_of_idle hidle front).idle
  -- the flag is never taken back, so it is not set by this call
  have hnot : (c.run (after s front)).session.changed = false := by
    cases hset : (c.run (after s front)).session.changed with
    | false => rfl
    | true =>
        have hthen : (c.run (after s front)).session.announcing = false :=
          (idle_after_of_idle hbefore [c]).idle
        have hlast := (fixed_after hthen hset back).1
        have hsplit : after s (front ++ c :: back) = after (c.run (after s front)).session back := by
          simp [after]
        rw [hsplit, hlast] at h
        exact h
  by_cases hbroken : ∃ d ∈ (c.run (after s front)).deliveries, d.outcome ≠ .ok ()
  · exact .inr hbroken
  · refine .inl (untouched_after hbefore [c] (fun t ht d hd => ?_) hnot)
    rw [List.mem_singleton.mp ht] at hd
    exact Classical.byContradiction fun hraised => hbroken ⟨d, hd, hraised⟩

/-! ## Restoring -/

variable {s : Session ν (Call ν)} {selections : List (SavedSelection ν)} {rest : Restored ν}

/-- A build is restored only if no change is counted, and then this one is. -/
theorem changed_of_restored {answer : Answer ν}
    (h : ((Call.restore selections rest).run s).outcome = .ok answer) :
    s.changed = false ∧ ((Call.restore selections rest).run s).session.changed = true ∧
      ((Call.restore selections rest).run s).session.state.isRestored = true := by
  cases Call.restores selections rest s with
  | refused _ ho =>
      rw [ho] at h
      cases h
  | @announced saved level change outcome hchanged hstate hnews ho =>
      cases outcome with
      | ok u =>
          refine ⟨hchanged, hnews.replaced.changed, ?_⟩
          rw [hnews.replaced.state, Build.isRestored, hstate.mode]
          rfl
      | error fault =>
          rw [ho] at h
          cases h

/-- A build that is not restored stays as it is, unless a listener lets out the fault. -/
theorem session_eq_or_broken_of_restore {fault : Fault ν}
    (h : ((Call.restore selections rest).run s).outcome = .error fault) :
    ((Call.restore selections rest).run s).session = s ∨
      ∃ d ∈ ((Call.restore selections rest).run s).deliveries, d.outcome = .error fault := by
  cases Call.restores selections rest s with
  | refused hs _ => exact .inl hs
  | @announced saved level change outcome hchanged hstate hnews ho =>
      rw [ho] at h
      cases outcome with
      | ok u => cases h
      | error fault' =>
          obtain rfl := Except.error.inj h
          exact .inr hnews.told.exists_of_error

/-- **Once a change is counted, no build is restored**, and the session is left as it is. -/
theorem restore_of_changed (selections : List (SavedSelection ν)) (rest : Restored ν)
    (hchanged : s.changed = true) :
    ((Call.restore selections rest).run s).session = s ∧
      ∃ fault, ((Call.restore selections rest).run s).outcome = .error fault := by
  cases Call.restores selections rest s with
  | refused hs ho => exact ⟨hs, _, ho⟩
  | announced hnot =>
      rw [hchanged] at hnot
      cases hnot

/-- **A build is restored once, as far as changes are counted.** Restoring succeeds only if no
change is counted, and until then every call has left the build as it was or was broken off by a
listener; if it fails, the build stays as it is unless a listener lets out the fault. Once a change
is counted, nothing is restored any more, and neither the mode nor the level of the restoration
changes. So if the session starts with a build that was not restored, and no listener lets out a
fault, restoring succeeds only on the build as it was at the start, and what is restored stays so. -/
theorem restored_once {s : Session ν (Call ν)} (hs : Starts s) (earlier : List (Call ν))
    (selections : List (SavedSelection ν)) (rest : Restored ν) :
    let s₁ := after s earlier
    let t := (Call.restore selections rest).run s₁
    (∀ answer, t.outcome = .ok answer →
      s₁.changed = false ∧ t.session.changed = true ∧ t.session.state.isRestored = true) ∧
    (s₁.changed = false → ∀ front c back, earlier = front ++ c :: back →
      (c.run (after s front)).session.state = (after s front).state ∨
        ∃ d ∈ (c.run (after s front)).deliveries, d.outcome ≠ .ok ()) ∧
    (∀ fault, t.outcome = .error fault →
      t.session = s₁ ∨ ∃ d ∈ t.deliveries, d.outcome = .error fault) ∧
    (s₁.changed = true → t.session = s₁ ∧ (∃ fault, t.outcome = .error fault) ∧
      ∀ later, (after s₁ later).state.mode = s₁.state.mode ∧
        (after s₁ later).state.restoredAt = s₁.state.restoredAt) ∧
    (s.state.isRestored = false → (∀ u ∈ turns s earlier, ∀ d ∈ u.deliveries, d.outcome = .ok ()) →
      (∀ answer, t.outcome = .ok answer → s₁.state = s.state) ∧
      (s₁.state.isRestored = true → s₁.changed = true)) := by
  intro s₁ t
  have hidle := hs.idle_after earlier
  refine ⟨fun answer h => changed_of_restored h, fun hnot front c back hsplit => ?_,
    fun fault h => session_eq_or_broken_of_restore h, fun hchanged => ?_, fun hnew hcalm => ?_⟩
  · subst hsplit
    exact state_eq_or_broken hs.idle_unchanged.1 hnot
  · obtain ⟨hsame, hrefused⟩ := restore_of_changed selections rest hchanged
    exact ⟨hsame, hrefused, fun later => (fixed_after hidle hchanged later).2⟩
  · have hstill : s₁.changed = false → s₁.state = s.state :=
      untouched_after hs.idle_unchanged.1 earlier hcalm
    refine ⟨fun answer h => hstill (changed_of_restored h).1, fun hrestored => ?_⟩
    -- a build that is still the one of the start was not restored
    cases hchanged : s₁.changed with
    | true => rfl
    | false =>
        rw [hstill hchanged, hnew] at hrestored
        cases hrestored

/-- A session on a build that was restored at level 3. -/
def restoredStart : Session Double (Call Double) :=
  { sharedStart {} with
    state := { mode := .continuation, restoredAt := some (.whole 3), targetLevel := .whole 3 } }

/-- Before a change is counted in it, the build is restored once more, at level 1. -/
theorem restored_once_sharedGroups :
    let t := (Call.restore [] {}).run (after restoredStart [])
    Starts restoredStart ∧ restoredStart.state.isRestored = true ∧
      restoredStart.changed = false ∧ t.session.changed = true ∧
      t.session.state.isRestored = true ∧ t.session.state.restoredAt.any (·.same (.whole 1)) = true := by
  intro t
  obtain ⟨problems, hproblems, hempty⟩ := except_eq_ok_of_any (p := List.isEmpty)
    (x := restoredStart.state.violations restoredStart.index) (by decide +kernel)
  obtain rfl := List.isEmpty_iff.mp hempty
  have hs : Starts restoredStart := .of_violations hproblems
  obtain ⟨answer, h⟩ := except_eq_ok_of_toBool (x := t.outcome) (by decide +kernel)
  obtain ⟨hbefore, hafter, hrestored⟩ := (restored_once hs [] [] {}).1 answer h
  exact ⟨hs, rfl, hbefore, hafter, hrestored, by decide +kernel⟩

end Guided

end CharacterBuild
