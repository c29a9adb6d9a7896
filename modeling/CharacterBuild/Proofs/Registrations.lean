import CharacterBuild.Proofs.Atomicity
import Mathlib.Data.List.Infix
import Mathlib.Data.List.TakeWhile

set_option autoImplicit false

/-! # Registrations and their ends

Whoever registers a listener is answered with a function that ends the registration. But a session
keeps the listeners only, and the function removes the first registration of its listener that it
finds. It depends on the others whether this is the registration that it was the answer to.

A `Roll` is the record that the session does not keep: all registrations that were made, and which
of them have been ended by their own function. A function ends its own registration and no other
one (`Roll.EndsItsOwn`) if no other listener's registration stands between the first one of its
listener and its own; called again, it ends none if none of its listener stands any more. Exactly
then the session registers those who stand by the roll (`Roll.registrations_act_iff` for one move,
`Session.registrations_play_iff` for a history), and a change is told to just these
(`Session.tells_standing_iff`). If each listener is registered once, this is always so
(`Roll.endsItsOwn_of_nodup`).
-/

namespace CharacterBuild

variable {ν κ : Type} [Number ν]

/-! ## Rolls -/

/-- A registration as it was made. -/
structure Registration where
  listener : Text
  /-- Whether the function that it was answered with has been called. -/
  ended : Bool := false
  deriving DecidableEq, Repr

/-- All registrations that were made, in order. -/
abbrev Roll : Type := List Registration

namespace Roll

/-- The listeners of the registrations that have not been ended, in order. -/
def standing (roll : Roll) : List Text :=
  (roll.filter fun r => !r.ended).map Registration.listener

/-- The roll after the function of a registration is called. -/
def endAt (roll : Roll) (n : Nat) : Roll := roll.modify n fun r => { r with ended := true }

/-- **The function of a registration ends this one and no other one**: from the first registration
of the listener that stands up to this one, no other listener's stands; or if this one has been
ended before, none of the listener stands. -/
def EndsItsOwn (roll : Roll) (n : Nat) : Prop :=
  ∀ r ∈ roll[n]?,
    if r.ended then r.listener ∉ roll.standing
    else ∀ x ∈ (standing (roll.take n)).dropWhile (· ≠ r.listener), x = r.listener

instance (roll : Roll) (n : Nat) : Decidable (roll.EndsItsOwn n) :=
  inferInstanceAs (Decidable (∀ r ∈ roll[n]?, _))

@[simp] theorem standing_append (roll roll' : Roll) :
    standing (roll ++ roll') = roll.standing ++ roll'.standing := by
  simp [standing]

theorem standing_cons (r : Registration) (roll : Roll) :
    standing (r :: roll) = if r.ended then roll.standing else r.listener :: roll.standing := by
  cases h : r.ended <;> simp [standing, h]

/-- A registration stands between those before and those after it. -/
theorem eq_take_append_drop {roll : Roll} {n : Nat} {r : Registration} (h : roll[n]? = some r) :
    roll = roll.take n ++ r :: roll.drop (n + 1) := by
  obtain ⟨hn, rfl⟩ := List.getElem?_eq_some_iff.mp h
  rw [← List.drop_eq_getElem_cons hn, List.take_append_drop]

theorem standing_split {roll : Roll} {n : Nat} {r : Registration} (h : roll[n]? = some r) :
    roll.standing = standing (roll.take n) ++ standing (r :: roll.drop (n + 1)) := by
  rw [← standing_append, ← eq_take_append_drop h]

theorem standing_endAt {roll : Roll} {n : Nat} {r : Registration} (h : roll[n]? = some r) :
    (roll.endAt n).standing = standing (roll.take n) ++ standing (roll.drop (n + 1)) := by
  obtain ⟨hn, rfl⟩ := List.getElem?_eq_some_iff.mp h
  rw [endAt, List.modify_eq_take_cons_drop hn, standing_append, standing_cons, if_pos rfl]

/-- Moving an element to the front of a list changes the list unless it holds nothing else. -/
theorem append_cons_eq_iff {α : Type} {x : α} {before after : List α} :
    before ++ x :: after = x :: (before ++ after) ↔ ∀ y ∈ before, y = x := by
  induction before with
  | nil => simp
  | cons y rest ih =>
      rw [List.cons_append, List.cons_append, List.cons.injEq, List.forall_mem_cons]
      refine and_congr_right fun hy => ?_
      rw [hy, ih]

/-- Removing an element where it first occurs is removing it at a later place exactly if nothing
else is in between. -/
theorem erase_append_cons_iff {α : Type} [DecidableEq α] {x : α} {before after : List α} :
    (before ++ x :: after).erase x = before ++ after ↔
      ∀ y ∈ before.dropWhile (· ≠ x), y = x := by
  induction before with
  | nil => simp
  | cons y rest ih =>
      by_cases hy : y = x
      · subst hy
        rw [List.cons_append, List.erase_cons_head, List.dropWhile_cons_of_neg (by simp),
          List.cons_append, append_cons_eq_iff, List.forall_mem_cons]
        exact (and_iff_right rfl).symm
      · rw [List.cons_append, List.erase_cons_tail (by simpa using hy),
          List.dropWhile_cons_of_pos (by simpa using hy), List.cons_append, List.cons.injEq,
          and_iff_right rfl, ih]

/-- What is removed is the first registration of the listener that stands. -/
theorem endsItsOwn_iff {roll : Roll} {n : Nat} {r : Registration} (h : roll[n]? = some r) :
    roll.EndsItsOwn n ↔ roll.standing.erase r.listener = (roll.endAt n).standing := by
  have hends : roll.EndsItsOwn n ↔
      if r.ended then r.listener ∉ roll.standing
      else ∀ x ∈ (standing (roll.take n)).dropWhile (· ≠ r.listener), x = r.listener :=
    ⟨fun hall => hall r h, fun hr r' hr' => Option.some.inj (h.symm.trans hr') ▸ hr⟩
  rw [hends, standing_endAt h]
  by_cases hended : r.ended = true
  · -- no registration is to be removed any more
    rw [if_pos hended, ← List.erase_eq_self_iff, standing_split h, standing_cons, if_pos hended]
  · rw [if_neg hended, standing_split h, standing_cons, if_neg hended]
    exact erase_append_cons_iff.symm

theorem mem_of_mem_standing {roll : Roll} {listener : Text} (h : listener ∈ roll.standing) :
    listener ∈ roll.map Registration.listener :=
  (List.filter_sublist.map _).subset h

/-- If each listener is registered only once, every function ends its own registration. -/
theorem endsItsOwn_of_nodup {roll : Roll} (h : (roll.map Registration.listener).Nodup) (n : Nat) :
    roll.EndsItsOwn n := by
  intro r hr
  rw [eq_take_append_drop hr, List.map_append, List.map_cons, List.perm_middle.nodup_iff,
    List.nodup_cons, List.mem_append, not_or] at h
  obtain ⟨⟨hbefore, hafter⟩, -⟩ := h
  split
  · rename_i hended
    rw [standing_split hr, standing_cons, if_pos hended, List.mem_append]
    exact not_or.mpr ⟨fun hmem => hbefore (mem_of_mem_standing hmem),
      fun hmem => hafter (mem_of_mem_standing hmem)⟩
  · have hnone : (standing (roll.take n)).dropWhile (· ≠ r.listener) = [] :=
      List.dropWhile_eq_nil_iff.mpr fun x hx => decide_eq_true fun heq =>
        hbefore (mem_of_mem_standing (heq ▸ hx))
    rw [hnone]
    exact fun x hx => nomatch hx

/-! ## Moves -/

/-- What is done about registrations. -/
inductive Move (κ : Type) where
  /-- A listener is registered. -/
  | enter (listener : Text) (steps : List (Step κ))
  /-- The function is called that the registration of a number was answered with. -/
  | leave (n : Nat)

namespace Move

/-- What a move comes to on the roll. -/
def mark (roll : Roll) : Move κ → Roll
  | enter listener _ => roll ++ [{ listener := listener }]
  | leave n => roll.endAt n

/-- What a move does in a session. A function that nobody has been answered with is not called. -/
def act (roll : Roll) : Move κ → Action ν κ Unit
  | enter listener steps => Session.subscribe listener steps
  | leave n =>
    match roll[n]? with
    | some r => Session.unsubscribe r.listener
    | none => pure ()

variable {roll : Roll} {n : Nat}

theorem act_leave {r : Registration} (h : roll[n]? = some r) :
    (act roll (leave n) : Action ν κ Unit) = Session.unsubscribe r.listener := by
  simp only [act, h]

theorem act_leave_of_none (h : roll[n]? = none) :
    (act roll (leave n) : Action ν κ Unit) = pure () := by
  simp only [act, h]

theorem announcing_act (m : Move κ) (roll : Roll) (s : Session ν κ) :
    (m.act roll s).session.announcing = s.announcing := by
  cases m with
  | enter listener steps => rfl
  | leave n =>
      cases h : roll[n]? with
      | none => rw [act_leave_of_none h]; rfl
      | some r => rw [act_leave h]; rfl

end Move

/-- The roll after some moves. -/
def after (roll : Roll) (moves : List (Move κ)) : Roll := moves.foldl Move.mark roll

/-- **One move keeps the session to the roll** unless it is a function that ends another
registration. -/
theorem registrations_act_iff {roll : Roll} {s : Session ν κ}
    (hs : s.registrations = roll.standing) (m : Move κ) :
    (m.act roll s).session.registrations = (m.mark roll).standing ↔
      ∀ n, m = .leave n → roll.EndsItsOwn n := by
  cases m with
  | enter listener steps =>
      have hadded : (Move.mark roll (.enter listener steps)).standing
          = roll.standing ++ [listener] := by
        rw [Move.mark, standing_append]
        rfl
      rw [hadded, ← hs]
      exact iff_of_true rfl nofun
  | leave n =>
      have hleave : (∀ k, (Move.leave n : Move κ) = .leave k → roll.EndsItsOwn k) ↔
          roll.EndsItsOwn n :=
        ⟨fun h => h n rfl, fun h k hk => Move.leave.inj hk ▸ h⟩
      rw [hleave]
      cases hr : roll[n]? with
      | none =>
          have hsame : roll.endAt n = roll :=
            List.modify_eq_self (List.getElem?_eq_none_iff.mp hr)
          rw [Move.mark, hsame, Move.act_leave_of_none hr]
          exact iff_of_true hs fun r h => by rw [hr] at h; cases h
      | some r =>
          rw [Move.act_leave hr, Move.mark, endsItsOwn_iff hr, ← hs]
          exact Iff.rfl

end Roll

/-! ## Histories -/

namespace Session

/-- A session after some moves. -/
def play (s : Session ν κ) (roll : Roll) : List (Roll.Move κ) → Session ν κ
  | [] => s
  | m :: rest => play (m.act roll s).session (m.mark roll) rest

theorem announcing_play (s : Session ν κ) (roll : Roll) (moves : List (Roll.Move κ)) :
    (s.play roll moves).announcing = s.announcing := by
  induction moves generalizing s roll with
  | nil => rfl
  | cons m rest ih =>
      rw [play, ih]
      exact m.announcing_act roll s

/-- **A session keeps to the roll all the time** exactly if no function is called that ends another
registration. -/
theorem registrations_play_iff {s : Session ν κ} {roll : Roll}
    (hs : s.registrations = roll.standing) (moves : List (Roll.Move κ)) :
    (∀ past, past <+: moves → (s.play roll past).registrations = (roll.after past).standing) ↔
      ∀ past n, past ++ [.leave n] <+: moves → (roll.after past).EndsItsOwn n := by
  induction moves generalizing s roll with
  | nil =>
      refine iff_of_true (fun past hpast => ?_) fun past n hpast => ?_
      · rw [List.prefix_nil.mp hpast]
        exact hs
      · exact absurd (List.prefix_nil.mp hpast) (by simp)
  | cons m rest ih =>
      have hstep := Roll.registrations_act_iff hs m
      -- what is said of the parts of the history is said of none of it and of those after one move
      have hparts : (∀ past, past <+: m :: rest →
            (s.play roll past).registrations = (roll.after past).standing) ↔
          ∀ past, past <+: rest → ((m.act roll s).session.play (m.mark roll) past).registrations
            = (Roll.after (m.mark roll) past).standing := by
        constructor
        · exact fun h past hpast => h (m :: past) (List.cons_prefix_cons.mpr ⟨rfl, hpast⟩)
        · rintro h past hpast
          rcases List.prefix_cons_iff.mp hpast with rfl | ⟨past', rfl, hpast'⟩
          · exact hs
          · exact h past' hpast'
      have hends : (∀ past n, past ++ [.leave n] <+: m :: rest → (roll.after past).EndsItsOwn n) ↔
          (∀ n, m = .leave n → roll.EndsItsOwn n) ∧
          ∀ past n, past ++ [.leave n] <+: rest →
            (Roll.after (m.mark roll) past).EndsItsOwn n := by
        constructor
        · refine fun h => ⟨fun n hm => h [] n ?_, fun past n hpast => h (m :: past) n ?_⟩
          · rw [hm]
            exact List.cons_prefix_cons.mpr ⟨rfl, List.nil_prefix⟩
          · exact List.cons_prefix_cons.mpr ⟨rfl, hpast⟩
        · rintro ⟨hfirst, hrest⟩ past n hpast
          cases past with
          | nil => exact hfirst n (List.cons_prefix_cons.mp hpast).1.symm
          | cons m' past' =>
              obtain ⟨rfl, hpast'⟩ := List.cons_prefix_cons.mp hpast
              exact hrest past' n hpast'
      rw [hparts, hends, ← hstep]
      constructor
      · intro h
        have hnow := h [] List.nil_prefix
        exact ⟨hnow, (ih hnow).mp h⟩
      · rintro ⟨hnow, h⟩
        exact (ih hnow).mpr h

variable {run : κ → Action ν κ (Answer ν)}

/-- **A change is told to the registrations that have not been ended by their own function**, each
once and in order, exactly if no function was called that ends another registration. Whatever was
called, it is told to those whom the session has registered, up to the first one that lets out a
fault. -/
theorem tells_standing_iff (hrun : ∀ c, (run c).LeavesBuild) (hquiet : ∀ c, (run c).Quiet)
    {s : Session ν κ} (hidle : s.announcing = false) {roll : Roll}
    (hstart : s.registrations = roll.standing) (moves : List (Roll.Move κ)) (field : Text)
    (state : Build ν) :
    let now (past : List (Roll.Move κ)) := s.play roll past
    let told (past : List (Roll.Move κ)) := replace run field state (now past)
    let ownEnds := ∀ past n, past ++ [.leave n] <+: moves → (roll.after past).EndsItsOwn n
    (∀ past, past <+: moves → Told run { now past with state := state, announcing := true } field
      (now past).registrations (told past).deliveries (told past).outcome) ∧
    ((∀ past, past <+: moves → (now past).registrations = (roll.after past).standing) ↔ ownEnds) ∧
    ((∀ past, past <+: moves → ∀ d ∈ (told past).deliveries, d.outcome = .ok ()) →
      ((∀ past, past <+: moves → (told past).deliveries.map (fun d => (d.listener, d.field))
        = (roll.after past).standing.map fun listener => (listener, field)) ↔ ownEnds)) := by
  intro now told ownEnds
  have htold : ∀ past, Told run { now past with state := state, announcing := true } field
      (now past).registrations (told past).deliveries (told past).outcome := by
    intro past
    have hnow : (s.play roll past).announcing = false := (announcing_play s roll past).trans hidle
    simp only [told, now, replace_of_idle field state hnow]
    exact tell_told hrun hquiet rfl
  have hkept := registrations_play_iff hstart moves
  refine ⟨fun past _ => htold past, hkept, fun hcalm => ?_⟩
  refine Iff.trans (forall₂_congr fun past hpast => ?_) hkept
  have hok : (told past).outcome = .ok () := by
    cases ho : (told past).outcome with
    | ok u => rfl
    | error fault =>
        obtain ⟨d, hd, hfault⟩ := Told.exists_of_error (ho ▸ htold past)
        rw [hcalm past hpast d hd] at hfault
        cases hfault
  rw [Told.listeners_eq (hok ▸ htold past)]
  exact List.map_inj_right fun a b h => (Prod.mk.inj h).1

/-- One listener is registered twice and another one in between. When the function of the first
registration is called, the two others are told of a change. When it is called again, the listener
that is still registered is told no more. -/
theorem tells_standing_iff_leftTwice :
    let s := Guided.sharedStart {}
    let moves : List (Roll.Move (Guided.Call Double)) :=
      [.enter "log" [⟨.selected, false⟩], .enter "view" [], .enter "log" [], .leave 0, .leave 0]
    let told (past : List (Roll.Move (Guided.Call Double))) :=
      (replace Guided.Call.runInside "notes" s.state (s.play [] past)).deliveries.map
        fun d => (d.listener, d.field)
    let standing (past : List (Roll.Move (Guided.Call Double))) :=
      (Roll.after [] past).standing.map fun listener => (listener, ("notes" : Text))
    (∀ past, past <+: moves.take 4 → told past = standing past) ∧
      (¬ ∀ past, past <+: moves → told past = standing past) ∧
      told moves = ([("view", "notes")] : List (Text × Text)) ∧
      standing moves = ([("view", "notes"), ("log", "notes")] : List (Text × Text)) := by
  intro s moves told standing
  have hcalm : ∀ past, past <+: moves →
      ∀ d ∈ (replace Guided.Call.runInside "notes" s.state (s.play [] past)).deliveries,
        d.outcome = .ok () := by
    have hall : (moves.inits.all fun past =>
        (replace Guided.Call.runInside "notes" s.state (s.play [] past)).deliveries.all
          fun d => d.outcome.toBool) = true := by decide +kernel
    intro past hpast d hd
    obtain ⟨_, ho⟩ := except_eq_ok_of_toBool
      (List.all_eq_true.mp (List.all_eq_true.mp hall past ((List.mem_inits _ _).mpr hpast)) d hd)
    exact ho
  have hstart : s.registrations = Roll.standing [] := rfl
  have hiff (history : List (Roll.Move (Guided.Call Double))) (hpart : history <+: moves) :=
    (tells_standing_iff Guided.Call.runInside_leavesBuild Guided.Call.runInside_quiet rfl hstart
      history "notes" s.state).2.2 fun past hpast => hcalm past (hpast.trans hpart)
  refine ⟨(hiff _ (List.take_prefix 4 moves)).mpr fun past n hpast => ?_, fun h => ?_, ?_, ?_⟩
  · -- the only function that is called is that of the first registration
    obtain ⟨rest, hrest⟩ := hpast
    rcases past with _ | ⟨_, _ | ⟨_, _ | ⟨_, _ | ⟨_, _⟩⟩⟩⟩ <;> simp [moves] at hrest
    obtain ⟨rfl, rfl, rfl, rfl, rfl⟩ := hrest
    decide +kernel
  · have hends := (hiff moves List.prefix_rfl).mp h (moves.take 4) 0 List.prefix_rfl
    exact absurd hends (by decide +kernel)
  · decide +kernel
  · decide +kernel

end Session

end CharacterBuild
