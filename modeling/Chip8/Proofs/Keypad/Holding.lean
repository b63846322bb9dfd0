import Chip8.Keypad
import Mathlib.Data.List.Induction

/-!
# Which keys are held

A key is held for fifty milliseconds after its last press. That is a statement about the whole history
of a keypad: `Keypad.LastPressed` finds the last press of a key among all actions so far, and
`Keypad.HeldAfter` asks how long ago that was. The keypad itself remembers one press of each key,
and forgets presses on every look at it.

No look can tell the difference (`Keypad.shows_held`). A press that has been forgotten was too old when
it was forgotten, and time does not run backwards; so at every later time what the keypad remembers and
what has happened agree about every key (`Keypad.heldAt_after`). As looks are no presses, they never
change what later looks show.
-/

namespace Chip8

namespace KeyAction

/-- Does the action press this key? -/
def presses (key : UInt8) : KeyAction → Bool
  | .add keys => keys.contains key
  | .press k => k == key
  | _ => false

/-- The nanoseconds for which the action lasts. -/
def elapsed : KeyAction → Nat
  | .advance nanos => nanos
  | _ => 0

/-- Does the action only look at the keypad? -/
def isLook : KeyAction → Bool
  | .contains _ | .pressed | .isWaiting => true
  | _ => false

theorem presses_of_isLook {action : KeyAction} (h : action.isLook = true) (key : UInt8) :
    action.presses key = false := by
  cases action with
  | contains asked => rfl
  | pressed => rfl
  | isWaiting => rfl
  | _ => cases h

theorem elapsed_of_isLook {action : KeyAction} (h : action.isLook = true) : action.elapsed = 0 := by
  cases action with
  | advance nanos => cases h
  | _ => rfl

end KeyAction

/-! ### What is remembered -/

namespace HeldKeys

variable (h : HeldKeys) {now t : Nat} {key : UInt8}

/-- The press of the key that is remembered. -/
def recalled (key : UInt8) : Option Nat := h.lastPress.get ⟨key.toNat, key.toNat_lt⟩

@[simp]
theorem recalled_none (key : UInt8) : none.recalled key = Option.none :=
  Vector.getElem_replicate _

@[simp]
theorem recalled_press (pressed : UInt8) :
    (h.press now pressed).recalled key = if pressed = key then some now else h.recalled key := by
  simp only [← UInt8.toNat_inj]
  exact Vector.getElem_set pressed.toNat_lt key.toNat_lt

@[simp]
theorem recalled_evict (now : Nat) :
    (h.evict now).recalled key = (h.recalled key).filter (live now) :=
  Vector.getElem_map _ key.toNat_lt

/-- A press of the key is remembered that counts as held at time `t`. -/
def HeldAt (t : Nat) (key : UInt8) : Prop :=
  ∃ p, h.recalled key = some p ∧ live t p = true

theorem not_heldAt_none (t : Nat) (key : UInt8) : ¬ none.HeldAt t key := by
  simp [HeldAt]

/-- A press that is held at some time was held at every time before. -/
theorem live_of_le {p : Nat} (hle : now ≤ t) (hlive : live t p = true) : live now p = true := by
  simp only [live, decide_eq_true_eq] at hlive ⊢
  omega

theorem heldAt_press (pressed : UInt8) :
    (h.press now pressed).HeldAt t key ↔
      if pressed = key then live t now = true else h.HeldAt t key := by
  by_cases hkey : pressed = key
  · simp [HeldAt, hkey]
  · simp [HeldAt, hkey]

/-- What is forgotten now is not held at any later time. -/
theorem heldAt_evict (hle : now ≤ t) : (h.evict now).HeldAt t key ↔ h.HeldAt t key := by
  simp only [HeldAt, recalled_evict, Option.filter_eq_some_iff]
  constructor
  · rintro ⟨p, ⟨hp, _⟩, hlive⟩
    exact ⟨p, hp, hlive⟩
  · rintro ⟨p, hp, hlive⟩
    exact ⟨p, ⟨hp, live_of_le hle hlive⟩, hlive⟩

/-- Just the presses that are held now are left. -/
theorem has_evict_iff : (h.evict now).has key = true ↔ h.HeldAt now key := by
  show ((h.evict now).recalled key).isSome = true ↔ _
  rw [recalled_evict, Option.isSome_iff_exists]
  simp only [HeldAt, Option.filter_eq_some_iff]

theorem mem_codes_iff : key ∈ h.codes ↔ h.has key = true := by
  rw [codes, List.mem_filter]
  constructor
  · exact fun hmem => hmem.2
  · intro hhas
    refine ⟨List.mem_map.mpr ⟨key.toNat, List.mem_range.mpr key.toNat_lt, ?_⟩, hhas⟩
    exact UInt8.ofNat_toNat

theorem codes_ascending : h.codes.Pairwise (· < ·) := by
  refine List.Pairwise.filter _ (List.pairwise_map.mpr ?_)
  refine List.Pairwise.imp_of_mem ?_ (List.pairwise_lt_range (n := 256))
  intro i j hi hj hlt
  rw [UInt8.lt_iff_toNat_lt, UInt8.toNat_ofNat_of_lt' (List.mem_range.mp hi),
    UInt8.toNat_ofNat_of_lt' (List.mem_range.mp hj)]
  exact hlt

end HeldKeys

namespace Keypad

/-- An unused keypad. -/
def unused (start : Nat) : Keypad := { now := start }

/-- The keypad after some actions. -/
def after (k : Keypad) (actions : List KeyAction) : Keypad :=
  actions.foldl (fun k action => (k.act action).1) k

/-- The time after some actions, the first of which begins at `start`. -/
def clock (start : Nat) (actions : List KeyAction) : Nat :=
  actions.foldl (fun now action => now + action.elapsed) start

/-- The last action that presses the key does so at time `p`. -/
def LastPressed (start : Nat) (actions : List KeyAction) (key : UInt8) (p : Nat) : Prop :=
  ∃ earlier action later, actions = earlier ++ action :: later ∧ action.presses key = true ∧
    (∀ a ∈ later, a.presses key = false) ∧ p = clock start earlier

/-- The last press of the key is no more than fifty milliseconds ago. -/
def HeldAfter (start : Nat) (actions : List KeyAction) (key : UInt8) : Prop :=
  ∃ p, LastPressed start actions key p ∧ clock start actions - p ≤ 50 * 1000000

/-- The actions that do more than look. -/
def withoutLooks (actions : List KeyAction) : List KeyAction :=
  actions.filter fun action => !action.isLook

variable {start t : Nat} {actions : List KeyAction} {action : KeyAction} {key : UInt8}

/-! ### The last press -/

theorem clock_snoc (start : Nat) (actions : List KeyAction) (action : KeyAction) :
    clock start (actions ++ [action]) = clock start actions + action.elapsed := by
  simp [clock]

/-- Time does not run backwards. -/
theorem clock_mono (start : Nat) (actions later : List KeyAction) :
    clock start actions ≤ clock start (actions ++ later) := by
  induction later using List.reverseRecOn with
  | nil => simp
  | append_singleton later newest ih =>
    rw [← List.append_assoc, clock_snoc]
    omega

theorem withoutLooks_snoc (actions : List KeyAction) (action : KeyAction) :
    withoutLooks (actions ++ [action]) =
      if action.isLook = true then withoutLooks actions else withoutLooks actions ++ [action] := by
  by_cases hlook : action.isLook = true
  · simp [withoutLooks, hlook]
  · simp [withoutLooks, hlook]

theorem lastPressed_nil (p : Nat) : ¬ LastPressed start [] key p := by
  rintro ⟨earlier, action, later, hactions, _⟩
  simp at hactions

/-- The last press is the newest action, or it is the one before if the newest action is none. -/
theorem lastPressed_snoc {p : Nat} :
    LastPressed start (actions ++ [action]) key p ↔
      if action.presses key = true then p = clock start actions
      else LastPressed start actions key p := by
  split
  · next hpresses =>
    constructor
    · rintro ⟨earlier, last, later, hactions, _, hlater, rfl⟩
      rcases List.eq_nil_or_concat later with rfl | ⟨later, newest, rfl⟩
      · rw [(List.append_inj' hactions rfl).1]
      · -- the newest action presses the key, so it cannot come after the last press
        rw [List.concat_eq_append, ← List.cons_append, ← List.append_assoc] at hactions
        have hnewest : action = newest := by simpa using (List.append_inj' hactions rfl).2
        have hnone := hlater newest (by simp)
        rw [← hnewest, hpresses] at hnone
        cases hnone
    · rintro rfl
      exact ⟨actions, action, [], rfl, hpresses, by simp, rfl⟩
  · next hpresses =>
    constructor
    · rintro ⟨earlier, last, later, hactions, hlast, hlater, hp⟩
      rcases List.eq_nil_or_concat later with rfl | ⟨later, newest, rfl⟩
      · have hnewest : action = last := by simpa using (List.append_inj' hactions rfl).2
        rw [hnewest] at hpresses
        exact absurd hlast hpresses
      · rw [List.concat_eq_append, ← List.cons_append, ← List.append_assoc] at hactions
        refine ⟨earlier, last, later, (List.append_inj' hactions rfl).1, hlast, ?_, hp⟩
        intro a ha
        exact hlater a (by simp [ha])
    · rintro ⟨earlier, last, later, rfl, hlast, hlater, hp⟩
      refine ⟨earlier, last, later ++ [action], by simp, hlast, ?_, hp⟩
      intro a ha
      rcases List.mem_append.mp ha with hold | hnew
      · exact hlater a hold
      · rw [List.mem_singleton.mp hnew]
        exact Bool.eq_false_iff.mpr hpresses

/-- Looks take no time. -/
theorem clock_withoutLooks (start : Nat) (actions : List KeyAction) :
    clock start (withoutLooks actions) = clock start actions := by
  induction actions using List.reverseRecOn with
  | nil => rfl
  | append_singleton actions action ih =>
    by_cases hlook : action.isLook = true
    · simp only [withoutLooks_snoc, if_pos hlook, clock_snoc, ih,
        KeyAction.elapsed_of_isLook hlook, Nat.add_zero]
    · simp only [withoutLooks_snoc, if_neg hlook, clock_snoc, ih]

/-- Looks are no presses. -/
theorem lastPressed_withoutLooks (actions : List KeyAction) (key : UInt8) (p : Nat) :
    LastPressed start (withoutLooks actions) key p ↔ LastPressed start actions key p := by
  induction actions using List.reverseRecOn with
  | nil => exact Iff.rfl
  | append_singleton actions action ih =>
    by_cases hlook : action.isLook = true
    · simp only [withoutLooks_snoc, if_pos hlook, lastPressed_snoc,
        KeyAction.presses_of_isLook hlook, Bool.false_eq_true, if_false, ih]
    · simp only [withoutLooks_snoc, if_neg hlook, lastPressed_snoc, clock_withoutLooks, ih]

theorem heldAfter_withoutLooks (start : Nat) (actions : List KeyAction) (key : UInt8) :
    HeldAfter start (withoutLooks actions) key ↔ HeldAfter start actions key := by
  simp only [HeldAfter, clock_withoutLooks, lastPressed_withoutLooks]

/-- After a press there is a last one, and it is no earlier. -/
theorem exists_lastPressed (start : Nat) (before : List KeyAction)
    (hpresses : action.presses key = true) (later : List KeyAction) :
    ∃ p, clock start before ≤ p ∧ LastPressed start (before ++ action :: later) key p := by
  induction later using List.reverseRecOn with
  | nil => exact ⟨clock start before, Nat.le_refl _, before, action, [], rfl, hpresses, by simp, rfl⟩
  | append_singleton later newest ih =>
    obtain ⟨p, hle, hlast⟩ := ih
    rw [← List.cons_append, ← List.append_assoc]
    simp only [lastPressed_snoc]
    by_cases hnewest : newest.presses key = true
    · simp only [hnewest, if_true]
      refine ⟨_, ?_, rfl⟩
      exact clock_mono start before (action :: later)
    · simp only [hnewest]
      exact ⟨p, hle, hlast⟩

/-! ### What the keypad remembers -/

theorem after_snoc (k : Keypad) (actions : List KeyAction) (action : KeyAction) :
    k.after (actions ++ [action]) = ((k.after actions).act action).1 := by
  simp [after]

/-- No action makes a machine wait. -/
theorem waiting_act (k : Keypad) (hidle : k.rendezvous.waiting = false) (action : KeyAction) :
    (k.act action).1.rendezvous.waiting = false := by
  cases action with
  | press key =>
    have hoffer : k.rendezvous.offer? key = none := by simp [Rendezvous.offer?, hidle]
    simp only [act, press, hoffer]
    exact hidle
  | _ => exact hidle

theorem now_act (k : Keypad) (action : KeyAction) :
    (k.act action).1.now = k.now + action.elapsed := by
  cases action with
  | press key =>
    simp only [act, press]
    split <;> rfl
  | _ => rfl

theorem heldAt_add (k : Keypad) (keys : List UInt8) :
    (k.add keys).held.HeldAt t key ↔
      if keys.contains key = true then HeldKeys.live t k.now = true else k.held.HeldAt t key := by
  show (keys.foldl (fun held key => held.press k.now key) k.held).HeldAt t key ↔ _
  generalize k.held = held
  induction keys generalizing held with
  | nil => simp
  | cons first rest ih =>
    rw [List.foldl_cons, ih, HeldKeys.heldAt_press]
    by_cases hrest : rest.contains key = true
    · simp_all
    · by_cases hfirst : first = key
      · simp_all
      · have hfirst' : key ≠ first := Ne.symm hfirst
        simp_all

/-- An action that presses a key begins its time anew; any other action leaves it, also where it makes
the keypad forget. -/
theorem heldAt_act (k : Keypad) (hidle : k.rendezvous.waiting = false)
    (hle : (k.act action).1.now ≤ t) :
    (k.act action).1.held.HeldAt t key ↔
      if action.presses key = true then HeldKeys.live t k.now = true else k.held.HeldAt t key := by
  cases action with
  | add keys => exact heldAt_add k keys
  | press pressed =>
    have hoffer : k.rendezvous.offer? pressed = none := by simp [Rendezvous.offer?, hidle]
    have hheld : (k.act (.press pressed)).1.held = k.held.press k.now pressed := by
      simp [act, press, hoffer, add]
    rw [hheld, HeldKeys.heldAt_press]
    simp [KeyAction.presses]
  | contains asked => exact k.held.heldAt_evict hle
  | pressed => exact k.held.heldAt_evict hle
  | _ => exact Iff.rfl

/-- A keypad that nobody waits at agrees with its history about every key, now and at every later
time. -/
theorem heldAt_after (start : Nat) (actions : List KeyAction) :
    ((unused start).after actions).now = clock start actions ∧
      ((unused start).after actions).rendezvous.waiting = false ∧
      ∀ t, clock start actions ≤ t → ∀ key, ((unused start).after actions).held.HeldAt t key ↔
        ∃ p, LastPressed start actions key p ∧ HeldKeys.live t p = true := by
  induction actions using List.reverseRecOn with
  | nil =>
    refine ⟨rfl, rfl, fun t _ key => ?_⟩
    constructor
    · exact fun hheld => absurd hheld (HeldKeys.not_heldAt_none t key)
    · exact fun ⟨p, hlast, _⟩ => absurd hlast (lastPressed_nil p)
  | append_singleton actions action ih =>
    obtain ⟨hnow, hidle, hheld⟩ := ih
    have hnow' : ((unused start).after (actions ++ [action])).now =
        clock start (actions ++ [action]) := by
      rw [after_snoc, now_act, hnow, clock_snoc]
    refine ⟨hnow', ?_, fun t ht key => ?_⟩
    · rw [after_snoc]
      exact waiting_act _ hidle action
    · rw [← hnow', after_snoc] at ht
      rw [after_snoc, heldAt_act _ hidle ht, hnow]
      rw [now_act, hnow] at ht
      simp only [lastPressed_snoc]
      split
      · simp
      · exact hheld t (Nat.le_trans (Nat.le_add_right _ _) ht) key

/-! ### What looks at the keypad show -/

theorem contains_after_iff (start : Nat) (actions : List KeyAction) (key : UInt8) :
    (((unused start).after actions).contains key).2 = true ↔ HeldAfter start actions key := by
  obtain ⟨hnow, _, hheld⟩ := heldAt_after start actions
  have hnow_held := hheld _ (Nat.le_refl _) key
  rw [← hnow] at hnow_held
  refine (HeldKeys.has_evict_iff _).trans (hnow_held.trans ?_)
  rw [hnow]
  simp only [HeldKeys.live, decide_eq_true_eq]
  exact Iff.rfl

/-- The keys that are listed are just those that are contained. -/
theorem pressed_eq_of_contains (k k' : Keypad)
    (h : ∀ key, (k.contains key).2 = (k'.contains key).2) : k.pressed.2 = k'.pressed.2 :=
  List.filter_congr fun key _ => h key

/-- The answers of a keypad after some actions, and what they do not depend on. -/
structure ShowsHeld (start : Nat) (actions : List KeyAction) (k : Keypad) : Prop where
  contains_iff : ∀ key, (k.contains key).2 = true ↔ HeldAfter start actions key
  pressed_iff : ∀ key, key ∈ k.pressed.2 ↔ HeldAfter start actions key
  ascending : k.pressed.2.Pairwise (· < ·)
  /-- Other looks before would not have changed the answers, for all that they make it forget. -/
  looks : ∀ actions', withoutLooks actions' = withoutLooks actions →
    (∀ key, (((unused start).after actions').contains key).2 = (k.contains key).2) ∧
      ((unused start).after actions').pressed.2 = k.pressed.2
  /-- A press prolongs the time for which its key is held, whatever went before. -/
  prolonged : ∀ before action later key, actions = before ++ action :: later →
    action.presses key = true → clock start actions - clock start before ≤ 50 * 1000000 →
      (k.contains key).2 = true

/-- Whatever was done to a keypad that nobody waits at, it shows just the keys that were pressed in the
last fifty milliseconds. -/
theorem shows_held (start : Nat) (actions : List KeyAction) :
    ShowsHeld start actions ((unused start).after actions) := by
  have hcontains := contains_after_iff start actions
  refine ⟨hcontains, ?_, HeldKeys.codes_ascending _, ?_, ?_⟩
  · intro key
    rw [← hcontains key]
    exact HeldKeys.mem_codes_iff _
  · intro actions' hlooks
    have hsame : ∀ key, (((unused start).after actions').contains key).2 =
        (((unused start).after actions).contains key).2 := by
      intro key
      rw [Bool.eq_iff_iff, hcontains, contains_after_iff, ← heldAfter_withoutLooks, hlooks,
        heldAfter_withoutLooks]
    exact ⟨hsame, pressed_eq_of_contains _ _ hsame⟩
  · intro before action later key hactions hpresses hrecent
    obtain ⟨p, hle, hlast⟩ := exists_lastPressed start before hpresses later
    rw [← hactions] at hlast
    refine (hcontains key).mpr ⟨p, hlast, ?_⟩
    omega

end Keypad

end Chip8
