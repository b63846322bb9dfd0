import Chip8.Keypad

/-!
# How a wait ends

A wait is ended by the first action of its visit that can do so: a press hands over its key, and a
cancellation ends the wait without one. All else leaves the machine asleep (`Keypad.attend_eq`), and a
visit of nothing else is followed by a cancellation.

So a wait ends without a key just if waits are forbidden when it begins, or no key is pressed in its visit
before the first cancellation (`Keypad.awaitKey_eq_cancelled_iff`).
-/

namespace Chip8

/-- How an action ends a wait that was handed no key so far, if it does. -/
def KeyAction.ending? : KeyAction → Option WaitResult
  | .press key => some (.ok key)
  | .cancel => some (.error .cancelled)
  | _ => none

namespace Keypad

/-- The next wait will end without a key: waits were forbidden by a cancellation before, or every press of
its visit comes after one. -/
def WaitsInVain (k : Keypad) : Prop :=
  k.rendezvous.cancelled = true ∨
    ∀ before key after, k.visits.headD [] = before ++ .press key :: after → .cancel ∈ before

variable {k : Keypad}

theorem awaitKey_of_cancelled (h : k.rendezvous.cancelled = true) :
    k.awaitKey = (k, .error .cancelled) := by
  rw [awaitKey, Rendezvous.begin?, if_pos h]

/-! ### A visit -/

/-- A wait that has ended stays so. -/
theorem attend_of_some (k : Keypad) (result : WaitResult) (visit : Visit) :
    (k.attend (some result) visit).2.2 = some result := by
  induction visit generalizing k with
  | nil => rfl
  | cons action rest ih => exact ih (k.act action).1

theorem wake_of_waiting (h : k.rendezvous = { waiting := true }) : k.wake none = (k, none) := by
  rw [wake, h]
  rfl

/-- A machine that sleeps is woken up by an action that ends its wait, and by no other. -/
theorem wake_act (h : k.rendezvous = { waiting := true }) (action : KeyAction) :
    ((k.act action).1.wake none).2 = action.ending? ∧
      (action.ending? = none → ((k.act action).1.wake none).1.rendezvous = { waiting := true }) := by
  cases action with
  | press key =>
    have hpress : (k.press key).1 = { k with rendezvous := { waiting := true, key := some key } } := by
      rw [press, h]
      rfl
    show ((k.press key).1.wake none).2 = _ ∧ _
    rw [hpress]
    exact ⟨rfl, nofun⟩
  | cancel =>
    have hcancel : k.cancel = { k with rendezvous := { waiting := true, cancelled := true } } := by
      rw [cancel, h]
      rfl
    show (k.cancel.wake none).2 = _ ∧ _
    rw [hcancel]
    exact ⟨rfl, nofun⟩
  | reset =>
    have hreset : k.reset.rendezvous = { waiting := true } := by
      rw [reset, h]
      rfl
    show (k.reset.wake none).2 = _ ∧ (_ → (k.reset.wake none).1.rendezvous = _)
    rw [wake_of_waiting hreset]
    exact ⟨rfl, fun _ => hreset⟩
  | _ =>
    -- nothing else touches the rendezvous
    rw [wake_of_waiting (by exact h)]
    exact ⟨rfl, fun _ => h⟩

/-- The first action that can end a wait does so. If there is none, nothing was handed over. -/
theorem attend_eq (h : k.rendezvous = { waiting := true }) (visit : Visit) :
    (k.attend none visit).2.2 = visit.findSome? KeyAction.ending? ∧
      (visit.findSome? KeyAction.ending? = none →
        (k.attend none visit).1.rendezvous = { waiting := true }) := by
  induction visit generalizing k with
  | nil => exact ⟨rfl, fun _ => h⟩
  | cons action rest ih =>
    obtain ⟨hresult, hasleep⟩ := wake_act h action
    rw [attend, List.findSome?_cons]
    dsimp only
    cases hending : action.ending? with
    | some result =>
      rw [hresult, hending]
      exact ⟨attend_of_some _ result rest, nofun⟩
    | none =>
      rw [hresult, hending]
      exact ih (hasleep hending)

/-- A visit ends a wait without a key if every press comes after a cancellation. -/
theorem getD_ending_eq_cancelled_iff {visit : Visit} :
    (visit.findSome? KeyAction.ending?).getD (.error .cancelled) = .error .cancelled ↔
      ∀ before key after, visit = before ++ .press key :: after → .cancel ∈ before := by
  constructor
  · intro hvain before key after hvisit
    rw [hvisit, List.findSome?_append] at hvain
    cases hbefore : before.findSome? KeyAction.ending? with
    | none =>
      rw [hbefore] at hvain
      cases hvain
    | some result =>
      rw [hbefore] at hvain
      obtain ⟨action, hmem, hending⟩ := List.exists_of_findSome?_eq_some hbefore
      have hresult : result = .error .cancelled := hvain
      rw [hresult] at hending
      cases action with
      | cancel => exact hmem
      | _ => cases hending
  · intro hlater
    cases hfirst : visit.findSome? KeyAction.ending? with
    | none => rfl
    | some result =>
      obtain ⟨before, action, after, hvisit, hending, hnone⟩ := List.findSome?_eq_some_iff.mp hfirst
      cases action with
      | press key =>
        have hcancel := hnone .cancel (hlater before key after hvisit)
        cases hcancel
      | cancel =>
        cases hending
        rfl
      | _ => cases hending

/-! ### A whole wait -/

theorem sleep_eq (h : k.rendezvous = { waiting := true }) :
    k.sleep.2 = ((k.visits.headD []).findSome? KeyAction.ending?).getD (.error .cancelled) := by
  have hbegun : ({ k with visits := k.visits.tail } : Keypad).rendezvous = { waiting := true } := h
  obtain ⟨hresult, hasleep⟩ := attend_eq hbegun (k.visits.headD [])
  rw [sleep, ← hresult]
  split
  · next later replies result hattend =>
    rw [hattend]
    rfl
  · next later replies hattend =>
    rw [hattend] at hresult hasleep
    -- nothing was handed over, so the wait is cancelled in the end
    have hend : later.rendezvous = { waiting := true } := hasleep hresult.symm
    rw [hattend, hend]
    rfl

/-- A wait ends without a key just if it is in vain. -/
theorem awaitKey_eq_cancelled_iff : k.awaitKey.2 = .error .cancelled ↔ k.WaitsInVain := by
  rw [WaitsInVain]
  by_cases hforbidden : k.rendezvous.cancelled = true
  · rw [awaitKey_of_cancelled hforbidden]
    exact iff_of_true rfl (.inl hforbidden)
  · have hopen : k.rendezvous.cancelled = false := Bool.eq_false_iff.mpr hforbidden
    have hbegin : k.rendezvous.begin? = some { waiting := true } := by
      rw [Rendezvous.begin?, if_neg hforbidden, hopen]
    rw [awaitKey, hbegin, or_iff_right hforbidden, ← getD_ending_eq_cancelled_iff]
    exact iff_of_eq (congrArg (· = _) (sleep_eq rfl))

end Keypad

end Chip8
