import Chip8.Timers

/-!
# The ticker of the timers

Timers remember every ticker that they ever started, and hold one of them at most. They own their
tickers if no other one is alive (`Timers.Owned`), and whatever is done to them keeps it so. Timers that own
their tickers can be stopped: from then on no ticker calls back, so they keep the values that they had
(`Timers.fire_of_stopped`).
-/

namespace Chip8.Timers

variable {t : Timers}

/-- No ticker is alive but the one that the timers hold. -/
def Owned (t : Timers) : Prop := ∀ number, t.alive number = true → t.held = some number

theorem alive_kill (t : Timers) (killed number : Nat) :
    (t.kill killed).alive number = (t.alive number && decide (number ≠ killed)) := by
  simp only [alive, kill, Array.getElem?_modify]
  by_cases hsame : killed = number
  · cases t.tickers[number]? <;> simp [hsame]
  · cases t.tickers[number]? <;> simp [hsame, Ne.symm hsame]

theorem owned_fresh : ({} : Timers).Owned := by
  intro number halive
  simp [alive] at halive

/-- A ticker is started only where none is alive. -/
theorem Owned.start (h : t.Owned) : t.start.Owned := by
  rw [Timers.start]
  split
  · exact h
  · next hidle =>
    intro number halive
    show some t.tickers.size = some number
    by_cases hnew : number = t.tickers.size
    · rw [hnew]
    · have hold : t.alive number = true := by
        simpa [alive, Array.getElem?_push, hnew] using halive
      have hrunning : t.isRunning = true := by
        simp only [isRunning, h number hold, Option.any_some, hold]
      exact absurd hrunning hidle

theorem owned_running : running.Owned := owned_fresh.start

theorem Owned.kill (h : t.Owned) (killed : Nat) : (t.kill killed).Owned := by
  intro number halive
  rw [alive_kill, Bool.and_eq_true] at halive
  exact h number halive.1

/-- A ticker that calls back does not start or end one. -/
theorem Owned.fired (h : t.Owned) (number : Nat) : ((t.fire number).getD t).Owned := by
  rw [fire]
  split
  · exact h
  · exact h

theorem held_stop (t : Timers) : t.stop.held = none := by
  rw [stop]
  split
  · rfl
  · next hheld => exact hheld

/-- The ticker that is let go of has ended, and no other one was alive. -/
theorem Owned.stop (h : t.Owned) : t.stop.Owned := by
  rw [Timers.stop]
  split
  · next held hheld =>
    intro number halive
    have hkilled : (t.kill held).alive number = true := halive
    have hnumber : some held = some number := hheld.symm.trans (h.kill held number hkilled)
    rw [alive_kill, Bool.and_eq_true, decide_eq_true_eq] at hkilled
    exact absurd (Option.some.inj hnumber).symm hkilled.2
  · exact h

/-- Where no ticker is held, none calls back. -/
theorem fire_of_stopped (h : t.Owned) (hheld : t.held = none) (number : Nat) :
    t.fire number = none := by
  refine if_neg fun halive => ?_
  rw [h number halive] at hheld
  cases hheld

end Chip8.Timers
