import Chip8.Proofs.Machine.Frame
import Chip8.Proofs.Session.Refinement
import Chip8.Proofs.Timers.Tickers

/-!
# What can be done to a session

The task of a session is called, others act on the keypad, wait for keys or let tickers call back, and
the owner stops the session or lets go of it. These are the `Session.Action`s, and `Session.conduct` does
a list of them one by one.

What a call of the task comes to is said once (`Session.tick_cases`). From it come the properties that
a session has at all times (`Session.Orderly`): its screen is well-formed, its timers own their tickers,
and once it has ended none of its tickers is held any more.
-/

namespace Chip8.Session

/-- What is done to a session. -/
inductive Action where
  /-- The task is called. -/
  | call
  /-- Someone acts on the keypad, or a ticker calls back. -/
  | outside (influence : Influence)
  /-- Someone else waits for a key. -/
  | wait
  /-- The owner stops the session. -/
  | stop
  /-- The owner lets go of the session. -/
  | close
  deriving DecidableEq

/-- Does one action. -/
def act (s : Session) : Action → Session
  | .call => s.tick.1
  | .outside i => s.influence i
  | .wait => s.withKeypad fun keypad => keypad.awaitKey.1
  | .stop => s.stop.1
  | .close => s.close

/-- Does some actions one by one. -/
def conduct (s : Session) (actions : List Action) : Session := actions.foldl act s

variable {s : Session}

@[simp]
theorem conduct_nil (s : Session) : s.conduct [] = s := rfl

@[simp]
theorem conduct_cons (s : Session) (a : Action) (rest : List Action) :
    s.conduct (a :: rest) = (s.act a).conduct rest := rfl

theorem conduct_append (s : Session) (before after : List Action) :
    s.conduct (before ++ after) = (s.conduct before).conduct after :=
  List.foldl_append

/-- What each action keeps, all of them keep. -/
theorem conduct_keeps {P : Session → Prop} (hact : ∀ u a, P u → P (u.act a)) (h : P s)
    (actions : List Action) : P (s.conduct actions) := by
  induction actions generalizing s with
  | nil => exact h
  | cons a rest ih => exact ih (hact s a h)

/-! ### Calls of the task -/

/-- A call of the task finds it ended, or makes a step that goes through, or ends it on an error. -/
theorem tick_cases (hscreen : s.machine.screen.WellFormed) :
    (s.running = false ∧ s.tick = (s, none)) ∨
    (s.running = true ∧ ∃ notice m', Machine.step.run s.machine = .ok notice m' ∧
      s.tick = (s.shown notice m', some true)) ∨
    (s.running = true ∧ ∃ e m', Machine.step.run s.machine = .error (.error e) m' ∧
      s.tick = ({ s.publish m' with error := some e }.ended, some false)) := by
  by_cases h : s.running = true
  · refine .inr ?_
    rcases (Machine.answers_of_screen hscreen).ok_or_error with ⟨notice, m', hrun⟩ | ⟨e, m', hrun⟩
    · exact .inl ⟨h, notice, m', hrun, tick_of_ok h hrun⟩
    · exact .inr ⟨h, e, m', hrun, tick_of_error h hrun⟩
  · have hended : s.running = false := Bool.eq_false_iff.mpr h
    exact .inl ⟨hended, tick_of_ended hended⟩

/-! ### The screen -/

theorem shown_terminate (s : Session) :
    s.terminate.machine.screen = s.machine.screen ∧ s.terminate.frames = s.frames := by
  rw [terminate_eq]
  exact ⟨rfl, rfl⟩

/-- Nothing but a call of the task touches the screen or hands it over. -/
theorem shown_act {a : Action} (ha : a ≠ .call) :
    (s.act a).machine.screen = s.machine.screen ∧ (s.act a).frames = s.frames := by
  cases a with
  | call => exact absurd rfl ha
  | outside i => exact ⟨Machine.influence_screen s.machine i, rfl⟩
  | wait => exact ⟨rfl, rfl⟩
  | stop =>
    simp only [act, stop]
    split
    · exact ⟨rfl, rfl⟩
    · exact shown_terminate s
  | close =>
    simp only [act, close]
    split
    · exact ⟨rfl, rfl⟩
    · exact shown_terminate s

theorem wellFormed_tick (hscreen : s.machine.screen.WellFormed) :
    s.tick.1.machine.screen.WellFormed := by
  rcases tick_cases hscreen with
    ⟨_, htick⟩ | ⟨_, notice, m', hrun, htick⟩ | ⟨_, e, m', hrun, htick⟩
  · rw [htick]
    exact hscreen
  · rw [htick]
    exact (Machine.stepped_of_run hrun).screen_wellFormed hscreen
  · rw [htick]
    exact (Machine.stopped_of_run hrun).screen_wellFormed hscreen

theorem wellFormed_act (hscreen : s.machine.screen.WellFormed) (a : Action) :
    (s.act a).machine.screen.WellFormed := by
  by_cases ha : a = .call
  · rw [ha]
    exact wellFormed_tick hscreen
  · rw [(shown_act ha).1]
    exact hscreen

theorem wellFormed_conduct (hscreen : s.machine.screen.WellFormed) (actions : List Action) :
    (s.conduct actions).machine.screen.WellFormed :=
  conduct_keeps (P := fun u => u.machine.screen.WellFormed) (fun _ a hu => wellFormed_act hu a)
    hscreen actions

/-! ### What always holds -/

/-- What holds of a session at all times. -/
structure Orderly (s : Session) : Prop where
  screen : s.machine.screen.WellFormed
  timers : s.machine.timers.Owned
  error : s.running = true → s.error = none
  /-- The session gives its timers up when it ends. -/
  stopped : s.running = false → s.machine.timers.held = none
  released : s.released = true → s.running = false

/-- It holds of a session that is started on a machine with a well-formed screen whose timers own their
tickers. -/
theorem orderly_start {m : Machine} (hscreen : m.screen.WellFormed) (htimers : m.timers.Owned) :
    (start m).Orderly :=
  ⟨hscreen, htimers, fun _ => rfl, nofun, nofun⟩

theorem orderly_ended (hscreen : s.machine.screen.WellFormed) (htimers : s.machine.timers.Owned) :
    s.ended.Orderly :=
  ⟨hscreen, htimers.stop, nofun, fun _ => Timers.held_stop _, fun _ => rfl⟩

theorem Orderly.withKeypad (h : s.Orderly) (f : Keypad → Keypad) : (s.withKeypad f).Orderly :=
  ⟨h.screen, h.timers, h.error, h.stopped, h.released⟩

theorem Orderly.tick (h : s.Orderly) : s.tick.1.Orderly := by
  have hscreen := wellFormed_tick h.screen
  rcases tick_cases h.screen with
    ⟨_, htick⟩ | ⟨hrunning, notice, m', hrun, htick⟩ | ⟨_, e, m', hrun, htick⟩
  · rw [htick]
    exact h
  · have hframe := Machine.inFrame_of_stepped h.screen (Machine.stepped_of_run hrun)
    have howned : m'.timers.Owned := by
      rw [hframe.timers]
      exact h.timers
    rw [htick] at hscreen ⊢
    refine ⟨hscreen, howned, h.error, ?_, h.released⟩
    intro hended
    exact absurd (hrunning.symm.trans hended) (by decide)
  · have hframe := Machine.inFrame_of_stopped (Machine.stopped_of_run hrun)
    have howned : m'.timers.Owned := by
      rw [hframe.timers]
      exact h.timers
    rw [htick] at hscreen ⊢
    exact orderly_ended (s := { s.publish m' with error := some e }) hscreen howned

theorem Orderly.influence (h : s.Orderly) (i : Influence) : (s.influence i).Orderly := by
  cases i with
  | key action => exact ⟨h.screen, h.timers, h.error, h.stopped, h.released⟩
  | ticker number =>
    refine ⟨h.screen, h.timers.fired number, h.error, ?_, h.released⟩
    intro hended
    have hsilent := Timers.fire_of_stopped h.timers (h.stopped hended) number
    show ((s.machine.timers.fire number).getD s.machine.timers).held = none
    rw [hsilent]
    exact h.stopped hended

theorem Orderly.terminate (h : s.Orderly) : s.terminate.Orderly := by
  by_cases hrunning : s.running = true
  · rw [terminate_of_running hrunning]
    exact orderly_ended h.screen h.timers
  · rw [terminate_of_ended (Bool.eq_false_iff.mpr hrunning)]
    exact h.withKeypad _

theorem Orderly.stop (h : s.Orderly) : s.stop.1.Orderly := by
  have hterminate := h.terminate
  rw [Session.stop]
  split
  · exact h
  · exact ⟨hterminate.screen, hterminate.timers, fun _ => rfl, hterminate.stopped,
      hterminate.released⟩

theorem Orderly.close (h : s.Orderly) : s.close.Orderly := by
  have hterminate := h.terminate
  rw [Session.close]
  split
  · exact h
  · exact ⟨hterminate.screen, hterminate.timers, hterminate.error, hterminate.stopped,
      fun _ => running_terminate s⟩

theorem Orderly.act (h : s.Orderly) (a : Action) : (s.act a).Orderly := by
  cases a with
  | call => exact h.tick
  | outside i => exact h.influence i
  | wait => exact h.withKeypad fun keypad => keypad.awaitKey.1
  | stop => exact h.stop
  | close => exact h.close

theorem Orderly.conduct (h : s.Orderly) (actions : List Action) : (s.conduct actions).Orderly :=
  conduct_keeps (fun _ a hu => hu.act a) h actions

end Chip8.Session
