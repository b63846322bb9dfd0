import Chip8.Proofs.Keypad.Cancellation
import Chip8.Proofs.Session.Conduct

/-!
# The life of a session

A session ends by itself on the first call of its task that answers so, or from outside when its owner
stops it or lets go of it; whichever of them comes first, that is the end (`Session.Ends`). From then on
nothing can be seen to change but the keypad, which its session does not own (`Session.Over`).

What a stop reports depends on what came first as well. The error on which a session ended by itself is
kept until somebody stops the session, and only an interruption is not worth a report. So an error is
reported once at most, and a session that was stopped while it was still running never has one.

`Session.life_cycle` puts this together for all lists of actions, in any order.
-/

namespace Chip8.Session

/-- The action ends the session, if it has not ended yet. -/
def Ends (s : Session) : Action → Prop
  | .call => s.tick.2 = some false
  | .stop | .close => True
  | .outside _ | .wait => False

/-- A call of the task ends the session on this error. -/
def FailsWith (s : Session) (e : ExecutionError) : Prop :=
  s.running = true ∧ ∃ m', Machine.step.run s.machine = .error (.error e) m'

/-- One of the actions ends the session by itself, on this error. -/
def FailedOn (s : Session) (actions : List Action) (e : ExecutionError) : Prop :=
  ∃ earlier later, actions = earlier ++ .call :: later ∧ (s.conduct earlier).FailsWith e

/-- The session has ended when it is `s`, and shows nothing new up to `s'`. -/
structure Over (s s' : Session) : Prop where
  running : s'.running = false
  publishedPc : s'.publishedPc = s.publishedPc
  frames : s'.frames = s.frames
  /-- The timers as well: neither value changes any more. -/
  machine : s'.machine = { s.machine with keypad := s'.machine.keypad }
  /-- An error can be taken away. -/
  error : s'.error = s.error ∨ s'.error = none

variable {s s' s'' : Session} {a : Action} {e : ExecutionError}

/-! ### The end -/

theorem running_act_iff (h : s.Orderly) (a : Action) :
    (s.act a).running = true ↔ s.running = true ∧ ¬ s.Ends a := by
  cases a with
  | call =>
    show s.tick.1.running = true ↔ s.running = true ∧ ¬ s.tick.2 = some false
    rcases tick_cases h.screen with
      ⟨hended, htick⟩ | ⟨hrunning, notice, m', _, htick⟩ | ⟨hrunning, e, m', _, htick⟩
    · simp [htick, hended]
    · simp [htick, hrunning, shown]
    · simp [htick, hrunning, ended]
  | outside i => simp [act, influence, Ends]
  | wait => simp [act, withKeypad, Ends]
  | stop =>
    have hended : s.stop.1.running = false := by
      by_cases hreleased : s.released = true
      · simp only [stop, hreleased, if_true]
        exact h.released hreleased
      · exact (running_stop s (Bool.eq_false_iff.mpr hreleased)).1
    simp [act, hended, Ends]
  | close =>
    have hended : s.close.running = false := by
      rw [close]
      split
      · next hreleased => exact h.released hreleased
      · exact running_terminate s
    simp [act, hended, Ends]

/-- An element of a list stands at its head, or somewhere in the rest. -/
theorem split_cons_iff {first : Action} {rest before after : List Action} :
    first :: rest = before ++ a :: after ↔
      (before = [] ∧ first = a ∧ rest = after) ∨
        ∃ before', before = first :: before' ∧ rest = before' ++ a :: after := by
  rw [List.cons_eq_append_iff]
  simp [eq_comm]

/-- A session is running just as long as nothing has ended it. -/
theorem running_conduct_iff (h : s.Orderly) (actions : List Action) :
    (s.conduct actions).running = true ↔ s.running = true ∧
      ∀ before a after, actions = before ++ a :: after → ¬ (s.conduct before).Ends a := by
  induction actions generalizing s with
  | nil => simp
  | cons first rest ih =>
    rw [conduct_cons, ih (h.act first), running_act_iff h first]
    constructor
    · rintro ⟨⟨hrunning, hfirst⟩, hrest⟩
      refine ⟨hrunning, fun before a after hsplit => ?_⟩
      rcases split_cons_iff.mp hsplit with ⟨rfl, rfl, _⟩ | ⟨before', rfl, hsplit'⟩
      · exact hfirst
      · exact hrest before' a after hsplit'
    · rintro ⟨hrunning, hall⟩
      refine ⟨⟨hrunning, hall [] first rest rfl⟩, fun before a after hsplit => ?_⟩
      exact hall (first :: before) a after (split_cons_iff.mpr (.inr ⟨before, rfl, hsplit⟩))

/-! ### After the end -/

theorem Over.refl (h : s.running = false) : Over s s := ⟨h, rfl, rfl, rfl, .inl rfl⟩

theorem Over.trans (h : Over s s') (h' : Over s' s'') : Over s s'' := by
  refine ⟨h'.running, h'.publishedPc.trans h.publishedPc, h'.frames.trans h.frames, ?_, ?_⟩
  · rw [h'.machine, h.machine]
  · rcases h'.error with herror | herror
    · rw [herror]
      exact h.error
    · exact .inr herror

theorem over_withKeypad (h : s.running = false) (f : Keypad → Keypad) : Over s (s.withKeypad f) :=
  ⟨h, rfl, rfl, rfl, .inl rfl⟩

/-- Whatever is done to a session that has ended, it shows nothing new. -/
theorem over_act (h : s.Orderly) (hended : s.running = false) (a : Action) : Over s (s.act a) := by
  cases a with
  | call =>
    show Over s s.tick.1
    rw [tick_of_ended hended]
    exact .refl hended
  | outside i =>
    cases i with
    | key action => exact over_withKeypad hended fun keypad => (keypad.act action).1
    | ticker number =>
      have hsilent := Timers.fire_of_stopped h.timers (h.stopped hended) number
      have hsame : s.act (.outside (.ticker number)) = s := by
        simp only [act, influence, Machine.influence, hsilent, Option.getD_none]
      rw [hsame]
      exact .refl hended
  | wait => exact over_withKeypad hended fun keypad => keypad.awaitKey.1
  | stop =>
    show Over s s.stop.1
    rw [stop]
    split
    · exact .refl hended
    · rw [terminate_of_ended hended]
      exact ⟨hended, rfl, rfl, rfl, .inr rfl⟩
  | close =>
    show Over s s.close
    rw [close]
    split
    · exact .refl hended
    · rw [terminate_of_ended hended]
      exact ⟨hended, rfl, rfl, rfl, .inl rfl⟩

theorem over_conduct (h : s.Orderly) (hended : s.running = false) (actions : List Action) :
    Over s (s.conduct actions) := by
  induction actions generalizing s with
  | nil => exact .refl hended
  | cons first rest ih =>
    have hfirst := over_act h hended first
    exact hfirst.trans (ih (h.act first) hfirst.running)

/-! ### The error on which a session ends -/

theorem released_act (s : Session) (a : Action) :
    (s.act a).released = true ↔ s.released = true ∨ a = .close := by
  cases a with
  | call =>
    show s.tick.1.released = true ↔ _
    simp [released_tick]
  | outside i => simp [act, influence]
  | wait => simp [act, withKeypad]
  | stop =>
    have hkept : s.stop.1.released = s.released := by
      rw [stop]
      split
      · rfl
      · exact released_finish _
    simp [act, hkept]
  | close => simp [act, released_close]

theorem released_conduct (s : Session) (actions : List Action) :
    (s.conduct actions).released = true ↔ s.released = true ∨ .close ∈ actions := by
  induction actions generalizing s with
  | nil => simp
  | cons first rest ih =>
    rw [conduct_cons, ih, released_act, List.mem_cons, or_assoc, eq_comm (a := first)]

theorem unreleased_conduct {m : Machine} {actions : List Action} (hclose : .close ∉ actions) :
    ((start m).conduct actions).released = false := by
  refine Bool.eq_false_iff.mpr fun hreleased => ?_
  rcases (released_conduct _ actions).mp hreleased with hstart | hmem
  · cases hstart
  · exact hclose hmem

theorem not_failedOn_of_ended (h : s.Orderly) (hended : s.running = false) (actions : List Action)
    (e : ExecutionError) : ¬ s.FailedOn actions e := by
  rintro ⟨earlier, later, _, hrunning, _⟩
  rw [(over_conduct h hended earlier).running] at hrunning
  cases hrunning

theorem failedOn_cons_iff {first : Action} {rest : List Action} :
    s.FailedOn (first :: rest) e ↔
      (first = .call ∧ s.FailsWith e) ∨ (s.act first).FailedOn rest e := by
  constructor
  · rintro ⟨earlier, later, hsplit, hfails⟩
    rcases split_cons_iff.mp hsplit with ⟨rfl, rfl, _⟩ | ⟨earlier', rfl, hsplit'⟩
    · exact .inl ⟨rfl, hfails⟩
    · exact .inr ⟨earlier', later, hsplit', hfails⟩
  · rintro (⟨rfl, hfails⟩ | ⟨earlier, later, hsplit, hfails⟩)
    · exact ⟨[], rest, rfl, hfails⟩
    · exact ⟨first :: earlier, later, split_cons_iff.mpr (.inr ⟨earlier, rfl, hsplit⟩), hfails⟩

/-- Only a call can set the error, and only a stop can take it away. -/
theorem error_act_iff (h : s.Orderly) (hstop : a ≠ .stop) :
    (s.act a).error = some e ↔ s.error = some e ∨ (a = .call ∧ s.FailsWith e) := by
  cases a with
  | call =>
    show s.tick.1.error = some e ↔ _
    rcases tick_cases h.screen with
      ⟨hended, htick⟩ | ⟨hrunning, notice, m', hrun, htick⟩ | ⟨hrunning, e', m', hrun, htick⟩
    · simp [htick, FailsWith, hended]
    · simp [htick, shown, FailsWith, hrun]
    · simp [htick, ended, withTimers, FailsWith, hrunning, hrun, h.error hrunning]
  | outside i => simp [act, influence]
  | wait => simp [act, withKeypad]
  | stop => exact absurd rfl hstop
  | close =>
    have hkept : s.close.error = s.error := by
      rw [close]
      split
      · rfl
      · rw [terminate_eq]
    simp [act, hkept]

/-- A session that nobody has stopped keeps the error on which it has ended by itself. -/
theorem error_conduct_iff (h : s.Orderly) (hreleased : s.released = false) {actions : List Action}
    (hclose : .close ∉ actions) :
    (s.conduct actions).error = some e ↔
      .stop ∉ actions ∧ (s.error = some e ∨ s.FailedOn actions e) := by
  induction actions generalizing s with
  | nil =>
    have hnothing : ¬ s.FailedOn [] e := by
      rintro ⟨earlier, later, hsplit, _⟩
      simp at hsplit
    simp [hnothing]
  | cons first rest ih =>
    simp only [List.mem_cons, not_or] at hclose
    have hreleased' : (s.act first).released = false := by
      refine Bool.eq_false_iff.mpr fun hreleased' => ?_
      rcases (released_act s first).mp hreleased' with hbefore | rfl
      · rw [hreleased] at hbefore
        cases hbefore
      · exact hclose.1 rfl
    rw [conduct_cons, ih (h.act first) hreleased' hclose.2]
    by_cases hstop : first = .stop
    · -- whatever was there before is gone, and a session that was stopped cannot fail any more
      subst hstop
      obtain ⟨hended, hcleared, _⟩ := running_stop s hreleased
      have hnever : ¬ (s.act .stop).FailedOn rest e :=
        not_failedOn_of_ended (h.act .stop) hended rest e
      have herror : (s.act .stop).error = none := hcleared
      simp [herror, hnever]
    · rw [error_act_iff h hstop, failedOn_cons_iff, or_assoc]
      simp [Ne.symm hstop]

theorem report_eq_error_iff (error : Option ExecutionError) :
    report error = .error e ↔ error = some e ∧ e ≠ .interrupted := by
  cases error with
  | none => simp [report]
  | some e' => cases e' <;> simp [report] <;> rintro rfl <;> simp

/-! ### Waits for keys -/

/-- Waits are forbidden from the end on, until somebody allows them again. -/
theorem cancelled_act (hended : s.running = false) (hreset : a ≠ .outside (.key .reset))
    (hcancelled : s.machine.keypad.rendezvous.cancelled = true) :
    (s.act a).machine.keypad.rendezvous.cancelled = true := by
  cases a with
  | call =>
    show s.tick.1.machine.keypad.rendezvous.cancelled = true
    rw [tick_of_ended hended]
    exact hcancelled
  | outside i =>
    cases i with
    | key action =>
      have haction : action ≠ .reset := by
        rintro rfl
        exact hreset rfl
      exact Traffic.act_cancelled s.machine.keypad haction hcancelled
    | ticker number => exact hcancelled
  | wait =>
    show s.machine.keypad.awaitKey.1.rendezvous.cancelled = true
    rw [Keypad.awaitKey_of_cancelled hcancelled]
    exact hcancelled
  | stop =>
    show s.stop.1.machine.keypad.rendezvous.cancelled = true
    rw [stop, terminate_of_ended hended]
    split
    · exact hcancelled
    · rfl
  | close =>
    show s.close.machine.keypad.rendezvous.cancelled = true
    rw [close, terminate_of_ended hended]
    split
    · exact hcancelled
    · rfl

theorem cancelled_conduct (h : s.Orderly) (hended : s.running = false) {actions : List Action}
    (hreset : .outside (.key .reset) ∉ actions)
    (hcancelled : s.machine.keypad.rendezvous.cancelled = true) :
    (s.conduct actions).machine.keypad.rendezvous.cancelled = true := by
  induction actions generalizing s with
  | nil => exact hcancelled
  | cons first rest ih =>
    simp only [List.mem_cons, not_or] at hreset
    exact ih (h.act first) (over_act h hended first).running hreset.2
      (cancelled_act hended (Ne.symm hreset.1) hcancelled)

theorem cancelled_terminate (s : Session) :
    s.terminate.machine.keypad.rendezvous.cancelled = true := by
  rw [terminate_eq]
  rfl

/-- To end a session from outside forbids to wait. -/
theorem cancelled_of_outside (hreleased : s.released = false) (ha : a = .stop ∨ a = .close) :
    (s.act a).machine.keypad.rendezvous.cancelled = true := by
  rcases ha with rfl | rfl
  · show s.stop.1.machine.keypad.rendezvous.cancelled = true
    rw [stop, hreleased]
    exact cancelled_terminate s
  · show s.close.machine.keypad.rendezvous.cancelled = true
    rw [close, hreleased]
    exact cancelled_terminate s

/-! ### The whole life -/

/-- How a session lives and ends, whatever is done to it. -/
structure LifeCycle (m : Machine) (actions : List Action) : Prop where
  running_iff : ((start m).conduct actions).running = true ↔
    ∀ before a after, actions = before ++ a :: after → ¬ ((start m).conduct before).Ends a
  /-- From the end on nothing new is shown, and a call makes no step. -/
  once_ended : ∀ before a after, actions = before ++ a :: after → ((start m).conduct before).Ends a →
    Over (((start m).conduct before).act a) ((start m).conduct actions) ∧
      ((start m).conduct actions).tick = ((start m).conduct actions, none)
  /-- What a stop reports at this point: an error on which the session has ended by itself, unless it
  was reported before. -/
  reports_iff : .close ∉ actions → ∀ e, ((start m).conduct actions).stop.2 = .error e ↔
    e ≠ .interrupted ∧ .stop ∉ actions ∧ (start m).FailedOn actions e
  cleared : ∀ before after, actions = before ++ .stop :: after → .close ∉ before →
    ((start m).conduct actions).error = none
  /-- Who ends the session from outside forbids to wait for a key. -/
  refused : ∀ before a after, actions = before ++ a :: after → (a = .stop ∨ a = .close) →
    .close ∉ before → .outside (.key .reset) ∉ after →
      ((start m).conduct actions).machine.keypad.awaitKey =
        (((start m).conduct actions).machine.keypad, .error .cancelled)

/-- Calls of the task, tickers, keys, stops and the final close may come in any order. What is asked of
the machine holds of every new one (`Screen.wellFormed_of_create`, `Timers.owned_running`). -/
theorem life_cycle (m : Machine) (hscreen : m.screen.WellFormed) (htimers : m.timers.Owned)
    (actions : List Action) : LifeCycle m actions := by
  have hstart : (start m).Orderly := orderly_start hscreen htimers
  have horderly : ∀ before, ((start m).conduct before).Orderly := hstart.conduct
  have hended : ∀ before a, ((start m).conduct before).Ends a →
      (((start m).conduct before).act a).running = false := by
    intro before a hends
    refine Bool.eq_false_iff.mpr fun hrunning => ?_
    exact ((running_act_iff (horderly before) a).mp hrunning).2 hends
  constructor
  · rw [running_conduct_iff hstart]
    exact and_iff_right rfl
  · rintro before a after rfl hends
    rw [conduct_append, conduct_cons]
    have hover := over_conduct ((horderly before).act a) (hended before a hends) after
    exact ⟨hover, tick_of_ended hover.running⟩
  · intro hclose e
    have hreleased := unreleased_conduct (m := m) hclose
    rw [(running_stop _ hreleased).2.2, report_eq_error_iff, error_conduct_iff hstart rfl hclose]
    constructor
    · rintro ⟨⟨hstop, herror | hfailed⟩, he⟩
      · cases herror
      · exact ⟨he, hstop, hfailed⟩
    · rintro ⟨he, hstop, hfailed⟩
      exact ⟨⟨hstop, .inr hfailed⟩, he⟩
  · rintro before after rfl hclose
    rw [conduct_append, conduct_cons]
    obtain ⟨hstopped, hcleared, _⟩ := running_stop _ (unreleased_conduct (m := m) hclose)
    rcases (over_conduct ((horderly before).act .stop) hstopped after).error with hkept | hnone
    · rw [hkept]
      exact hcleared
    · exact hnone
  · rintro before a after rfl ha hclose hreset
    have hends : ((start m).conduct before).Ends a := by
      rcases ha with rfl | rfl <;> exact trivial
    rw [conduct_append, conduct_cons]
    refine Keypad.awaitKey_of_cancelled ?_
    exact cancelled_conduct ((horderly before).act a) (hended before a hends) hreset
      (cancelled_of_outside (unreleased_conduct hclose) ha)

/-- A machine whose program returns from no call, while the delay timer counts. -/
def strayReturn : Machine :=
  { settings := {}, memory := ⟨#[0x00, 0xEE]⟩, pc := 0, timers := { Timers.running with delay := 3 }
    screen := .blank 1 1, keypad := {}, random := .cycle #[] }

/-- The delay timer counts before its session fails and not afterwards, and the error is reported. -/
theorem life_cycle_strayReturn :
    let before : List Action := [.outside (.ticker 0)]
    let after : List Action := [.outside (.ticker 0), .call]
    let s := (start strayReturn).conduct (before ++ .call :: after)
    strayReturn.screen.WellFormed ∧ strayReturn.timers.Owned ∧ s.running = false ∧
      s.machine.timers.delay = 2 ∧ s.stop.2 = .error (.stack .empty) := by
  intro before after s
  have hscreen : strayReturn.screen.WellFormed := Screen.wellFormed_blank 1 1
  have htimers : strayReturn.timers.Owned := Timers.owned_running
  have h := life_cycle strayReturn hscreen htimers (before ++ .call :: after)
  have hends : ((start strayReturn).conduct before).Ends .call := by
    show ((start strayReturn).conduct before).tick.2 = some false
    decide +kernel
  have hover := (h.once_ended before .call after rfl hends).1
  have hdelay : (((start strayReturn).conduct before).act .call).machine.timers.delay = 2 := by
    decide +kernel
  have hfails : ((start strayReturn).conduct before).FailsWith (.stack .empty) := by
    have horderly := (orderly_start hscreen htimers).conduct before
    have herror : (((start strayReturn).conduct before).act .call).error =
        some (.stack .empty) := by decide +kernel
    rcases (error_act_iff horderly (by decide)).mp herror with hbefore | ⟨_, hfails⟩
    · cases hbefore
    · exact hfails
  refine ⟨hscreen, htimers, hover.running, ?_, ?_⟩
  · rw [hover.machine]
    exact hdelay
  · exact (h.reports_iff (by decide) _).mpr ⟨by simp, by decide, before, after, rfl, hfails⟩

end Chip8.Session
