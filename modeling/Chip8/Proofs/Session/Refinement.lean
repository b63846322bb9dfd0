import Chip8.Proofs.Keypad.Waiting
import Chip8.Proofs.Machine.Results
import Chip8.Session

/-!
# A session shows its machine

A session that is started on a machine, and that sees the same events as the machine left to itself,
goes through the same steps until one of them halts, and no further.

`Session.Reflects` lists what can be seen of such a session: the published program counter, the
screens that were handed over, the error on which it ended, and whether it is still running. All of
this is read off the results up to the first halt. `Session.refines_machine` adds the answers of the
task, what a stop reports, and that a session that sleeps still publishes where its wait is.

A visit to a waiting machine is a case of what can be done to a session that sleeps
(`Session.asleep_of_attend`). The refinement does not build on this; it joins `Session.Asleep` to the wait
that the machine really makes.
-/

namespace Chip8.Session

open StepResult

/-- What others do; the machine of a session that has ended is still there. -/
def influence (s : Session) (i : Influence) : Session :=
  { s with machine := s.machine.influence i }

/-- The session after some events. -/
def after (s : Session) : List Event → Session
  | [] => s
  | .step :: rest => s.tick.1.after rest
  | .outside i :: rest => (s.influence i).after rest

/-- The answers of the task to its calls. -/
def answers (s : Session) : List Event → List (Option Bool)
  | [] => []
  | .step :: rest => s.tick.2 :: s.tick.1.answers rest
  | .outside i :: rest => (s.influence i).answers rest

/-- What can be seen of a session after its machine would have given some results. -/
structure Reflects (before : Session) (results : List StepResult) (s : Session) : Prop where
  publishedPc : s.publishedPc =
    ((seen results).getLast?.map fun result => result.machine.pc).getD before.publishedPc
  frames : s.frames.toList = before.frames.toList ++ (seen results).filterMap frame?
  error : s.error = results[firstHalt results]?.bind error?
  running : s.running = decide (firstHalt results = results.length)

variable {s : Session}

theorem wellFormed_influence (hscreen : s.machine.screen.WellFormed) (i : Influence) :
    (s.influence i).machine.screen.WellFormed := by
  show (s.machine.influence i).screen.WellFormed
  rw [Machine.influence_screen]
  exact hscreen

/-! ### Ends -/

/-- The session after its task has ended. -/
def ended (s : Session) : Session := { s.withTimers Timers.stop with running := false }

theorem finish_of_running (h : s.running = true) : s.finish = s.ended := if_pos h

theorem finish_of_ended (h : s.running = false) : s.finish = s := by
  simp [finish, h]

theorem terminate_of_running (h : s.running = true) :
    s.terminate = (s.withKeypad Keypad.cancel).ended :=
  finish_of_running (s := s.withKeypad Keypad.cancel) h

theorem terminate_of_ended (h : s.running = false) : s.terminate = s.withKeypad Keypad.cancel :=
  finish_of_ended (s := s.withKeypad Keypad.cancel) h

/-- To end a session from outside cancels a wait, and may stop the timers. -/
theorem terminate_eq (s : Session) : s.terminate =
    { s with
      running := false
      machine := { s.machine with
        keypad := s.machine.keypad.cancel, timers := s.terminate.machine.timers } } := by
  by_cases h : s.running = true
  · rw [terminate_of_running h]
    rfl
  · have hended : s.running = false := Bool.eq_false_iff.mpr h
    rw [terminate_of_ended hended, ← hended]
    rfl

theorem running_terminate (s : Session) : s.terminate.running = false := by
  rw [terminate_eq]

/-! ### One call of the task -/

theorem tick_of_ended (h : s.running = false) : s.tick = (s, none) := by
  simp only [tick, h, Bool.false_eq_true, if_false]

/-- A step has gone through: its machine is published, and its screen handed over if it asks for
that. -/
def shown (s : Session) (notice : Notice) (m' : Machine) : Session :=
  { s with
    machine := m'
    publishedPc := m'.pc
    frames := s.frames ++ (frame? (.ok notice m')).toList.toArray }

theorem handOver_publish (s : Session) (notice : Notice) (m' : Machine) :
    (s.publish m').handOver notice = s.shown notice m' := by
  cases notice with
  | redraw => rfl
  | quiet => simp only [handOver, publish, shown, frame?, Option.toList_none, Array.append_empty]
  | unknown word =>
    simp only [handOver, publish, shown, frame?, Option.toList_none, Array.append_empty]

theorem tick_of_ok (h : s.running = true) {notice : Notice} {m' : Machine}
    (hrun : Machine.step.run s.machine = .ok notice m') :
    s.tick = (s.shown notice m', some true) := by
  simp only [tick, h, if_true, hrun, handOver_publish]

theorem tick_of_error (h : s.running = true) {e : ExecutionError} {m' : Machine}
    (hrun : Machine.step.run s.machine = .error (.error e) m') :
    s.tick = ({ s.publish m' with error := some e }.ended, some false) := by
  rw [← finish_of_running (s := { s.publish m' with error := some e }) h]
  simp only [tick, h, if_true, hrun]

/-! ### Sessions that have ended -/

/-- Whatever happens, a session that has ended shows nothing new. -/
theorem after_of_ended (h : s.running = false) (events : List Event) :
    s.after events = { s with machine := (s.after events).machine } := by
  induction events generalizing s with
  | nil => rfl
  | cons event rest ih =>
    cases event with
    | step =>
      have htick : s.after (.step :: rest) = s.after rest := by
        rw [after, tick_of_ended h]
      rw [htick]
      exact ih h
    | outside i => exact ih (s := s.influence i) h

/-- The task asks no machine any more. -/
theorem answers_of_ended (h : s.running = false) (events : List Event) (m : Machine) :
    s.answers events = (m.results events).map fun _ => none := by
  induction events generalizing s m with
  | nil => rfl
  | cons event rest ih =>
    cases event with
    | step =>
      have htick : s.answers (.step :: rest) = none :: s.answers rest := by
        rw [answers, tick_of_ended h]
      rw [htick, ih h (StepResult.machine (Machine.step.run m))]
      rfl
    | outside i => exact ih (s := s.influence i) h (m.influence i)

/-! ### Sessions that are running -/

theorem tick_ended_on_error (h : s.running = true) {e : ExecutionError} {m' : Machine}
    (hrun : Machine.step.run s.machine = .error (.error e) m') :
    ∃ machine, s.tick.1 =
      { s with machine, running := false, publishedPc := m'.pc, error := some e } := by
  rw [tick_of_error h hrun]
  exact ⟨_, rfl⟩

/-- The session ends on the first error, and shows nothing of what its machine would have done
afterwards. -/
theorem reflects_of_error (h : s.running = true) {e : ExecutionError} {m' : Machine}
    (hrun : Machine.step.run s.machine = .error (.error e) m') (rest : List Event)
    (results : List StepResult) :
    Reflects s (.error (.error e) m' :: results) (s.tick.1.after rest) := by
  obtain ⟨machine, htick⟩ := tick_ended_on_error h hrun
  have hended : s.tick.1.running = false := by rw [htick]
  rw [after_of_ended hended, htick]
  constructor
  · rw [seen_cons_error]
    rfl
  · rw [seen_cons_error]
    show s.frames.toList = s.frames.toList ++ []
    rw [List.append_nil]
  · rw [firstHalt_cons_error]
    rfl
  · rw [firstHalt_cons_error]
    rfl

/-- A step that goes through comes before all that the session shows later. -/
theorem Reflects.cons_ok {s' s'' : Session} {results : List StepResult} {notice : Notice}
    {m' : Machine} (h : Reflects s' results s'') (hpc : s'.publishedPc = m'.pc)
    (hframes : s'.frames.toList = s.frames.toList ++ (frame? (.ok notice m')).toList) :
    Reflects s (.ok notice m' :: results) s'' := by
  constructor
  · rw [h.publishedPc, hpc, seen_cons_ok, List.getLast?_cons]
    cases (seen results).getLast? with
    | none => rfl
    | some last => rfl
  · rw [h.frames, hframes, seen_cons_ok, List.append_assoc, List.filterMap_cons]
    cases frame? (.ok notice m') with
    | none => rfl
    | some screen => rfl
  · rw [h.error, firstHalt_cons_ok, List.getElem?_cons_succ]
  · rw [h.running, firstHalt_cons_ok, List.length_cons]
    simp only [Nat.add_right_cancel_iff]

/-- A running session keeps step with its machine. -/
theorem reflects_after (h : s.running = true) (herror : s.error = none)
    (hscreen : s.machine.screen.WellFormed) (events : List Event) :
    Reflects s (s.machine.results events) (s.after events) := by
  induction events generalizing s with
  | nil =>
    have hnothing : s.frames.toList = s.frames.toList ++ [] := (List.append_nil _).symm
    exact ⟨rfl, hnothing, herror, h⟩
  | cons event rest ih =>
    cases event with
    | step =>
      rw [Machine.results, after]
      cases hrun : Machine.step.run s.machine with
      | ok notice m' =>
        have hscreen' : m'.screen.WellFormed :=
          (Machine.stepped_of_run hrun).screen_wellFormed hscreen
        rw [tick_of_ok h hrun]
        refine (ih (s := s.shown notice m') h herror hscreen').cons_ok rfl ?_
        simp only [shown, Array.toList_append]
      | error halt m' =>
        cases halt with
        | error e => exact reflects_of_error h hrun rest _
        | fault f => exact absurd hrun (Machine.run_step_ne_fault hscreen f m')
    | outside i =>
      have hrest := ih (s := s.influence i) h herror (wellFormed_influence hscreen i)
      exact ⟨hrest.publishedPc, hrest.frames, hrest.error, hrest.running⟩

/-- The answer of the task to its call number `i`, if its machine halts at step `k` first. -/
def answer (k i : Nat) : Option Bool :=
  if i < k then some true else if i = k then some false else none

theorem answer_succ (k i : Nat) : answer (k + 1) (i + 1) = answer k i := by
  simp only [answer, Nat.add_lt_add_iff_right, Nat.add_right_cancel_iff]

theorem mapIdx_none {α β : Type} (l : List α) :
    l.mapIdx (fun _ _ => (none : Option β)) = l.map fun _ => none := by
  induction l with
  | nil => rfl
  | cons a rest ih =>
    rw [List.mapIdx_cons, List.map_cons, ih]

/-- The task goes on up to the first halt, asks to end there, and is not called any more. -/
theorem answers_eq (h : s.running = true) (hscreen : s.machine.screen.WellFormed)
    (events : List Event) :
    s.answers events = (s.machine.results events).mapIdx
      fun i _ => answer (firstHalt (s.machine.results events)) i := by
  induction events generalizing s with
  | nil => rfl
  | cons event rest ih =>
    cases event with
    | step =>
      rw [Machine.results, answers]
      cases hrun : Machine.step.run s.machine with
      | ok notice m' =>
        have hscreen' : m'.screen.WellFormed :=
          (Machine.stepped_of_run hrun).screen_wellFormed hscreen
        rw [tick_of_ok h hrun, List.mapIdx_cons, firstHalt_cons_ok]
        have hgoesOn : answer (firstHalt (m'.results rest) + 1) 0 = some true :=
          if_pos (Nat.succ_pos _)
        simp only [answer_succ]
        exact List.cons_eq_cons.mpr ⟨hgoesOn.symm, ih (s := s.shown notice m') h hscreen'⟩
      | error halt m' =>
        cases halt with
        | error e =>
          -- the machine would go on, but the calls that follow find the session ended
          obtain ⟨machine, htick⟩ := tick_ended_on_error h hrun
          have hended : s.tick.1.running = false := by rw [htick]
          rw [answers_of_ended hended rest m', tick_of_error h hrun, List.mapIdx_cons,
            firstHalt_cons_error]
          exact List.cons_eq_cons.mpr ⟨rfl, (mapIdx_none (m'.results rest)).symm⟩
        | fault f => exact absurd hrun (Machine.run_step_ne_fault hscreen f m')
    | outside i => exact ih (s := s.influence i) h (wellFormed_influence hscreen i)

/-! ### Where a running session is -/

/-- Between two calls of the task the published program counter is the machine's. -/
theorem publishedPc_after (h : s.running = true → s.publishedPc = s.machine.pc)
    (hscreen : s.machine.screen.WellFormed) (events : List Event)
    (hrunning : (s.after events).running = true) :
    (s.after events).publishedPc = (s.after events).machine.pc := by
  induction events generalizing s with
  | nil => exact h hrunning
  | cons event rest ih =>
    cases event with
    | step =>
      rw [after] at hrunning ⊢
      by_cases hs : s.running = true
      · cases hrun : Machine.step.run s.machine with
        | ok notice m' =>
          rw [tick_of_ok hs hrun] at hrunning ⊢
          have hscreen' : m'.screen.WellFormed :=
            (Machine.stepped_of_run hrun).screen_wellFormed hscreen
          exact ih (fun _ => rfl) hscreen' hrunning
        | error halt m' =>
          cases halt with
          | error e =>
            obtain ⟨machine, htick⟩ := tick_ended_on_error hs hrun
            have hended : s.tick.1.running = false := by rw [htick]
            rw [after_of_ended hended] at hrunning
            exact absurd (hrunning.symm.trans hended) (by decide)
          | fault f => exact absurd hrun (Machine.run_step_ne_fault hscreen f m')
      · rw [tick_of_ended (Bool.eq_false_iff.mpr hs)] at hrunning ⊢
        exact ih h hscreen hrunning
    | outside i =>
      have hpc : (s.machine.influence i).pc = s.machine.pc := by
        cases i <;> rfl
      exact ih (s := s.influence i) (fun hs => (h hs).trans hpc.symm)
        (wellFormed_influence hscreen i) hrunning

/-- What others see of a session during a call of the task that sleeps in a wait for a key: the
machine has fetched the word and begun to wait, nothing has been published since, and others go on
acting. -/
inductive Asleep (s : Session) : Session → Prop
  | begin {word : UInt16} {x : Nat} {rendezvous : Rendezvous} (hrunning : s.running = true)
      (hword : s.machine.memory.wordAt s.machine.pc.toNat = .ok word)
      (hdecode : Instruction.decode? word = some (.register .awaitKey x))
      (hbegin : s.machine.keypad.rendezvous.begin? = some rendezvous) :
      Asleep s
        { s with
          machine := { s.machine.fetched word with
            keypad := { s.machine.keypad with
              rendezvous, visits := s.machine.keypad.visits.tail } } }
  | outside {b : Session} (i : Influence) (h : Asleep s b) : Asleep s (b.influence i)

/-- A call of the task sleeps if the machine is about to wait. -/
theorem exists_asleep_iff :
    (∃ b, s.Asleep b) ↔ s.running = true ∧ s.machine.aboutToWait = true := by
  constructor
  · intro hexists
    obtain ⟨b, hb⟩ := hexists
    induction hb with
    | begin hrunning hword hdecode hbegin =>
      refine ⟨hrunning, ?_⟩
      simp only [Machine.aboutToWait, hword, hdecode, hbegin, Option.isSome_some]
    | outside i h ih => exact ih
  · intro hboth
    obtain ⟨hrunning, hwait⟩ := hboth
    simp only [Machine.aboutToWait] at hwait
    split at hwait
    · next word hword =>
      split at hwait
      · next x hdecode =>
        obtain ⟨rendezvous, hbegin⟩ := Option.isSome_iff_exists.mp hwait
        exact ⟨_, .begin hrunning hword hdecode hbegin⟩
      · cases hwait
    · cases hwait

/-- The visit of a wait acts on a session that is asleep, for as long as it has not ended the
wait. -/
theorem asleep_of_attend {b : Session} (h : s.Asleep b) (done : Visit)
    (hstill : (b.machine.keypad.attend none done).2.2 = none) :
    s.Asleep { b with
      machine := { b.machine with keypad := (b.machine.keypad.attend none done).1 } } := by
  induction done generalizing b with
  | nil => exact h
  | cons action rest ih =>
    have hb : s.Asleep (b.influence (.key action)) := .outside (.key action) h
    rw [Keypad.attend] at hstill ⊢
    dsimp only at hstill ⊢
    by_cases hreleased : (b.machine.keypad.act action).1.rendezvous.released = true
    · simp only [Keypad.wake, if_pos hreleased, Keypad.attend_of_some] at hstill
      cases hstill
    · simp only [Keypad.wake, if_neg hreleased] at hstill ⊢
      exact ih hb hstill

theorem Asleep.at_wait {b : Session} (h : s.Asleep b) :
    b.publishedPc = s.publishedPc ∧ ∃ word x, s.machine.memory.wordAt s.machine.pc.toNat = .ok word ∧
      Instruction.decode? word = some (.register .awaitKey x) := by
  induction h with
  | begin hrunning hword hdecode hbegin => exact ⟨rfl, _, _, hword, hdecode⟩
  | outside i h ih => exact ih

theorem Asleep.running {b : Session} (h : s.Asleep b) : s.running = true :=
  (exists_asleep_iff.mp ⟨b, h⟩).1

/-! ### The refinement -/

theorem running_stop (s : Session) (hreleased : s.released = false) :
    s.stop.1.running = false ∧ s.stop.1.error = none ∧ s.stop.2 = report s.error := by
  have hstop : s.stop = ({ s.terminate with error := none }, report s.error) := by
    simp only [stop, hreleased, Bool.false_eq_true, if_false]
  rw [hstop]
  exact ⟨running_terminate s, rfl, rfl⟩

theorem released_finish (s : Session) : s.finish.released = s.released := by
  rw [finish]
  split
  · rfl
  · rfl

theorem released_tick (s : Session) : s.tick.1.released = s.released := by
  rw [tick]
  split
  · split
    · next notice m' hrun =>
      show ((s.publish m').handOver notice).released = s.released
      rw [handOver_publish]
      rfl
    · exact released_finish _
    · exact released_finish _
  · rfl

theorem released_after (s : Session) (events : List Event) :
    (s.after events).released = s.released := by
  induction events generalizing s with
  | nil => rfl
  | cons event rest ih =>
    cases event with
    | step => exact (ih s.tick.1).trans (released_tick s)
    | outside i => exact ih (s.influence i)

/-- How a session, after some events, stands to the machine on which it was started. -/
structure Refines (m : Machine) (events : List Event) (s : Session) (answers : List (Option Bool)) :
    Prop where
  no_fault : ∀ result ∈ m.results events, ∀ f m', result ≠ .error (.fault f) m'
  /-- The task goes on up to the first halt, asks to end there, and is not called any more. -/
  answers_eq : answers = (m.results events).mapIdx
    fun i _ => answer (firstHalt (m.results events)) i
  publishedPc_eq : s.publishedPc =
    ((seen (m.results events)).getLast?.map fun result => result.machine.pc).getD m.pc
  frames_eq : s.frames.toList = (seen (m.results events)).filterMap frame?
  error_eq : s.error = (m.results events)[firstHalt (m.results events)]?.bind error?
  running_iff : s.running = true ↔ firstHalt (m.results events) = (m.results events).length
  /-- The first stop takes the error away for good, and reports it. -/
  stop_report : s.stop.2 = report s.error
  stop_error : ∀ later, (s.stop.1.after later).error = none
  /-- During a wait for a key the address of the waiting instruction is published. -/
  asleep_pc : ∀ b, s.Asleep b → b.publishedPc = s.machine.pc ∧
    ∃ word x, s.machine.memory.wordAt b.publishedPc.toNat = .ok word ∧
      Instruction.decode? word = some (.register .awaitKey x)

/-- A session refines its machine, whatever happens and however often the task is called. -/
theorem refines_machine (m : Machine) (hscreen : m.screen.WellFormed) (events : List Event) :
    Refines m events ((start m).after events) ((start m).answers events) := by
  have hshown := reflects_after (s := start m) rfl rfl hscreen events
  have hstop := running_stop ((start m).after events) (released_after (start m) events)
  refine ⟨Machine.results_ne_fault hscreen events, answers_eq rfl hscreen events,
    hshown.publishedPc, hshown.frames, hshown.error, ?_, hstop.2.2, ?_, ?_⟩
  · rw [hshown.running]
    exact decide_eq_true_iff
  · intro later
    rw [after_of_ended hstop.1]
    exact hstop.2.1
  · intro b hb
    obtain ⟨hpc, word, x, hword, hdecode⟩ := hb.at_wait
    have hsame : b.publishedPc = ((start m).after events).machine.pc :=
      hpc.trans (publishedPc_after (s := start m) (fun _ => rfl) hscreen events hb.running)
    refine ⟨hsame, word, x, ?_, hdecode⟩
    rw [hsame]
    exact hword

/-- A machine whose program clears the screen and then waits for a key that nobody presses. -/
def abandoned : Machine :=
  { settings := {}, memory := ⟨#[0x00, 0xE0, 0xF0, 0x0A]⟩, pc := 0, timers := {}
    screen := .blank 1 1, keypad := {}, random := .cycle #[] }

theorem refines_machine_abandoned :
    let events : List Event := [.step, .outside (.key (.press 5)), .step, .step]
    let s := (start abandoned).after events
    (start abandoned).answers events = [some true, some false, none] ∧
      s.publishedPc = 4 ∧ s.frames.toList = [.blank 1 1] ∧ s.error = some .interrupted ∧
      s.stop.2 = .ok () := by
  intro events s
  have h : Refines abandoned events s ((start abandoned).answers events) :=
    refines_machine abandoned (Screen.wellFormed_blank 1 1) events
  have herror : s.error = some .interrupted := h.error_eq.trans (by decide +kernel)
  refine ⟨h.answers_eq.trans (by decide +kernel), h.publishedPc_eq.trans (by decide +kernel),
    h.frames_eq.trans (by decide +kernel), herror, ?_⟩
  rw [h.stop_report, herror]
  rfl

end Chip8.Session
