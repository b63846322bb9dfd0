import Chip8.Proofs.Machine.Stepping

/-!
# The results of a machine's steps

`Machine.results` lists what a machine answers to a sequence of events: to a step with a notice or a
halt, while others act on the keypad and let the timers count in between. Errors do not keep a
machine from being asked again, and no result is a fault (`Machine.results_ne_fault`).

`StepResult.firstHalt` is the number of the first result that is a halt, and `StepResult.seen` lists
the results up to it, that one included.
-/

namespace Chip8

/-- What others do between two steps. -/
inductive Influence where
  | key (action : KeyAction)
  /-- A ticker calls back, if it is alive. -/
  | ticker (number : Nat)
  deriving DecidableEq, Repr

/-- What happens to a machine, or to the session that runs it. -/
inductive Event where
  | step
  | outside (influence : Influence)
  deriving DecidableEq, Repr

/-- A notice or a halt, with the machine after it. -/
abbrev StepResult := EStateM.Result Halt Machine Notice

namespace StepResult

def machine : StepResult → Machine
  | .ok _ m | .error _ m => m

def isHalt : StepResult → Bool
  | .ok _ _ => false
  | .error _ _ => true

/-- The screen that is to be painted again. -/
def frame? : StepResult → Option Screen
  | .ok .redraw m => some m.screen
  | _ => none

def error? : StepResult → Option ExecutionError
  | .error (.error e) _ => some e
  | _ => none

/-- The number of the first halt, and the number of all results if there is none. -/
def firstHalt (results : List StepResult) : Nat := results.findIdx isHalt

def seen (results : List StepResult) : List StepResult := results.take (firstHalt results + 1)

variable {m : Machine} (rest : List StepResult)

theorem firstHalt_cons_ok {notice : Notice} :
    firstHalt (.ok notice m :: rest) = firstHalt rest + 1 := by
  show List.findIdx isHalt (.ok notice m :: rest) = List.findIdx isHalt rest + 1
  rw [List.findIdx_cons]
  rfl

theorem firstHalt_cons_error {halt : Halt} : firstHalt (.error halt m :: rest) = 0 := by
  show List.findIdx isHalt (.error halt m :: rest) = 0
  rw [List.findIdx_cons]
  rfl

theorem seen_cons_ok {notice : Notice} :
    seen (.ok notice m :: rest) = .ok notice m :: seen rest := by
  rw [seen, firstHalt_cons_ok, List.take_succ_cons]
  rfl

theorem seen_cons_error {halt : Halt} : seen (.error halt m :: rest) = [.error halt m] := by
  rw [seen, firstHalt_cons_error, List.take_succ_cons, List.take_zero]

end StepResult

namespace Machine

def influence (m : Machine) : Influence → Machine
  | .key action => { m with keypad := (m.keypad.act action).1 }
  | .ticker number => { m with timers := (m.timers.fire number).getD m.timers }

/-- The results of the steps. -/
def results (m : Machine) : List Event → List StepResult
  | [] => []
  | .step :: rest =>
    let result : StepResult := step.run m
    result :: results result.machine rest
  | .outside i :: rest => results (m.influence i) rest

theorem influence_screen (m : Machine) (i : Influence) : (m.influence i).screen = m.screen := by
  cases i <;> rfl

theorem screen_wellFormed_of_run {m : Machine} (h : m.screen.WellFormed) :
    (StepResult.machine (step.run m)).screen.WellFormed := by
  cases hrun : step.run m with
  | ok notice m' => exact (stepped_of_run hrun).screen_wellFormed h
  | error halt m' =>
    cases halt with
    | error e => exact (stopped_of_run hrun).screen_wellFormed h
    | fault f => exact absurd hrun (run_step_ne_fault h f m')

/-- Also after errors there are no faults. -/
theorem results_ne_fault {m : Machine} (h : m.screen.WellFormed) (events : List Event) :
    ∀ result ∈ m.results events, ∀ f m', result ≠ .error (.fault f) m' := by
  induction events generalizing m with
  | nil =>
    intro result hmem
    exact absurd hmem List.not_mem_nil
  | cons event rest ih =>
    cases event with
    | step =>
      intro result hmem f m'
      rcases List.mem_cons.mp hmem with rfl | hrest
      · exact run_step_ne_fault h f m'
      · exact ih (screen_wellFormed_of_run h) result hrest f m'
    | outside i =>
      have hscreen : (m.influence i).screen.WellFormed := by
        rw [influence_screen]
        exact h
      exact ih hscreen

end Machine

end Chip8
