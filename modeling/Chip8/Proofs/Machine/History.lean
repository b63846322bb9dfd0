import Chip8.Proofs.Machine.Results

/-!
# The history of a machine

`Machine.starts` lists the machines from which the steps of a machine start while others act in
between, and `Machine.final` is the machine after all of the events. A history can be cut before each
of its steps (`Machine.starts_split`), and what is kept by steps and by what others do holds all along
(`Machine.history_keeps`).
-/

namespace Chip8.Machine

/-- The machine after a step, whatever the step answers. -/
def next (m : Machine) : Machine := StepResult.machine (step.run m)

/-- The machines from which the steps start. -/
def starts (m : Machine) : List Event → List Machine
  | [] => []
  | .step :: rest => m :: m.next.starts rest
  | .outside i :: rest => (m.influence i).starts rest

/-- The machine after all events. -/
def final (m : Machine) : List Event → Machine
  | [] => m
  | .step :: rest => m.next.final rest
  | .outside i :: rest => (m.influence i).final rest

variable {m : Machine}

/-- A step that does not fault goes through or halts on an error. -/
theorem next_cases {P : Machine → Prop} (hanswers : m.Answers)
    (hok : ∀ notice m', Stepped m notice m' → P m') (herror : ∀ e m', Stopped m e m' → P m') :
    P m.next := by
  rw [next]
  rcases hanswers.ok_or_error with ⟨notice, m', hrun⟩ | ⟨e, m', hrun⟩
  · rw [hrun]
    exact hok notice m' (stepped_of_run hrun)
  · rw [hrun]
    exact herror e m' (stopped_of_run hrun)

/-- A history can be cut before each step. -/
theorem starts_split {events : List Event} {earlier later : List Machine} {b : Machine}
    (h : m.starts events = earlier ++ b :: later) :
    ∃ before after, events = before ++ .step :: after ∧ m.starts before = earlier ∧
      m.final before = b ∧ b.next.starts after = later := by
  induction events generalizing m earlier with
  | nil => exact absurd h.symm (List.append_ne_nil_of_right_ne_nil _ (List.cons_ne_nil _ _))
  | cons event rest ih =>
    cases event with
    | step =>
      rw [starts] at h
      cases earlier with
      | nil =>
        obtain ⟨rfl, hrest⟩ := List.cons_eq_cons.mp h
        exact ⟨[], rest, rfl, rfl, rfl, hrest⟩
      | cons a earlier =>
        obtain ⟨rfl, hrest⟩ := List.cons_eq_cons.mp h
        obtain ⟨before, after, rfl, hearlier, hb, hlater⟩ := ih hrest
        refine ⟨.step :: before, after, rfl, ?_, hb, hlater⟩
        rw [starts, hearlier]
    | outside i =>
      obtain ⟨before, after, rfl, hearlier, hb, hlater⟩ := ih h
      exact ⟨.outside i :: before, after, rfl, hearlier, hb, hlater⟩

theorem final_append (m : Machine) (before after : List Event) :
    m.final (before ++ after) = (m.final before).final after := by
  induction before generalizing m with
  | nil => rfl
  | cons event rest ih =>
    cases event with
    | step => exact ih m.next
    | outside i => exact ih (m.influence i)

theorem starts_append (m : Machine) (before after : List Event) :
    m.starts (before ++ after) = m.starts before ++ (m.final before).starts after := by
  induction before generalizing m with
  | nil => rfl
  | cons event rest ih =>
    cases event with
    | step => exact congrArg (m :: ·) (ih m.next)
    | outside i => exact ih (m.influence i)

/-- What others keep, and steps from machines of a kind, is kept by a history the steps of which start
from such machines. -/
theorem history_keeps_of {P Q : Machine → Prop} (hstep : ∀ u, P u → Q u → P u.next)
    (hothers : ∀ u i, P u → P (u.influence i)) (h : P m) {events : List Event}
    (hstarts : ∀ b ∈ m.starts events, Q b) :
    P (m.final events) ∧ ∀ b ∈ m.starts events, P b := by
  induction events generalizing m with
  | nil => exact ⟨h, fun b hb => absurd hb List.not_mem_nil⟩
  | cons event rest ih =>
    cases event with
    | step =>
      have hnext := hstep m h (hstarts m List.mem_cons_self)
      obtain ⟨hfinal, hlater⟩ := ih hnext fun b hb => hstarts b (List.mem_cons_of_mem _ hb)
      refine ⟨hfinal, fun b hb => ?_⟩
      rcases List.mem_cons.mp hb with rfl | hb
      · exact h
      · exact hlater b hb
    | outside i => exact ih (hothers m i h) hstarts

/-- What steps and others keep, a history keeps. -/
theorem history_keeps {P : Machine → Prop} (hstep : ∀ u, P u → P u.next)
    (hothers : ∀ u i, P u → P (u.influence i)) (h : P m) (events : List Event) :
    P (m.final events) :=
  (history_keeps_of (Q := fun _ => True) (fun u hu _ => hstep u hu) hothers h
    fun _ _ => trivial).1

theorem screen_wellFormed_final (hscreen : m.screen.WellFormed) (events : List Event) :
    (m.final events).screen.WellFormed := by
  refine history_keeps (P := fun u => u.screen.WellFormed) (fun u hu => screen_wellFormed_of_run hu)
    (fun u i hu => ?_) hscreen events
  rw [influence_screen]
  exact hu

/-- The steps of a history start from well-formed screens. -/
theorem screen_wellFormed_of_mem_starts (hscreen : m.screen.WellFormed) {events : List Event}
    {b : Machine} (hmem : b ∈ m.starts events) : b.screen.WellFormed := by
  obtain ⟨earlier, later, hstarts⟩ := List.append_of_mem hmem
  obtain ⟨before, after, _, _, rfl, _⟩ := starts_split hstarts
  exact screen_wellFormed_final hscreen before

end Chip8.Machine
