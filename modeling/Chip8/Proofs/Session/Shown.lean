import Chip8.Proofs.Session.Conduct
import Chip8.Screen.Picture

/-!
# The picture keeps up with the screen

A session hands its screen over when a step asks for that, and the picture stores the screen that was
handed over last. So the picture shows the screen at all times if no step touches the screen without
asking (`Machine.Stepped.touches`), and if both begin alike: a dark screen and a picture of the same
settings do.

`Session.picture_keeps_up` says so after whatever was done to a session, also where the last call has
failed, because a step that halts leaves the screen as it was.
-/

namespace Chip8

open Exec

variable {m m' : Machine} {notice : Notice}

/-- Only instructions that ask to be shown touch the screen. -/
theorem Exec.Effect.touches {instruction : Instruction} {flow : Flow}
    (h : Effect m instruction flow notice m') : m'.screen = m.screen ∨ notice = .redraw := by
  cases h with
  | clear => exact .inr rfl
  | draw => exact .inr rfl
  | _ => exact .inl rfl

theorem Machine.Stepped.touches (h : Machine.Stepped m notice m') :
    m'.screen = m.screen ∨ notice = .redraw := by
  cases h with
  | unknown hword hdecode => exact .inl rfl
  | executed hword hdecode heffect => exact heffect.touches

theorem Machine.Stopped.screen_eq {e : ExecutionError} (h : Machine.Stopped m e m') :
    m'.screen = m.screen := by
  cases h with
  | fetch hword => rfl
  | execute hword hdecode hfailure =>
    rw [hfailure.frame]
    rfl

namespace Session

variable {s : Session} {a : Action}

/-- The picture after all screens that a session has handed over were stored in it. -/
def painted (s : Session) (picture : Picture) : Picture := s.frames.foldl Picture.store picture

/-- The screen was handed over once, or it is as before and nothing was handed over. -/
def HandsOver (s s' : Session) : Prop :=
  s'.frames = s.frames.push s'.machine.screen ∨
    (s'.machine.screen = s.machine.screen ∧ s'.frames = s.frames)

theorem handsOver_shown {m' : Machine} (h : Machine.Stepped s.machine notice m') :
    HandsOver s (s.shown notice m') := by
  rcases h.touches with hsame | rfl
  · cases notice with
    | redraw => exact .inl rfl
    | quiet => exact .inr ⟨hsame, by simp [shown, StepResult.frame?]⟩
    | unknown word => exact .inr ⟨hsame, by simp [shown, StepResult.frame?]⟩
  · exact .inl rfl

theorem handsOver_tick (hscreen : s.machine.screen.WellFormed) : HandsOver s s.tick.1 := by
  rcases tick_cases hscreen with
    ⟨_, htick⟩ | ⟨_, notice, m', hrun, htick⟩ | ⟨_, e, m', hrun, htick⟩
  · rw [htick]
    exact .inr ⟨rfl, rfl⟩
  · rw [htick]
    exact handsOver_shown (Machine.stepped_of_run hrun)
  · rw [htick]
    exact .inr ⟨(Machine.stopped_of_run hrun).screen_eq, rfl⟩

theorem handsOver_act (hscreen : s.machine.screen.WellFormed) (a : Action) :
    HandsOver s (s.act a) := by
  by_cases ha : a = .call
  · rw [ha]
    exact handsOver_tick hscreen
  · exact .inr (shown_act ha)

/-- What is handed over is stored, and nothing else has to be. -/
theorem HandsOver.painted {s' : Session} (h : HandsOver s s') {picture : Picture}
    (hshown : (s.painted picture).frame = s.machine.screen) :
    (s'.painted picture).frame = s'.machine.screen := by
  rcases h with hframes | ⟨hsame, hframes⟩
  · rw [Session.painted, hframes, Array.foldl_push]
    rfl
  · rw [Session.painted, hframes, hsame]
    exact hshown

theorem painted_conduct (hscreen : s.machine.screen.WellFormed) {picture : Picture}
    (hshown : (s.painted picture).frame = s.machine.screen) (actions : List Action) :
    ((s.conduct actions).painted picture).frame = (s.conduct actions).machine.screen := by
  induction actions generalizing s with
  | nil => exact hshown
  | cons a rest ih =>
    exact ih (wellFormed_act hscreen a) ((handsOver_act hscreen a).painted hshown)

/-- How a picture stands to a session. -/
structure KeepsUp (s : Session) (picture : Picture) : Prop where
  /-- The picture shows the screen: the same rows and columns, and every cell. -/
  frame : (s.painted picture).frame = s.machine.screen
  /-- The next call of the task does not touch the screen without handing it over. -/
  next : HandsOver s s.tick.1

/-- If a session is started while the screen of its machine is dark, and a picture is made with the
same settings, then the picture shows the screen whatever is done to the session. -/
theorem picture_keeps_up (m : Machine)
    (hblank : Screen.create m.settings.rows m.settings.cols = .ok m.screen)
    (actions : List Action) :
    ∃ picture, Picture.create m.settings = .ok picture ∧
      KeepsUp ((start m).conduct actions) picture := by
  have hscreen : (start m).machine.screen.WellFormed := (Screen.wellFormed_of_create hblank).1
  have hpicture : Picture.create m.settings = .ok ⟨m.screen⟩ := by
    rw [Picture.create, hblank]
    rfl
  have hstart : ((start m).painted ⟨m.screen⟩).frame = (start m).machine.screen := rfl
  exact ⟨⟨m.screen⟩, hpicture, painted_conduct hscreen hstart actions,
    handsOver_tick (wellFormed_conduct hscreen actions)⟩

/-- A machine with the smallest screen, whose program draws once and then leaves memory. -/
def speck : Machine :=
  { settings := { rows := 0, cols := 0 }, memory := ⟨#[0xD0, 0x01]⟩, pc := 0, timers := {}
    screen := .blank 0 0, keypad := {}, random := .cycle #[] }

/-- The only cell is lit in the picture as well, also after the call that fails. -/
theorem picture_keeps_up_speck :
    Screen.create speck.settings.rows speck.settings.cols = .ok speck.screen ∧
      ∃ picture, Picture.create speck.settings = .ok picture ∧
        (((start speck).conduct [.call, .call]).painted picture).frame = ⟨1, 1, #[true]⟩ := by
  have hblank : Screen.create speck.settings.rows speck.settings.cols = .ok speck.screen := rfl
  obtain ⟨picture, hpicture, hkeeps⟩ := picture_keeps_up speck hblank [.call, .call]
  refine ⟨hblank, picture, hpicture, ?_⟩
  rw [hkeeps.frame]
  decide +kernel

end Session

end Chip8
