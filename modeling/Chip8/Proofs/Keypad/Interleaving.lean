import Chip8.Keypad

/-!
# Interleaved use of a keypad

One machine waits for keys, again and again, and any number of parties press keys and use the keypad
otherwise. What each of them does in one go is a `Move`, and `Traffic.Run` admits the moves in
every order in which they are possible:

* the machine begins a wait (`arm`) or is refused, wakes up and goes back to sleep (`stir`) as often
  as it likes, and at last wakes up to `leave`; that it may leave does not make it leave at once;
* a press either hands its key over (`deliver`) or finds that no machine waits for one (`miss`), and
  then its key is recorded among the held keys in a move of its own (`hold`), with anything in
  between;
* all else that can be done to a keypad is one move (`act`).

`Traffic.deliveries` lists the keys that were handed over during some moves, and
`Traffic.OneWait` says that no wait begins or ends among them.

The visits of `Keypad.awaitKey` are among these runs (`Traffic.run_attend`). This joins the function that
runs to the moves over which the laws of waiting are stated, and is an end in itself: what holds of every
run holds of a visit.
-/

namespace Chip8

/-- A keypad, and where those who use it are in their work. -/
structure Traffic (Party : Type) where
  keypad : Keypad
  /-- The machine sleeps in a wait. -/
  asleep : Bool
  /-- The key of a press that found no waiting machine and is still to be recorded. -/
  missed : Party → Option UInt8

/-- What one party does in one go. -/
inductive Move (Party : Type) where
  | arm
  | refuse
  | stir
  | leave (result : WaitResult)
  | deliver (p : Party) (key : UInt8)
  | miss (p : Party) (key : UInt8)
  | hold (p : Party) (key : UInt8)
  | act (action : KeyAction)

namespace Move

variable {Party : Type}

/-- The party that presses a key. -/
def presser? : Move Party → Option Party
  | deliver p _ | miss p _ | hold p _ => some p
  | _ => none

def delivered? : Move Party → Option UInt8
  | deliver _ key => some key
  | _ => none

/-- A wait begins or ends, unless it is refused. -/
def isTurn : Move Party → Bool
  | arm | leave _ => true
  | _ => false

end Move

namespace Traffic

variable {Party : Type}

/-- Nobody has used the keypad yet. -/
def fresh : Traffic Party := { keypad := {}, asleep := false, missed := fun _ => none }

/-- The keys that were handed over, the first one first. -/
def deliveries (moves : List (Move Party)) : List UInt8 := moves.filterMap Move.delivered?

/-- The moves lie within one wait, or between two. -/
def OneWait (moves : List (Move Party)) : Prop := ∀ move ∈ moves, move.isTurn = false

section Lists

variable (moves : List (Move Party)) {move : Move Party}

theorem deliveries_append (moves' : List (Move Party)) :
    deliveries (moves ++ moves') = deliveries moves ++ deliveries moves' :=
  List.filterMap_append

theorem deliveries_snoc_none (h : move.delivered? = none) :
    deliveries (moves ++ [move]) = deliveries moves := by
  have hlast : deliveries [move] = [] := by
    show List.filterMap Move.delivered? [move] = []
    rw [List.filterMap_cons, h]
    rfl
  rw [deliveries_append, hlast, List.append_nil]

variable {moves}

theorem oneWait_snoc (hmoves : OneWait moves) (hmove : move.isTurn = false) :
    OneWait (moves ++ [move]) := by
  intro a ha
  rcases List.mem_append.mp ha with hold | hnew
  · exact hmoves a hold
  · rw [List.mem_singleton.mp hnew]
    exact hmove

end Lists

variable [DecidableEq Party]

/-- Notes what a press has still to record. -/
def note (s : Traffic Party) (p : Party) (key : Option UInt8) : Traffic Party :=
  { s with missed := fun q => if q = p then key else s.missed q }

/-- The moves that are possible, and what they come to. -/
inductive Step : Traffic Party → Move Party → Traffic Party → Prop
  | arm {s : Traffic Party} {rendezvous : Rendezvous} (hawake : s.asleep = false)
      (hbegin : s.keypad.rendezvous.begin? = some rendezvous) :
      Step s .arm { s with keypad := { s.keypad with rendezvous }, asleep := true }
  | refuse {s : Traffic Party} (hawake : s.asleep = false)
      (hbegin : s.keypad.rendezvous.begin? = none) : Step s .refuse s
  | stir {s : Traffic Party} (hasleep : s.asleep = true)
      (hreleased : s.keypad.rendezvous.released = false) : Step s .stir s
  | leave {s : Traffic Party} (hasleep : s.asleep = true)
      (hreleased : s.keypad.rendezvous.released = true) :
      Step s (.leave s.keypad.rendezvous.settle.2)
        { s with
          keypad := { s.keypad with rendezvous := s.keypad.rendezvous.settle.1 }
          asleep := false }
  | deliver {s : Traffic Party} {p : Party} {key : UInt8} {rendezvous : Rendezvous}
      (hidle : s.missed p = none) (hoffer : s.keypad.rendezvous.offer? key = some rendezvous) :
      Step s (.deliver p key) { s with keypad := { s.keypad with rendezvous } }
  | miss {s : Traffic Party} {p : Party} {key : UInt8} (hidle : s.missed p = none)
      (hoffer : s.keypad.rendezvous.offer? key = none) :
      Step s (.miss p key) (s.note p (some key))
  | hold {s : Traffic Party} {p : Party} {key : UInt8} (hmissed : s.missed p = some key) :
      Step s (.hold p key) { s.note p none with keypad := s.keypad.add [key] }
  | act {s : Traffic Party} {action : KeyAction} (hother : ∀ key, action ≠ .press key) :
      Step s (.act action) { s with keypad := (s.keypad.act action).1 }

/-- The runs: any possible moves one after the other. -/
inductive Run (s : Traffic Party) : List (Move Party) → Traffic Party → Prop
  | nil : Run s [] s
  | snoc {moves : List (Move Party)} {move : Move Party} {s' s'' : Traffic Party}
      (h : Run s moves s') (hstep : Step s' move s'') : Run s (moves ++ [move]) s''

variable {s s' s'' : Traffic Party} {move : Move Party}

theorem Run.of_step (h : Step s move s') : Run s [move] s' := Run.snoc .nil h

theorem Run.trans {moves moves' : List (Move Party)} (h : Run s moves s')
    (h' : Run s' moves' s'') : Run s (moves ++ moves') s'' := by
  induction h' with
  | nil =>
    rw [List.append_nil]
    exact h
  | snoc h' hstep ih =>
    rw [← List.append_assoc]
    exact ih.snoc hstep

/-- A run can be cut anywhere. -/
theorem Run.split {before after : List (Move Party)} (h : Run s (before ++ after) s') :
    ∃ u, Run s before u ∧ Run u after s' := by
  -- runs grow at their end, so the induction peels off the last move of `after`
  generalize hmoves : before ++ after = moves at h
  induction h generalizing after with
  | nil =>
    obtain ⟨rfl, rfl⟩ := List.append_eq_nil_iff.mp hmoves
    exact ⟨s, .nil, .nil⟩
  | @snoc moves move s' s'' h hstep ih =>
    rcases List.eq_nil_or_concat after with rfl | ⟨after', last, rfl⟩
    · rw [List.append_nil] at hmoves
      rw [hmoves]
      exact ⟨s'', h.snoc hstep, .nil⟩
    · rw [List.concat_eq_append, ← List.append_assoc] at hmoves
      obtain ⟨hinit, hlast⟩ := List.append_inj' hmoves rfl
      cases hlast
      obtain ⟨u, hu, hrest⟩ := ih hinit
      rw [List.concat_eq_append]
      exact ⟨u, hu, hrest.snoc hstep⟩

theorem Run.of_snoc {moves : List (Move Party)} (h : Run s (moves ++ [move]) s') :
    ∃ u, Run s moves u ∧ Step u move s' := by
  generalize hmoves : moves ++ [move] = all at h
  cases h with
  | nil => exact absurd hmoves (List.append_ne_nil_of_right_ne_nil _ (List.cons_ne_nil _ _))
  | @snoc moves' move' u _ h hstep =>
    obtain ⟨hinit, hlast⟩ := List.append_inj' hmoves rfl
    cases hlast
    rw [hinit]
    exact ⟨u, h, hstep⟩

/-- One move of a run, between what comes before and after it. -/
theorem Run.at_move {before after : List (Move Party)} (h : Run s (before ++ move :: after) s') :
    ∃ u v, Run s before u ∧ Step u move v ∧ Run v after s' := by
  rw [List.append_cons] at h
  obtain ⟨v, hbefore, hafter⟩ := h.split
  obtain ⟨u, hbefore, hstep⟩ := hbefore.of_snoc
  exact ⟨u, v, hbefore, hstep, hafter⟩

/-! ### Use without interruption -/

theorem note_note (p : Party) (key : Option UInt8) (hidle : s.missed p = none) :
    (s.note p key).note p none = s := by
  have hmissed : ((s.note p key).note p none).missed = s.missed := by
    funext q
    show (if q = p then none else if q = p then key else s.missed q) = s.missed q
    by_cases hq : q = p
    · rw [if_pos hq, hq, hidle]
    · rw [if_neg hq, if_neg hq]
  show { s with missed := ((s.note p key).note p none).missed } = s
  rw [hmissed]

/-- A press without interruption is one of the runs. -/
theorem run_press (p : Party) (key : UInt8) (hidle : s.missed p = none) :
    ∃ moves, Run s moves { s with keypad := (s.keypad.press key).1 } := by
  rw [Keypad.press]
  cases hoffer : s.keypad.rendezvous.offer? key with
  | some rendezvous => exact ⟨_, Run.of_step (.deliver hidle hoffer)⟩
  | none =>
    have hmiss : Run s [.miss p key] (s.note p (some key)) := Run.of_step (.miss hidle hoffer)
    have hnoted : (s.note p (some key)).missed p = some key := if_pos rfl
    have hhold := hmiss.snoc (.hold hnoted)
    rw [note_note p (some key) hidle] at hhold
    exact ⟨_, hhold⟩

theorem run_act (p : Party) (action : KeyAction) (hidle : s.missed p = none) :
    ∃ moves, Run s moves { s with keypad := (s.keypad.act action).1 } := by
  cases action with
  | press key => exact run_press p key hidle
  | _ => exact ⟨_, Run.of_step (.act (fun _ => KeyAction.noConfusion))⟩

/-- The visit of a wait is one of the runs: the machine wakes up as soon as it may, and nobody comes
in between. -/
theorem run_attend (p : Party) (visit : Visit) (result : Option WaitResult)
    (hidle : s.missed p = none) (hasleep : s.asleep = result.isNone) :
    ∃ moves, Run s moves
      { s with
        keypad := (s.keypad.attend result visit).1
        asleep := (s.keypad.attend result visit).2.2.isNone } := by
  induction visit generalizing s result with
  | nil =>
    refine ⟨[], ?_⟩
    rw [Keypad.attend, ← hasleep]
    exact .nil
  | cons action rest ih =>
    obtain ⟨moves, hacted⟩ := run_act p action hidle
    rw [Keypad.attend]
    dsimp only
    cases result with
    | some result =>
      obtain ⟨moves', hrest⟩ :=
        ih (s := { s with keypad := (s.keypad.act action).1 }) (some result) hidle hasleep
      exact ⟨_, hacted.trans hrest⟩
    | none =>
      by_cases hreleased : (s.keypad.act action).1.rendezvous.released = true
      · have hleft := hacted.snoc (.leave hasleep hreleased)
        simp only [Keypad.wake, if_pos hreleased]
        obtain ⟨moves', hrest⟩ := ih
          (s := { s with
            keypad := { (s.keypad.act action).1 with
              rendezvous := (s.keypad.act action).1.rendezvous.settle.1 }
            asleep := false })
          (some (s.keypad.act action).1.rendezvous.settle.2) hidle rfl
        exact ⟨_, hleft.trans hrest⟩
      · simp only [Keypad.wake, if_neg hreleased]
        obtain ⟨moves', hrest⟩ :=
          ih (s := { s with keypad := (s.keypad.act action).1 }) none hidle hasleep
        exact ⟨_, hacted.trans hrest⟩

end Traffic

end Chip8
