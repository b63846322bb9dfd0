import Chip8.Proofs.Keypad.Delivery
import Chip8.Proofs.Keypad.Waiting

/-!
# What a cancellation does

A cancellation forbids every wait that would begin later, and releases the one that is going on: when
the machine wakes up it leaves, and does not sleep on. Both hold of every run that goes on after the
cancellation without a reset (`Traffic.run_cancelled`).

How the wait ends is another matter. The rendezvous stays open until the machine has left it, and a
press looks only at whether it is open and still empty. So a press that comes between the cancellation
and the waking up hands its key over, and the wait ends with that key: `CancellationWins` does not
hold of every run (`Traffic.not_cancellationWins`). `Traffic.AfterCancellation` says what does. Such
a press is the only way to it, and there is one of them at most.
-/

namespace Chip8.Traffic

variable {Party : Type}

/-- A wait that has no key when it is cancelled ends without one, no wait begins any more, and no key
is handed over. -/
structure CancellationWins (before after : List (Move Party)) : Prop where
  pending : ∀ earlier during within result rest, before = earlier ++ .arm :: during →
    OneWait during → deliveries during = [] → after = within ++ .leave result :: rest →
      OneWait within → result = .error .cancelled
  refused : .arm ∉ after
  ignored : deliveries after = []

/-- Of two different entries of a list, the second of which comes after the last occurrence of the
first. -/
theorem exists_between {α : Type} {before after earlier during : List α} {a b : α}
    (h : before ++ b :: after = earlier ++ a :: during) (hne : a ≠ b) (hlast : a ∉ after) :
    ∃ between, before = earlier ++ a :: between ∧ during = between ++ b :: after := by
  rcases List.append_eq_append_iff.mp h with ⟨gap, _, hrest⟩ | ⟨gap, hbefore, hrest⟩
  · cases gap with
    | nil => exact absurd (List.cons_eq_cons.mp hrest).1.symm hne
    | cons c gap =>
      have hmem : a ∈ after := by
        rw [(List.cons_eq_cons.mp hrest).2]
        simp
      exact absurd hmem hlast
  · cases gap with
    | nil => exact absurd (List.cons_eq_cons.mp hrest).1 hne
    | cons c between =>
      obtain ⟨hc, hduring⟩ := List.cons_eq_cons.mp hrest
      rw [hc]
      exact ⟨between, hbefore, hduring⟩

theorem oneWait_append {moves moves' : List (Move Party)} :
    OneWait (moves ++ moves') ↔ OneWait moves ∧ OneWait moves' :=
  List.forall_mem_append

theorem oneWait_cons {move : Move Party} {moves : List (Move Party)} :
    OneWait (move :: moves) ↔ move.isTurn = false ∧ OneWait moves :=
  List.forall_mem_cons

/-- A cancellation does not hand a key over. -/
theorem deliveries_cancel (during after : List (Move Party)) :
    deliveries (during ++ .act .cancel :: after) = deliveries during ++ deliveries after :=
  deliveries_append during (.act .cancel :: after)

theorem settle_eq_error_iff (r : Rendezvous) : r.settle.2 = .error .cancelled ↔ r.key = none := by
  rw [Rendezvous.settle]
  cases hkey : r.key <;> simp

variable [DecidableEq Party] {s s' : Traffic Party} {move : Move Party}
  {moves before after : List (Move Party)}

/-! ### Waits stay forbidden -/

theorem act_cancelled (k : Keypad) {action : KeyAction} (hreset : action ≠ .reset)
    (hcancelled : k.rendezvous.cancelled = true) :
    (k.act action).1.rendezvous.cancelled = true := by
  cases action with
  | press key =>
    simp only [Keypad.act, Keypad.press]
    split
    · next offered hoffer =>
      rw [(rendezvous_of_offer? hoffer).2.2]
      exact hcancelled
    · exact hcancelled
  | reset => exact absurd rfl hreset
  | cancel => rfl
  | _ => exact hcancelled

/-- Only a reset allows waits again. -/
theorem Step.cancelled (h : Step s move s') (hreset : move ≠ .act .reset)
    (hcancelled : s.keypad.rendezvous.cancelled = true) :
    s'.keypad.rendezvous.cancelled = true := by
  cases h with
  | arm hawake hbegin =>
    rw [Rendezvous.begin?, if_pos hcancelled] at hbegin
    cases hbegin
  | deliver hidle hoffer =>
    rw [(rendezvous_of_offer? hoffer).2.2]
    exact hcancelled
  | act hother =>
    exact act_cancelled s.keypad (fun haction => hreset (congrArg Move.act haction)) hcancelled
  | _ => exact hcancelled

theorem run_cancelled (h : Run s moves s') (hreset : .act .reset ∉ moves)
    (hcancelled : s.keypad.rendezvous.cancelled = true) :
    s'.keypad.rendezvous.cancelled = true := by
  induction h with
  | nil => exact hcancelled
  | snoc h hstep ih =>
    simp only [List.mem_append, List.mem_singleton, not_or] at hreset
    exact hstep.cancelled (Ne.symm hreset.2) (ih hreset.1)

/-- Waits are forbidden from the cancellation on. -/
theorem cancelled_after (h : Run fresh (before ++ .act .cancel :: after) s)
    (hreset : .act .reset ∉ after) : s.keypad.rendezvous.cancelled = true := by
  obtain ⟨u, v, _, hstep, hafter⟩ := h.at_move
  cases hstep with
  | act hother => exact run_cancelled hafter hreset rfl

theorem begin?_of_cancelled {r : Rendezvous} (h : r.cancelled = true) : r.begin? = none := by
  rw [Rendezvous.begin?, if_pos h]

/-- The moves up to some point of what comes after the cancellation are a run as well. -/
theorem Run.upTo {first rest : List (Move Party)}
    (h : Run fresh (before ++ .act .cancel :: (first ++ move :: rest)) s) :
    ∃ u v, Run fresh (before ++ .act .cancel :: first) u ∧ Step u move v := by
  have hmoves : before ++ .act .cancel :: (first ++ move :: rest) =
      (before ++ .act .cancel :: first) ++ move :: rest := by
    rw [List.append_assoc, List.cons_append]
  rw [hmoves] at h
  obtain ⟨u, v, hfirst, hstep, _⟩ := h.at_move
  exact ⟨u, v, hfirst, hstep⟩

theorem arm_notMem (h : Run fresh (before ++ .act .cancel :: after) s)
    (hreset : .act .reset ∉ after) : .arm ∉ after := by
  intro hmem
  obtain ⟨first, rest, rfl⟩ := List.append_of_mem hmem
  obtain ⟨u, v, hfirst, hstep⟩ := h.upTo
  have hcancelled := cancelled_after hfirst (fun h => hreset (List.mem_append_left _ h))
  cases hstep with
  | arm hawake hbegin =>
    rw [begin?_of_cancelled hcancelled] at hbegin
    cases hbegin

/-- A machine that is asleep after a cancellation was asleep before, and is still in the same wait. -/
theorem exists_arm_before (h : Run fresh (before ++ .act .cancel :: after) s)
    (hreset : .act .reset ∉ after) (hasleep : s.asleep = true) :
    ∃ earlier during, before = earlier ++ .arm :: during ∧ OneWait during ∧ OneWait after ∧
      deliveries during ++ deliveries after = s.keypad.rendezvous.key.toList := by
  obtain ⟨earlier, during, hmoves, hduring, hkey⟩ := exists_arm_deliveries h hasleep
  have hne : (.arm : Move Party) ≠ .act .cancel := by simp
  obtain ⟨between, hbefore, rfl⟩ := exists_between hmoves hne (arm_notMem h hreset)
  obtain ⟨hbetween, hrest⟩ := oneWait_append.mp hduring
  rw [deliveries_cancel] at hkey
  exact ⟨earlier, between, hbefore, hbetween, (oneWait_cons.mp hrest).2, hkey⟩

/-! ### The wait that was going on -/

/-- What a cancellation comes to, as long as there is no reset. -/
structure AfterCancellation (before after : List (Move Party)) (s : Traffic Party) : Prop where
  refused : .arm ∉ after
  /-- To ask for a wait is to be refused, and changes nothing. -/
  awake : s.asleep = false →
    Step s .refuse s ∧ s.keypad.awaitKey = (s.keypad, .error .cancelled)
  /-- The wait that was going on can only end. -/
  asleep : s.asleep = true → OneWait after ∧
    Step s (.leave s.keypad.rendezvous.settle.2)
      { s with
        keypad := { s.keypad with rendezvous := s.keypad.rendezvous.settle.1 }
        asleep := false } ∧
    ∀ s', ¬ Step s .stir s'
  /-- It ends without a key unless it is handed one before it has ended. -/
  pending : ∀ earlier during within result rest, before = earlier ++ .arm :: during →
    OneWait during → after = within ++ .leave result :: rest → OneWait within →
      (result = .error .cancelled ↔ deliveries during = [] ∧ deliveries within = [])
  /-- A key that is handed over goes to this wait, and is its first. -/
  late : ∀ within p key rest, after = within ++ .deliver p key :: rest →
    ∃ earlier during, before = earlier ++ .arm :: during ∧ OneWait during ∧ OneWait within ∧
      deliveries during = [] ∧ deliveries within = []
  wins : deliveries after = [] → CancellationWins before after

theorem released_of_cancelled {r : Rendezvous} (h : r.cancelled = true) : r.released = true := by
  rw [Rendezvous.released, h, Bool.or_true]

theorem not_stir_of_cancelled (hcancelled : s.keypad.rendezvous.cancelled = true)
    (s' : Traffic Party) : ¬ Step s .stir s' := by
  intro hstep
  cases hstep with
  | stir hasleep hreleased =>
    rw [released_of_cancelled hcancelled] at hreleased
    cases hreleased

/-- The wait that is going on ends without a key just if it was handed none. -/
theorem leave_eq_error_iff {earlier during within : List (Move Party)} {result : WaitResult}
    {rest : List (Move Party)} (hduring : OneWait during) (hwithin : OneWait within)
    (h : Run fresh (earlier ++ .arm :: during ++ .act .cancel :: (within ++ .leave result :: rest)) s) :
    result = .error .cancelled ↔ deliveries during = [] ∧ deliveries within = [] := by
  obtain ⟨u, v, hrun, hleave⟩ := h.upTo
  rw [List.append_assoc, List.cons_append] at hrun
  obtain ⟨w, w', _, harm, hwait⟩ := hrun.at_move
  have hone : OneWait (during ++ .act .cancel :: within) :=
    oneWait_append.mpr ⟨hduring, oneWait_cons.mpr ⟨rfl, hwithin⟩⟩
  have hkey := (run_within hwait hone).2
  rw [deliveries_cancel] at hkey
  cases harm with
  | arm hawake hbegin =>
    dsimp only at hkey
    rw [(rendezvous_of_begin? hbegin).2] at hkey
    cases hleave with
    | leave hasleep hreleased =>
      rw [settle_eq_error_iff, ← Option.toList_eq_nil_iff, ← hkey, Option.toList_none,
        List.nil_append]
      exact List.append_eq_nil_iff

theorem deliver_late (h : Run fresh (before ++ .act .cancel :: after) s)
    (hreset : .act .reset ∉ after) {within rest : List (Move Party)} {p : Party} {key : UInt8}
    (hafter : after = within ++ .deliver p key :: rest) :
    ∃ earlier during, before = earlier ++ .arm :: during ∧ OneWait during ∧ OneWait within ∧
      deliveries during = [] ∧ deliveries within = [] := by
  rw [hafter] at h hreset
  obtain ⟨u, v, hrun, hstep⟩ := h.upTo
  cases hstep with
  | deliver hidle hoffer =>
    obtain ⟨hopen, hfree, _⟩ := rendezvous_of_offer? hoffer
    have hasleep : u.asleep = true := (waiting_eq_asleep hrun).symm.trans hopen
    obtain ⟨earlier, during, hbefore, hduring, hwithin, hkey⟩ :=
      exists_arm_before hrun (fun h => hreset (List.mem_append_left _ h)) hasleep
    rw [hfree] at hkey
    obtain ⟨hnone, hnone'⟩ := List.append_eq_nil_iff.mp hkey
    exact ⟨earlier, during, hbefore, hduring, hwithin, hnone, hnone'⟩

/-- In every interleaving a cancellation forbids later waits and releases the one that is going on,
which ends without a key if nobody hands one over before the machine has left. -/
theorem cancel_releases (h : Run fresh (before ++ .act .cancel :: after) s)
    (hreset : .act .reset ∉ after) : AfterCancellation before after s := by
  have hcancelled := cancelled_after h hreset
  have hpending : ∀ earlier during within result rest, before = earlier ++ .arm :: during →
      OneWait during → after = within ++ .leave result :: rest → OneWait within →
        (result = .error .cancelled ↔ deliveries during = [] ∧ deliveries within = []) := by
    intro earlier during within result rest hbefore hduring hafter hwithin
    rw [hbefore, hafter] at h
    exact leave_eq_error_iff hduring hwithin h
  constructor
  · exact arm_notMem h hreset
  · intro hawake
    exact ⟨.refuse hawake (begin?_of_cancelled hcancelled),
      Keypad.awaitKey_of_cancelled hcancelled⟩
  · intro hasleep
    obtain ⟨_, _, _, _, hafter, _⟩ := exists_arm_before h hreset hasleep
    exact ⟨hafter, .leave hasleep (released_of_cancelled hcancelled),
      not_stir_of_cancelled hcancelled⟩
  · exact hpending
  · intro within p key rest hafter
    exact deliver_late h hreset hafter
  · intro hnobody
    refine ⟨?_, arm_notMem h hreset, hnobody⟩
    intro earlier during within result rest hbefore hduring hnone hafter hwithin
    have hwindow : deliveries within = [] := by
      rw [hafter, deliveries_append] at hnobody
      exact (List.append_eq_nil_iff.mp hnobody).1
    exact (hpending earlier during within result rest hbefore hduring hafter hwithin).mpr
      ⟨hnone, hwindow⟩

/-- The machine waits and is cancelled, but before it wakes up a key is pressed. It leaves with this
key, and its next wait is refused. -/
def intruder : List (Move Bool) := [.deliver true 5, .leave (.ok 5), .refuse]

theorem run_intruder : ∃ s, Run fresh ([.arm] ++ .act .cancel :: intruder) s := by
  have harmed : Run (fresh : Traffic Bool) [.arm] _ := Run.of_step (.arm rfl rfl)
  have hcancelled : Run fresh [.arm, .act .cancel] _ :=
    harmed.snoc (.act (fun _ => KeyAction.noConfusion))
  have hdelivered : Run fresh [.arm, .act .cancel, .deliver true 5] _ :=
    hcancelled.snoc (.deliver rfl rfl)
  exact ⟨_, (hdelivered.snoc (.leave rfl rfl)).snoc (.refuse rfl rfl)⟩

theorem reset_notMem_intruder : .act .reset ∉ intruder := by
  simp [intruder]

theorem cancel_releases_intruder : ∃ s, Run fresh ([.arm] ++ .act .cancel :: intruder) s ∧
    .act .reset ∉ intruder ∧ AfterCancellation [.arm] intruder s := by
  obtain ⟨s, hrun⟩ := run_intruder
  exact ⟨s, hrun, reset_notMem_intruder, cancel_releases hrun reset_notMem_intruder⟩

/-- A cancelled wait can end with a key that was pressed after the cancellation. -/
theorem not_cancellationWins : ¬ ∀ (before after : List (Move Bool)) (s : Traffic Bool),
    Run fresh (before ++ .act .cancel :: after) s → .act .reset ∉ after →
      CancellationWins before after := by
  intro hwins
  obtain ⟨s, hrun⟩ := run_intruder
  have hpending := (hwins [.arm] intruder s hrun reset_notMem_intruder).pending
  have hresult : (.ok 5 : WaitResult) = .error .cancelled :=
    hpending [] [] [.deliver true 5] (.ok 5) [.refuse] rfl (fun _ h => absurd h List.not_mem_nil) rfl
      rfl (fun _ h => by rw [List.mem_singleton.mp h]; rfl)
  cases hresult

end Chip8.Traffic
