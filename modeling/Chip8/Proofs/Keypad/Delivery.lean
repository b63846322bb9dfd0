import Chip8.Proofs.Keypad.Interleaving

/-!
# No key press is lost, duplicated or stale

For as long as a wait goes on, the key in the rendezvous is the one that was handed over since, if
there is any: `Traffic.run_within` says so for every run of moves between which no wait begins or
ends. As a key is only accepted into an empty rendezvous, a wait is handed one key at most; as the
machine takes its key out of the rendezvous when it leaves, this is the key that it leaves with.

A rendezvous is open only while the machine is asleep (`Traffic.waiting_eq_asleep`), and then a wait
has begun before and has not ended (`Traffic.exists_arm`). So every key that is handed over goes to
a wait that is going on. `Traffic.Delivered` lists what follows for the presses and waits of a run.
-/

namespace Chip8.Traffic

variable {Party : Type}

/-! ### What the rendezvous does in one move -/

theorem rendezvous_of_begin? {r r' : Rendezvous} (h : r.begin? = some r') :
    r'.waiting = true ∧ r'.key = none := by
  rw [Rendezvous.begin?] at h
  split at h
  · cases h
  · cases h
    exact ⟨rfl, rfl⟩

theorem rendezvous_of_offer? {r r' : Rendezvous} {key : UInt8} (h : r.offer? key = some r') :
    r.waiting = true ∧ r.key = none ∧ r' = { r with key := some key } := by
  rw [Rendezvous.offer?] at h
  split at h
  · next hfree =>
    cases h
    exact ⟨hfree.1, hfree.2, rfl⟩
  · cases h

/-- Only a press touches the key and whether a machine waits. -/
theorem act_rendezvous (k : Keypad) {action : KeyAction} (h : ∀ key, action ≠ .press key) :
    (k.act action).1.rendezvous.waiting = k.rendezvous.waiting ∧
      (k.act action).1.rendezvous.key = k.rendezvous.key := by
  cases action with
  | press key => exact absurd rfl (h key)
  | _ => exact ⟨rfl, rfl⟩

/-- A single key is handed over by one of the moves, and by none before and after it. -/
theorem exists_deliver {moves : List (Move Party)} {key : UInt8}
    (h : deliveries moves = [key]) :
    ∃ first p last, moves = first ++ .deliver p key :: last ∧
      deliveries first = [] ∧ deliveries last = [] := by
  obtain ⟨first, move, last, hmoves, hfirst, hmove, hlast⟩ := List.filterMap_eq_cons_iff.mp h
  have hnone : deliveries first = [] := List.filterMap_eq_nil_iff.mpr hfirst
  cases move with
  | deliver p other =>
    cases hmove
    exact ⟨first, p, last, hmoves, hnone, hlast⟩
  | _ => cases hmove

variable [DecidableEq Party] {s s' : Traffic Party} {move : Move Party}
  {moves : List (Move Party)}

/-- A move that neither begins nor ends a wait nor hands a key over leaves the wait as it is. -/
theorem Step.bystander (h : Step s move s') (hturn : move.isTurn = false)
    (hdelivered : move.delivered? = none) :
    s'.asleep = s.asleep ∧ s'.keypad.rendezvous.waiting = s.keypad.rendezvous.waiting ∧
      s'.keypad.rendezvous.key = s.keypad.rendezvous.key := by
  cases h with
  | arm hawake hbegin => cases hturn
  | leave hasleep hreleased => cases hturn
  | deliver hidle hoffer => cases hdelivered
  | act hother => exact ⟨rfl, act_rendezvous s.keypad hother⟩
  | _ => exact ⟨rfl, rfl, rfl⟩

theorem settle_eq_ok_iff (r : Rendezvous) (key : UInt8) :
    r.settle.2 = .ok key ↔ r.key = some key := by
  rw [Rendezvous.settle]
  cases r.key with
  | none =>
    constructor
    · intro h
      cases h
    · intro h
      cases h
  | some other =>
    constructor
    · intro h
      cases h
      rfl
    · intro h
      cases h
      rfl

/-- Where the move hands a key over, the key was missing before and is there afterwards. -/
theorem Step.within (h : Step s move s') (hturn : move.isTurn = false) :
    s'.asleep = s.asleep ∧ s'.keypad.rendezvous.waiting = s.keypad.rendezvous.waiting ∧
      s.keypad.rendezvous.key.toList ++ deliveries [move] = s'.keypad.rendezvous.key.toList := by
  cases hmove : move.delivered? with
  | none =>
    obtain ⟨hsleep, hwait, hkey⟩ := h.bystander hturn hmove
    have hnothing : deliveries [move] = [] := deliveries_snoc_none [] hmove
    rw [hnothing, List.append_nil, hkey]
    exact ⟨hsleep, hwait, rfl⟩
  | some key =>
    cases h with
    | @deliver p other rendezvous hidle hoffer =>
      obtain ⟨hopen, hfree, hnew⟩ := rendezvous_of_offer? hoffer
      show s.asleep = s.asleep ∧ rendezvous.waiting = s.keypad.rendezvous.waiting ∧
        s.keypad.rendezvous.key.toList ++ [other] = rendezvous.key.toList
      rw [hfree, hnew]
      exact ⟨rfl, rfl, rfl⟩
    | _ => cases hmove

/-! ### Runs -/

/-- The key in the rendezvous is the one that was handed over, if there is any. -/
theorem run_within {within : List (Move Party)} (h : Run s within s') (hwithin : OneWait within) :
    s'.asleep = s.asleep ∧
      s.keypad.rendezvous.key.toList ++ deliveries within = s'.keypad.rendezvous.key.toList := by
  induction h with
  | nil => exact ⟨rfl, List.append_nil _⟩
  | @snoc moves move u v h hstep ih =>
    have hmoves : OneWait moves := fun a ha => hwithin a (List.mem_append_left _ ha)
    have hturn : move.isTurn = false :=
      hwithin move (List.mem_append_right _ (List.mem_singleton.mpr rfl))
    obtain ⟨hsleep, hkey⟩ := ih hmoves
    obtain ⟨hsleep', _, hkey'⟩ := hstep.within hturn
    refine ⟨hsleep'.trans hsleep, ?_⟩
    rw [deliveries_append, ← List.append_assoc, hkey, hkey']

theorem Step.waiting_eq_asleep (h : Step s move s')
    (heq : s.keypad.rendezvous.waiting = s.asleep) :
    s'.keypad.rendezvous.waiting = s'.asleep := by
  cases hturn : move.isTurn with
  | false =>
    obtain ⟨hsleep, hwait, _⟩ := h.within hturn
    rw [hsleep, hwait, heq]
  | true =>
    cases h with
    | arm hawake hbegin => exact (rendezvous_of_begin? hbegin).1
    | leave hasleep hreleased => rfl
    | _ => cases hturn

/-- The rendezvous is open just while the machine is asleep. -/
theorem waiting_eq_asleep (h : Run fresh moves s) :
    s.keypad.rendezvous.waiting = s.asleep := by
  induction h with
  | nil => rfl
  | snoc h hstep ih => exact hstep.waiting_eq_asleep ih

/-- A machine that is asleep has begun a wait, and has not begun or ended one since. -/
theorem exists_arm (h : Run fresh moves s) (hasleep : s.asleep = true) :
    ∃ earlier during, moves = earlier ++ .arm :: during ∧ OneWait during := by
  induction h with
  | nil => cases hasleep
  | @snoc moves move u v h hstep ih =>
    cases hturn : move.isTurn with
    | false =>
      obtain ⟨hsleep, _, _⟩ := hstep.within hturn
      obtain ⟨earlier, during, hmoves, hduring⟩ := ih (hsleep.symm.trans hasleep)
      refine ⟨earlier, during ++ [move], ?_, oneWait_snoc hduring hturn⟩
      rw [hmoves, List.append_assoc, List.cons_append]
    | true =>
      cases hstep with
      | arm hawake hbegin =>
        exact ⟨moves, [], rfl, fun a ha => absurd ha List.not_mem_nil⟩
      | leave hasleep' hreleased => cases hasleep
      | _ => cases hturn

/-- What has been handed over to the wait that is going on. -/
theorem exists_arm_deliveries (h : Run fresh moves s) (hasleep : s.asleep = true) :
    ∃ earlier during, moves = earlier ++ .arm :: during ∧ OneWait during ∧
      deliveries during = s.keypad.rendezvous.key.toList := by
  obtain ⟨earlier, during, hmoves, hduring⟩ := exists_arm h hasleep
  rw [hmoves] at h
  obtain ⟨u, v, hearlier, hstep, hrun⟩ := h.at_move
  have hkey := (run_within hrun hduring).2
  cases hstep with
  | arm hawake hbegin =>
    rw [(rendezvous_of_begin? hbegin).2] at hkey
    exact ⟨earlier, during, hmoves, hduring, hkey⟩

/-! ### Presses that find no waiting machine -/

theorem Step.missed_eq (h : Step s move s') {p : Party} (hp : move.presser? ≠ some p) :
    s'.missed p = s.missed p := by
  have hother : ∀ (key : Option UInt8) {q : Party}, some q ≠ some p →
      (s.note q key).missed p = s.missed p := by
    intro key q hq
    exact if_neg fun heq => hq (congrArg some heq.symm)
  cases h with
  | miss hidle hoffer => exact hother _ hp
  | hold hmissed => exact hother _ hp
  | _ => rfl

/-- A key that is still to be recorded was missed by the party's last press. -/
theorem exists_miss (h : Run fresh moves s) {p : Party} {key : UInt8}
    (hmissed : s.missed p = some key) :
    ∃ earlier during, moves = earlier ++ .miss p key :: during ∧
      ∀ move ∈ during, move.presser? ≠ some p := by
  induction h with
  | nil => cases hmissed
  | @snoc moves move u v h hstep ih =>
    by_cases hp : move.presser? = some p
    -- of the party's own moves only a miss leaves something to record
    · cases hstep with
      | deliver hidle hoffer =>
        cases hp
        cases hmissed.symm.trans hidle
      | @miss q other hidle hoffer =>
        cases hp
        have hkey : (u.note p (some other)).missed p = some other := if_pos rfl
        cases hkey.symm.trans hmissed
        exact ⟨moves, [], rfl, fun a ha => absurd ha List.not_mem_nil⟩
      | hold hmissed' =>
        cases hp
        have hkey : (u.note p none).missed p = none := if_pos rfl
        cases hmissed.symm.trans hkey
      | _ => cases hp
    · rw [hstep.missed_eq hp] at hmissed
      obtain ⟨earlier, during, hmoves, hduring⟩ := ih hmissed
      refine ⟨earlier, during ++ [move], ?_, ?_⟩
      · rw [hmoves, List.append_assoc, List.cons_append]
      · intro a ha
        rcases List.mem_append.mp ha with hold | hnew
        · exact hduring a hold
        · rw [List.mem_singleton.mp hnew]
          exact hp

theorem has_press (held : HeldKeys) (now : Nat) (key : UInt8) :
    (held.press now key).has key = true := by
  have hlast : (held.press now key).lastPress.get ⟨key.toNat, key.toNat_lt⟩ = some now :=
    Vector.getElem_set_self key.toNat_lt
  rw [HeldKeys.has, hlast]
  rfl

/-! ### The presses and waits of a run -/

/-- Nothing is lost, duplicated or stale. -/
structure Delivered (moves : List (Move Party)) : Prop where
  /-- A key is handed over to a wait that is going on and has not been handed one yet. -/
  armed : ∀ before p key after, moves = before ++ .deliver p key :: after →
    ∃ earlier during, before = earlier ++ .arm :: during ∧ OneWait during ∧ deliveries during = []
  /-- If this wait ends, it ends with the key. -/
  returned : ∀ before p key within result after,
    moves = before ++ .deliver p key :: (within ++ .leave result :: after) → OneWait within →
      result = .ok key
  /-- A wait that ends with a key was handed it by a single press, after it had begun. -/
  matched : ∀ before key after, moves = before ++ .leave (.ok key) :: after →
    ∃ earlier during, before = earlier ++ .arm :: during ∧ OneWait during ∧
      ∃ first p last, during = first ++ .deliver p key :: last ∧
        deliveries first = [] ∧ deliveries last = []
  /-- A wait is handed one key at most. -/
  once : ∀ before during after, moves = before ++ .arm :: (during ++ after) → OneWait during →
    (deliveries during).length ≤ 1
  /-- A key is recorded once its press has found no waiting machine. -/
  missed : ∀ before p key after, moves = before ++ .hold p key :: after →
    ∃ earlier during, before = earlier ++ .miss p key :: during ∧
      ∀ move ∈ during, move.presser? ≠ some p

/-- What a press does to the keypad: with a key that is handed over the held keys stay as they are,
and one that is recorded is held and has been offered to nobody. -/
structure Recorded (s : Traffic Party) (move : Move Party) (s' : Traffic Party) : Prop where
  deliver : ∀ p key, move = .deliver p key → s'.keypad.held = s.keypad.held
  miss : ∀ p key, move = .miss p key → s'.keypad = s.keypad
  hold : ∀ p key, move = .hold p key → s'.keypad.held.has key = true ∧
    s'.keypad.held = s.keypad.held.press s.keypad.now key ∧
    s'.keypad.rendezvous = s.keypad.rendezvous

theorem delivered_of_run (h : Run fresh moves s) : Delivered moves := by
  constructor
  · intro before p key after hmoves
    rw [hmoves] at h
    obtain ⟨u, v, hbefore, hstep, hafter⟩ := h.at_move
    cases hstep with
    | deliver hidle hoffer =>
      obtain ⟨hopen, hfree, _⟩ := rendezvous_of_offer? hoffer
      have hasleep : u.asleep = true := (waiting_eq_asleep hbefore).symm.trans hopen
      obtain ⟨earlier, during, hmoves, hduring, hkey⟩ := exists_arm_deliveries hbefore hasleep
      rw [hfree] at hkey
      exact ⟨earlier, during, hmoves, hduring, hkey⟩
  · intro before p key within result after hmoves hwithin
    rw [hmoves] at h
    obtain ⟨u, v, hbefore, hstep, hafter⟩ := h.at_move
    obtain ⟨w, w', hrun, hleave, _⟩ := hafter.at_move
    have hkey := (run_within hrun hwithin).2
    cases hstep with
    | @deliver _ _ rendezvous hidle hoffer =>
      have hv : rendezvous.key = some key := by rw [(rendezvous_of_offer? hoffer).2.2]
      cases hleave with
      | leave hasleep hreleased =>
        rw [settle_eq_ok_iff]
        dsimp only at hkey
        rw [hv] at hkey
        cases hw : w.keypad.rendezvous.key with
        | none =>
          rw [hw] at hkey
          cases hkey
        | some other =>
          rw [hw] at hkey
          exact congrArg some (List.cons_eq_cons.mp hkey).1.symm
  · intro before key after hmoves
    rw [hmoves] at h
    obtain ⟨u, v, hbefore, hstep, _⟩ := h.at_move
    generalize hresult : (Except.ok key : WaitResult) = result at hstep
    cases hstep with
    | leave hasleep hreleased =>
      have hu : u.keypad.rendezvous.key = some key := (settle_eq_ok_iff _ _).mp hresult.symm
      obtain ⟨earlier, during, hmoves, hduring, hkey⟩ := exists_arm_deliveries hbefore hasleep
      rw [hu] at hkey
      exact ⟨earlier, during, hmoves, hduring, exists_deliver hkey⟩
  · intro before during after hmoves hduring
    rw [hmoves] at h
    obtain ⟨u, v, _, hstep, hrest⟩ := h.at_move
    obtain ⟨w, hrun, _⟩ := hrest.split
    have hkey := (run_within hrun hduring).2
    cases hstep with
    | arm hawake hbegin =>
      dsimp only at hkey
      rw [(rendezvous_of_begin? hbegin).2] at hkey
      have hle : w.keypad.rendezvous.key.toList.length ≤ 1 := by
        cases w.keypad.rendezvous.key with
        | none => exact Nat.zero_le 1
        | some key => exact Nat.le_refl 1
      rw [← hkey] at hle
      exact hle
  · intro before p key after hmoves
    rw [hmoves] at h
    obtain ⟨u, v, hbefore, hstep, _⟩ := h.at_move
    cases hstep with
    | hold hmissed => exact exists_miss hbefore hmissed

theorem recorded_of_step (h : Step s move s') : Recorded s move s' := by
  constructor
  · intro p key hmove
    rw [hmove] at h
    cases h with
    | deliver hidle hoffer => rfl
  · intro p key hmove
    rw [hmove] at h
    cases h with
    | miss hidle hoffer => rfl
  · intro p key hmove
    rw [hmove] at h
    cases h with
    | hold hmissed => exact ⟨has_press s.keypad.held s.keypad.now key, rfl, rfl⟩

/-- In every interleaving each key that is pressed goes to one wait that is going on, or to the held
keys. -/
theorem no_key_lost (h : Run fresh moves s) :
    Delivered moves ∧ ∀ (u v : Traffic Party) move, Step u move v → Recorded u move v :=
  ⟨delivered_of_run h, fun _ _ _ hstep => recorded_of_step hstep⟩

/-- One key is missed before the wait begins and recorded only after another has been handed over; a
cancellation comes too late to take that one away, and the next wait is refused. -/
def latecomers : List (Move Bool) :=
  [.miss false 7, .arm, .stir, .deliver true 5, .act .cancel, .hold false 7, .leave (.ok 5), .refuse]

theorem no_key_lost_latecomers : ∃ s, Run fresh latecomers s ∧ Delivered latecomers ∧
    ∀ (u v : Traffic Bool) move, Step u move v → Recorded u move v := by
  have hmissed : Run (fresh : Traffic Bool) [.miss false 7] _ := Run.of_step (.miss rfl rfl)
  have harmed : Run fresh [.miss false 7, .arm, .stir] _ :=
    (hmissed.snoc (.arm rfl rfl)).snoc (.stir rfl rfl)
  have hdelivered : Run fresh [.miss false 7, .arm, .stir, .deliver true 5] _ :=
    harmed.snoc (.deliver rfl rfl)
  have hcancelled : Run fresh [.miss false 7, .arm, .stir, .deliver true 5, .act .cancel] _ :=
    hdelivered.snoc (.act (fun _ => KeyAction.noConfusion))
  have hrun : Run fresh latecomers _ :=
    ((hcancelled.snoc (.hold rfl)).snoc (.leave rfl rfl)).snoc (.refuse rfl rfl)
  exact ⟨_, hrun, no_key_lost hrun⟩

end Chip8.Traffic
