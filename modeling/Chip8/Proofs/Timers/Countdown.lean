import Chip8.Proofs.Replay
import Chip8.Proofs.Timers.Tickers

/-!
# The countdown

Timers are started and stopped, their tickers call back and end, and their counters are set, in any
order: `Timers.act?` is one such action, and a ticker calls back only while it is alive.

The counters themselves lie in one place of memory. The timers refer to it, so does each ticker from
its start on, and so does each handle from the time when it is taken. `SharedTimers` spells these
references out, where `Timers` has the values only; the two agree on every sequence of actions
(`SharedTimers.replay?_timers`), because a ticker and a handle are always given the reference of the
timers.

`Timers.counts_down` says what any sequence of actions comes to: there is one ticker alive at most,
and a counter shows its last setting less the number of counts since then, whatever has become of the
tickers in between.
-/

namespace Chip8

/-- One of the two counters. -/
inductive Counter where
  | delay
  | sound
  deriving DecidableEq, Repr

/-- What can be done to timers, or happen to them. -/
inductive TimerAction where
  | start
  | stop
  | tick
  | set (counter : Counter) (value : UInt8)
  /-- The ticker with this number calls back. -/
  | callBack (number : Nat)
  /-- The ticker with this number ends by itself. -/
  | die (number : Nat)
  | takeHandle
  deriving DecidableEq, Repr

/-- Do the counters count? -/
def TimerAction.counts : TimerAction → Bool
  | tick | callBack _ => true
  | _ => false

namespace Timers

/-- The value of a counter. -/
def read (t : Timers) : Counter → UInt8
  | .delay => t.delay
  | .sound => t.sound

/-- The timers after an action, if it is possible. -/
def act? (t : Timers) : TimerAction → Option Timers
  | .start => some t.start
  | .stop => some t.stop
  | .tick => some t.tick
  | .set .delay value => some (t.setDelay value)
  | .set .sound value => some (t.setSound value)
  | .callBack number => t.fire number
  | .die number => some (t.kill number)
  | .takeHandle => some t

variable {t t' : Timers} {action : TimerAction} {actions later : List TimerAction}

/-! ### One ticker at most -/

/-- Whatever is done to timers, they own their tickers. -/
theorem Owned.act (h : t.Owned) (hact : t.act? action = some t') : t'.Owned := by
  cases action with
  | start =>
    cases hact
    exact h.start
  | stop =>
    cases hact
    exact h.stop
  | callBack number =>
    have hfired := h.fired number
    rw [show t.fire number = some t' from hact] at hfired
    exact hfired
  | die number =>
    cases hact
    exact h.kill number
  | set counter value =>
    cases counter <;>
    · cases hact
      exact h
  | tick | takeHandle =>
    cases hact
    exact h

theorem Owned.eq_of_alive (h : t.Owned) {i j : Nat} (hi : t.alive i = true)
    (hj : t.alive j = true) : i = j :=
  Option.some.inj ((h i hi).symm.trans (h j hj))

theorem Owned.isRunning_iff (h : t.Owned) :
    t.isRunning = true ↔ ∃ number, t.alive number = true := by
  constructor
  · intro hrunning
    obtain ⟨number, _, halive⟩ := (Option.any_eq_true _ _).mp hrunning
    exact ⟨number, halive⟩
  · intro ⟨number, halive⟩
    show t.held.any t.alive = true
    rw [h number halive]
    exact halive

/-! ### Setting and counting -/

theorem toNat_lower (value : UInt8) : (lower value).toNat = value.toNat - 1 := by
  rw [lower]
  split
  · next hzero =>
    rw [hzero]
    rfl
  · next hpos =>
    have hone : (1 : UInt8) ≤ value := by
      rw [UInt8.le_iff_toNat_le]
      have hne : value.toNat ≠ 0 := fun h => hpos (UInt8.toNat_inj.mp h)
      show 1 ≤ value.toNat
      omega
    rw [UInt8.toNat_sub_of_le _ _ hone]
    rfl

theorem read_tick (t : Timers) (c : Counter) :
    (t.tick.read c).toNat = (t.read c).toNat - 1 := by
  cases c with
  | delay => exact toNat_lower t.delay
  | sound => exact toNat_lower t.sound

theorem read_of_set {c : Counter} {value : UInt8} (h : t.act? (.set c value) = some t') :
    t'.read c = value := by
  cases c <;>
  · cases h
    rfl

/-- An action that does not set a counter makes it count or leaves it. -/
theorem read_of_act {c : Counter} (hset : ∀ value, action ≠ .set c value)
    (h : t.act? action = some t') :
    (t'.read c).toNat = (t.read c).toNat - if action.counts = true then 1 else 0 := by
  cases action with
  | start =>
    cases h
    rw [Timers.start]
    split <;> cases c <;> rfl
  | stop =>
    cases h
    rw [Timers.stop]
    split <;> cases c <;> rfl
  | tick =>
    cases h
    exact read_tick t c
  | set counter value =>
    cases counter <;> cases c <;> cases h
    · exact absurd rfl (hset value)
    · rfl
    · rfl
    · exact absurd rfl (hset value)
  | callBack number =>
    obtain ⟨_, hfired⟩ := Option.ite_none_right_eq_some.mp h
    cases hfired
    exact read_tick t c
  | die number =>
    cases h
    cases c <;> rfl
  | takeHandle =>
    cases h
    rfl

/-- As long as a counter is not set, it shows what it showed before less the number of counts. -/
theorem read_of_replay {c : Counter} (hset : ∀ value, .set c value ∉ later)
    (h : replay? act? t later = some t') :
    (t'.read c).toNat = (t.read c).toNat - later.countP TimerAction.counts := by
  induction later generalizing t with
  | nil =>
    cases h
    rfl
  | cons first rest ih =>
    obtain ⟨u, hfirst, hrest⟩ := replay?_cons_eq_some_iff.mp h
    have hne : ∀ value, first ≠ .set c value := by
      intro value heq
      exact hset value (heq ▸ List.mem_cons_self)
    have hnone : ∀ value, .set c value ∉ rest :=
      fun value hmem => hset value (List.mem_cons_of_mem first hmem)
    rw [ih hnone hrest, read_of_act hne hfirst, List.countP_cons]
    omega

end Timers

/-! ### The counters in memory -/

/-- The values of the two counters at one place of memory. -/
structure Counters where
  delay : UInt8 := 0
  sound : UInt8 := 0
  deriving DecidableEq, Repr

namespace Counters

def read (k : Counters) : Counter → UInt8
  | .delay => k.delay
  | .sound => k.sound

def set (k : Counters) (value : UInt8) : Counter → Counters
  | .delay => { k with delay := value }
  | .sound => { k with sound := value }

def countDown (k : Counters) : Counters :=
  { delay := Timers.lower k.delay, sound := Timers.lower k.sound }

end Counters

/-- Timers with the place of memory where their counters are, and with the places that their tickers
and handles refer to. -/
structure SharedTimers where
  /-- The counters at each place. -/
  memory : Nat → Counters
  /-- The place that the timers refer to. -/
  own : Nat
  tickers : Array Ticker := #[]
  /-- The place where each ticker counts down, in the order of the tickers. -/
  targets : Array Nat := #[]
  held : Option Nat := none
  /-- The place that each handle reads, the one taken last in front. -/
  handles : List Nat := []

namespace SharedTimers

/-- The values, without the places. -/
def timers (s : SharedTimers) : Timers :=
  { delay := (s.memory s.own).delay
    sound := (s.memory s.own).sound
    tickers := s.tickers
    held := s.held }

/-- Changes the counters at one place. -/
def modifyAt (s : SharedTimers) (place : Nat) (f : Counters → Counters) : SharedTimers :=
  { s with memory := fun p => if p = place then f (s.memory p) else s.memory p }

/-- The same counters and references, with the tickers of the given timers. -/
def withTickers (s : SharedTimers) (t : Timers) : SharedTimers :=
  { s with tickers := t.tickers, held := t.held }

/-- A ticker that is started counts down where the counters of the timers are. -/
def start (s : SharedTimers) : SharedTimers :=
  if s.timers.isRunning then s
  else { s.withTickers s.timers.start with targets := s.targets.push s.own }

/-- The timers after an action, if it is possible. -/
def act? (s : SharedTimers) : TimerAction → Option SharedTimers
  | .start => some s.start
  | .stop => some (s.withTickers s.timers.stop)
  | .tick => some (s.modifyAt s.own Counters.countDown)
  | .set counter value => some (s.modifyAt s.own fun k => k.set value counter)
  | .callBack number =>
    if s.timers.alive number then
      s.targets[number]?.map fun place => s.modifyAt place Counters.countDown
    else none
  | .die number => some (s.withTickers (s.timers.kill number))
  | .takeHandle => some { s with handles := s.own :: s.handles }

/-- New timers without a ticker, whose counters are at the given place. -/
def stopped (place : Nat) : SharedTimers := { memory := fun _ => {}, own := place }

/-- Every reference is to the counters of the timers. -/
structure Bound (s : SharedTimers) : Prop where
  size_targets : s.targets.size = s.tickers.size
  targets : ∀ place ∈ s.targets, place = s.own
  handles : ∀ place ∈ s.handles, place = s.own

variable {s s' : SharedTimers} {action : TimerAction} {actions : List TimerAction}

theorem bound_stopped (place : Nat) : (stopped place).Bound where
  size_targets := rfl
  targets := by simp [stopped]
  handles := by simp [stopped]

theorem Bound.modifyAt (h : s.Bound) (place : Nat) (f : Counters → Counters) :
    (s.modifyAt place f).Bound :=
  ⟨h.size_targets, h.targets, h.handles⟩

theorem Bound.withTickers (h : s.Bound) {t : Timers} (hsize : t.tickers.size = s.tickers.size) :
    (s.withTickers t).Bound :=
  ⟨h.size_targets.trans hsize.symm, h.targets, h.handles⟩

theorem Bound.start (h : s.Bound) : s.start.Bound := by
  rw [SharedTimers.start]
  split
  · exact h
  · next hidle =>
    refine ⟨?_, ?_, h.handles⟩
    · show (s.targets.push s.own).size = s.timers.start.tickers.size
      rw [Timers.start, if_neg hidle, Array.size_push, Array.size_push, h.size_targets]
      rfl
    · intro place hplace
      rcases Array.mem_push.mp hplace with hold | hnew
      · exact h.targets place hold
      · exact hnew

theorem Bound.kill (h : s.Bound) (number : Nat) : (s.withTickers (s.timers.kill number)).Bound :=
  h.withTickers Array.size_modify

theorem Bound.stop (h : s.Bound) : (s.withTickers s.timers.stop).Bound := by
  refine h.withTickers ?_
  rw [Timers.stop]
  split
  · exact Array.size_modify
  · rfl

/-- Nothing refers to any other counters than those of the timers, and so it stays. -/
theorem Bound.act (h : s.Bound) (hact : s.act? action = some s') : s'.Bound := by
  cases action with
  | start =>
    cases hact
    exact h.start
  | stop =>
    cases hact
    exact h.stop
  | tick | set counter value =>
    cases hact
    exact h.modifyAt _ _
  | callBack number =>
    obtain ⟨_, hfired⟩ := Option.ite_none_right_eq_some.mp hact
    obtain ⟨place, _, rfl⟩ := Option.map_eq_some_iff.mp hfired
    exact h.modifyAt _ _
  | die number =>
    cases hact
    exact h.kill number
  | takeHandle =>
    cases hact
    refine ⟨h.size_targets, h.targets, ?_⟩
    intro place hplace
    rcases List.mem_cons.mp hplace with hnew | hold
    · exact hnew
    · exact h.handles place hold

theorem timers_modifyAt_own (s : SharedTimers) (f : Counters → Counters) :
    (s.modifyAt s.own f).timers =
      { s.timers with
        delay := (f (s.memory s.own)).delay
        sound := (f (s.memory s.own)).sound } := by
  simp [timers, modifyAt]

/-- A ticker that is alive counts down where the timers read. -/
theorem Bound.target_of_alive (h : s.Bound) {number : Nat} (halive : s.timers.alive number = true) :
    s.targets[number]? = some s.own := by
  have hlt : number < s.targets.size := by
    rw [h.size_targets]
    cases hticker : s.tickers[number]? with
    | none => simp [Timers.alive, timers, hticker] at halive
    | some ticker => exact (Array.getElem?_eq_some_iff.mp hticker).1
  rw [Array.getElem?_eq_getElem hlt, h.targets _ (Array.getElem_mem hlt)]

/-- An action comes to the same with the places and without them. -/
theorem Bound.timers_act (h : s.Bound) (action : TimerAction) :
    (s.act? action).map timers = s.timers.act? action := by
  cases action with
  | start =>
    show some s.start.timers = some s.timers.start
    by_cases hrunning : s.timers.isRunning = true
    · rw [SharedTimers.start, if_pos hrunning, Timers.start, if_pos hrunning]
    · simp only [SharedTimers.start, Timers.start, if_neg hrunning]
      rfl
  | stop =>
    show some (s.withTickers s.timers.stop).timers = some s.timers.stop
    rw [Timers.stop]
    split <;> rfl
  | tick => exact congrArg some (timers_modifyAt_own s Counters.countDown)
  | set counter value =>
    cases counter <;> exact congrArg some (timers_modifyAt_own s _)
  | callBack number =>
    show (if s.timers.alive number then _ else none).map timers = s.timers.fire number
    rw [Timers.fire]
    split
    · next halive =>
      rw [h.target_of_alive halive]
      exact congrArg some (timers_modifyAt_own s Counters.countDown)
    · rfl
  | die number => rfl
  | takeHandle => rfl

/-- A sequence of actions comes to the same with the places and without them. -/
theorem replay?_timers (h : s.Bound) (actions : List TimerAction) :
    (replay? act? s actions).map timers = replay? Timers.act? s.timers actions := by
  induction actions generalizing s with
  | nil => rfl
  | cons first rest ih =>
    have hfirst := h.timers_act first
    show ((s.act? first).bind fun u => replay? act? u rest).map timers =
      (s.timers.act? first).bind fun u => replay? Timers.act? u rest
    rw [← hfirst]
    cases hact : s.act? first with
    | none => rfl
    | some u => exact ih (h.act hact)

theorem handles_of_act (h : s.act? action = some s') :
    s'.handles.length = s.handles.length + if action = .takeHandle then 1 else 0 := by
  cases action with
  | start =>
    cases h
    rw [SharedTimers.start]
    split <;> rfl
  | callBack number =>
    obtain ⟨_, hfired⟩ := Option.ite_none_right_eq_some.mp h
    obtain ⟨place, _, rfl⟩ := Option.map_eq_some_iff.mp hfired
    rfl
  | _ =>
    cases h
    rfl

/-- No handle is ever given back. -/
theorem handles_of_replay (h : replay? act? s actions = some s') :
    s'.handles.length = s.handles.length + actions.count .takeHandle := by
  induction actions generalizing s with
  | nil =>
    cases h
    rfl
  | cons first rest ih =>
    obtain ⟨u, hfirst, hrest⟩ := replay?_cons_eq_some_iff.mp h
    rw [ih hrest, handles_of_act hfirst, List.count_cons]
    simp only [beq_iff_eq]
    omega

/-- New timers, without a ticker or with one, and their counters at some place of memory. -/
inductive Origin : Timers → SharedTimers → Prop
  | stopped (place : Nat) : Origin {} (stopped place)
  | running (place : Nat) : Origin Timers.running (stopped place).start

variable {origin t : Timers} {shared : SharedTimers}

theorem Origin.timers_eq (h : Origin origin shared) : shared.timers = origin := by
  cases h <;> rfl

theorem Origin.bound (h : Origin origin shared) : shared.Bound := by
  cases h with
  | stopped place => exact bound_stopped place
  | running place => exact (bound_stopped place).start

theorem Origin.handles_eq (h : Origin origin shared) : shared.handles = [] := by
  cases h <;> rfl

theorem Origin.owned (h : Origin origin shared) : origin.Owned := by
  cases h with
  | stopped place => exact Timers.owned_fresh
  | running place => exact Timers.owned_running

theorem Origin.read_eq (h : Origin origin shared) (c : Counter) : origin.read c = 0 := by
  cases h <;> cases c <;> rfl

end SharedTimers

/-! ### Any sequence of actions -/

namespace Timers

open SharedTimers (Origin)

/-- What any sequence of actions has come to. -/
structure CountsDown (shared : SharedTimers) (actions : List TimerAction) (t : Timers) : Prop where
  lone : ∀ i j, t.alive i = true → t.alive j = true → i = j
  running_iff : t.isRunning = true ↔ ∃ number, t.alive number = true
  /-- Where a ticker is alive, to start the timers changes nothing. -/
  start_running : (∃ number, t.alive number = true) → t.start = t
  /-- Where none is, to start them makes a new one, which is alive. -/
  start_idle : (∀ number, t.alive number = false) →
    t.start.tickers = t.tickers.push { interval } ∧ t.start.alive t.tickers.size = true
  never_set : ∀ c, (∀ value, .set c value ∉ actions) → t.read c = 0
  /-- A counter shows its last setting less the number of counts since then. -/
  last_set : ∀ c value earlier later, actions = earlier ++ .set c value :: later →
    (∀ value', .set c value' ∉ later) →
      (t.read c).toNat = value.toNat - later.countP TimerAction.counts
  /-- The counters are in one place, and each handle taken so far reads them there. -/
  handles : ∃ s, replay? SharedTimers.act? shared actions = some s ∧ s.timers = t ∧
    s.handles.length = actions.count .takeHandle ∧
      ∀ place ∈ s.handles, ∀ c, (s.memory place).read c = t.read c

variable {origin t : Timers} {shared : SharedTimers} {actions : List TimerAction}

theorem alive_start_of_idle (h : ∀ number, t.alive number = false) :
    t.start.tickers = t.tickers.push { interval } ∧ t.start.alive t.tickers.size = true := by
  have hidle : ¬ t.isRunning = true := by
    intro hrunning
    obtain ⟨number, _, halive⟩ := (Option.any_eq_true _ _).mp hrunning
    rw [h number] at halive
    cases halive
  rw [Timers.start, if_neg hidle]
  refine ⟨rfl, ?_⟩
  simp [alive]

/-- Every handle reads what the timers show. -/
theorem read_handles (horigin : Origin origin shared)
    (hrun : replay? act? origin actions = some t) :
    ∃ s, replay? SharedTimers.act? shared actions = some s ∧ s.timers = t ∧
      s.handles.length = actions.count .takeHandle ∧
        ∀ place ∈ s.handles, ∀ c, (s.memory place).read c = t.read c := by
  have hreplay := SharedTimers.replay?_timers horigin.bound actions
  rw [horigin.timers_eq, hrun] at hreplay
  obtain ⟨s, hs, rfl⟩ := Option.map_eq_some_iff.mp hreplay
  have hbound : s.Bound := replay?_keeps (fun u a v _ hact hu => hu.act hact) hs horigin.bound
  refine ⟨s, hs, rfl, ?_, ?_⟩
  · rw [SharedTimers.handles_of_replay hs, horigin.handles_eq, List.length_nil, Nat.zero_add]
  · intro place hplace c
    rw [hbound.handles place hplace]
    cases c <;> rfl

/-- Whatever becomes of the timers and their tickers, no more than one ticker is alive, and the counters
show their last settings less the counts since then. -/
theorem counts_down (horigin : Origin origin shared)
    (hrun : replay? act? origin actions = some t) : CountsDown shared actions t := by
  have howned : t.Owned := replay?_keeps (fun u a v _ hact hu => hu.act hact) hrun horigin.owned
  constructor
  · intro i j hi hj
    exact howned.eq_of_alive hi hj
  · exact howned.isRunning_iff
  · intro halive
    rw [Timers.start, if_pos (howned.isRunning_iff.mpr halive)]
  · exact alive_start_of_idle
  · intro c hnever
    have hread := read_of_replay hnever hrun
    rw [horigin.read_eq c] at hread
    apply UInt8.toNat_inj.mp
    rw [hread]
    exact Nat.zero_sub _
  · intro c value earlier later hactions hlater
    rw [hactions] at hrun
    obtain ⟨u, v, _, hset, hrest⟩ := replay?_at.mp hrun
    rw [read_of_replay hlater hrest, read_of_set hset]
  · exact read_handles horigin hrun

/-- The delay counter is set while the first ticker runs, and a handle is taken. The ticker ends by
itself, a second one is started and calls back, and the sound counter is set on the way. -/
def relay : List TimerAction :=
  [.set .delay 5, .callBack 0, .takeHandle, .die 0, .start, .set .sound 1, .callBack 1, .tick]

/-- Both tickers and the tick have counted the delay down, and the sound counter has stopped at zero. -/
theorem counts_down_relay : ∃ t, Origin running (SharedTimers.stopped 7).start ∧
    replay? act? running relay = some t ∧ CountsDown (SharedTimers.stopped 7).start relay t ∧
      t.delay = 2 ∧ t.sound = 0 ∧ t.alive 0 = false ∧ t.alive 1 = true := by
  have hrun : replay? act? running relay =
      some { delay := 2, sound := 0, held := some 1
             tickers := #[{ interval, alive := false }, { interval }] } := by
    decide +kernel
  exact ⟨_, .running 7, hrun, counts_down (.running 7) hrun, rfl, rfl, rfl, rfl⟩

end Timers

end Chip8
