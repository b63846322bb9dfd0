import Chip8.PeriodicTask
import Chip8.Proofs.Replay

/-!
# The owner of a periodic task and its threads

The owner of a task starts and stops it as often as it likes, and the threads take their steps in
between. `OwnedTask.act?` is what one of them does in one go:

* the owner starts a thread, also where an earlier one is still there; a stop has two parts, the
  request and the return, and the owner does nothing else between them;
* a thread begins a call, a call ends with an answer, or the thread leaves; a begun call can last as
  long as it likes.

Threads are numbered in the order of their starts. `OwnedTask.Consistent` says what the owner knows of
them: it holds the channel and the handle of the thread that was started last, or has given them up, and
no other thread is connected. Whatever the owner and the threads do keeps it so, and an action never
connects a thread again nor brings one back that has ended (`OwnedTask.later_of_act`).
-/

namespace Chip8

/-- What the owner of a task or one of the threads does in one go. -/
inductive TaskMove where
  | start (limit : Nat)
  | requestStop
  | returnStop
  /-- The thread with this number begins a call. -/
  | begins (number : Nat)
  /-- A call ends. The function answers whether it is to be called again. -/
  | ends (number : Nat) (again : Bool)
  | leaves (number : Nat)
  deriving DecidableEq, Repr

namespace TaskMove

def isStart : TaskMove → Bool
  | start _ => true
  | _ => false

/-- The threads that were started. -/
def starts (moves : List TaskMove) : Nat := moves.countP isStart

end TaskMove

namespace TaskThread

/-- A call ends with the given answer. -/
def answers? (again : Bool) (t : TaskThread) : Option TaskThread :=
  if again = decide (t.calls ≠ t.limit) then t.callEnds? else none

/-- A thread that was let go of stays so, and one that has ended stays so. -/
structure Later (t t' : TaskThread) : Prop where
  disconnected : t.connected = false → t'.connected = false
  ended : t.phase = .ended → t'.phase = .ended

variable {t t' : TaskThread}

theorem Later.refl (t : TaskThread) : Later t t := ⟨id, id⟩

theorem later_disconnect (t : TaskThread) : Later t t.disconnect := ⟨fun _ => rfl, id⟩

theorem later_dismiss (t : TaskThread) : Later t t.dismiss := ⟨fun _ => rfl, id⟩

/-- Only a connected thread that waits begins a call. -/
theorem of_timeOut? (h : t.timeOut? = some t') :
    t.phase = .waiting ∧ t.connected = true ∧ t'.phase = .calling ∧ t'.connected = true := by
  obtain ⟨⟨hphase, _, hconnected⟩, hsome⟩ := Option.ite_none_right_eq_some.mp h
  cases hsome
  exact ⟨hphase, hconnected, rfl, hconnected⟩

theorem of_callEnds? (h : t.callEnds? = some t') :
    t.phase = .calling ∧ t'.connected = t.connected ∧
      t'.phase = if t.calls = t.limit then .ended else .waiting := by
  obtain ⟨hphase, hsome⟩ := Option.ite_none_right_eq_some.mp h
  cases hsome
  exact ⟨hphase, rfl, rfl⟩

theorem of_leave? (h : t.leave? = some t') :
    t.phase = .waiting ∧ t'.phase = .ended ∧ t'.connected = t.connected := by
  obtain ⟨⟨hphase, _⟩, hsome⟩ := Option.ite_none_right_eq_some.mp h
  cases hsome
  exact ⟨hphase, rfl, rfl⟩

theorem callEnds?_of_answers? {again : Bool} (h : t.answers? again = some t') :
    t.callEnds? = some t' ∧ again = decide (t.calls ≠ t.limit) := by
  obtain ⟨hagain, hends⟩ := Option.ite_none_right_eq_some.mp h
  exact ⟨hends, hagain⟩

theorem later_timeOut? (h : t.timeOut? = some t') : Later t t' := by
  obtain ⟨hphase, hconnected, _, _⟩ := of_timeOut? h
  exact ⟨by simp [hconnected], by simp [hphase]⟩

theorem later_answers? {again : Bool} (h : t.answers? again = some t') : Later t t' := by
  obtain ⟨hphase, hconnected, _⟩ := of_callEnds? (callEnds?_of_answers? h).1
  exact ⟨by simp [hconnected], by simp [hphase]⟩

theorem later_leave? (h : t.leave? = some t') : Later t t' := by
  obtain ⟨hphase, _, hconnected⟩ := of_leave? h
  exact ⟨by simp [hconnected], by simp [hphase]⟩

end TaskThread

namespace PeriodicTask

variable {p p' : PeriodicTask} {number : Nat}

/-! ### The steps of the owner -/

theorem size_start (p : PeriodicTask) (limit : Nat) :
    (p.start limit).threads.size = p.threads.size + 1 := by
  rw [start]
  cases p.channel <;> simp

/-- A start leaves the earlier threads, but lets go of the one at the channel. -/
theorem getElem?_start (p : PeriodicTask) (limit : Nat) :
    (p.start limit).threads[number]? =
      if number = p.threads.size then some { limit }
      else if p.channel = some number then p.threads[number]?.map TaskThread.disconnect
      else p.threads[number]? := by
  rw [start]
  cases p.channel with
  | none => simp [Array.getElem?_push]
  | some c => simp [Array.getElem?_push, Array.getElem?_modify]

theorem size_requestStop (p : PeriodicTask) : p.requestStop.threads.size = p.threads.size := by
  rw [requestStop]
  cases p.channel <;> simp

theorem channel_requestStop (p : PeriodicTask) : p.requestStop.channel = none := by
  rw [requestStop]
  cases hchannel : p.channel with
  | none => exact hchannel
  | some c => rfl

theorem handle_requestStop (p : PeriodicTask) : p.requestStop.handle = p.handle := by
  rw [requestStop]
  cases p.channel <;> rfl

theorem getElem?_requestStop (p : PeriodicTask) :
    p.requestStop.threads[number]? =
      if p.channel = some number then p.threads[number]?.map TaskThread.dismiss
      else p.threads[number]? := by
  rw [requestStop]
  cases p.channel with
  | none => simp
  | some c => simp [Array.getElem?_modify]

/-- A stop returns once the thread of the handle has ended. -/
theorem of_joined? (h : p.joined? = some p') :
    p' = { p with handle := none } ∧
      ∀ number t, p.handle = some number → p.threads[number]? = some t → t.phase = .ended := by
  rw [joined?] at h
  cases hhandle : p.handle with
  | none =>
    rw [hhandle] at h
    cases h
    refine ⟨?_, by simp⟩
    rw [← hhandle]
  | some handled =>
    rw [hhandle] at h
    obtain ⟨hended, hsome⟩ := Option.ite_none_right_eq_some.mp h
    cases hsome
    refine ⟨rfl, ?_⟩
    intro number t hnumber ht
    cases hnumber
    simpa [ht] using hended

/-- A stop can return where all threads have ended. -/
theorem joined?_of_ended
    (h : ∀ (number : Nat) (t : TaskThread), p.threads[number]? = some t → t.phase = .ended) :
    p.joined? = some { p with handle := none } := by
  rw [joined?]
  cases hhandle : p.handle with
  | none =>
    show some p = _
    rw [← hhandle]
  | some number =>
    refine if_pos ?_
    cases ht : p.threads[number]? with
    | none => rfl
    | some t => simpa using h number t ht

end PeriodicTask

/-- A task, and whether its owner waits for a stop to return. -/
structure OwnedTask where
  task : PeriodicTask := {}
  stopping : Bool := false
  deriving DecidableEq, Repr

namespace OwnedTask

open TaskThread (Later)

/-- The thread with this number. -/
def thread? (s : OwnedTask) (number : Nat) : Option TaskThread := s.task.threads[number]?

/-- The task with another thread of this number. -/
def withThread (s : OwnedTask) (number : Nat) (t : TaskThread) : OwnedTask :=
  { s with task := { s.task with threads := s.task.threads.setIfInBounds number t } }

/-- Lets the thread with this number take a step, if it can. -/
def advance? (s : OwnedTask) (number : Nat) (step? : TaskThread → Option TaskThread) :
    Option OwnedTask :=
  ((s.thread? number).bind step?).map (s.withThread number)

/-- The task after a move, if it is possible. -/
def act? (s : OwnedTask) : TaskMove → Option OwnedTask
  | .start limit => if s.stopping then none else some { s with task := s.task.start limit }
  | .requestStop => if s.stopping then none else some { task := s.task.requestStop, stopping := true }
  | .returnStop =>
    if s.stopping then s.task.joined?.map fun task => { task, stopping := false } else none
  | .begins number => s.advance? number TaskThread.timeOut?
  | .ends number again => s.advance? number (TaskThread.answers? again)
  | .leaves number => s.advance? number TaskThread.leave?

variable {s s' : OwnedTask} {move : TaskMove} {moves : List TaskMove} {number : Nat}
  {t t' : TaskThread}

/-! ### What a move does to the threads -/

theorem advance?_eq_some_iff {step? : TaskThread → Option TaskThread} :
    s.advance? number step? = some s' ↔
      ∃ t t', s.thread? number = some t ∧ step? t = some t' ∧ s' = s.withThread number t' := by
  rw [advance?, Option.map_eq_some_iff]
  constructor
  · intro ⟨t', hbind, hs'⟩
    obtain ⟨t, ht, hstep⟩ := Option.bind_eq_some_iff.mp hbind
    exact ⟨t, t', ht, hstep, hs'.symm⟩
  · intro ⟨t, t', ht, hstep, hs'⟩
    exact ⟨t', Option.bind_eq_some_iff.mpr ⟨t, ht, hstep⟩, hs'.symm⟩

theorem thread?_withThread (ht : s.thread? number = some t) (t' : TaskThread) (other : Nat) :
    (s.withThread number t').thread? other =
      if other = number then some t' else s.thread? other := by
  show (s.task.threads.setIfInBounds number t')[other]? = _
  have hlt : number < s.task.threads.size := (Array.getElem?_eq_some_iff.mp ht).1
  by_cases hsame : other = number
  · rw [if_pos hsame, hsame, Array.getElem?_setIfInBounds_self_of_lt hlt]
  · rw [if_neg hsame, Array.getElem?_setIfInBounds_ne (Ne.symm hsame)]
    rfl

theorem of_start {limit : Nat} (h : s.act? (.start limit) = some s') :
    s.stopping = false ∧ s' = { s with task := s.task.start limit } := by
  obtain ⟨hstopping, hsome⟩ := Option.ite_none_left_eq_some.mp h
  cases hsome
  exact ⟨Bool.eq_false_iff.mpr hstopping, rfl⟩

theorem of_requestStop (h : s.act? .requestStop = some s') :
    s.stopping = false ∧ s' = { task := s.task.requestStop, stopping := true } := by
  obtain ⟨hstopping, hsome⟩ := Option.ite_none_left_eq_some.mp h
  cases hsome
  exact ⟨Bool.eq_false_iff.mpr hstopping, rfl⟩

theorem of_returnStop (h : s.act? .returnStop = some s') :
    s.stopping = true ∧ s' = { task := { s.task with handle := none }, stopping := false } ∧
      ∀ number t, s.task.handle = some number → s.thread? number = some t → t.phase = .ended := by
  obtain ⟨hstopping, hmap⟩ := Option.ite_none_right_eq_some.mp h
  obtain ⟨p, hjoined, rfl⟩ := Option.map_eq_some_iff.mp hmap
  obtain ⟨rfl, hended⟩ := PeriodicTask.of_joined? hjoined
  exact ⟨hstopping, rfl, hended⟩

theorem size_of_act (h : s.act? move = some s') :
    s'.task.threads.size = s.task.threads.size + if move.isStart = true then 1 else 0 := by
  cases move with
  | start limit =>
    obtain ⟨_, rfl⟩ := of_start h
    exact s.task.size_start limit
  | requestStop =>
    obtain ⟨_, rfl⟩ := of_requestStop h
    exact s.task.size_requestStop
  | returnStop =>
    obtain ⟨_, rfl, _⟩ := of_returnStop h
    rfl
  | begins number | ends number again | leaves number =>
    obtain ⟨t, t', _, _, rfl⟩ := advance?_eq_some_iff.mp h
    exact Array.size_setIfInBounds

theorem lt_size_of_thread? (h : s.thread? number = some t) : number < s.task.threads.size :=
  (Array.getElem?_eq_some_iff.mp h).1

theorem exists_thread? (h : number < s.task.threads.size) : ∃ t, s.thread? number = some t :=
  ⟨_, Array.getElem?_eq_getElem h⟩

theorem later_of_advance? {step? : TaskThread → Option TaskThread}
    (hstep : ∀ t t', step? t = some t' → Later t t') {changed : Nat}
    (h : s.advance? changed step? = some s') (ht : s.thread? number = some t) :
    ∃ t', s'.thread? number = some t' ∧ Later t t' := by
  obtain ⟨u, u', hu, hu', rfl⟩ := advance?_eq_some_iff.mp h
  rw [thread?_withThread hu]
  by_cases hsame : number = changed
  · rw [hsame] at ht
    cases ht.symm.trans hu
    exact ⟨u', if_pos hsame, hstep _ _ hu'⟩
  · exact ⟨t, (if_neg hsame).trans ht, Later.refl t⟩

/-- No move takes a thread away, connects it again or brings it back. -/
theorem later_of_act (h : s.act? move = some s') (ht : s.thread? number = some t) :
    ∃ t', s'.thread? number = some t' ∧ Later t t' := by
  have hold : s.task.threads[number]? = some t := ht
  cases move with
  | start limit =>
    obtain ⟨_, rfl⟩ := of_start h
    have hne : number ≠ s.task.threads.size := Nat.ne_of_lt (lt_size_of_thread? ht)
    show ∃ t', (s.task.start limit).threads[number]? = some t' ∧ Later t t'
    rw [PeriodicTask.getElem?_start, if_neg hne, hold]
    split
    · exact ⟨t.disconnect, rfl, TaskThread.later_disconnect t⟩
    · exact ⟨t, rfl, Later.refl t⟩
  | requestStop =>
    obtain ⟨_, rfl⟩ := of_requestStop h
    show ∃ t', s.task.requestStop.threads[number]? = some t' ∧ Later t t'
    rw [PeriodicTask.getElem?_requestStop, hold]
    split
    · exact ⟨t.dismiss, rfl, TaskThread.later_dismiss t⟩
    · exact ⟨t, rfl, Later.refl t⟩
  | returnStop =>
    obtain ⟨_, rfl, _⟩ := of_returnStop h
    exact ⟨t, ht, Later.refl t⟩
  | begins changed => exact later_of_advance? (fun _ _ => TaskThread.later_timeOut?) h ht
  | ends changed again => exact later_of_advance? (fun _ _ => TaskThread.later_answers?) h ht
  | leaves changed => exact later_of_advance? (fun _ _ => TaskThread.later_leave?) h ht

/-- A thread after a move is the one that was started, or it was there before. -/
theorem thread?_of_act (h : s.act? move = some s') (ht : s'.thread? number = some t') :
    move.isStart = true ∧ number = s.task.threads.size ∨
      ∃ t, s.thread? number = some t ∧ Later t t' := by
  have hsize := size_of_act h
  have hlt := lt_size_of_thread? ht
  by_cases hold : number < s.task.threads.size
  · obtain ⟨t, hbefore⟩ := exists_thread? hold
    obtain ⟨u, hafter, hlater⟩ := later_of_act h hbefore
    cases hafter.symm.trans ht
    exact .inr ⟨t, hbefore, hlater⟩
  · by_cases hstart : move.isStart = true
    · rw [if_pos hstart] at hsize
      exact .inl ⟨hstart, by omega⟩
    · rw [if_neg hstart] at hsize
      omega

/-! ### What the owner knows -/

/-- The owner holds the channel and the handle of the latest thread, if any. It has given up the handle
only of a thread that has ended, and no thread is connected but the one at the channel. -/
structure Consistent (s : OwnedTask) : Prop where
  channel : ∀ number, s.task.channel = some number → number + 1 = s.task.threads.size
  handle : ∀ number, s.task.handle = some number → number + 1 = s.task.threads.size
  connected : ∀ number t, s.thread? number = some t → t.connected = true →
    s.task.channel = some number
  latest : s.task.handle = none → ∀ number t, s.thread? number = some t →
    number + 1 = s.task.threads.size → t.phase = .ended
  stopping : s.stopping = true → s.task.channel = none

theorem consistent_fresh : ({} : OwnedTask).Consistent where
  channel := by simp
  handle := by simp
  connected := by simp [thread?]
  latest := by simp [thread?]
  stopping := by simp

/-- Once the owner has let go of the channel, no thread is connected. -/
theorem Consistent.disconnected (h : s.Consistent) (hchannel : s.task.channel = none)
    (ht : s.thread? number = some t) : t.connected = false := by
  rw [Bool.eq_false_iff]
  intro hconnected
  have hsome := h.connected number t ht hconnected
  rw [hchannel] at hsome
  cases hsome

/-- Moves that change no more than the threads keep what the owner knows. -/
theorem Consistent.of_threads (h : s.Consistent) (hact : s.act? move = some s')
    (hstart : move.isStart = false) (hchannel : s'.task.channel = s.task.channel)
    (hhandle : s'.task.handle = s.task.handle) (hstopping : s'.stopping = s.stopping) :
    s'.Consistent := by
  have hsize : s'.task.threads.size = s.task.threads.size := by
    rw [size_of_act hact, hstart]
    rfl
  have hback : ∀ number t', s'.thread? number = some t' →
      ∃ t, s.thread? number = some t ∧ Later t t' := by
    intro number t' ht'
    rcases thread?_of_act hact ht' with ⟨hnew, _⟩ | hold
    · rw [hstart] at hnew
      cases hnew
    · exact hold
  constructor
  · rw [hchannel, hsize]
    exact h.channel
  · rw [hhandle, hsize]
    exact h.handle
  · intro number t' ht' hconnected
    obtain ⟨t, ht, hlater⟩ := hback number t' ht'
    rw [hchannel]
    cases hbefore : t.connected with
    | true => exact h.connected number t ht hbefore
    | false =>
      rw [hlater.disconnected hbefore] at hconnected
      cases hconnected
  · intro hnone number t' ht' hlatest
    obtain ⟨t, ht, hlater⟩ := hback number t' ht'
    rw [hhandle] at hnone
    rw [hsize] at hlatest
    exact hlater.ended (h.latest hnone number t ht hlatest)
  · rw [hstopping, hchannel]
    exact h.stopping

theorem Consistent.start (h : s.Consistent) {limit : Nat}
    (hact : s.act? (.start limit) = some s') : s'.Consistent := by
  obtain ⟨hstopping, rfl⟩ := of_start hact
  have hsize := s.task.size_start limit
  constructor
  · intro number hnumber
    cases hnumber
    exact hsize.symm
  · intro number hnumber
    cases hnumber
    exact hsize.symm
  · intro number t ht hconnected
    have ht : (s.task.start limit).threads[number]? = some t := ht
    show some s.task.threads.size = some number
    rw [PeriodicTask.getElem?_start] at ht
    by_cases hnew : number = s.task.threads.size
    · rw [hnew]
    · rw [if_neg hnew] at ht
      by_cases hreplaced : s.task.channel = some number
      · rw [if_pos hreplaced] at ht
        obtain ⟨u, _, rfl⟩ := Option.map_eq_some_iff.mp ht
        cases hconnected
      · rw [if_neg hreplaced] at ht
        exact absurd (h.connected number t ht hconnected) hreplaced
  · intro hnone
    cases hnone
  · intro htrue
    have htrue : s.stopping = true := htrue
    rw [hstopping] at htrue
    cases htrue

theorem Consistent.requestStop (h : s.Consistent) (hact : s.act? .requestStop = some s') :
    s'.Consistent := by
  obtain ⟨_, rfl⟩ := of_requestStop hact
  have hsize := s.task.size_requestStop
  have hchannel := s.task.channel_requestStop
  have hhandle := s.task.handle_requestStop
  have hthread : ∀ number t, s.task.requestStop.threads[number]? = some t →
      ∃ u, s.thread? number = some u ∧ Later u t ∧ t.connected = false := by
    intro number t ht
    rw [PeriodicTask.getElem?_requestStop] at ht
    by_cases hdismissed : s.task.channel = some number
    · rw [if_pos hdismissed] at ht
      obtain ⟨u, hu, rfl⟩ := Option.map_eq_some_iff.mp ht
      exact ⟨u, hu, TaskThread.later_dismiss u, rfl⟩
    · rw [if_neg hdismissed] at ht
      refine ⟨t, ht, Later.refl t, Bool.eq_false_iff.mpr ?_⟩
      intro hconnected
      exact hdismissed (h.connected number t ht hconnected)
  constructor
  · intro number hnumber
    have hnumber : s.task.requestStop.channel = some number := hnumber
    rw [hchannel] at hnumber
    cases hnumber
  · intro number hnumber
    exact (h.handle number (hhandle ▸ hnumber)).trans hsize.symm
  · intro number t ht hconnected
    obtain ⟨_, _, _, hdisconnected⟩ := hthread number t ht
    rw [hdisconnected] at hconnected
    cases hconnected
  · intro hnone number t ht hlatest
    obtain ⟨u, hu, hlater, _⟩ := hthread number t ht
    exact hlater.ended (h.latest (hhandle ▸ hnone) number u hu (hlatest.trans hsize))
  · intro _
    exact hchannel

/-- A stop returns when the latest thread has ended, so the owner needs its handle no more. -/
theorem Consistent.returnStop (h : s.Consistent) (hact : s.act? .returnStop = some s') :
    s'.Consistent := by
  obtain ⟨_, rfl, hended⟩ := of_returnStop hact
  constructor
  · exact h.channel
  · intro number hnumber
    cases hnumber
  · exact h.connected
  · intro _ number t ht hlatest
    have ht : s.thread? number = some t := ht
    have hlatest : number + 1 = s.task.threads.size := hlatest
    cases hhandle : s.task.handle with
    | none => exact h.latest hhandle number t ht hlatest
    | some handled =>
      have hhandled := h.handle handled hhandle
      obtain rfl : handled = number := by omega
      exact hended handled t hhandle ht
  · intro hfalse
    cases hfalse

/-- Every move keeps what the owner knows. -/
theorem Consistent.act (h : s.Consistent) (hact : s.act? move = some s') : s'.Consistent := by
  cases move with
  | start limit => exact h.start hact
  | requestStop => exact h.requestStop hact
  | returnStop => exact h.returnStop hact
  | begins number | ends number again | leaves number =>
    obtain ⟨t, t', _, _, rfl⟩ := advance?_eq_some_iff.mp hact
    exact h.of_threads hact rfl rfl rfl rfl

theorem Consistent.replay (h : s.Consistent) (hreplay : replay? act? s moves = some s') :
    s'.Consistent :=
  replay?_keeps (P := Consistent) (fun _ _ _ _ hact hu => hu.act hact) hreplay h

theorem size_of_replay (h : replay? act? s moves = some s') :
    s'.task.threads.size = s.task.threads.size + TaskMove.starts moves := by
  induction moves generalizing s with
  | nil =>
    rw [replay?_nil, Option.some.injEq] at h
    rw [h]
    rfl
  | cons move moves ih =>
    obtain ⟨u, hact, hreplay⟩ := replay?_cons_eq_some_iff.mp h
    rw [ih hreplay, size_of_act hact, TaskMove.starts, TaskMove.starts, List.countP_cons]
    omega

end OwnedTask

end Chip8
