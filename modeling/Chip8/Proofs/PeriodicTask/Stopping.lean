import Chip8.Proofs.PeriodicTask.Interleaving

/-!
# What a stop stops

After a stop has returned, and until the next start, no thread begins a call of the function any more.
The thread that was started last has ended by then. A thread that was replaced while it was in a call
is not waited for, since the owner has given up its handle: it can still be in that call, and as long as
it is, the task counts as alive. So a stop leaves nothing behind if each start found no thread, and
there are histories of starts after which it does leave something behind.

`OwnedTask.StopLaw` says all this of a history of moves, in whatever order the owner and the threads
take them.
-/

namespace Chip8

namespace OwnedTask

open TaskThread (Later)

variable {s s' u : OwnedTask} {moves before after : List TaskMove} {number : Nat} {t : TaskThread}

/-- The owner is done with the task: it holds neither a channel nor a handle. -/
structure Stopped (s : OwnedTask) : Prop where
  consistent : s.Consistent
  channel : s.task.channel = none
  handle : s.task.handle = none

/-- A thread that cannot begin a call any more. -/
def Barred (number : Nat) (s : OwnedTask) : Prop :=
  ∃ t, s.thread? number = some t ∧ (t.connected = false ∨ t.phase = .ended)

/-- No thread but the latest one is still there. -/
def Solitary (s : OwnedTask) : Prop :=
  ∀ number t, s.thread? number = some t → number + 1 < s.task.threads.size → t.phase = .ended

/-- Each start comes when no thread is there. -/
def StartsAlone (s : OwnedTask) (moves : List TaskMove) : Prop :=
  ∀ earlier limit later u, moves = earlier ++ .start limit :: later →
    replay? act? s earlier = some u → u.task.isAlive = false

/-- Nothing is left of a task that was stopped before the moves `after`: none of them begins a call, and
in the end no thread is in a call or there at all. -/
structure Silenced (after : List TaskMove) (s : OwnedTask) : Prop where
  uncalled : ∀ number, .begins number ∉ after
  idle : ∀ number t, s.thread? number = some t → t.phase ≠ .calling
  dead : s.task.isAlive = false

/-- What holds after a stop that came after the moves `before`, if no start is among the moves `after`
it. -/
structure AfterStop (before after : List TaskMove) (s : OwnedTask) : Prop where
  uncalled : ∀ number, .begins number ∉ after
  /-- What is still there was replaced by a later start, and cannot begin a call. -/
  remaining : ∀ number t, s.thread? number = some t → t.phase ≠ .ended →
    number + 1 < TaskMove.starts before ∧ t.connected = false ∧ t.timeOut? = none
  alive : s.task.isAlive = true ↔ ∃ number t, s.thread? number = some t ∧ t.phase ≠ .ended
  silenced : StartsAlone {} before → Silenced after s

/-- What starts and stops do to the calls of a task, over a whole history of moves. -/
structure StopLaw (moves : List TaskMove) (s : OwnedTask) : Prop where
  /-- A function that has asked to stop is not called again. -/
  refused : ∀ before after number, moves = before ++ .ends number false :: after →
    .begins number ∉ after
  /-- A thread that was replaced does not begin a call again. -/
  replaced : ∀ before after number limit, moves = before ++ .start limit :: after →
    number < TaskMove.starts before → .begins number ∉ after
  stopped : ∀ before after, moves = before ++ .returnStop :: after →
    (∀ limit, .start limit ∉ after) → AfterStop before after s

/-! ### Threads that begin no call any more -/

theorem Barred.act {move : TaskMove} (hact : s.act? move = some s') (h : s.Barred number) :
    s'.Barred number := by
  obtain ⟨t, ht, hbarred⟩ := h
  obtain ⟨t', ht', hlater⟩ := later_of_act hact ht
  cases hbarred with
  | inl hdisconnected => exact ⟨t', ht', .inl (hlater.disconnected hdisconnected)⟩
  | inr hended => exact ⟨t', ht', .inr (hlater.ended hended)⟩

theorem not_barred_of_begins (h : s.act? (.begins number) = some s') : ¬ s.Barred number := by
  intro ⟨t, ht, hbarred⟩
  obtain ⟨u, _, hu, htimeOut, _⟩ := advance?_eq_some_iff.mp h
  cases ht.symm.trans hu
  obtain ⟨hwaiting, hconnected, _, _⟩ := TaskThread.of_timeOut? htimeOut
  cases hbarred with
  | inl hdisconnected => simp [hconnected] at hdisconnected
  | inr hended => simp [hwaiting] at hended

/-- A barred thread begins no call, whatever else happens. -/
theorem Barred.uncalled (h : s.Barred number) (hreplay : replay? act? s moves = some s') :
    .begins number ∉ moves := by
  intro hmem
  obtain ⟨before, after, rfl⟩ := List.append_of_mem hmem
  obtain ⟨u, v, hbefore, hbegins, _⟩ := replay?_at.mp hreplay
  have hu : u.Barred number :=
    replay?_keeps (P := Barred number) (fun _ _ _ _ hact hw => hw.act hact) hbefore h
  exact not_barred_of_begins hbegins hu

/-- The thread of a function that has asked to stop ends with that call. -/
theorem barred_of_refusal (h : s.act? (.ends number false) = some s') : s'.Barred number := by
  obtain ⟨t, t', ht, hanswers, rfl⟩ := advance?_eq_some_iff.mp h
  obtain ⟨hends, hagain⟩ := TaskThread.callEnds?_of_answers? hanswers
  obtain ⟨_, _, hphase⟩ := TaskThread.of_callEnds? hends
  have hlimit : t.calls = t.limit := by simpa using hagain
  rw [if_pos hlimit] at hphase
  exact ⟨t', (thread?_withThread ht t' number).trans (if_pos rfl), .inr hphase⟩

/-- Of the threads only the one at the channel can begin calls. -/
theorem Consistent.barred (h : s.Consistent) (hlt : number < s.task.threads.size)
    (hchannel : s.task.channel ≠ some number) : s.Barred number := by
  obtain ⟨t, ht⟩ := exists_thread? hlt
  refine ⟨t, ht, .inl (Bool.eq_false_iff.mpr ?_)⟩
  intro hconnected
  exact hchannel (h.connected number t ht hconnected)

/-- A start bars the earlier threads. -/
theorem Consistent.barred_of_start (h : s.Consistent) {limit : Nat}
    (hact : s.act? (.start limit) = some s') (hlt : number < s.task.threads.size) :
    s'.Barred number := by
  have hsize : s'.task.threads.size = s.task.threads.size + 1 := size_of_act hact
  have hlt' : number < s'.task.threads.size := by omega
  refine (h.act hact).barred hlt' ?_
  intro hchannel
  have hlatest := (h.act hact).channel number hchannel
  omega

/-! ### A task that was stopped -/

theorem Consistent.stopped (h : s.Consistent) (hact : s.act? .returnStop = some s') :
    s'.Stopped := by
  have hconsistent := h.act hact
  obtain ⟨hstopping, rfl, _⟩ := of_returnStop hact
  exact ⟨hconsistent, h.stopping hstopping, rfl⟩

/-- A stopped task stays so until a start. -/
theorem Stopped.act {move : TaskMove} (h : s.Stopped) (hact : s.act? move = some s')
    (hstart : move.isStart = false) : s'.Stopped := by
  have hconsistent := h.consistent.act hact
  cases move with
  | start limit => cases hstart
  | requestStop =>
    obtain ⟨_, rfl⟩ := of_requestStop hact
    exact ⟨hconsistent, s.task.channel_requestStop, s.task.handle_requestStop.trans h.handle⟩
  | returnStop => exact h.consistent.stopped hact
  | begins number | ends number again | leaves number =>
    obtain ⟨t, t', _, _, rfl⟩ := advance?_eq_some_iff.mp hact
    exact ⟨hconsistent, h.channel, h.handle⟩

theorem isStart_eq_false (hstarts : ∀ limit, TaskMove.start limit ∉ moves) {move : TaskMove}
    (hmem : move ∈ moves) : move.isStart = false := by
  cases move with
  | start limit => exact absurd hmem (hstarts limit)
  | _ => rfl

theorem Stopped.replay (h : s.Stopped) (hreplay : replay? act? s moves = some s')
    (hstarts : ∀ limit, .start limit ∉ moves) : s'.Stopped := by
  refine replay?_keeps (P := Stopped) ?_ hreplay h
  intro u move v hmem hact hu
  exact hu.act hact (isStart_eq_false hstarts hmem)

theorem Stopped.uncalled (h : s.Stopped) (hreplay : replay? act? s moves = some s')
    (hstarts : ∀ limit, .start limit ∉ moves) : .begins number ∉ moves := by
  intro hmem
  obtain ⟨before, after, rfl⟩ := List.append_of_mem hmem
  obtain ⟨u, v, hbefore, hbegins, _⟩ := replay?_at.mp hreplay
  have hu : u.Stopped := h.replay hbefore fun limit hlimit =>
    hstarts limit (List.mem_append_left _ hlimit)
  obtain ⟨t, _, ht, _, _⟩ := advance?_eq_some_iff.mp hbegins
  refine not_barred_of_begins hbegins (hu.consistent.barred (lt_size_of_thread? ht) ?_)
  rw [hu.channel]
  intro hnone
  cases hnone

/-- Whatever is still there was replaced, and the owner has let go of it. -/
theorem Stopped.remaining (h : s.Stopped) (ht : s.thread? number = some t)
    (hphase : t.phase ≠ .ended) :
    number + 1 < s.task.threads.size ∧ t.connected = false ∧ t.timeOut? = none := by
  have hlt := lt_size_of_thread? ht
  have hlatest : number + 1 ≠ s.task.threads.size := by
    intro hlatest
    exact hphase (h.consistent.latest h.handle number t ht hlatest)
  have hdisconnected : t.connected = false := h.consistent.disconnected h.channel ht
  exact ⟨by omega, hdisconnected, by simp [TaskThread.timeOut?, hdisconnected]⟩

theorem isAlive_iff :
    s.task.isAlive = true ↔ ∃ number t, s.thread? number = some t ∧ t.phase ≠ .ended := by
  rw [PeriodicTask.isAlive, Array.any_eq_true]
  constructor
  · intro ⟨number, hlt, hphase⟩
    exact ⟨number, s.task.threads[number], Array.getElem?_eq_getElem hlt, by simpa using hphase⟩
  · intro ⟨number, t, ht, hphase⟩
    obtain ⟨hlt, rfl⟩ := Array.getElem?_eq_some_iff.mp ht
    exact ⟨number, hlt, by simpa using hphase⟩

/-! ### Starts that find no thread -/

theorem Solitary.act {move : TaskMove} (h : s.Solitary) (hact : s.act? move = some s')
    (halone : move.isStart = true → s.task.isAlive = false) : s'.Solitary := by
  intro number t' ht' hlt
  have hsize := size_of_act hact
  rcases thread?_of_act hact ht' with ⟨hstart, hnew⟩ | ⟨t, ht, hlater⟩
  · rw [if_pos hstart] at hsize
    omega
  · refine hlater.ended ?_
    by_cases hstart : move.isStart = true
    · by_cases hended : t.phase = .ended
      · exact hended
      · have halive : s.task.isAlive = true := isAlive_iff.mpr ⟨number, t, ht, hended⟩
        rw [halone hstart] at halive
        cases halive
    · rw [if_neg hstart] at hsize
      exact h number t ht (by omega)

theorem Solitary.replay (h : s.Solitary) (hreplay : replay? act? s moves = some s')
    (halone : s.StartsAlone moves) : s'.Solitary := by
  induction moves generalizing s with
  | nil =>
    rw [replay?_nil, Option.some.injEq] at hreplay
    exact hreplay ▸ h
  | cons move moves ih =>
    obtain ⟨u, hact, hrest⟩ := replay?_cons_eq_some_iff.mp hreplay
    have hfirst : move.isStart = true → s.task.isAlive = false := by
      intro hstart
      cases move with
      | start limit => exact halone [] limit moves s rfl (replay?_nil s)
      | _ => cases hstart
    have hmoves : u.StartsAlone moves := by
      intro earlier limit later v hsplit hearlier
      refine halone (move :: earlier) limit later v (by rw [hsplit, List.cons_append]) ?_
      exact replay?_cons_eq_some_iff.mpr ⟨u, hact, hearlier⟩
    exact ih (h.act hact hfirst) hrest hmoves

/-- A stopped task of which only the latest thread could still be there has no thread. -/
theorem Stopped.isAlive_eq_false (h : s.Stopped) (hsolitary : s.Solitary) :
    s.task.isAlive = false := by
  rw [Bool.eq_false_iff]
  intro halive
  obtain ⟨number, t, ht, hphase⟩ := isAlive_iff.mp halive
  exact hphase (hsolitary number t ht (h.remaining ht hphase).1)

theorem solitary_fresh : ({} : OwnedTask).Solitary := by
  intro number t ht
  simp [thread?] at ht

/-! ### The law -/

theorem afterStop (h : replay? act? {} (before ++ .returnStop :: after) = some s)
    (hstarts : ∀ limit, .start limit ∉ after) : AfterStop before after s := by
  obtain ⟨u, v, hbefore, hreturn, hafter⟩ := replay?_at.mp h
  have hu : u.Consistent := consistent_fresh.replay hbefore
  have hv : v.Stopped := hu.stopped hreturn
  have hs : s.Stopped := hv.replay hafter hstarts
  have huncalled : ∀ number, .begins number ∉ after := fun _ => hv.uncalled hafter hstarts
  have hsize : s.task.threads.size = TaskMove.starts before := by
    have hnone : TaskMove.starts after = 0 :=
      List.countP_eq_zero.mpr fun move hmem => by simp [isStart_eq_false hstarts hmem]
    have hfresh : ({} : OwnedTask).task.threads.size = 0 := rfl
    have hv := size_of_act hreturn
    rw [size_of_replay hafter, hnone, hv, size_of_replay hbefore, hfresh]
    simp [TaskMove.isStart]
  refine ⟨huncalled, ?_, isAlive_iff, ?_⟩
  · intro number t ht hphase
    rw [← hsize]
    exact hs.remaining ht hphase
  · intro halone
    have hsolitary : s.Solitary := by
      have hbeforeStop := solitary_fresh.replay hbefore halone
      have hafterStop := hbeforeStop.act hreturn fun hstart => nomatch hstart
      refine replay?_keeps (P := Solitary) ?_ hafter hafterStop
      intro w move w' hmem hact hw
      refine hw.act hact ?_
      rw [isStart_eq_false hstarts hmem]
      intro hfalse
      cases hfalse
    have hdead := hs.isAlive_eq_false hsolitary
    refine ⟨huncalled, ?_, hdead⟩
    intro number t ht hcalling
    have halive : s.task.isAlive = true :=
      isAlive_iff.mpr ⟨number, t, ht, by simp [hcalling]⟩
    rw [hdead] at halive
    cases halive

/-- Whatever the owner and the threads do, and in whatever order, a stop and a start bar the threads that
were there from beginning a call, and so does an answer of the function that it is not to be called
again. -/
theorem stop_bars_calls (h : replay? act? {} moves = some s) : StopLaw moves s := by
  refine ⟨?_, ?_, ?_⟩
  · intro before after number hsplit
    rw [hsplit] at h
    obtain ⟨u, v, _, hends, hafter⟩ := replay?_at.mp h
    exact (barred_of_refusal hends).uncalled hafter
  · intro before after number limit hsplit hlt
    rw [hsplit] at h
    obtain ⟨u, v, hbefore, hstart, hafter⟩ := replay?_at.mp h
    have hsize := size_of_replay hbefore
    have hfresh : ({} : OwnedTask).task.threads.size = 0 := rfl
    have hu : u.Consistent := consistent_fresh.replay hbefore
    exact (hu.barred_of_start hstart (by omega)).uncalled hafter
  · intro before after hsplit hstarts
    rw [hsplit] at h
    exact afterStop h hstarts

/-- A thread in a call is replaced, and the stop waits for the second thread only. -/
def replacedInCall : List TaskMove :=
  [.start 2, .begins 0, .start 1, .requestStop, .leaves 1]

theorem stop_bars_calls_replacedInCall : ∃ s,
    replay? act? {} (replacedInCall ++ [.returnStop, .ends 0 true]) = some s ∧
      StopLaw (replacedInCall ++ [.returnStop, .ends 0 true]) s :=
  ⟨_, rfl, stop_bars_calls rfl⟩

/-- A stop does not silence a task that was started while a thread was in a call. -/
theorem not_silenced : ¬ ∀ before after s,
    replay? act? {} (before ++ .returnStop :: after) = some s →
      (∀ limit, .start limit ∉ after) → Silenced after s := by
  intro h
  have hsilenced := h replacedInCall [] _ rfl (by simp)
  exact hsilenced.idle 0 _ rfl rfl

end OwnedTask

end Chip8
