import Chip8.Proofs.PeriodicTask.Interleaving

/-!
# A whole stop

A stop waits for a thread, but never without an end: a thread that was let go of leaves when it waits
next, at the latest after the call that it is in. `PeriodicTask.stop` lets each thread take these steps
in turn. So it is one of the histories of moves, one in which all threads end before the stop returns
(`OwnedTask.exists_replay_stop`), and whatever holds of every history holds of it.

This joins the function that runs to the moves over which the laws of stopping are stated, and is an end in
itself: those laws do not build on it.
-/

namespace Chip8

namespace TaskThread

/-- The thread at its end. -/
def finish (t : TaskThread) : TaskThread := { t with phase := .ended }

theorem runWhile_finish (t : TaskThread) (condition : TaskThread → Bool) (n : Nat) :
    t.finish.runWhile condition n = t.finish := by
  cases n with
  | zero => rfl
  | succ n => simp [runWhile, step?, callEnds?, leave?, timeOut?, finish]

theorem runWhile_of_step? {t t' : TaskThread} (h : t.step? = some t') (n : Nat) :
    t.runWhile (fun _ => true) (n + 1) = t'.runWhile (fun _ => true) n := by
  rw [runWhile, if_pos rfl, h]

theorem leave?_of_disconnected {t : TaskThread} (hphase : t.phase = .waiting)
    (h : t.connected = false) : t.leave? = some t.finish := by
  rw [leave?, if_pos ⟨hphase, .inr h⟩]
  rfl

theorem finish_of_ended {t : TaskThread} (h : t.phase = .ended) : t.finish = t := by
  rw [finish, ← h]

/-- A thread that was let go of ends after the call that it is in. -/
theorem runWhile_of_disconnected {t : TaskThread} (h : t.connected = false) :
    t.runWhile (fun _ => true) t.stepsLeft = t.finish := by
  have hleaves : ∀ u : TaskThread, u.phase = .waiting → u.connected = false →
      u.step? = some u.finish := by
    intro u hwaiting hdisconnected
    simp [step?, callEnds?, hwaiting, leave?_of_disconnected hwaiting hdisconnected]
  rw [stepsLeft]
  cases hphase : t.phase with
  | waiting => rw [runWhile_of_step? (hleaves t hphase h), runWhile_finish]
  | calling =>
    have hends : t.step? = some { t with phase := if t.calls = t.limit then .ended else .waiting } := by
      simp [step?, callEnds?, hphase]
    rw [runWhile_of_step? hends]
    split
    · exact runWhile_finish t _ _
    · rw [runWhile_of_step? (hleaves { t with phase := .waiting } rfl h)]
      exact runWhile_finish t _ _
  | ended =>
    rw [← finish_of_ended hphase]
    exact runWhile_finish t _ _

end TaskThread

namespace OwnedTask

variable {s : OwnedTask} {number : Nat} {t : TaskThread}

theorem withThread_withThread (s : OwnedTask) (number : Nat) (t t' : TaskThread) :
    (s.withThread number t).withThread number t' = s.withThread number t' := by
  simp [withThread]

/-- Tasks that differ in their threads only differ in one of them. -/
theorem eq_of_threads {threads : Array TaskThread} (h : ∀ i, threads[i]? = s.thread? i) :
    { s with task := { s.task with threads } } = s := by
  have hthreads : threads = s.task.threads := Array.ext_getElem? h
  rw [hthreads]

theorem withThread_self (ht : s.thread? number = some t) : s.withThread number t = s := by
  refine eq_of_threads ?_
  intro i
  refine (thread?_withThread ht t i).trans ?_
  by_cases hsame : i = number
  · rw [if_pos hsame, hsame, ht]
  · rw [if_neg hsame]

/-- A thread that was let go of can end. -/
theorem exists_replay_finish (ht : s.thread? number = some t) (h : t.connected = false) :
    ∃ moves, (∀ limit, .start limit ∉ moves) ∧
      replay? act? s moves = some (s.withThread number t.finish) := by
  cases hphase : t.phase with
  | waiting =>
    refine ⟨[.leaves number], by simp, replay?_cons_eq_some_iff.mpr ⟨_, ?_, replay?_nil _⟩⟩
    exact advance?_eq_some_iff.mpr ⟨t, _, ht, TaskThread.leave?_of_disconnected hphase h, rfl⟩
  | calling =>
    by_cases hlast : t.calls = t.limit
    · refine ⟨[.ends number false], by simp, replay?_cons_eq_some_iff.mpr ⟨_, ?_, replay?_nil _⟩⟩
      refine advance?_eq_some_iff.mpr ⟨t, _, ht, ?_, rfl⟩
      simp [TaskThread.answers?, TaskThread.callEnds?, hphase, hlast, TaskThread.finish]
    · refine ⟨[.ends number true, .leaves number], by simp, ?_⟩
      have hends : s.act? (.ends number true) =
          some (s.withThread number { t with phase := .waiting }) := by
        refine advance?_eq_some_iff.mpr ⟨t, _, ht, ?_, rfl⟩
        simp [TaskThread.answers?, TaskThread.callEnds?, hphase, hlast]
      have hthread := (thread?_withThread ht { t with phase := .waiting } number).trans (if_pos rfl)
      have hleaves : (s.withThread number { t with phase := .waiting }).act? (.leaves number) =
          some (s.withThread number t.finish) := by
        refine advance?_eq_some_iff.mpr
          ⟨_, _, hthread, TaskThread.leave?_of_disconnected rfl h, ?_⟩
        rw [withThread_withThread]
        rfl
      refine replay?_cons_eq_some_iff.mpr ⟨_, hends, ?_⟩
      exact replay?_cons_eq_some_iff.mpr ⟨_, hleaves, replay?_nil _⟩
  | ended =>
    refine ⟨[], by simp, ?_⟩
    rw [TaskThread.finish_of_ended hphase, withThread_self ht]
    rfl

/-- The task once its first threads have ended. -/
def finishFirst (s : OwnedTask) (count : Nat) : OwnedTask :=
  { s with
    task := { s.task with
      threads := s.task.threads.mapIdx fun number t => if number < count then t.finish else t } }

theorem thread?_finishFirst (s : OwnedTask) (count number : Nat) :
    (s.finishFirst count).thread? number =
      (s.thread? number).map fun t => if number < count then t.finish else t :=
  Array.getElem?_mapIdx

theorem finishFirst_zero (s : OwnedTask) : s.finishFirst 0 = s := by
  refine eq_of_threads ?_
  intro i
  simp [thread?]

theorem finishFirst_succ (ht : s.thread? number = some t) :
    (s.finishFirst number).withThread number t.finish = s.finishFirst (number + 1) := by
  have hthread : (s.finishFirst number).thread? number = some t := by
    rw [thread?_finishFirst, ht]
    simp
  have hthreads : ((s.finishFirst number).withThread number t.finish).task.threads =
      (s.finishFirst (number + 1)).task.threads := by
    refine Array.ext_getElem? ?_
    intro i
    refine (thread?_withThread hthread t.finish i).trans ?_
    refine Eq.trans ?_ (thread?_finishFirst s (number + 1) i).symm
    rw [thread?_finishFirst]
    by_cases hsame : i = number
    · simp [hsame, ht]
    · have hlt : i < number + 1 ↔ i < number := by omega
      simp [hsame, hlt]
  exact congrArg (fun threads => { s with task := { s.task with threads } }) hthreads

theorem exists_replay_finishFirst (h : ∀ number t, s.thread? number = some t → t.connected = false)
    {count : Nat} (hcount : count ≤ s.task.threads.size) :
    ∃ moves, (∀ limit, .start limit ∉ moves) ∧
      replay? act? s moves = some (s.finishFirst count) := by
  induction count with
  | zero =>
    refine ⟨[], by simp, ?_⟩
    rw [finishFirst_zero]
    rfl
  | succ count ih =>
    obtain ⟨moves, hstarts, hmoves⟩ := ih (Nat.le_of_succ_le hcount)
    obtain ⟨t, ht⟩ := exists_thread? hcount
    have hthread : (s.finishFirst count).thread? count = some t := by
      rw [thread?_finishFirst, ht]
      simp
    obtain ⟨last, hlast, hreplay⟩ := exists_replay_finish hthread (h count t ht)
    refine ⟨moves ++ last, ?_, ?_⟩
    · intro limit hmem
      rcases List.mem_append.mp hmem with hmem | hmem
      · exact hstarts limit hmem
      · exact hlast limit hmem
    · rw [finishFirst_succ ht] at hreplay
      exact replay?_append_eq_some_iff.mpr ⟨_, hmoves, hreplay⟩

theorem untilEnded_eq (h : ∀ number t, s.thread? number = some t → t.connected = false) :
    s.task.untilEnded = (s.finishFirst s.task.threads.size).task := by
  have hthreads : s.task.untilEnded.threads = (s.finishFirst s.task.threads.size).task.threads := by
    refine Array.ext_getElem? ?_
    intro number
    refine Eq.trans Array.getElem?_map ?_
    refine Eq.trans ?_ (thread?_finishFirst s _ number).symm
    show (s.thread? number).map _ = _
    cases ht : s.thread? number with
    | none => rfl
    | some t =>
      have hlt := lt_size_of_thread? ht
      simp [TaskThread.runWhile_of_disconnected (h number t ht), hlt]
  exact congrArg (fun threads => { s.task with threads }) hthreads

/-- A whole stop is the request, moves by which the threads end, and the return. -/
theorem exists_replay_stop (h : s.Consistent) (hstopping : s.stopping = false) :
    ∃ moves, (∀ limit, .start limit ∉ moves) ∧
      replay? act? s (.requestStop :: (moves ++ [.returnStop])) =
        some { s with task := s.task.stop } := by
  have hrequest : s.act? .requestStop = some { task := s.task.requestStop, stopping := true } := by
    simp [act?, hstopping]
  have hconsistent := h.act hrequest
  have hfree : ∀ number t, ({ task := s.task.requestStop, stopping := true } : OwnedTask).thread?
      number = some t → t.connected = false :=
    fun _ _ ht => hconsistent.disconnected (hconsistent.stopping rfl) ht
  obtain ⟨moves, hstarts, hmoves⟩ := exists_replay_finishFirst hfree (Nat.le_refl _)
  refine ⟨moves, hstarts, replay?_cons_eq_some_iff.mpr ⟨_, hrequest, ?_⟩⟩
  refine replay?_snoc_eq_some_iff.mpr ⟨_, hmoves, ?_⟩
  have huntil : s.task.requestStop.untilEnded = _ := untilEnded_eq hfree
  have hended : ∀ (number : Nat) (t : TaskThread),
      s.task.requestStop.untilEnded.threads[number]? = some t → t.phase = .ended := by
    intro number t ht
    rw [huntil] at ht
    have hthread := (thread?_finishFirst _ _ number).symm.trans ht
    obtain ⟨t₀, ht₀, rfl⟩ := Option.map_eq_some_iff.mp hthread
    rw [if_pos (lt_size_of_thread? ht₀)]
    rfl
  have hjoined := PeriodicTask.joined?_of_ended hended
  have hstop : s.task.stop = { s.task.requestStop.untilEnded with handle := none } := by
    rw [PeriodicTask.stop, hjoined]
    rfl
  rw [hstop, huntil, hstopping]
  rw [huntil] at hjoined
  show Option.map _ _ = _
  rw [hjoined]
  rfl

end OwnedTask

end Chip8
