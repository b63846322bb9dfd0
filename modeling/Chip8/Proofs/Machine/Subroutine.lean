import Chip8.Proofs.Machine.History
import Chip8.Proofs.Machine.Soundness

/-!
# Calls and their returns

A call pushes the address just after itself, and it is the matching return that takes this address
away again: if a call goes through, and some steps later the stack is as deep as before the call for
the first time, then the last of these steps was a return, execution goes on just after the call, and
the stack is the one from before the call (`Machine.call_returns`).

The code in between may do anything: call and return, jump anywhere, store over itself, even halt on
errors and be resumed. While the stack is deeper than before the call, the return address and all that
lies below it stay where they are (`Machine.Inside`): only a return takes addresses away, one at a time,
and there is none that takes the return address away and leaves the stack deeper.
-/

namespace Chip8

/-- The stack is changed by calls and returns only, and by them at its top. -/
theorem Exec.Effect.stack_cases {m m' : Machine} {instruction : Instruction} {flow : Flow}
    {notice : Notice} (h : Effect m instruction flow notice m') :
    m'.stack = m.stack ∨
    ((∃ nnn, instruction = .call nnn) ∧ m'.stack.addresses = m.pc :: m.stack.addresses) ∨
    (∃ address, instruction = .ret ∧ flow = .jump address ∧
      m.stack.addresses = address :: m'.stack.addresses) := by
  cases h with
  | ret hpop => exact .inr (.inr ⟨_, rfl, rfl, CallStack.addresses_of_pop hpop⟩)
  | call hpush => exact .inr (.inl ⟨⟨_, rfl⟩, CallStack.addresses_of_push hpush⟩)
  | _ => exact .inl rfl

namespace Machine

variable {m m' : Machine} {notice : Notice}

theorem influence_stack (m : Machine) (i : Influence) : (m.influence i).stack = m.stack := by
  cases i <;> rfl

/-! ### One step -/

/-- The stack still holds the return address, right above the addresses of the outer stack. -/
def Inside (m : Machine) (address : UInt16) (outer : CallStack) : Prop :=
  ∃ inner, m.stack.addresses = inner ++ address :: outer.addresses

/-- The step has returned to the address. -/
structure ReturnedTo (m m' : Machine) (address : UInt16) (outer : CallStack) : Prop where
  fetches : m.Fetches .ret
  pc : m'.pc = address
  stack : m'.stack = outer

variable {address : UInt16} {outer : CallStack}

theorem Inside.depth_ne (h : m.Inside address outer) : m.stack.depth ≠ outer.depth := by
  obtain ⟨inner, hstack⟩ := h
  have hdepth : m.stack.depth = inner.length + (outer.depth + 1) := by
    rw [CallStack.depth, hstack, List.length_append, List.length_cons]
    rfl
  omega

/-- A call that goes through pushes the address just after itself. -/
theorem inside_of_call {nnn : UInt16} (hcall : m.Fetches (.call nnn))
    (hstep : Stepped m notice m') : m'.Inside (m.pc + 2) m.stack := by
  obtain ⟨word, flow, m₁, heffect, rfl⟩ := hcall.effect hstep
  cases heffect with
  | call hpush => exact ⟨[], CallStack.addresses_of_push hpush⟩

/-- A step that goes through stays inside, unless it is the return to the address. -/
theorem Inside.of_stepped (h : m.Inside address outer) (hstep : Stepped m notice m') :
    m'.Inside address outer ∨ ReturnedTo m m' address outer := by
  obtain ⟨inner, hstack⟩ := h
  cases hstep with
  | unknown hword hdecode => exact .inl ⟨inner, hstack⟩
  | @executed word instruction flow notice m₁ hword hdecode heffect =>
    rcases heffect.stack_cases with hsame | ⟨_, hpushed⟩ | ⟨top, rfl, rfl, hpopped⟩
    · refine .inl ⟨inner, ?_⟩
      show m₁.stack.addresses = inner ++ address :: outer.addresses
      rw [hsame]
      exact hstack
    · refine .inl ⟨(m.fetched word).pc :: inner, ?_⟩
      show m₁.stack.addresses = (m.fetched word).pc :: (inner ++ address :: outer.addresses)
      rw [hpushed, ← hstack]
      rfl
    · have hsplit : top :: m₁.stack.addresses = inner ++ address :: outer.addresses :=
        hpopped.symm.trans hstack
      cases inner with
      | nil =>
        obtain ⟨htop, hrest⟩ := List.cons_eq_cons.mp hsplit
        have houter : m₁.stack = outer := congrArg CallStack.mk hrest
        exact .inr ⟨fetches_of_decode? hword hdecode, htop, houter⟩
      | cons a inner =>
        obtain ⟨_, hrest⟩ := List.cons_eq_cons.mp hsplit
        exact .inl ⟨inner, hrest⟩

/-- A step that halts leaves the stack as it was. -/
theorem Inside.of_stopped (h : m.Inside address outer) {e : ExecutionError}
    (hstop : Stopped m e m') : m'.Inside address outer := by
  cases hstop with
  | fetch hword => exact h
  | execute hword hdecode hfailure =>
    rw [hfailure.frame]
    exact h

theorem Inside.next (h : m.Inside address outer) (hanswers : m.Answers) :
    m.next.Inside address outer ∨ ReturnedTo m m.next address outer :=
  next_cases (P := fun u => u.Inside address outer ∨ ReturnedTo m u address outer) hanswers
    (fun _ _ hstep => h.of_stepped hstep) (fun _ _ hstop => .inl (h.of_stopped hstop))

/-! ### Many steps -/

/-- As long as the stack is not as deep as the outer one, a history stays inside. -/
theorem Inside.of_starts {events : List Event} {between later : List Machine} {b : Machine}
    (h : m.Inside address outer) (hstarts : m.starts events = between ++ b :: later)
    (hanswers : ∀ u ∈ between, u.Answers)
    (hdeeper : ∀ u ∈ between, u.next.stack.depth ≠ outer.depth) : b.Inside address outer := by
  induction events generalizing m between with
  | nil => exact absurd hstarts.symm (List.append_ne_nil_of_right_ne_nil _ (List.cons_ne_nil _ _))
  | cons event rest ih =>
    cases event with
    | outside i =>
      have hinside : (m.influence i).Inside address outer := by
        rw [Inside, influence_stack]
        exact h
      exact ih hinside hstarts hanswers hdeeper
    | step =>
      rw [starts] at hstarts
      cases between with
      | nil =>
        obtain ⟨rfl, _⟩ := List.cons_eq_cons.mp hstarts
        exact h
      | cons u between =>
        obtain ⟨rfl, hrest⟩ := List.cons_eq_cons.mp hstarts
        have hinside : m.next.Inside address outer := by
          rcases h.next (hanswers m List.mem_cons_self) with hinside | hreturned
          · exact hinside
          · have hdepth := congrArg CallStack.depth hreturned.stack
            exact absurd hdepth (hdeeper m List.mem_cons_self)
        exact ih hinside hrest (fun u hu => hanswers u (List.mem_cons_of_mem _ hu))
          (fun u hu => hdeeper u (List.mem_cons_of_mem _ hu))

/-- A part of a history that begins with a call that goes through, and ends with the first step after
which the stack is as deep as before the call. The steps after the call may go through or halt on
errors. -/
structure Subroutine (caller : Machine) (between : List Machine) (last : Machine) : Prop where
  call : ∃ nnn, caller.Fetches (.call nnn)
  goesThrough : ∃ notice, step.run caller = .ok notice caller.next
  answers : ∀ u ∈ between ++ [last], u.Answers
  deeper : ∀ u ∈ between, u.next.stack.depth ≠ caller.stack.depth
  back : last.next.stack.depth = caller.stack.depth

/-- The last step of a subroutine is a return: execution goes on just after the call, with the stack
from before the call. -/
theorem call_returns {events : List Event} {earlier between later : List Machine}
    {caller last : Machine}
    (hstarts : m.starts events = earlier ++ caller :: (between ++ last :: later))
    (h : Subroutine caller between last) :
    ReturnedTo last last.next (caller.pc + 2) caller.stack ∧
      (caller.memory.size = Memory.capacity → (caller.pc + 2).toNat = caller.pc.toNat + 2) := by
  obtain ⟨before, after, _, _, _, hafter⟩ := starts_split hstarts
  obtain ⟨nnn, hcall⟩ := h.call
  obtain ⟨notice, hrun⟩ := h.goesThrough
  have hbegin : caller.next.Inside (caller.pc + 2) caller.stack :=
    inside_of_call hcall (stepped_of_run hrun)
  have hlast : last.Inside (caller.pc + 2) caller.stack :=
    hbegin.of_starts hafter (fun u hu => h.answers u (List.mem_append_left _ hu)) h.deeper
  obtain ⟨word, hword, _⟩ := hcall
  refine ⟨?_, fun hsize => (toNat_pc_add_two hsize hword).1⟩
  rcases hlast.next (h.answers last (by simp)) with hinside | hreturned
  · exact absurd h.back hinside.depth_ne
  · exact hreturned

/-- A machine that is about to call a subroutine, which calls another one. -/
def nested : Machine :=
  { settings := {}, memory := ⟨#[0x20, 0x04, 0x00, 0x00, 0x20, 0x08, 0x00, 0xEE, 0x00, 0xEE]⟩
    pc := 0, timers := {}, screen := .blank 1 1, keypad := {}, random := .cycle #[] }

/-- The first return leaves the stack deeper than it was, and the second one returns from the first
call. -/
theorem call_returns_nested : ∃ u v last,
    nested.starts [.step, .step, .outside (.ticker 0), .step, .step] = [nested, u, v, last] ∧
      Subroutine nested [u, v] last ∧ ReturnedTo last last.next 2 {} := by
  let u := nested.next
  let v := u.next.influence (.ticker 0)
  let last := v.next
  have hstarts : nested.starts [.step, .step, .outside (.ticker 0), .step, .step] =
      [nested, u, v, last] := rfl
  have hscreen : nested.screen.WellFormed := Screen.wellFormed_blank 1 1
  have hhigh : nested.memory.bytes[0]? = some 0x20 := by decide
  have hlow : nested.memory.bytes[1]? = some 0x04 := by decide
  have hword : nested.memory.wordAt nested.pc.toNat = .ok 0x2004 :=
    Memory.wordAt_of_getElem? hhigh hlow
  have hsubroutine : Subroutine nested [u, v] last := by
    refine ⟨⟨4, fetches_of_decode? hword (by decide)⟩, ⟨.quiet, rfl⟩, ?_, ?_, by decide +kernel⟩
    · intro b hb
      have hmem : b ∈ nested.starts [.step, .step, .outside (.ticker 0), .step, .step] :=
        List.mem_cons_of_mem _ hb
      exact answers_of_screen (screen_wellFormed_of_mem_starts hscreen hmem)
    · decide +kernel
  have hback := @call_returns nested _ [] [u, v] [] nested last hstarts hsubroutine
  exact ⟨u, v, last, hstarts, hsubroutine, hback.1⟩

end Machine

end Chip8
