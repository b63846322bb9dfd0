/-!
# Replaying actions

Much of what can be done to a system is possible in some of its states only. Such an action is a
partial function from states to states, and `replay?` takes a list of actions one after the other; it
has a result if each of them is possible when its turn comes.

* `replay?_append_eq_some_iff` and `replay?_at` cut a replay, between two actions or at one of them.
* `replay?_keeps`: what every action keeps, a replay keeps.
-/

namespace Chip8

variable {σ α : Type} {act? : σ → α → Option σ} {s s' : σ} {action : α}
  {before after actions : List α}

/-- What comes of actions that are taken one after the other. -/
def replay? (act? : σ → α → Option σ) (s : σ) (actions : List α) : Option σ :=
  actions.foldlM act? s

theorem replay?_nil (s : σ) : replay? act? s [] = some s := rfl

theorem replay?_cons_eq_some_iff : replay? act? s (action :: actions) = some s' ↔
    ∃ u, act? s action = some u ∧ replay? act? u actions = some s' :=
  Option.bind_eq_some_iff

theorem replay?_append_eq_some_iff : replay? act? s (before ++ after) = some s' ↔
    ∃ u, replay? act? s before = some u ∧ replay? act? u after = some s' := by
  show (before ++ after).foldlM act? s = some s' ↔ _
  rw [List.foldlM_append]
  exact Option.bind_eq_some_iff

theorem replay?_snoc_eq_some_iff : replay? act? s (actions ++ [action]) = some s' ↔
    ∃ u, replay? act? s actions = some u ∧ act? u action = some s' := by
  simp only [replay?_append_eq_some_iff, replay?_cons_eq_some_iff, replay?_nil,
    Option.some.injEq, exists_eq_right]

/-- One action of a replay, between what comes before and after it. -/
theorem replay?_at : replay? act? s (before ++ action :: after) = some s' ↔
    ∃ u v, replay? act? s before = some u ∧ act? u action = some v ∧
      replay? act? v after = some s' := by
  simp only [replay?_append_eq_some_iff, replay?_cons_eq_some_iff]
  constructor
  · intro ⟨u, hbefore, v, haction, hafter⟩
    exact ⟨u, v, hbefore, haction, hafter⟩
  · intro ⟨u, v, hbefore, haction, hafter⟩
    exact ⟨u, hbefore, v, haction, hafter⟩

/-- What every action of a replay keeps is kept to its end. -/
theorem replay?_keeps {P : σ → Prop}
    (hact : ∀ u a v, a ∈ actions → act? u a = some v → P u → P v)
    (h : replay? act? s actions = some s') (hs : P s) : P s' := by
  induction actions generalizing s with
  | nil =>
    rw [replay?_nil, Option.some.injEq] at h
    exact h ▸ hs
  | cons first rest ih =>
    obtain ⟨u, hfirst, hrest⟩ := replay?_cons_eq_some_iff.mp h
    have hu : P u := hact s first u List.mem_cons_self hfirst hs
    exact ih (fun u a v ha => hact u a v (List.mem_cons_of_mem first ha)) hrest hu

end Chip8
