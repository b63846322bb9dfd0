/-!
# Blocks of a list

`blocks` cuts a list into blocks of a given size, in order. Only the last block may be shorter.
Put together again, the blocks are the list (`flatten_blocks`). They can be found by their numbers
(`getElem?_blocks`).
-/

namespace Chip8

/-- The consecutive blocks of `size` entries; there are none if the size is zero. -/
def blocks {α : Type} (size : Nat) (entries : List α) : List (List α) :=
  if entries = [] ∨ size = 0 then []
  else entries.take size :: blocks size (entries.drop size)
termination_by entries.length
decreasing_by
  have : entries.length ≠ 0 := by
    intro h
    simp_all
  simp only [List.length_drop]
  omega

theorem blocks_nil {α : Type} (size : Nat) : blocks size ([] : List α) = [] := by
  unfold blocks
  rw [if_pos (Or.inl rfl)]

/-- Nothing is lost, and the order is kept. -/
theorem flatten_blocks {α : Type} {size : Nat} (hsize : size ≠ 0) (entries : List α) :
    (blocks size entries).flatten = entries := by
  fun_induction blocks size entries with
  | case1 entries h => exact (h.resolve_right hsize).symm
  | case2 entries h ih => rw [List.flatten_cons, ih, List.take_append_drop]

/-- Block `k` begins with entry `k * size`, where there is such an entry. -/
theorem getElem?_blocks {α : Type} {size : Nat} (hsize : size ≠ 0) (entries : List α) (k : Nat) :
    (blocks size entries)[k]? =
      if k * size < entries.length then some ((entries.drop (k * size)).take size) else none := by
  fun_induction blocks size entries generalizing k with
  | case1 entries h =>
    rw [h.resolve_right hsize]
    rfl
  | case2 entries h ih =>
    have hpos : 0 < entries.length := List.length_pos_iff.mpr fun hnil => h (.inl hnil)
    cases k with
    | zero => simp [hpos]
    | succ k =>
      have hstart : size + k * size = (k + 1) * size := by rw [Nat.succ_mul, Nat.add_comm]
      have hinside : k * size < entries.length - size ↔ (k + 1) * size < entries.length := by omega
      rw [List.getElem?_cons_succ, ih, List.length_drop, List.drop_drop, hstart]
      simp only [hinside]

/-- A list of `n` whole blocks is cut into just these. -/
theorem length_blocks {α : Type} {size n : Nat} (hsize : size ≠ 0) {entries : List α}
    (hlen : entries.length = n * size) : (blocks size entries).length = n := by
  have hnone : ∀ k, (blocks size entries)[k]? = none ↔ n ≤ k := by
    intro k
    have hle : n * size ≤ k * size ↔ n ≤ k := Nat.mul_le_mul_right_iff (Nat.pos_of_ne_zero hsize)
    rw [getElem?_blocks hsize, hlen, ← hle]
    split <;> simp <;> omega
  refine Nat.le_antisymm (List.getElem?_eq_none_iff.mp ((hnone n).mpr (Nat.le_refl n))) ?_
  exact (hnone _).mp (List.getElem?_eq_none (Nat.le_refl _))

end Chip8
