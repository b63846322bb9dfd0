import Chip8.Text.Hexadecimal

/-!
# Reading hexadecimal text

`Hexadecimal.value` reads the number off some digits. Zeros in front do not count, so it also reads what
has been filled up to four digits. All the characters of a number are letters or digits: what follows a
number begins with the first other character, and the number can be told from it
(`Hexadecimal.padded_append_inj`).
-/

namespace Chip8.Hexadecimal

/-- The number that a character stands for as a digit. -/
def digitValue (c : Char) : Nat := if c.toNat < 65 then c.toNat - 48 else c.toNat - 55

/-- The number that some digits stand for, the most significant one first. -/
def value (text : List Char) : Nat := text.foldl (fun n c => 16 * n + digitValue c) 0

theorem digitValue_digit : ∀ d < 16, digitValue (digit d) = d := by decide

theorem isAlphanum_digit : ∀ d < 16, (digit d).isAlphanum = true := by decide

/-- A number is read as it was written. -/
theorem value_digits (n : Nat) : value (digits n) = n := by
  induction n using digits.induct with
  | case1 n hlt =>
    rw [digits, if_pos hlt]
    exact (Nat.zero_add _).trans (digitValue_digit n hlt)
  | case2 n hlt ih =>
    have hlow : digitValue (digit (n % 16)) = n % 16 := digitValue_digit _ (Nat.mod_lt n (by decide))
    rw [value] at ih
    rw [digits, if_neg hlt, value, List.foldl_append, ih, List.foldl_cons, List.foldl_nil, hlow]
    exact Nat.div_add_mod n 16

/-- Zeros in front of a number do not count. -/
theorem value_leftpad (width : Nat) (text : List Char) : value (text.leftpad width '0') = value text := by
  rw [List.leftpad, value, List.foldl_append]
  congr 1
  induction width - text.length with
  | zero => rfl
  | succ k ih =>
    rw [List.replicate_succ, List.foldl_cons]
    exact ih

theorem toList_padded (n : Nat) :
    (padded n).toList = '0' :: 'x' :: (digits n).leftpad wordDigits '0' := by
  rw [padded, String.toList_append, String.toList_ofList, String.toList_ofList]
  rfl

theorem padded_inj {n n' : Nat} (h : padded n = padded n') : n = n' := by
  have hchars : (padded n).toList = (padded n').toList := congrArg String.toList h
  rw [toList_padded, toList_padded] at hchars
  have hvalue := congrArg value (List.cons.inj (List.cons.inj hchars).2).2
  rw [value_leftpad, value_leftpad, value_digits, value_digits] at hvalue
  exact hvalue

theorem isAlphanum_of_mem_digits {n : Nat} {c : Char} (hmem : c ∈ digits n) : c.isAlphanum = true := by
  induction n using digits.induct with
  | case1 n hlt =>
    rw [digits, if_pos hlt, List.mem_singleton] at hmem
    rw [hmem]
    exact isAlphanum_digit n hlt
  | case2 n hlt ih =>
    rw [digits, if_neg hlt, List.mem_append, List.mem_singleton] at hmem
    rcases hmem with hfirst | hlast
    · exact ih hfirst
    · rw [hlast]
      exact isAlphanum_digit _ (Nat.mod_lt n (by decide))

theorem isAlphanum_of_mem_padded {n : Nat} {c : Char} (hmem : c ∈ (padded n).toList) :
    c.isAlphanum = true := by
  rw [toList_padded, List.mem_cons, List.mem_cons, List.leftpad, List.mem_append] at hmem
  rcases hmem with rfl | rfl | hzero | hdigit
  · rfl
  · rfl
  · rw [List.eq_of_mem_replicate hzero]
    rfl
  · exact isAlphanum_of_mem_digits hdigit

/-! ### Where a number ends -/

/-- A text does not begin with a letter or a digit. -/
def Apart (text : List Char) : Prop := ∀ c ∈ text.head?, c.isAlphanum = false

theorem takeWhile_append_of_apart {word rest : List Char} (hword : ∀ c ∈ word, c.isAlphanum = true)
    (hrest : Apart rest) : (word ++ rest).takeWhile Char.isAlphanum = word := by
  rw [List.takeWhile_append_of_pos hword]
  cases rest with
  | nil => exact List.append_nil word
  | cons c rest =>
    rw [List.takeWhile_cons_of_neg (by rw [hrest c rfl]; decide), List.append_nil]

/-- A number and what follows it can be told from each other. -/
theorem padded_append_inj {n n' : Nat} {rest rest' : List Char} (hrest : Apart rest)
    (hrest' : Apart rest') (h : (padded n).toList ++ rest = (padded n').toList ++ rest') :
    n = n' ∧ rest = rest' := by
  have hword := takeWhile_append_of_apart (fun c => isAlphanum_of_mem_padded (n := n)) hrest
  have hword' := takeWhile_append_of_apart (fun c => isAlphanum_of_mem_padded (n := n')) hrest'
  have hsame : (padded n).toList = (padded n').toList := by rw [← hword, h, hword']
  rw [hsame] at h
  exact ⟨padded_inj (String.toList_inj.mp hsame), List.append_cancel_left h⟩

end Chip8.Hexadecimal
