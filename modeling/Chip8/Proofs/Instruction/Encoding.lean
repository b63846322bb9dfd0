import Chip8.Proofs.Instruction.Operands
import Chip8.Proofs.Instruction.Patterns
import Chip8.Proofs.Memory.Blocks

/-!
# What decoding keeps

The words that are instructions are those that fit a pattern of four digits, some given and the others
open (`Instruction.patterns`). Every open digit goes into an operand, whether the operands are taken as
digits or by masks (`Word.FromMasks`). So the word can be computed from the instruction
(`Instruction.code`), and no two words have the same one.

A program is read word by word (`Memory.decoded`). Since neither a word that is an instruction nor one that
is none gets lost, programs of an even number of bytes with the same words decoded are the same bytes
(`Instruction.decoding_loses_nothing`).
-/

namespace Chip8

namespace Word

/-- What a mask leaves of a word, moved down by so many bits. -/
def masked (w mask : UInt16) (bits : Nat) : Nat := (w &&& mask).toNat >>> bits

/-- The digits that make the operands are what masks leave of the word. -/
structure FromMasks (w : UInt16) : Prop where
  kind : kind w = masked w 0xF000 12
  x : x w = masked w 0x0F00 8
  y : y w = masked w 0x00F0 4
  n : n w = masked w 0x000F 0
  nn : (nn w).toNat = masked w 0x00FF 0
  nnn : (nnn w).toNat = masked w 0x0FFF 0

variable (w : UInt16)

theorem toNat_nn : (nn w).toNat = w.toNat % 0x100 := by
  have hlt : w.toNat % 0x100 < 0x100 := Nat.mod_lt _ (by decide)
  exact Nat.mod_eq_of_lt hlt

/-! ### Masks -/

/-- A mask that is all ones, once it has been moved down, takes a remainder. -/
theorem masked_eq {mask : UInt16} {bits : Nat} (ones : Nat) (hmask : mask.toNat >>> bits = ones)
    (hones : ∀ v : Nat, v &&& ones = v % (ones + 1)) :
    masked w mask bits = w.toNat >>> bits % (ones + 1) := by
  rw [masked, UInt16.toNat_and, Nat.shiftRight_and_distrib, hmask, hones]

theorem fromMasks : FromMasks w where
  kind := by
    have hlt : w.toNat < 0x10000 := w.toNat_lt
    rw [masked_eq w 0xF rfl fun v => Nat.and_two_pow_sub_one_eq_mod v 4,
      Nat.shiftRight_eq_div_pow, Word.kind]
    omega
  x := by
    rw [masked_eq w 0xF rfl fun v => Nat.and_two_pow_sub_one_eq_mod v 4, Nat.shiftRight_eq_div_pow]
    rfl
  y := by
    rw [masked_eq w 0xF rfl fun v => Nat.and_two_pow_sub_one_eq_mod v 4, Nat.shiftRight_eq_div_pow]
    rfl
  n := by
    rw [masked_eq w 0xF rfl fun v => Nat.and_two_pow_sub_one_eq_mod v 4]
    rfl
  nn := by
    rw [masked_eq w 0xFF rfl fun v => Nat.and_two_pow_sub_one_eq_mod v 8]
    exact toNat_nn w
  nnn := by
    rw [masked_eq w 0xFFF rfl fun v => Nat.and_two_pow_sub_one_eq_mod v 12]
    exact toNat_nnn w

/-! ### A word and its digits -/

theorem toNat_eq_nnn : w.toNat = 0x1000 * kind w + (nnn w).toNat := by
  rw [toNat_nnn, kind]
  omega

theorem toNat_eq_nn : w.toNat = 0x1000 * kind w + 0x100 * x w + (nn w).toNat := by
  rw [toNat_nn, kind, x]
  omega

theorem toNat_eq_n : w.toNat = 0x1000 * kind w + 0x100 * x w + 0x10 * y w + n w := by
  rw [kind, x, y, n]
  omega

theorem nn_eq_digits : (nn w).toNat = 0x10 * y w + n w := by
  rw [toNat_nn, y, n]
  omega

end Word

/-- A pattern for the digits of a word, the later ones of which can be open. -/
structure Pattern where
  first : Nat
  second : Option Nat
  third : Option Nat
  fourth : Option Nat
  deriving DecidableEq, Repr

namespace Pattern

/-- The word has the digits that are given. -/
def Fits (p : Pattern) (w : UInt16) : Prop :=
  Word.kind w = p.first ∧ (∀ d ∈ p.second, Word.x w = d) ∧ (∀ d ∈ p.third, Word.y w = d) ∧
    ∀ d ∈ p.fourth, Word.n w = d

instance (p : Pattern) (w : UInt16) : Decidable (p.Fits w) := inferInstanceAs (Decidable (_ ∧ _))

/-- The pattern of a single word. -/
def whole (word : Nat) : Pattern :=
  ⟨word / 0x1000, some (word / 0x100 % 0x10), some (word / 0x10 % 0x10), some (word % 0x10)⟩

/-- The pattern of the words with a given first digit. -/
def ofKind (kind : Nat) : Pattern := ⟨kind, none, none, none⟩

/-- The pattern of the words with a given first and last digit. -/
def endingIn (kind n : Nat) : Pattern := ⟨kind, none, none, some n⟩

/-- The pattern of the words with a given first digit and last two digits. -/
def tagged (kind nn : Nat) : Pattern := ⟨kind, none, some (nn / 0x10), some (nn % 0x10)⟩

variable {w : UInt16} {word kind n nn : Nat}

theorem fits_whole : (whole word).Fits w ↔ w.toNat = word := by
  have hdigits : w.toNat = word ↔ Word.kind w = word / 0x1000 ∧ Word.x w = word / 0x100 % 0x10 ∧
      Word.y w = word / 0x10 % 0x10 ∧ Word.n w = word % 0x10 := by
    rw [Word.kind, Word.x, Word.y, Word.n]
    omega
  rw [hdigits]
  simp [whole, Fits]

theorem fits_ofKind : (ofKind kind).Fits w ↔ Word.kind w = kind := by
  simp [ofKind, Fits]

theorem fits_endingIn : (endingIn kind n).Fits w ↔ Word.kind w = kind ∧ Word.n w = n := by
  simp [endingIn, Fits]

theorem fits_tagged : (tagged kind nn).Fits w ↔ Word.kind w = kind ∧ (Word.nn w).toNat = nn := by
  have hn : Word.n w < 0x10 := Word.n_lt w
  have hdigits : (Word.nn w).toNat = nn ↔ Word.y w = nn / 0x10 ∧ Word.n w = nn % 0x10 := by
    rw [Word.nn_eq_digits]
    omega
  rw [hdigits]
  simp [tagged, Fits]

end Pattern

namespace Instruction

/-- The patterns of the instruction set. -/
def patterns : List Pattern :=
  [0x00E0, 0x00EE].map Pattern.whole ++
  [0x1, 0x2, 0x3, 0x4, 0x6, 0x7, 0xA, 0xB, 0xC, 0xD].map Pattern.ofKind ++
  [0x5, 0x9].map (Pattern.endingIn · 0x0) ++
  [0x0, 0x1, 0x2, 0x3, 0x4, 0x5, 0x6, 0x7, 0xE].map (Pattern.endingIn 0x8) ++
  [0x9E, 0xA1].map (Pattern.tagged 0xE) ++
  [0x07, 0x0A, 0x15, 0x18, 0x1E, 0x29, 0x33, 0x55, 0x65].map (Pattern.tagged 0xF)

/-- The number of the word that stands for an instruction. -/
def code : Instruction → Nat
  | clear => 0x00E0
  | ret => 0x00EE
  | jump nnn => 0x1000 + nnn.toNat
  | call nnn => 0x2000 + nnn.toNat
  | skipIfEqual x nn => 0x3000 + 0x100 * x + nn.toNat
  | skipIfNotEqual x nn => 0x4000 + 0x100 * x + nn.toNat
  | skipIfSame x y => 0x5000 + 0x100 * x + 0x10 * y
  | set x nn => 0x6000 + 0x100 * x + nn.toNat
  | add x nn => 0x7000 + 0x100 * x + nn.toNat
  | alu op x y => 0x8000 + 0x100 * x + 0x10 * y + op.code
  | skipIfDifferent x y => 0x9000 + 0x100 * x + 0x10 * y
  | setIndex nnn => 0xA000 + nnn.toNat
  | jumpPlus nnn => 0xB000 + nnn.toNat
  | random x nn => 0xC000 + 0x100 * x + nn.toNat
  | draw x y n => 0xD000 + 0x100 * x + 0x10 * y + n
  | skipIfHeld x => 0xE000 + 0x100 * x + 0x9E
  | skipIfNotHeld x => 0xE000 + 0x100 * x + 0xA1
  | register op x => 0xF000 + 0x100 * x + op.code

variable {w w' : UInt16} {instruction : Instruction}

/-! ### The words that are instructions -/

theorem Denotes.exists_pattern (h : Denotes w instruction) : ∃ p ∈ patterns, p.Fits w := by
  cases h with
  | clear h | ret h => exact ⟨_, by decide, Pattern.fits_whole.mpr (congrArg UInt16.toNat h)⟩
  | skipIfSame h hn | skipIfDifferent h hn =>
    exact ⟨_, by decide, Pattern.fits_endingIn.mpr ⟨h, hn⟩⟩
  | @alu op h hn =>
    have hlisted : Pattern.endingIn 0x8 op.code ∈ patterns := by cases op <;> decide
    exact ⟨_, hlisted, Pattern.fits_endingIn.mpr ⟨h, hn⟩⟩
  | skipIfHeld h hnn | skipIfNotHeld h hnn =>
    exact ⟨_, by decide, Pattern.fits_tagged.mpr ⟨h, congrArg UInt8.toNat hnn⟩⟩
  | @register op h hnn =>
    have hlisted : Pattern.tagged 0xF op.code ∈ patterns := by cases op <;> decide
    exact ⟨_, hlisted, Pattern.fits_tagged.mpr ⟨h, hnn⟩⟩
  | _ h => exact ⟨_, by decide, Pattern.fits_ofKind.mpr h⟩

/-- The word for one of these kinds is an instruction whatever its later digits are. -/
theorem exists_denotes_of_kind
    (h : Word.kind w ∈ [0x1, 0x2, 0x3, 0x4, 0x6, 0x7, 0xA, 0xB, 0xC, 0xD]) :
    ∃ instruction, Denotes w instruction := by
  simp only [List.mem_cons, List.not_mem_nil, or_false] at h
  rcases h with h | h | h | h | h | h | h | h | h | h
  · exact ⟨_, .jump h⟩
  · exact ⟨_, .call h⟩
  · exact ⟨_, .skipIfEqual h⟩
  · exact ⟨_, .skipIfNotEqual h⟩
  · exact ⟨_, .set h⟩
  · exact ⟨_, .add h⟩
  · exact ⟨_, .setIndex h⟩
  · exact ⟨_, .jumpPlus h⟩
  · exact ⟨_, .random h⟩
  · exact ⟨_, .draw h⟩

theorem exists_denotes_of_fits {p : Pattern} (hp : p ∈ patterns) (hfits : p.Fits w) :
    ∃ instruction, Denotes w instruction := by
  simp only [patterns, List.mem_append, List.mem_map] at hp
  -- a group of patterns after the other, in the order of the table
  rcases hp with ((((⟨word, hword, rfl⟩ | ⟨kind, hkind, rfl⟩) | ⟨kind, hkind, rfl⟩) | ⟨n, hn, rfl⟩) |
    ⟨nn, hnn, rfl⟩) | ⟨nn, hnn, rfl⟩
  · rw [Pattern.fits_whole] at hfits
    simp only [List.mem_cons, List.not_mem_nil, or_false] at hword
    rcases hword with rfl | rfl
    · exact ⟨_, .clear (UInt16.toNat_inj.mp hfits)⟩
    · exact ⟨_, .ret (UInt16.toNat_inj.mp hfits)⟩
  · rw [Pattern.fits_ofKind] at hfits
    exact exists_denotes_of_kind (hfits ▸ hkind)
  · obtain ⟨hfirst, hn⟩ := Pattern.fits_endingIn.mp hfits
    simp only [List.mem_cons, List.not_mem_nil, or_false] at hkind
    rcases hkind with rfl | rfl
    · exact ⟨_, .skipIfSame hfirst hn⟩
    · exact ⟨_, .skipIfDifferent hfirst hn⟩
  · obtain ⟨hkind, hlast⟩ := Pattern.fits_endingIn.mp hfits
    have hall : ∀ code ∈ [0x0, 0x1, 0x2, 0x3, 0x4, 0x5, 0x6, 0x7, 0xE],
        (AluOp.ofCode? code).isSome = true := by decide
    obtain ⟨op, hop⟩ := Option.isSome_iff_exists.mp (hall n hn)
    exact ⟨_, .alu hkind (hlast.trans (AluOp.ofCode?_eq_some_iff.mp hop))⟩
  · obtain ⟨hkind, hlast⟩ := Pattern.fits_tagged.mp hfits
    simp only [List.mem_cons, List.not_mem_nil, or_false] at hnn
    rcases hnn with rfl | rfl
    · exact ⟨_, .skipIfHeld hkind (UInt8.toNat_inj.mp hlast)⟩
    · exact ⟨_, .skipIfNotHeld hkind (UInt8.toNat_inj.mp hlast)⟩
  · obtain ⟨hkind, hlast⟩ := Pattern.fits_tagged.mp hfits
    have hall : ∀ code ∈ [0x07, 0x0A, 0x15, 0x18, 0x1E, 0x29, 0x33, 0x55, 0x65],
        (RegisterOp.ofCode? code).isSome = true := by decide
    obtain ⟨op, hop⟩ := Option.isSome_iff_exists.mp (hall nn hnn)
    exact ⟨_, .register hkind (hlast.trans (RegisterOp.ofCode?_eq_some_iff.mp hop))⟩

/-- A word is an instruction if its digits fit one of the patterns. -/
theorem exists_denotes_iff :
    (∃ instruction, Denotes w instruction) ↔ ∃ p ∈ patterns, p.Fits w :=
  ⟨fun ⟨_, h⟩ => h.exists_pattern, fun ⟨_, hp, hfits⟩ => exists_denotes_of_fits hp hfits⟩

/-! ### The word of an instruction -/

/-- Every digit of the word is given by the instruction, or by one of its operands. -/
theorem Denotes.code_eq (h : Denotes w instruction) : instruction.code = w.toNat := by
  cases h with
  | clear h | ret h =>
    rw [h]
    rfl
  | jump h | call h | setIndex h | jumpPlus h =>
    rw [Word.toNat_eq_nnn w, h]
    rfl
  | skipIfEqual h | skipIfNotEqual h | set h | add h | random h =>
    rw [Word.toNat_eq_nn w, h]
    rfl
  | skipIfSame h hn | skipIfDifferent h hn =>
    rw [Word.toNat_eq_n w, h, hn]
    rfl
  | alu h hn =>
    rw [Word.toNat_eq_n w, h, hn]
    rfl
  | draw h =>
    rw [Word.toNat_eq_n w, h]
    rfl
  | skipIfHeld h hnn | skipIfNotHeld h hnn =>
    rw [Word.toNat_eq_nn w, h, hnn]
    rfl
  | register h hnn =>
    rw [Word.toNat_eq_nn w, h, hnn]
    rfl

theorem decode_eq_ok_iff : decode w = .ok instruction ↔ Denotes w instruction := by
  rw [← decode?_eq_some_iff, decode]
  cases decode? w with
  | none => simp
  | some found => simp

theorem decode_eq_error_iff {cause : WordError} :
    decode w = .error cause ↔ (∀ instruction, ¬ Denotes w instruction) ∧ cause = .unsupported w := by
  rw [← decode?_eq_none_iff, decode]
  cases decode? w with
  | none => simp [eq_comm]
  | some found => simp

/-- What a word decodes to tells the word, also if it is no instruction. -/
theorem decode_inj (h : decode w = decode w') : w = w' := by
  cases hdecode : decode w with
  | ok instruction =>
    have hdenotes := decode_eq_ok_iff.mp hdecode
    have hdenotes' := decode_eq_ok_iff.mp (h.symm.trans hdecode)
    exact UInt16.toNat_inj.mp (hdenotes.code_eq.symm.trans hdenotes'.code_eq)
  | error cause =>
    have hcause := (decode_eq_error_iff.mp hdecode).2
    have hcause' := (decode_eq_error_iff.mp (h.symm.trans hdecode)).2
    exact WordError.unsupported.inj (hcause.symm.trans hcause')

end Instruction

/-! ### Programs -/

namespace Memory

/-- What the words of a program decode to, from the first one on. -/
def decoded (m : Memory) : List (Except WordError Instruction) :=
  (List.range (m.size / 2)).map fun k => m.wordAt (2 * k) >>= Instruction.decode

variable {m m' : Memory} {k : Nat}

theorem length_decoded (m : Memory) : m.decoded.length = m.size / 2 := by
  rw [decoded, List.length_map, List.length_range]

/-- There is a word at every even address that is inside, and it is decoded in its turn. -/
theorem exists_decoded (hk : k < m.size / 2) :
    ∃ word, m.wordAt (2 * k) = .ok word ∧ m.decoded[k]? = some (Instruction.decode word) := by
  obtain ⟨word, hword⟩ := (m.wordAt_isOk_iff (2 * k)).mpr (by rw [wordBytes]; omega)
  refine ⟨word, hword, ?_⟩
  rw [decoded, List.getElem?_map, List.getElem?_range hk, Option.map_some, hword]
  rfl

/-- An even number of bytes can be told from what their words decode to. -/
theorem eq_of_decoded_eq (heven : m.size % 2 = 0) (heven' : m'.size % 2 = 0)
    (h : m.decoded = m'.decoded) : m = m' := by
  have hlen : m.size / 2 = m'.size / 2 := by rw [← length_decoded, h, length_decoded]
  have hpair : ∀ k < m.size / 2, m.bytes[2 * k]? = m'.bytes[2 * k]? ∧
      m.bytes[2 * k + 1]? = m'.bytes[2 * k + 1]? := by
    intro k hk
    obtain ⟨word, hword, hdecoded⟩ := exists_decoded hk
    obtain ⟨word', hword', hdecoded'⟩ := exists_decoded (hlen ▸ hk)
    rw [h, hdecoded'] at hdecoded
    have hsame : word' = word := Instruction.decode_inj (Option.some.inj hdecoded)
    exact bytes_eq_of_wordAt hword (hsame ▸ hword')
  refine eq_of_bytes fun address => ?_
  by_cases hinside : address < m'.size
  · obtain ⟨hhigh, hlow⟩ := hpair (address / 2) (by omega)
    rcases Nat.mod_two_eq_zero_or_one address with hfirst | hsecond
    · have haddress : 2 * (address / 2) = address := by omega
      rwa [haddress] at hhigh
    · have haddress : 2 * (address / 2) + 1 = address := by omega
      rwa [haddress] at hlow
  · have hbeyond : m'.bytes.size ≤ address := Nat.le_of_not_lt hinside
    have hbeyond' : m.bytes.size ≤ address := by
      have hsize : m.bytes.size = m.size := rfl
      omega
    rw [Array.getElem?_eq_none hbeyond, Array.getElem?_eq_none hbeyond']

end Memory

namespace Instruction

/-- What a word decodes to. -/
structure DecodesByPattern (w : UInt16) : Prop where
  digits : Word.FromMasks w
  ok_iff : (∃ instruction, decode w = .ok instruction) ↔ ∃ p ∈ patterns, p.Fits w
  refused : (∀ p ∈ patterns, ¬ p.Fits w) → decode w = .error (.unsupported w)
  inRange : ∀ instruction, decode w = .ok instruction → instruction.InRange

theorem decodesByPattern (w : UInt16) : DecodesByPattern w where
  digits := Word.fromMasks w
  ok_iff := by
    simp only [decode_eq_ok_iff]
    exact exists_denotes_iff
  refused hnone := by
    refine decode_eq_error_iff.mpr ⟨fun instruction hdenotes => ?_, rfl⟩
    obtain ⟨p, hp, hfits⟩ := hdenotes.exists_pattern
    exact hnone p hp hfits
  inRange instruction h := inRange_of_decode? (decode_eq_ok_iff.mp h).decode?

/-- The words of a program are decoded one by one, by the patterns that they fit, and the program can be
told from the outcome. -/
theorem decoding_loses_nothing :
    (∀ w, DecodesByPattern w) ∧
    (∀ m : Memory, m.size % 2 = 0 → 2 * m.decoded.length = m.size ∧
      ∀ k < m.decoded.length, ∃ word, m.wordAt (2 * k) = .ok word ∧
        m.decoded[k]? = some (decode word)) ∧
    ∀ m m' : Memory, m.size % 2 = 0 → m'.size % 2 = 0 → m.decoded = m'.decoded → m = m' := by
  refine ⟨decodesByPattern, fun m heven => ⟨?_, fun k hk => ?_⟩, fun m m' heven heven' h => ?_⟩
  · rw [Memory.length_decoded]
    omega
  · rw [Memory.length_decoded] at hk
    exact Memory.exists_decoded hk
  · exact Memory.eq_of_decoded_eq heven heven' h

/-- An instruction, and a word that lacks a zero at its end to be one. -/
def nearMiss : Memory := ⟨#[0x65, 0x02, 0x51, 0x21]⟩

/-- The second word is refused, and the four bytes can be told from the outcome. -/
theorem decoding_loses_nothing_nearMiss :
    (∀ p ∈ patterns, ¬ p.Fits 0x5121) ∧ decode 0x5121 = .error (.unsupported 0x5121) ∧
    nearMiss.size % 2 = 0 ∧ 2 * nearMiss.decoded.length = 4 ∧
    (Memory.write ⟨#[0, 0, 0, 0]⟩ 0 [0x65, 0x02, 0x51, 0x21]).decoded =
      [.ok (.set 5 2), .error (.unsupported 0x5121)] ∧
    Memory.write ⟨#[0, 0, 0, 0]⟩ 0 [0x65, 0x02, 0x51, 0x21] = nearMiss := by
  obtain ⟨hwords, hprograms, hinj⟩ := decoding_loses_nothing
  have hnone : ∀ p ∈ patterns, ¬ p.Fits 0x5121 := by decide
  have heven : nearMiss.size % 2 = 0 := by decide
  exact ⟨hnone, (hwords 0x5121).refused hnone, heven, (hprograms nearMiss heven).1, rfl,
    hinj _ nearMiss rfl heven rfl⟩

end Instruction

end Chip8
