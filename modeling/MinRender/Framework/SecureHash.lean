import Mathlib.Data.BitVec
import Mathlib.Data.Nat.Bitwise
import Mathlib.Data.Nat.Find
import Mathlib.Data.Nat.Prime.Nth
import Mathlib.Tactic.Ring

/-!
# SHA-256, as the standard has it

The hash is defined over strings of bits: the message is padded, cut into blocks
of 512 bits, and each block is worked into eight words of 32 bits. The constants
are not listed but defined, as the first bits of the square and cube roots of
the first primes. Behind the definition stand the rules with which a program
that works on bytes is compared to it.
-/

namespace MinRender.SecureHash

/-! ## Numbers in binary -/

abbrev Bits := List Bool

/-- The last `n` binary digits of `x`, the most significant one first. -/
def digits (n x : Nat) : Bits := (List.range n).map fun i => x.testBit (n - 1 - i)

/-- The number that is written in binary. -/
def value (bits : Bits) : Nat := bits.foldl (fun x b => 2 * x + b.toNat) 0

@[simp] theorem length_digits (n x : Nat) : (digits n x).length = n := by
  unfold digits
  rw [List.length_map, List.length_range]

theorem digits_add (m n x : Nat) : digits (m + n) x = digits m (x >>> n) ++ digits n x := by
  unfold digits
  rw [List.range_add, List.map_append, List.map_map]
  congr 1
  · apply List.map_congr_left
    intro i hi
    have hlt := List.mem_range.mp hi
    rw [Nat.testBit_shiftRight, show n + (m - 1 - i) = m + n - 1 - i by omega]
  · apply List.map_congr_left
    intro i _
    have hi : m + n - 1 - (m + i) = n - 1 - i := by omega
    rw [Function.comp_apply, hi]

/-- Only the last digits matter. -/
theorem digits_mod {m n : Nat} (h : n ≤ m) (x : Nat) : digits n (x % 2 ^ m) = digits n x := by
  unfold digits
  apply List.map_congr_left
  intro i hi
  have hlt := List.mem_range.mp hi
  rw [Nat.testBit_mod_two_pow, decide_eq_true (by omega), Bool.true_and]

theorem value_concat (bits : Bits) (b : Bool) : value (bits ++ [b]) = 2 * value bits + b.toNat := by
  unfold value
  rw [List.foldl_append]
  rfl

theorem value_append (xs ys : Bits) : value (xs ++ ys) = value xs * 2 ^ ys.length + value ys := by
  induction ys using List.reverseRecOn with
  | nil => rw [List.append_nil, List.length_nil, Nat.pow_zero, Nat.mul_one]; rfl
  | append_singleton ys b ih =>
      rw [← List.append_assoc, value_concat, value_concat, ih, List.length_append,
        List.length_singleton, Nat.pow_succ]
      ring

theorem value_digits (n x : Nat) : value (digits n x) = x % 2 ^ n := by
  induction n generalizing x with
  | zero => rw [Nat.pow_zero, Nat.mod_one]; rfl
  | succ n ih =>
      have hlast : digits 1 x = [x.testBit 0] := rfl
      rw [digits_add, hlast, value_concat, ih, Nat.testBit_zero, Nat.shiftRight_one,
        Nat.pow_succ, Nat.mul_comm (2 ^ n) 2, Nat.mod_mul]
      rcases Nat.mod_two_eq_zero_or_one x with hx | hx
      · rw [hx]
        simp
      · rw [hx]
        simp [Nat.add_comm]

/-! ## The functions and the constants -/

abbrev Word := BitVec 32

def ch (x y z : Word) : Word := (x &&& y) ^^^ (~~~x &&& z)

def maj (x y z : Word) : Word := (x &&& y) ^^^ (x &&& z) ^^^ (y &&& z)

def bigSigma0 (x : Word) : Word := x.rotateRight 2 ^^^ x.rotateRight 13 ^^^ x.rotateRight 22

def bigSigma1 (x : Word) : Word := x.rotateRight 6 ^^^ x.rotateRight 11 ^^^ x.rotateRight 25

def smallSigma0 (x : Word) : Word := x.rotateRight 7 ^^^ x.rotateRight 18 ^^^ (x >>> 3)

def smallSigma1 (x : Word) : Word := x.rotateRight 17 ^^^ x.rotateRight 19 ^^^ (x >>> 10)

/-- The whole part of the `k`-th root. -/
def root (k n : Nat) : Nat := Nat.findGreatest (fun r => r ^ k ≤ n) n

/-- The first 32 bits of the fractional part of the `k`-th root. -/
def rootBits (k n : Nat) : Word := BitVec.ofNat 32 (root k (n * 2 ^ (32 * k)))

/-- Of the first sixty-four primes. -/
noncomputable def K (t : Nat) : Word := rootBits 3 (Nat.nth Nat.Prime t)

/-- Of the first eight primes. -/
noncomputable def H0 (j : Nat) : Word := rootBits 2 (Nat.nth Nat.Prime j)

theorem root_eq {k n r : Nat} (hk : k ≠ 0) (hle : r ^ k ≤ n) (hlt : n < (r + 1) ^ k) :
    root k n = r := by
  unfold root
  rw [Nat.findGreatest_eq_iff]
  refine ⟨(Nat.le_self_pow hk r).trans hle, fun _ => hle, ?_⟩
  intro m hm _ hmn
  have hpow : (r + 1) ^ k ≤ m ^ k := Nat.pow_le_pow_left hm k
  omega

/-- A fraction `x` with some whole part. -/
theorem rootBits_eq {k n : Nat} {x : Word} (hk : k ≠ 0)
    (h : ∃ whole < 32, (whole * 2 ^ 32 + x.toNat) ^ k ≤ n * 2 ^ (32 * k) ∧
      n * 2 ^ (32 * k) < (whole * 2 ^ 32 + x.toNat + 1) ^ k) : rootBits k n = x := by
  obtain ⟨whole, -, hle, hlt⟩ := h
  unfold rootBits
  rw [root_eq hk hle hlt]
  apply BitVec.eq_of_toNat_eq
  rw [BitVec.toNat_ofNat, Nat.mul_comm whole, Nat.mul_add_mod, Nat.mod_eq_of_lt x.isLt]

/-- The elements a filter keeps of the numbers up to `n` are the first to be kept. -/
theorem nth_of_filter_range {P : Nat → Prop} [DecidablePred P] {n t x : Nat}
    (h : ((List.range n).filter fun i => decide (P i))[t]? = some x) : Nat.nth P t = x := by
  have hcount : ∀ n, ((List.range n).filter fun i => decide (P i)).length = Nat.count P n := by
    intro n
    rw [← List.countP_eq_length_filter]
    rfl
  induction n with
  | zero => cases h
  | succ n ih =>
      rw [List.range_succ, List.filter_append] at h
      rcases Nat.lt_or_ge t ((List.range n).filter fun i => decide (P i)).length with hlt | hge
      · rw [List.getElem?_append_left hlt] at h
        exact ih h
      · rw [List.getElem?_append_right hge] at h
        by_cases hn : P n
        · rw [List.filter_singleton, decide_eq_true hn] at h
          obtain ⟨hzero, hx⟩ := List.getElem?_eq_some_iff.mp h
          have ht : t = Nat.count P n := by
            rw [← hcount n]
            simp only [cond_true, List.length_singleton] at hzero
            omega
          rw [ht, Nat.nth_count hn, ← hx]
          simp
        · rw [List.filter_singleton, decide_eq_false hn] at h
          cases h

/-! ## One block -/

/-- Eight words: a hash value, or the working variables of a round. -/
structure State where
  a : Word
  b : Word
  c : Word
  d : Word
  e : Word
  f : Word
  g : Word
  h : Word
deriving DecidableEq, Repr

def State.toList (v : State) : List Word := [v.a, v.b, v.c, v.d, v.e, v.f, v.g, v.h]

/-- Word `j` of a block. -/
def word (block : Bits) (j : Nat) : Word :=
  BitVec.ofNat 32 (value ((block.drop (32 * j)).take 32))

/-- The message schedule. -/
def schedule (M : Nat → Word) (t : Nat) : Word :=
  if t < 16 then M t
  else smallSigma1 (schedule M (t - 2)) + schedule M (t - 7) + smallSigma0 (schedule M (t - 15)) +
    schedule M (t - 16)

theorem schedule_of_lt {M : Nat → Word} {t : Nat} (h : t < 16) : schedule M t = M t := by
  rw [schedule, if_pos h]

theorem schedule_of_le {M : Nat → Word} {t : Nat} (h : 16 ≤ t) :
    schedule M t = smallSigma1 (schedule M (t - 2)) + schedule M (t - 7) +
      smallSigma0 (schedule M (t - 15)) + schedule M (t - 16) := by
  rw [schedule, if_neg (by omega)]

/-- Round `t`. -/
noncomputable def step (W : Nat → Word) (v : State) (t : Nat) : State :=
  let T1 := v.h + bigSigma1 v.e + ch v.e v.f v.g + K t + W t
  let T2 := bigSigma0 v.a + maj v.a v.b v.c
  ⟨T1 + T2, v.a, v.b, v.c, v.d + T1, v.e, v.f, v.g⟩

/-- The next hash value. -/
noncomputable def compress (H : State) (block : Bits) : State :=
  let v := (List.range 64).foldl (step (schedule (word block))) H
  ⟨v.a + H.a, v.b + H.b, v.c + H.c, v.d + H.d, v.e + H.e, v.f + H.f, v.g + H.g, v.h + H.h⟩

/-! ## The message -/

/-- What can be hashed: its length is written in 64 bits. -/
structure Message where
  bits : Bits
  short : bits.length < 2 ^ 64

theorem exists_zeros (l : Nat) : ∃ k, (l + 1 + k) % 512 = 448 :=
  ⟨447 + (512 - l % 512), by omega⟩

/-- The fewest zeros that leave 64 bits of the last block. -/
def zeros (l : Nat) : Nat := Nat.find (exists_zeros l)

theorem zeros_eq {l k : Nat} (hmod : (l + 1 + k) % 512 = 448) (hlt : k < 512) : zeros l = k := by
  unfold zeros
  rw [Nat.find_eq_iff]
  refine ⟨hmod, ?_⟩
  intro m hm heq
  omega

def pad (m : Message) : Bits :=
  m.bits ++ true :: (List.replicate (zeros m.bits.length) false ++ digits 64 m.bits.length)

/-- The whole blocks of a string. -/
def blocks (bits : Bits) : List Bits :=
  if _ : 512 ≤ bits.length then bits.take 512 :: blocks (bits.drop 512) else []
termination_by bits.length
decreasing_by
  rw [List.length_drop]
  omega

noncomputable def initial : State := ⟨H0 0, H0 1, H0 2, H0 3, H0 4, H0 5, H0 6, H0 7⟩

noncomputable def hash (m : Message) : State := (blocks (pad m)).foldl compress initial

noncomputable def digest (m : Message) : Bits :=
  (hash m).toList.flatMap fun x => digits 32 x.toNat

/-! ## Blocks -/

/-- A hash value taken through the whole blocks of a string. -/
noncomputable def absorb (H : State) (bits : Bits) : State := (blocks bits).foldl compress H

@[simp] theorem absorb_nil (H : State) : absorb H [] = H := by
  unfold absorb
  rw [blocks, dif_neg (by simp)]
  rfl

theorem absorb_block (H : State) {block : Bits} (hblock : block.length = 512) (rest : Bits) :
    absorb H (block ++ rest) = absorb (compress H block) rest := by
  have hlen : 512 ≤ (block ++ rest).length := by
    rw [List.length_append, hblock]
    exact Nat.le_add_right _ _
  have htake : (block ++ rest).take 512 = block := by rw [← hblock, List.take_left]
  have hdrop : (block ++ rest).drop 512 = rest := by rw [← hblock, List.drop_left]
  unfold absorb
  rw [blocks, dif_pos hlen, htake, hdrop, List.foldl_cons]

/-! ## Bytes -/

abbrev Byte := BitVec 8

/-- A string of bytes, bit by bit. -/
def bitsOf (bytes : List Byte) : Bits := bytes.flatMap fun b => digits 8 b.toNat

@[simp] theorem bitsOf_nil : bitsOf [] = [] := rfl

theorem bitsOf_cons (b : Byte) (bytes : List Byte) :
    bitsOf (b :: bytes) = digits 8 b.toNat ++ bitsOf bytes := rfl

theorem bitsOf_append (xs ys : List Byte) : bitsOf (xs ++ ys) = bitsOf xs ++ bitsOf ys := by
  unfold bitsOf
  rw [List.flatMap_append]

@[simp] theorem length_bitsOf (bytes : List Byte) : (bitsOf bytes).length = 8 * bytes.length := by
  induction bytes with
  | nil => rfl
  | cons b bytes ih =>
      rw [bitsOf_cons, List.length_append, length_digits, ih, List.length_cons]
      omega

theorem bitsOf_drop (n : Nat) (bytes : List Byte) :
    bitsOf (bytes.drop n) = (bitsOf bytes).drop (8 * n) := by
  induction n generalizing bytes with
  | zero => rfl
  | succ n ih =>
      cases bytes with
      | nil => rw [List.drop_nil, bitsOf_nil, List.drop_nil]
      | cons b bytes =>
          rw [List.drop_succ_cons, ih, bitsOf_cons, Nat.mul_succ, Nat.add_comm, ← List.drop_drop,
            List.drop_left' (length_digits 8 b.toNat)]

/-- Bytes of zeros. -/
theorem bitsOf_replicate (n : Nat) :
    bitsOf (List.replicate n 0) = List.replicate (8 * n) false := by
  induction n with
  | zero => rfl
  | succ n ih =>
      rw [List.replicate_succ, bitsOf_cons, ih, Nat.mul_succ, Nat.add_comm, List.replicate_add]
      rfl

/-- A message of bytes. -/
def Message.ofBytes (bytes : List Byte) (h : bytes.length < 2 ^ 61) : Message where
  bits := bitsOf bytes
  short := by
    rw [length_bitsOf]
    omega

/-- The padding of a message of bytes, in bytes: `0x80`, zeros, the length. -/
theorem pad_ofBytes {bytes : List Byte} (h : bytes.length < 2 ^ 61) {n : Nat}
    (hmod : (bytes.length + 1 + n) % 64 = 56) (hlt : n < 64) :
    pad (Message.ofBytes bytes h) =
      bitsOf (bytes ++ (0x80#8 :: List.replicate n 0)) ++ digits 64 (8 * bytes.length) := by
  have hlen : (Message.ofBytes bytes h).bits.length = 8 * bytes.length := length_bitsOf bytes
  have hzeros : zeros (8 * bytes.length) = 7 + 8 * n := zeros_eq (by omega) (by omega)
  have hone : digits 8 (0x80#8).toNat = true :: List.replicate 7 false := by decide
  unfold pad
  rw [hlen, hzeros, bitsOf_append, bitsOf_cons, hone, bitsOf_replicate, List.replicate_add]
  simp only [List.append_assoc, List.cons_append]
  rfl

/-! ## Hexadecimal -/

def hexDigit (n : Nat) : Char := "0123456789abcdef".toList.getD n '0'

/-- Four bits make a digit. -/
def hex : Bits → List Char
  | b3 :: b2 :: b1 :: b0 :: rest => hexDigit (value [b3, b2, b1, b0]) :: hex rest
  | _ => []

theorem hex_digits (n : Nat) (rest : Bits) :
    hex (digits 4 n ++ rest) = hexDigit (n % 16) :: hex rest := by
  have hfour : digits 4 n = [n.testBit 3, n.testBit 2, n.testBit 1, n.testBit 0] := rfl
  have hvalue := value_digits 4 n
  rw [hfour] at hvalue
  rw [hfour]
  show hexDigit (value [n.testBit 3, n.testBit 2, n.testBit 1, n.testBit 0]) :: hex rest =
    hexDigit (n % 2 ^ 4) :: hex rest
  rw [hvalue]

/-- The digest in lowercase hexadecimal. -/
noncomputable def hexDigest (m : Message) : String := String.ofList (hex (digest m))

end MinRender.SecureHash
