import Mathlib.Data.List.Basic
import Mathlib.Algebra.Order.Group.Nat

/-!
# Length-prefixed frames

A byte stream that carries payloads one after another, each behind its length
in a fixed number of bytes, the least significant first.
-/

namespace MinRender.Framing

abbrev Bytes := List UInt8

/-- The `k` low bytes of a number, the least significant first. -/
def leBytes : Nat → Nat → Bytes
  | 0, _ => []
  | k + 1, n => UInt8.ofNat n :: leBytes k (n / 256)

def ofLeBytes : Bytes → Nat
  | [] => 0
  | b :: bs => b.toNat + 256 * ofLeBytes bs

/-- A payload behind its length in `k` bytes. -/
def frame (k : Nat) (payload : Bytes) : Bytes := leBytes k payload.length ++ payload

def frames (k : Nat) (payloads : List Bytes) : Bytes := payloads.flatMap (frame k)

variable {k n : Nat} {payload : Bytes} {payloads : List Bytes}

@[simp] theorem length_leBytes : (leBytes k n).length = k := by
  induction k generalizing n with
  | zero => rfl
  | succ k ih => rw [leBytes, List.length_cons, ih]

/-- **Reading the bytes of a number that fits gives the number.** -/
theorem ofLeBytes_leBytes (h : n < 256 ^ k) : ofLeBytes (leBytes k n) = n := by
  induction k generalizing n with
  | zero =>
      rw [pow_zero] at h
      show 0 = n
      omega
  | succ k ih =>
      have hdiv : n / 256 < 256 ^ k := by
        rw [pow_succ] at h
        omega
      show (UInt8.ofNat n).toNat + 256 * ofLeBytes (leBytes k (n / 256)) = n
      rw [ih hdiv]
      have hbyte : (UInt8.ofNat n).toNat = n % 256 := UInt8.toNat_ofNat'
      omega

theorem frames_cons :
    frames k (payload :: payloads) =
      leBytes k payload.length ++ (payload ++ frames k payloads) := by
  show frame k payload ++ frames k payloads = _
  rw [frame, List.append_assoc]

/-- Only a frame fills a header, and its payload follows. -/
theorem of_header {header rest : Bytes} (hk : k ≠ 0) (hlen : header.length = k)
    (h : frames k payloads = header ++ rest) :
    ∃ p ps, payloads = p :: ps ∧ header = leBytes k p.length ∧
      rest = p ++ frames k ps := by
  cases payloads with
  | nil =>
      have hnil := (List.append_eq_nil_iff.mp h.symm).1
      rw [hnil] at hlen
      exact absurd hlen.symm hk
  | cons p ps =>
      rw [frames_cons] at h
      obtain ⟨hhead, hrest⟩ := List.append_inj h (length_leBytes.trans hlen.symm)
      exact ⟨p, ps, rfl, hhead.symm, hrest.symm⟩

end MinRender.Framing
