import Mathlib.Algebra.GroupWithZero.Nat
import Mathlib.Data.List.Basic
import Mathlib.Tactic.Common

/-!
# LittleEndian — fixed-width little-endian naturals as byte lists

`toLe w n` writes the `w` low bytes of `n`, lowest byte first, and `ofLe` reads a byte list back.
Both are width-generic, so that one round trip serves every integer field of a wire format.
-/

namespace Cm108Driver
namespace Lib

/-- The `w` low bytes of `n`, lowest byte first. -/
def toLe : Nat → Nat → List UInt8
  | 0, _ => []
  | w + 1, n => UInt8.ofNat n :: toLe w (n / 256)

/-- The number whose bytes, lowest first, are `bs`. -/
def ofLe : List UInt8 → Nat
  | [] => 0
  | b :: bs => b.toNat + 256 * ofLe bs

@[simp] theorem length_toLe (w n : Nat) : (toLe w n).length = w := by
  induction w generalizing n with
  | zero => rfl
  | succ w ih => simp [toLe, ih]

theorem ofLe_lt (bs : List UInt8) : ofLe bs < 256 ^ bs.length := by
  induction bs with
  | nil => simp [ofLe]
  | cons b bs ih =>
      have hb : b.toNat < 256 := b.toNat_lt
      have hstep : 256 * (ofLe bs + 1) ≤ 256 * 256 ^ bs.length := Nat.mul_le_mul_left 256 ih
      have hpow : 256 ^ (bs.length + 1) = 256 * 256 ^ bs.length := by
        rw [Nat.pow_succ, Nat.mul_comm]
      simp only [ofLe, List.length_cons, hpow]
      omega

/-- Writing and reading back keeps a number that fits in `w` bytes. -/
theorem ofLe_toLe {w n : Nat} (h : n < 256 ^ w) : ofLe (toLe w n) = n := by
  induction w generalizing n with
  | zero =>
      have : n = 0 := by simpa using h
      simp [toLe, ofLe, this]
  | succ w ih =>
      have hdiv : n / 256 < 256 ^ w := by
        rw [Nat.div_lt_iff_lt_mul (by decide)]
        simpa [Nat.pow_succ] using h
      have hmod : (UInt8.ofNat n).toNat = n % 256 := by simp
      simp only [toLe, ofLe, ih hdiv, hmod]
      exact Nat.mod_add_div n 256

/-- Reading a byte list and writing it back at its own width keeps the bytes. -/
theorem toLe_ofLe (bs : List UInt8) : toLe bs.length (ofLe bs) = bs := by
  induction bs with
  | nil => rfl
  | cons b bs ih =>
      have hb : b.toNat < 256 := b.toNat_lt
      have hlow : UInt8.ofNat (b.toNat + 256 * ofLe bs) = b := by
        apply UInt8.toNat_inj.1
        simp
      have hhigh : (b.toNat + 256 * ofLe bs) / 256 = ofLe bs := by omega
      simp only [List.length_cons, ofLe, toLe, hlow, hhigh, ih]

end Lib
end Cm108Driver
