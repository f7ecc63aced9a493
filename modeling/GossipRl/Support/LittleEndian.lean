import Mathlib.Algebra.Order.Ring.Nat
import Mathlib.Data.List.Basic
import Mathlib.Tactic.Ring

/-!
# Little-endian fields in byte strings

`leEncode k n` is the `k`-byte little-endian image of `n`, `leDecode` reads one back, and
`leField bs off k` reads the `k` bytes of `bs` at offset `off`. A record copied into memory is the
concatenation of the images of its fields; `leField_append_of_le` skips the fields before the one
that is read and `leField_leEncode` reads it.
-/

namespace Support

/-- The `k` low bytes of `n`, lowest first. -/
def leEncode : Nat → Nat → List UInt8
  | 0, _ => []
  | k + 1, n => UInt8.ofNat n :: leEncode k (n / 256)

/-- The number whose bytes are `bs`, lowest first. -/
def leDecode : List UInt8 → Nat
  | [] => 0
  | b :: bs => b.toNat + 256 * leDecode bs

/-- The number in the `k` bytes of `bs` at offset `off`. -/
def leField (bs : List UInt8) (off k : Nat) : Nat := leDecode ((bs.drop off).take k)

@[simp] theorem leEncode_length (k n : Nat) : (leEncode k n).length = k := by
  induction k generalizing n with
  | zero => rfl
  | succ k ih => simp [leEncode, ih]

theorem leDecode_leEncode (k n : Nat) : leDecode (leEncode k n) = n % 256 ^ k := by
  induction k generalizing n with
  | zero => simp [leEncode, leDecode, Nat.mod_one]
  | succ k ih =>
    have hb : (UInt8.ofNat n).toNat = n % 256 := by simp
    rw [leEncode, leDecode, ih, hb, pow_succ', Nat.mod_mul]

theorem leEncode_leDecode (bs : List UInt8) : leEncode bs.length (leDecode bs) = bs := by
  induction bs with
  | nil => rfl
  | cons b bs ih =>
    have hb := b.toNat_lt
    have hdiv : (b.toNat + 256 * leDecode bs) / 256 = leDecode bs := by omega
    have hmod : UInt8.ofNat (b.toNat + 256 * leDecode bs) = b := by
      rw [UInt8.ofNat_eq_iff_mod_eq_toNat]
      omega
    rw [List.length_cons, leDecode, leEncode, hdiv, hmod, ih]

theorem leDecode_lt (bs : List UInt8) : leDecode bs < 256 ^ bs.length := by
  induction bs with
  | nil => simp [leDecode]
  | cons b bs ih =>
    have := b.toNat_lt
    rw [leDecode, List.length_cons, pow_succ]
    omega

theorem leField_append_of_le {pre : List UInt8} {off : Nat} (h : pre.length ≤ off)
    (bs : List UInt8) (k : Nat) : leField (pre ++ bs) off k = leField bs (off - pre.length) k := by
  rw [leField, leField, List.drop_append, List.drop_eq_nil_of_le h, List.nil_append]

theorem leField_leEncode (k n : Nat) (post : List UInt8) :
    leField (leEncode k n ++ post) 0 k = n % 256 ^ k := by
  have h : (leEncode k n ++ post).take k = leEncode k n := by
    rw [List.take_append_of_le_length (by simp), List.take_of_length_le (by simp)]
  rw [leField, List.drop_zero, h, leDecode_leEncode]

end Support
