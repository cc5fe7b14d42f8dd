/-!
# Little-endian numbers

A number of `width` bytes is stored with its least significant byte first. Reading `width` stored
bytes and storing a number below `256 ^ width` undo each other.
-/

namespace SoundLog
namespace LittleEndian

/-- The number whose bytes, least significant first, are given. -/
def toNat : List UInt8 → Nat
  | [] => 0
  | b :: bs => b.toNat + 256 * toNat bs

/-- The `width` lowest bytes of a number, least significant first. -/
def ofNat : (width : Nat) → Nat → List UInt8
  | 0, _ => []
  | width + 1, n => UInt8.ofNat n :: ofNat width (n / 256)

@[simp] theorem toNat_nil : toNat [] = 0 := rfl

@[simp] theorem toNat_cons (b : UInt8) (bs : List UInt8) :
    toNat (b :: bs) = b.toNat + 256 * toNat bs := rfl

@[simp] theorem length_ofNat (width n : Nat) : (ofNat width n).length = width := by
  induction width generalizing n with
  | zero => rfl
  | succ width ih => simp [ofNat, ih]

theorem toNat_lt (bs : List UInt8) : toNat bs < Nat.pow 256 bs.length := by
  rw [Nat.pow_eq]
  induction bs with
  | nil => simp
  | cons b bs ih =>
    have hb : b.toNat < 256 := b.toNat_lt
    simp only [toNat_cons, List.length_cons, Nat.pow_succ]
    omega

theorem toNat_ofNat {width n : Nat} (h : n < Nat.pow 256 width) :
    toNat (ofNat width n) = n := by
  induction width generalizing n with
  | zero =>
    simp only [Nat.pow_eq, Nat.pow_zero] at h
    simp only [ofNat, toNat_nil]
    omega
  | succ width ih =>
    have hdiv : n / 256 < Nat.pow 256 width := by
      apply (Nat.div_lt_iff_lt_mul (by decide : 0 < 256)).2
      simpa [Nat.pow_succ] using h
    simp only [ofNat, toNat_cons, UInt8.toNat_ofNat', ih hdiv]
    omega

theorem ofNat_toNat (bs : List UInt8) : ofNat bs.length (toNat bs) = bs := by
  induction bs with
  | nil => rfl
  | cons b bs ih =>
    have hb : b.toNat < 256 := b.toNat_lt
    have hdiv : (b.toNat + 256 * toNat bs) / 256 = toNat bs := by omega
    have hlow : UInt8.ofNat (b.toNat + 256 * toNat bs) = b := by
      apply UInt8.toNat_inj.1
      rw [UInt8.toNat_ofNat']
      omega
    simp only [List.length_cons, toNat_cons, ofNat, hlow, hdiv, ih]

end LittleEndian
end SoundLog
