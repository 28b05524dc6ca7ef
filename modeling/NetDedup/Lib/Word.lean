import Mathlib.Data.Nat.ModEq
import Mathlib.Tactic.Common

/-!
# Wrapping words modulo a power of two

Sixty-four-bit arithmetic wraps modulo `2 ^ 64`, so below any smaller power
of two it is exact arithmetic. `Congr m` relates words with equal low `m`
bits; the word operations respect it, and masking decides it.
-/

namespace NetDedup.Word

/-- The word whose low `m` bits are set. -/
def lowMask (m : UInt8) : UInt64 := (1 <<< m.toUInt64) - 1

/-- Equality of the low `m` bits. -/
def Congr (m : Nat) (x y : UInt64) : Prop := x.toNat ≡ y.toNat [MOD 2 ^ m]

theorem lowMask_toNat {m : UInt8} (h : m < 64) : (lowMask m).toNat = 2 ^ m.toNat - 1 := by
  have hm : m.toNat < 64 := by simpa [UInt8.lt_iff_toNat_lt] using h
  have hone : ((1 : UInt64) <<< m.toUInt64).toNat = 2 ^ m.toNat := by
    have hlt : 2 ^ m.toNat < 2 ^ 64 := Nat.pow_lt_pow_right (by omega) hm
    rw [UInt64.toNat_shiftLeft]
    simpa [Nat.mod_eq_of_lt hm, Nat.shiftLeft_eq] using hlt
  rw [lowMask, UInt64.toNat_sub_of_le]
  · rw [hone]
    rfl
  · rw [UInt64.le_iff_toNat_le, hone]
    exact Nat.one_le_two_pow

theorem and_lowMask_toNat (x : UInt64) {m : UInt8} (h : m < 64) :
    (x &&& lowMask m).toNat = x.toNat % 2 ^ m.toNat := by
  rw [UInt64.toNat_and, lowMask_toNat h, Nat.and_two_pow_sub_one_eq_mod]

/-- Masked words are equal exactly when the words agree on the kept bits. -/
theorem and_lowMask_eq_iff {x y : UInt64} {m : UInt8} (h : m < 64) :
    x &&& lowMask m = y &&& lowMask m ↔ Congr m.toNat x y := by
  rw [← UInt64.toNat_inj, and_lowMask_toNat x h, and_lowMask_toNat y h]
  rfl

namespace Congr

variable {m n : Nat} {x y z w : UInt64}

theorem refl (m : Nat) (x : UInt64) : Congr m x x := Nat.ModEq.refl _

theorem symm (h : Congr m x y) : Congr m y x := Nat.ModEq.symm h

theorem trans (h : Congr m x y) (h' : Congr m y z) : Congr m x z := Nat.ModEq.trans h h'

/-- Agreement on more bits gives agreement on fewer. -/
theorem mono (h : Congr m x y) (hn : n ≤ m) : Congr n x y :=
  Nat.ModEq.of_dvd (Nat.pow_dvd_pow 2 hn) h

theorem mod_word (hm : m ≤ 64) (a : Nat) : a % 2 ^ 64 ≡ a [MOD 2 ^ m] :=
  Nat.ModEq.of_dvd (Nat.pow_dvd_pow 2 hm) (Nat.mod_modEq a _)

theorem add (hm : m ≤ 64) (h : Congr m x y) (h' : Congr m z w) : Congr m (x + z) (y + w) := by
  unfold Congr at *
  rw [UInt64.toNat_add, UInt64.toNat_add]
  exact ((mod_word hm _).trans (Nat.ModEq.add h h')).trans (mod_word hm _).symm

theorem mul (hm : m ≤ 64) (h : Congr m x y) (h' : Congr m z w) : Congr m (x * z) (y * w) := by
  unfold Congr at *
  rw [UInt64.toNat_mul, UInt64.toNat_mul]
  exact ((mod_word hm _).trans (Nat.ModEq.mul h h')).trans (mod_word hm _).symm

theorem sub_right (hm : m ≤ 64) (h : Congr m x y) (t : UInt64) : Congr m (x - t) (y - t) := by
  unfold Congr at *
  rw [UInt64.toNat_sub, UInt64.toNat_sub]
  exact ((mod_word hm _).trans (Nat.ModEq.add_left _ h)).trans (mod_word hm _).symm

/-- Masking changes no kept bit. -/
theorem and_lowMask {k : UInt8} (hk : k < 64) (x : UInt64) :
    Congr k.toNat (x &&& lowMask k) x := by
  unfold Congr
  rw [and_lowMask_toNat x hk]
  exact Nat.mod_modEq _ _

end Congr

end NetDedup.Word
