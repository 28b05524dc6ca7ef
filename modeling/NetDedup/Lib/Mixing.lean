import Mathlib.Data.Fintype.EquivFin
import Mathlib.SetTheory.Cardinal.Finite
import Mathlib.Tactic.Common

/-!
# Mixing words

Steps that scramble a 64-bit word and lose nothing of it, and how many words a
reduction of the result leaves for each remainder.
-/

namespace NetDedup.Mixing

section Steps

theorem xor_xor_cancel (a b c : UInt64) : (a ^^^ c) ^^^ (b ^^^ c) = a ^^^ b := by
  have hswap : (a ^^^ c) ^^^ (b ^^^ c) = (a ^^^ b) ^^^ (c ^^^ c) := by ac_rfl
  rw [hswap, UInt64.xor_self, UInt64.xor_zero]

/-- A word is folded onto itself from above. -/
theorem xorShift_injective {s : UInt64} (hs : 0 < s.toNat % 64) :
    Function.Injective fun x : UInt64 => x ^^^ (x >>> s) := by
  intro x y h
  -- the difference of two words with one image is its own shift
  have hfixed : x ^^^ y = (x ^^^ y) >>> s := by
    calc
      x ^^^ y = (x ^^^ (x >>> s)) ^^^ (y ^^^ (x >>> s)) := (xor_xor_cancel x y _).symm
      _ = (y ^^^ (y >>> s)) ^^^ (y ^^^ (x >>> s)) := congrArg (· ^^^ (y ^^^ (x >>> s))) h
      _ = ((y >>> s) ^^^ y) ^^^ ((x >>> s) ^^^ y) := by
        rw [UInt64.xor_comm y, UInt64.xor_comm y]
      _ = (x ^^^ y) >>> s := by
        rw [xor_xor_cancel, UInt64.shiftRight_xor, UInt64.xor_comm]
  have hzero : (x ^^^ y).toNat = 0 := by
    have hnat := congrArg UInt64.toNat hfixed
    rw [UInt64.toNat_shiftRight, Nat.shiftRight_eq_div_pow] at hnat
    have hpow : 1 < 2 ^ (s.toNat % 64) := Nat.one_lt_two_pow hs.ne'
    by_contra hne
    exact absurd hnat (Nat.div_lt_self (Nat.pos_of_ne_zero hne) hpow).ne'
  exact UInt64.xor_eq_zero_iff.mp (UInt64.toNat_inj.mp hzero)

/-- A factor with an inverse can be taken back. -/
theorem mul_injective {c d : UInt64} (h : c * d = 1) :
    Function.Injective fun x : UInt64 => x * c := by
  refine Function.LeftInverse.injective (g := fun x => x * d) fun x => ?_
  calc
    x * c * d = x * (c * d) := UInt64.mul_assoc x c d
    _ = x := by rw [h, UInt64.mul_one]

theorem sub_injective (c : UInt64) : Function.Injective fun x : UInt64 => x - c := by
  refine Function.LeftInverse.injective (g := fun x => x + c) fun x => ?_
  exact UInt64.sub_add_cancel x c

end Steps

section Counting

/-- Words and the numbers below `2 ^ 64`. -/
def wordEquiv : UInt64 ≃ Fin (2 ^ 64) where
  toFun := UInt64.toFin
  invFun := UInt64.ofFin
  left_inv _ := rfl
  right_inv _ := rfl

instance finite_word : Finite UInt64 := Finite.of_equiv _ wordEquiv.symm

/-- Bytes and the numbers below 256. -/
def byteEquiv : UInt8 ≃ Fin (2 ^ 8) where
  toFun := UInt8.toFin
  invFun := UInt8.ofFin
  left_inv _ := rfl
  right_inv _ := rfl

theorem card_byte : Nat.card UInt8 = 2 ^ 8 := by
  rw [Nat.card_congr byteEquiv, Nat.card_fin]

theorem card_word : Nat.card UInt64 = 2 ^ 64 := by
  rw [Nat.card_congr wordEquiv, Nat.card_fin]

/-- Every remainder is left by equally many words. -/
theorem card_mod_eq {m n i : Nat} (hm : m * n = 2 ^ 64) (hi : i < m) :
    Nat.card { k : UInt64 // k.toNat % m = i } = n := by
  have hlt (j : Fin n) : i + m * j < 2 ^ 64 := by
    calc
      i + m * j < m + m * j := Nat.add_lt_add_right hi _
      _ = m * (j + 1) := by rw [Nat.mul_add, Nat.mul_one, Nat.add_comm]
      _ ≤ m * n := Nat.mul_le_mul_left m j.isLt
      _ = 2 ^ 64 := hm
  have hnat (j : Fin n) : (UInt64.ofNat (i + m * j)).toNat = i + m * j :=
    UInt64.toNat_ofNat_of_lt' (hlt j)
  have hmod (j : Fin n) : (UInt64.ofNat (i + m * j)).toNat % m = i := by
    rw [hnat, Nat.add_mul_mod_self_left, Nat.mod_eq_of_lt hi]
  have hbij : Function.Bijective fun j : Fin n =>
      (⟨UInt64.ofNat (i + m * j), hmod j⟩ : { k : UInt64 // k.toNat % m = i }) := by
    constructor
    · intro j j' h
      have heq := congrArg (fun k => UInt64.toNat k.val) h
      simp only [hnat] at heq
      exact Fin.ext (Nat.eq_of_mul_eq_mul_left (Nat.zero_lt_of_lt hi) (Nat.add_left_cancel heq))
    · rintro ⟨k, rfl⟩
      refine ⟨⟨k.toNat / m, Nat.div_lt_of_lt_mul (hm.symm ▸ k.toNat_lt)⟩, Subtype.ext ?_⟩
      rw [← UInt64.toNat_inj, hnat, Nat.mod_add_div]
  rw [← Nat.card_congr (Equiv.ofBijective _ hbij), Nat.card_fin]

/-- So it is after the words are mixed. -/
theorem card_mixed_mod_eq {mix : UInt64 → UInt64} (hmix : Function.Injective mix) {m n i : Nat}
    (hm : m * n = 2 ^ 64) (hi : i < m) : Nat.card { k : UInt64 // (mix k).toNat % m = i } = n := by
  let e : UInt64 ≃ UInt64 := Equiv.ofBijective mix (Finite.injective_iff_bijective.mp hmix)
  rw [← card_mod_eq hm hi]
  exact Nat.card_congr (e.subtypeEquiv fun _ => Iff.rfl)

end Counting

end NetDedup.Mixing
