import Mathlib.Algebra.BigOperators.Intervals
import Mathlib.Algebra.BigOperators.Ring.Finset
import Mathlib.Data.ZMod.Basic
import Mathlib.Tactic.Ring
import NetDedup.Lib.Word

/-!
# Polynomial hashes of a window

The hash of `w` consecutive terms of a sequence, weighted by falling powers of
`p`, over any commutative semiring; `hash_next` is the rolling update. Words
are read modulo `2 ^ m`, where wrapping arithmetic is ring arithmetic.
-/

namespace NetDedup.PolyHash

section Semiring

variable {R : Type*} [CommSemiring R] (p : R) (w : Nat) (f : Nat → R)

/-- The hash of the `w` terms from `i` on. -/
def hash (i : Nat) : R := ∑ j ∈ Finset.range w, f (i + j) * p ^ (w - 1 - j)

@[simp] theorem hash_zero_width (i : Nat) : hash p 0 f i = 0 := by
  simp [hash]

/-- A window with one more term in front. -/
theorem hash_succ (i : Nat) : hash p (w + 1) f i = f i * p ^ w + hash p w f (i + 1) := by
  unfold hash
  rw [Finset.sum_range_succ', Nat.add_zero, Nat.add_sub_cancel, Nat.sub_zero, add_comm]
  congr 1
  apply Finset.sum_congr rfl
  intro j _
  rw [Nat.add_right_comm, Nat.add_assoc i, Nat.sub_sub w 1 j, Nat.add_comm 1 j]

/-- A window with one more term behind. -/
theorem hash_snoc (i : Nat) : hash p (w + 1) f i = hash p w f i * p + f (i + w) := by
  unfold hash
  rw [Finset.sum_range_succ, Nat.add_sub_cancel, Nat.sub_self, pow_zero, mul_one,
    Finset.sum_mul]
  congr 1
  apply Finset.sum_congr rfl
  intro j hj
  have hlt := Finset.mem_range.mp hj
  rw [mul_assoc, ← pow_succ]
  congr 2
  omega

/-- Rolling on by one term. -/
theorem hash_next (i : Nat) :
    hash p w f (i + 1) + f i * p ^ w = hash p w f i * p + f (i + w) := by
  rw [add_comm, ← hash_succ, hash_snoc]

end Semiring

/-- Giving up `e` for the first term of the window is right exactly when `e`
is what that term contributes. -/
theorem roll_eq_iff {R : Type*} [CommRing R] (p : R) (w : Nat) (f : Nat → R) (i : Nat) (e : R) :
    hash p w f i * p - e + f (i + w) = hash p w f (i + 1) ↔ e = f i * p ^ w := by
  calc
    hash p w f i * p - e + f (i + w) = hash p w f (i + 1) ↔
        hash p w f (i + 1) + f i * p ^ w - e = hash p w f (i + 1) := by
      rw [hash_next, sub_add_eq_add_sub]
    _ ↔ f i * p ^ w = e := by
      rw [sub_eq_iff_eq_add, add_right_inj]
    _ ↔ e = f i * p ^ w := eq_comm

theorem hash_congr {R : Type*} [CommSemiring R] {p : R} {w : Nat} {f g : Nat → R} {i k : Nat}
    (h : ∀ j < w, f (i + j) = g (k + j)) : hash p w f i = hash p w g k := by
  unfold hash
  apply Finset.sum_congr rfl
  intro j hj
  rw [h j (Finset.mem_range.mp hj)]

theorem hash_of_zeros {R : Type*} [CommSemiring R] (p : R) {w : Nat} {f : Nat → R} {i : Nat}
    (h : ∀ j < w, f (i + j) = 0) : hash p w f i = 0 := by
  unfold hash
  apply Finset.sum_eq_zero
  intro j hj
  rw [h j (Finset.mem_range.mp hj), zero_mul]

/-- The hash of natural numbers, read in another semiring. -/
theorem cast_hash (R : Type*) [CommSemiring R] (p w : Nat) (f : Nat → Nat) (i : Nat) :
    ((hash p w f i : Nat) : R) = hash (p : R) w (fun j => (f j : R)) i := by
  simp only [hash, Nat.cast_sum, Nat.cast_mul, Nat.cast_pow]

section Words

variable {m : Nat}

/-- A word modulo `2 ^ m`. -/
def low (m : Nat) (x : UInt64) : ZMod (2 ^ m) := (x.toNat : ZMod (2 ^ m))

theorem low_eq_iff {x y : UInt64} : low m x = low m y ↔ Word.Congr m x y :=
  ZMod.natCast_eq_natCast_iff _ _ _

theorem low_one : low m 1 = 1 := by
  simp [low]

theorem cast_mod_word (hm : m ≤ 64) (a : Nat) :
    ((a % 2 ^ 64 : Nat) : ZMod (2 ^ m)) = (a : ZMod (2 ^ m)) :=
  (ZMod.natCast_eq_natCast_iff _ _ _).mpr (Word.Congr.mod_word hm a)

theorem low_add (hm : m ≤ 64) (x y : UInt64) : low m (x + y) = low m x + low m y := by
  rw [low, UInt64.toNat_add, cast_mod_word hm, Nat.cast_add]
  rfl

theorem low_mul (hm : m ≤ 64) (x y : UInt64) : low m (x * y) = low m x * low m y := by
  rw [low, UInt64.toNat_mul, cast_mod_word hm, Nat.cast_mul]
  rfl

theorem low_sub (hm : m ≤ 64) (x y : UInt64) : low m (x - y) = low m x - low m y := by
  rw [eq_sub_iff_add_eq, ← low_add hm, UInt64.sub_add_cancel]

theorem low_and_lowMask {k : UInt8} (hk : k < 64) (x : UInt64) :
    low k.toNat (x &&& Word.lowMask k) = low k.toNat x :=
  low_eq_iff.mpr (Word.Congr.and_lowMask hk x)

end Words

end NetDedup.PolyHash
