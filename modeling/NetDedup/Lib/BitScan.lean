import Mathlib.Tactic.Common
import Mathlib.Data.Nat.Find

/-!
# Bit vectors in 64-bit words

A vector of `w` words is a cyclic sequence of `64 * w` bits. The word-level
search below masks the start word once, then takes whole words, and returns
to the start word unmasked; it finds the first set bit of the cyclic scan.
-/

namespace NetDedup.BitScan

/-- Bit `i` of a word. -/
def bit (x : UInt64) (i : Nat) : Bool := x.toBitVec.getLsbD i

/-- `__builtin_ctzll`: the least set bit of a word that is not zero. -/
def ctz (x : UInt64) : Nat := ((List.range 64).find? (bit x)).getD 64

theorem exists_bit {x : UInt64} (h : x ≠ 0) : ∃ i < 64, bit x i = true := by
  by_contra hnone
  apply h
  apply UInt64.toBitVec_inj.mp
  apply BitVec.eq_of_getLsbD_eq
  intro i hi
  have hb : bit x i ≠ true := fun hb => hnone ⟨i, hi, hb⟩
  simpa [bit] using hb

@[simp] theorem bit_zero (i : Nat) : bit 0 i = false := by
  simp [bit]

/-- The trailing-zero count is the least set bit. -/
theorem ctz_spec {x : UInt64} (h : x ≠ 0) :
    ctz x < 64 ∧ bit x (ctz x) = true ∧ ∀ j < ctz x, bit x j = false := by
  obtain ⟨i, hi, hbit⟩ := exists_bit h
  obtain ⟨c, hc⟩ : ∃ c, (List.range 64).find? (bit x) = some c := by
    rw [← Option.isSome_iff_exists, List.find?_isSome]
    exact ⟨i, List.mem_range.mpr hi, hbit⟩
  have hctz : ctz x = c := by simp [ctz, hc]
  obtain ⟨hset, k, hk, hkc, hbefore⟩ := List.find?_eq_some_iff_getElem.mp hc
  rw [List.getElem_range] at hkc
  subst hkc
  rw [hctz]
  refine ⟨by simpa using hk, hset, fun j hj => ?_⟩
  have := hbefore j hj
  rw [List.getElem_range] at this
  simpa using this

/-- The word with its bits below `b` cleared. -/
def maskFrom (x : UInt64) (b : Nat) : UInt64 := x &&& (0xFFFFFFFFFFFFFFFF <<< UInt64.ofNat b)

theorem bit_and (x y : UInt64) (i : Nat) : bit (x &&& y) i = (bit x i && bit y i) := by
  simp only [bit, UInt64.toBitVec_and, BitVec.getLsbD_and]

theorem bit_not (x : UInt64) {i : Nat} (hi : i < 64) : bit (~~~x) i = !bit x i := by
  simp only [bit, UInt64.toBitVec_not, BitVec.getLsbD_not, hi, decide_true, Bool.true_and]

theorem bit_shiftLeft (x : UInt64) {b i : Nat} (hb : b < 64) (hi : i < 64) :
    bit (x <<< UInt64.ofNat b) i = (decide (b ≤ i) && bit x (i - b)) := by
  have hcount : ((UInt64.ofNat b).toBitVec % 64).toNat = b := by
    simp [Nat.mod_eq_of_lt hb]
  simp only [bit, UInt64.toBitVec_shiftLeft, BitVec.shiftLeft_eq', BitVec.getLsbD_shiftLeft,
    hcount, hi, decide_true, Bool.true_and]
  by_cases h : i < b
  · simp [h, Nat.not_le.mpr h]
  · simp [h, Nat.le_of_not_lt h]

theorem bit_maskFrom (x : UInt64) {b : Nat} (hb : b < 64) (i : Nat) :
    bit (maskFrom x b) i = (bit x i && decide (b ≤ i)) := by
  by_cases hi : i < 64
  · have hones : bit (0xFFFFFFFFFFFFFFFF : UInt64) (i - b) = true := by
      rw [bit, show (0xFFFFFFFFFFFFFFFF : UInt64).toBitVec = BitVec.allOnes 64 from rfl,
        BitVec.getLsbD_allOnes]
      exact decide_eq_true (by omega)
    rw [maskFrom, bit_and, bit_shiftLeft _ hb hi, hones, Bool.and_true]
  · simp [bit, BitVec.getLsbD_of_ge _ _ (Nat.le_of_not_lt hi)]

/-- The word with bit `b` cleared. -/
def clearBit (x : UInt64) (b : Nat) : UInt64 := x &&& ~~~(1 <<< UInt64.ofNat b)

theorem bit_clearBit (x : UInt64) {b : Nat} (hb : b < 64) (i : Nat) :
    bit (clearBit x b) i = (bit x i && decide (i ≠ b)) := by
  by_cases hi : i < 64
  · have hone : bit 1 (i - b) = decide (i - b = 0) := by
      simp [bit]
    have heq : (!(decide (b ≤ i) && decide (i - b = 0))) = decide (i ≠ b) := by
      rw [← Bool.decide_and, ← decide_not]
      congr 1
      exact propext (by omega)
    rw [clearBit, bit_and, bit_not _ hi, bit_shiftLeft _ hb hi, hone, heq]
  · simp [bit, BitVec.getLsbD_of_ge _ _ (Nat.le_of_not_lt hi)]

/-- The word with bit `b` set. -/
def setBit (x : UInt64) (b : Nat) : UInt64 := x ||| (1 <<< UInt64.ofNat b)

theorem bit_or (x y : UInt64) (i : Nat) : bit (x ||| y) i = (bit x i || bit y i) := by
  simp only [bit, UInt64.toBitVec_or, BitVec.getLsbD_or]

theorem bit_setBit (x : UInt64) {b : Nat} (hb : b < 64) {i : Nat} (hi : i < 64) :
    bit (setBit x b) i = (bit x i || decide (i = b)) := by
  have hone : bit 1 (i - b) = decide (i - b = 0) := by
    simp [bit]
  have heq : (decide (b ≤ i) && decide (i - b = 0)) = decide (i = b) := by
    rw [← Bool.decide_and]
    congr 1
    exact propext (by omega)
  rw [setBit, bit_or, bit_shiftLeft _ hb hi, hone, heq]

section Scan

variable (vec : Nat → UInt64) (w : Nat)

/-- Bit `p` of the cyclic sequence of `64 * w` bits. -/
def cyclicBit (p : Nat) : Bool := bit (vec (p / 64 % w)) (p % 64)

/-- The search loop: `cur` counts words without wrapping, `search` is what is
left to look at in the current one. -/
def scanWords : Nat → Nat → UInt64 → Option Nat
  | 0, _, _ => none
  | fuel + 1, cur, search =>
      if search = 0 then scanWords fuel (cur + 1) (vec ((cur + 1) % w))
      else some (64 * (cur % w) + ctz search)

variable {vec w}

/-- `p` is the first position from `start` on whose bit is set. -/
structure FirstSet (vec : Nat → UInt64) (w start p : Nat) : Prop where
  le : start ≤ p
  set : cyclicBit vec w p = true
  clear : ∀ q, start ≤ q → q < p → cyclicBit vec w q = false

theorem cyclicBit_eq {cur i : Nat} (hi : i < 64) :
    cyclicBit vec w (64 * cur + i) = bit (vec (cur % w)) i := by
  have hdiv : (64 * cur + i) / 64 = cur := by omega
  have hmod : (64 * cur + i) % 64 = i := by omega
  rw [cyclicBit, hdiv, hmod]

theorem cyclicBit_add (p : Nat) : cyclicBit vec w (p + 64 * w) = cyclicBit vec w p := by
  have hdiv : (p + 64 * w) / 64 = p / 64 + w := by omega
  have hmod : (p + 64 * w) % 64 = p % 64 := by omega
  rw [cyclicBit, cyclicBit, hdiv, hmod, Nat.add_mod_right]

theorem cyclicBit_mod (p : Nat) : cyclicBit vec w (p % (64 * w)) = cyclicBit vec w p := by
  conv => rhs; rw [← Nat.mod_add_div p (64 * w)]
  generalize p / (64 * w) = k
  induction k with
  | zero => simp
  | succ k ih => rw [Nat.mul_succ, ← Nat.add_assoc, cyclicBit_add, ih]

/-- What `search` must say about the current word: its bits from `start` on. -/
def SearchFrom (vec : Nat → UInt64) (w start cur : Nat) (search : UInt64) : Prop :=
  ∀ i < 64, bit search i = (bit (vec (cur % w)) i && decide (start ≤ 64 * cur + i))

/-- A search that starts on a clean prefix finds the first set bit, or all
positions of the words it was allowed to look at are clear. -/
theorem scanWords_spec (start : Nat) (fuel : Nat) :
    ∀ (cur : Nat) (search : UInt64), SearchFrom vec w start cur search →
      start < 64 * cur + 64 → (∀ q, start ≤ q → q < 64 * cur → cyclicBit vec w q = false) →
      match scanWords vec w fuel cur search with
      | some r => ∃ p, FirstSet vec w start p ∧ r = p % (64 * w)
      | none => ∀ q, start ≤ q → q < 64 * (cur + fuel) → cyclicBit vec w q = false := by
  induction fuel with
  | zero =>
      intro cur search _ _ hclear
      simpa [scanWords] using hclear
  | succ fuel ih =>
      intro cur search hsearch hstart hclear
      have hword {i : Nat} (hi : i < 64) (hge : start ≤ 64 * cur + i) :
          cyclicBit vec w (64 * cur + i) = bit search i := by
        rw [cyclicBit_eq hi, hsearch i hi]
        simp [hge]
      by_cases hzero : search = 0
      · have hclear' : ∀ q, start ≤ q → q < 64 * (cur + 1) → cyclicBit vec w q = false := by
          intro q hge hlt
          rcases Nat.lt_or_ge q (64 * cur) with hq | hq
          · exact hclear q hge hq
          · obtain ⟨i, rfl⟩ := Nat.exists_eq_add_of_le hq
            rw [hword (by omega) hge, hzero, bit_zero]
        have hnext : SearchFrom vec w start (cur + 1) (vec ((cur + 1) % w)) := by
          intro i _
          have : start ≤ 64 * (cur + 1) + i := by omega
          simp [this]
        have h := ih (cur + 1) _ hnext (by omega) hclear'
        rw [scanWords, if_pos hzero]
        rwa [show cur + (fuel + 1) = cur + 1 + fuel by omega]
      · obtain ⟨hlt, hset, hleast⟩ := ctz_spec hzero
        have hge : start ≤ 64 * cur + ctz search := by
          have h := hsearch _ hlt
          rw [hset] at h
          simpa using (Bool.and_eq_true_iff.mp h.symm).2
        rw [scanWords, if_neg hzero]
        refine ⟨64 * cur + ctz search, ⟨hge, ?_, ?_⟩, ?_⟩
        · rw [hword hlt hge, hset]
        · intro q hq hqlt
          rcases Nat.lt_or_ge q (64 * cur) with h | h
          · exact hclear q hq h
          · obtain ⟨i, rfl⟩ := Nat.exists_eq_add_of_le h
            rw [hword (by omega) hq, hleast i (by omega)]
        · rw [Nat.add_mod, Nat.mul_mod_mul_left]
          rcases Nat.eq_zero_or_pos w with rfl | hw
          · simp
          · have hcur := Nat.mod_lt cur hw
            rw [Nat.mod_eq_of_lt (show ctz search < 64 * w by omega),
              Nat.mod_eq_of_lt (show 64 * (cur % w) + ctz search < 64 * w by omega)]

/-- The first set bit of a full turn lies within the turn. -/
theorem FirstSet.lt_turn {start p : Nat} (h : FirstSet vec w start p) :
    p < start + 64 * w ∨ w = 0 := by
  by_contra hge
  have hle : start ≤ p - 64 * w := by omega
  have hclear := h.clear (p - 64 * w) hle (by omega)
  rw [← cyclicBit_add, show p - 64 * w + 64 * w = p by omega, h.set] at hclear
  exact Bool.noConfusion hclear

end Scan

end NetDedup.BitScan
