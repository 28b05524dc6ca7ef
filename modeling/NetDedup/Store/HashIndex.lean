import Mathlib.Logic.Equiv.Fin.Basic
import NetDedup.Lib.Memory
import NetDedup.Lib.Mixing
import NetDedup.Store.FingerprintTable

/-!
# The spread of hash indices

The hash index of a digest is a reversible scramble of its last eight bytes,
reduced to the table. No slot has more digests that start at it than another one.
-/

namespace NetDedup.Store

open Memory Mixing

/-- `fingerprint_hash_func_64` before the reduction. -/
def mixKey (key : UInt64) : UInt64 :=
  let key := (key <<< 21) - key - 1
  let key := key ^^^ (key >>> 24)
  let key := (key + (key <<< 3)) + (key <<< 8)
  let key := key ^^^ (key >>> 14)
  let key := (key + (key <<< 2)) + (key <<< 4)
  let key := key ^^^ (key >>> 28)
  key + (key <<< 31)

theorem fingerprintHashFunc64_eq (key : UInt64) :
    fingerprintHashFunc64 key = (mixKey key).toNat % fingerprintTableSize := rfl

/-- A shift to the left is a product. -/
theorem shiftLeft_eq_mul (key : UInt64) {s : UInt64} (hs : s.toNat < 64) :
    key <<< s = key * UInt64.ofNat (2 ^ s.toNat) := by
  rw [← UInt64.toNat_inj, UInt64.toNat_shiftLeft, UInt64.toNat_mul, Nat.mod_eq_of_lt hs,
    Nat.shiftLeft_eq, UInt64.toNat_ofNat_of_lt' (Nat.pow_lt_pow_right (by decide) hs)]

/-- The sums of shifted keys are products with odd numbers. -/
theorem mixKey_steps (key : UInt64) :
    (key <<< 21) - key - 1 = key * 2097151 - 1 ∧
      (key + (key <<< 3)) + (key <<< 8) = key * 265 ∧
      (key + (key <<< 2)) + (key <<< 4) = key * 21 ∧
      key + (key <<< 31) = key * 2147483649 := by
  have h21 : key <<< 21 = key * 2097152 := shiftLeft_eq_mul key (by decide)
  have h3 : key <<< 3 = key * 8 := shiftLeft_eq_mul key (by decide)
  have h8 : key <<< 8 = key * 256 := shiftLeft_eq_mul key (by decide)
  have h2 : key <<< 2 = key * 4 := shiftLeft_eq_mul key (by decide)
  have h4 : key <<< 4 = key * 16 := shiftLeft_eq_mul key (by decide)
  have h31 : key <<< 31 = key * 2147483648 := shiftLeft_eq_mul key (by decide)
  rw [h21, h3, h8, h2, h4, h31]
  grind

/-- No two keys are mixed into the same word. -/
theorem mixKey_injective : Function.Injective mixKey := by
  have hfirst : Function.Injective fun key : UInt64 => key * 2097151 - 1 :=
    (sub_injective 1).comp (mul_injective (d := 9223367638806167551) (by decide))
  have hsecond : Function.Injective fun key : UInt64 => key * 265 :=
    mul_injective (d := 15244667743933553977) (by decide)
  have hthird : Function.Injective fun key : UInt64 => key * 21 :=
    mul_injective (d := 14933078535860113213) (by decide)
  have hlast : Function.Injective fun key : UInt64 => key * 2147483649 :=
    mul_injective (d := 4611686016279904257) (by decide)
  have h24 := @xorShift_injective 24 (by decide)
  have h14 := @xorShift_injective 14 (by decide)
  have h28 := @xorShift_injective 28 (by decide)
  intro key key' h
  simp only [mixKey, (mixKey_steps _).1, (mixKey_steps _).2.1, (mixKey_steps _).2.2.1,
    (mixKey_steps _).2.2.2] at h
  exact hfirst (h24 (hsecond (h14 (hthird (h28 (hlast h))))))

section Digests

/-- Bytes as a word, first byte highest. -/
def wordOfBytes (bs : List UInt8) : UInt64 :=
  bs.foldl (fun result b => (result <<< 8) ||| b.toUInt64) 0

theorem toNat_wordOfBytes (bs : List UInt8) (hlen : bs.length ≤ 8) :
    (wordOfBytes bs).toNat = leNat bs.reverse := by
  induction bs using List.reverseRecOn with
  | nil => rfl
  | append_singleton bs b ih =>
      rw [List.length_append, List.length_singleton] at hlen
      have hih := ih (by omega)
      have hword : (wordOfBytes bs).toNat < 2 ^ 56 := by
        have hlt := leNat_lt bs.reverse
        rw [← hih, List.length_reverse] at hlt
        have hpow : 256 ^ bs.length ≤ 256 ^ 7 := Nat.pow_le_pow_right (by decide) (by omega)
        exact hlt.trans_le hpow
      have hstep : wordOfBytes (bs ++ [b]) = (wordOfBytes bs <<< 8) ||| b.toUInt64 := by
        rw [wordOfBytes, List.foldl_append]
        rfl
      rw [hstep, UInt64.toNat_or, UInt64.toNat_shiftLeft, UInt8.toNat_toUInt64,
        List.reverse_append, List.reverse_singleton, List.singleton_append, leNat, ← hih]
      have hb := b.toNat_lt
      have hlow : (8 : UInt64).toNat % 64 = 8 := rfl
      rw [hlow, Nat.shiftLeft_eq, Nat.mod_eq_of_lt (by omega), ← Nat.shiftLeft_eq,
        ← Nat.shiftLeft_add_eq_or_of_lt hb, Nat.shiftLeft_eq]
      omega

/-- Eight bytes are a word and the other way round. -/
theorem wordOfBytes_bijective :
    Function.Bijective fun bs : Fin 8 → UInt8 => wordOfBytes (List.ofFn bs) := by
  have hnat (bs : Fin 8 → UInt8) : (wordOfBytes (List.ofFn bs)).toNat =
      leNat (List.ofFn bs).reverse := toNat_wordOfBytes _ (by rw [List.length_ofFn])
  have hinj : Function.Injective fun bs : Fin 8 → UInt8 => wordOfBytes (List.ofFn bs) := by
    intro bs bs' h
    have heq := congrArg UInt64.toNat h
    simp only [hnat] at heq
    have hlen (bs : Fin 8 → UInt8) : (List.ofFn bs).reverse.length = 8 := by
      rw [List.length_reverse, List.length_ofFn]
    have hback (bs : Fin 8 → UInt8) :
        leBytes 8 (leNat (List.ofFn bs).reverse) = (List.ofFn bs).reverse := by
      have hbytes := leBytes_leNat (List.ofFn bs).reverse
      rwa [hlen] at hbytes
    have hbytes := congrArg (leBytes 8) heq
    rw [hback, hback] at hbytes
    exact List.ofFn_injective (List.reverse_injective hbytes)
  refine (Nat.bijective_iff_injective_and_card _).mpr ⟨hinj, ?_⟩
  rw [Nat.card_fun, card_byte, Nat.card_fin, card_word, ← Nat.pow_mul]

/-- A digest in two parts, of which the second one is hashed. -/
def digestEquiv : Digest ≃ (Fin 24 → UInt8) × (Fin 8 → UInt8) :=
  let bytes : Digest ≃ (Fin (24 + 8) → UInt8) :=
    { toFun := fun d i => d.get i
      invFun := fun f => Vector.ofFn f
      left_inv := fun _ => Vector.ext fun _ hi => Vector.getElem_ofFn hi
      right_inv := fun _ => funext fun i => Vector.getElem_ofFn i.isLt }
  bytes.trans (Fin.appendEquiv 24 8).symm

theorem inlineFingerprintToLeastSig64_eq (d : Digest) :
    inlineFingerprintToLeastSig64 d = wordOfBytes (List.ofFn (digestEquiv d).2) := by
  have hlast : d.toList.drop (fingerprintNumBytes - 8) = List.ofFn (digestEquiv d).2 := by
    refine List.ext_getElem ?_ fun i hi hi' => ?_
    · rw [List.length_drop, Vector.length_toList, List.length_ofFn]
      rfl
    · rw [List.getElem_drop, List.getElem_ofFn, Vector.getElem_toList]
      rfl
  rw [inlineFingerprintToLeastSig64, hlast, wordOfBytes]

/-- Every slot is the hash index of equally many keys. -/
theorem card_hashFunc {ind : Nat} (hind : ind < fingerprintTableSize) :
    Nat.card { key : UInt64 // fingerprintHashFunc64 key = ind } * fingerprintTableSize =
      2 ^ 64 := by
  have hsize : fingerprintTableSize * 2 ^ 34 = 2 ^ 64 := by decide
  have hcard := card_mixed_mod_eq mixKey_injective hsize hind
  simp only [fingerprintHashFunc64_eq, hcard]
  exact (Nat.mul_comm _ _).trans hsize

/-- The digests with a hash index are the keys that have it, with any 24 bytes in front. -/
theorem card_hashInd (ind : Nat) : Nat.card { d : Digest // hashInd d = ind } =
    2 ^ 192 * Nat.card { key : UInt64 // fingerprintHashFunc64 key = ind } := by
  let word := Equiv.ofBijective _ wordOfBytes_bijective
  let split := (digestEquiv.trans (Equiv.prodCongrRight fun _ => word)).trans (Equiv.prodComm _ _)
  have hind (d : Digest) : hashInd d = fingerprintHashFunc64 (split d).1 := by
    rw [hashInd, inlineFingerprintToLeastSig64_eq]
    rfl
  have hfibre : { d : Digest // hashInd d = ind } ≃
      { key : UInt64 // fingerprintHashFunc64 key = ind } × (Fin 24 → UInt8) :=
    (split.subtypeEquiv fun d => by rw [hind]).trans (@Equiv.prodSubtypeFstEquivSubtypeProd
      UInt64 (Fin 24 → UInt8) fun key => fingerprintHashFunc64 key = ind)
  rw [Nat.card_congr hfibre, Nat.card_prod, Nat.card_fun, card_byte, Nat.card_fin, ← Nat.pow_mul,
    Nat.mul_comm]

/-- No slot of the table has more digests that start at it than another one: of all
`2 ^ 256` digests, one in `fingerprintTableSize` does. -/
theorem hashInd_uniform {ind : Nat} (hind : ind < fingerprintTableSize) :
    Nat.card { d : Digest // hashInd d = ind } * fingerprintTableSize = 2 ^ 256 := by
  rw [card_hashInd, Nat.mul_assoc, card_hashFunc hind, ← Nat.pow_add]

/-- It holds of the first slot. -/
theorem hashInd_uniform_zero :
    Nat.card { d : Digest // hashInd d = 0 } * fingerprintTableSize = 2 ^ 256 :=
  hashInd_uniform fingerprintTableSize_pos

end Digests

end NetDedup.Store
