import Mathlib.Order.Interval.Set.Basic
import NetDedup.Fingerprint.Partition

/-!
# The parts of a receive buffer

Which addresses of a receive buffer hold their bytes while chunks are copied
from the cache and missing chunks arrive.
-/

namespace NetDedup.Delivery

open Chunking

/-- The addresses of chunk `i`. -/
def Part (fps : List Fingerprint) (i : Nat) : Set Nat :=
  Set.Ico (boundary fps i) (boundary fps (i + 1))

/-- The addresses of the chunks before `n` that are not missing. -/
def cached (fps : List Fingerprint) (missing : List Nat) (n : Nat) : Set Nat :=
  { a | ∃ i < n, i ∉ missing ∧ a ∈ Part fps i }

/-- The addresses that are filled when the missing chunks before number `t` have
arrived, and `off` bytes of that one. -/
def arrived (fps : List Fingerprint) (missing : List Nat) (t off : Nat) : Set Nat :=
  cached fps (missing.drop t) fps.length ∪
    { a | ∃ i, missing[t]? = some i ∧ a ∈ Set.Ico (boundary fps i) (boundary fps i + off) }

variable {fps : List Fingerprint} {missing : List Nat}

theorem cached_zero : cached fps missing 0 ⊆ ∅ := by
  rintro a ⟨i, hi, -⟩
  exact absurd hi (Nat.not_lt_zero i)

/-- A chunk is copied from the cache. -/
theorem cached_copy (n : Nat) : cached fps missing (n + 1) ⊆ cached fps missing n ∪ Part fps n := by
  rintro a ⟨i, hi, hmissing, ha⟩
  rcases Nat.lt_or_eq_of_le (Nat.lt_succ_iff.mp hi) with hlt | rfl
  · exact Or.inl ⟨i, hlt, hmissing, ha⟩
  · exact Or.inr ha

/-- A chunk is noted as missing. -/
theorem cached_miss (n : Nat) :
    cached fps (missing ++ [n]) (n + 1) ⊆ cached fps missing n := by
  rintro a ⟨i, hi, hmissing, ha⟩
  obtain ⟨hold, hnew⟩ := not_or.mp (mt List.mem_append.mpr hmissing)
  have hne : i ≠ n := fun h => hnew (List.mem_singleton.mpr h)
  exact ⟨i, Nat.lt_of_le_of_ne (Nat.lt_succ_iff.mp hi) hne, hold, ha⟩

theorem arrived_start : arrived fps missing 0 0 ⊆ cached fps missing fps.length := by
  rintro a (ha | ⟨i, -, hlo, hhi⟩)
  · exact ha
  · exact absurd hhi (Nat.not_lt_of_ge hlo)

section Missing

variable {t i off : Nat} (hi : missing[t]? = some i)

include hi

/-- More of a missing chunk arrives. -/
theorem arrived_part (n : Nat) : arrived fps missing t (off + n) ⊆ arrived fps missing t off ∪
    Set.Ico (boundary fps i + off) (boundary fps i + off + n) := by
  rintro a (ha | ⟨i', hi', hlo, hhi⟩)
  · exact Or.inl (Or.inl ha)
  · obtain rfl := Option.some_inj.mp (hi.symm.trans hi')
    rcases Nat.lt_or_ge a (boundary fps i + off) with hlt | hge
    · exact Or.inl (Or.inr ⟨i, hi, hlo, hlt⟩)
    · exact Or.inr ⟨hge, by omega⟩

/-- The rest of a missing chunk arrives. -/
theorem arrived_next : arrived fps missing (t + 1) 0 ⊆ arrived fps missing t off ∪
    Set.Ico (boundary fps i + off) (boundary fps (i + 1)) := by
  obtain ⟨ht, hget⟩ := List.getElem?_eq_some_iff.mp hi
  rintro a (⟨j, hj, hmissing, hlo, hhi⟩ | ⟨i', -, hlo, hhi⟩)
  · by_cases heq : j = i
    · subst heq
      rcases Nat.lt_or_ge a (boundary fps j + off) with hlt | hge
      · exact Or.inl (Or.inr ⟨j, hi, hlo, hlt⟩)
      · exact Or.inr ⟨hge, hhi⟩
    · refine Or.inl (Or.inl ⟨j, hj, ?_, hlo, hhi⟩)
      rw [List.drop_eq_getElem_cons ht, hget]
      exact List.not_mem_cons_of_ne_of_not_mem heq hmissing
  · exact absurd hhi (Nat.not_lt_of_ge hlo)

end Missing

/-- Every address belongs to a chunk. -/
theorem exists_part {n a : Nat} (h : a < boundary fps n) : ∃ i < n, a ∈ Part fps i := by
  induction n with
  | zero => exact absurd h (Nat.not_lt_zero a)
  | succ n ih =>
      rcases Nat.lt_or_ge a (boundary fps n) with hlt | hge
      · obtain ⟨i, hi, ha⟩ := ih hlt
        exact ⟨i, Nat.lt_succ_of_lt hi, ha⟩
      · exact ⟨n, Nat.lt_succ_self n, hge, h⟩

/-- Once all missing chunks have arrived every address is filled. -/
theorem arrived_all {off : Nat} :
    Set.Iio (boundary fps fps.length) ⊆ arrived fps missing missing.length off := by
  intro a ha
  obtain ⟨i, hi, hpart⟩ := exists_part (Set.mem_Iio.mp ha)
  refine Or.inl ⟨i, hi, ?_, hpart⟩
  rw [List.drop_length]
  exact List.not_mem_nil

end NetDedup.Delivery
