import Mathlib.Order.Interval.Set.Basic
import NetDedup.Lib.Memory

/-!
# Buffers filled piece by piece

A buffer that holds the elements of a list at some addresses, and behind the
list what it held before.
-/

namespace NetDedup.Memory

/-- `buffer` agrees with `data` on the filled addresses, and with `posted` behind it. -/
structure Filled (data : List UInt8) (posted buffer : Mem) (filled : Set Nat) : Prop where
  inside : ∀ a ∈ filled, data[a]? = some (buffer a)
  behind : ∀ a, data.length ≤ a → buffer a = posted a

namespace Filled

variable {data : List UInt8} {posted buffer : Mem} {filled : Set Nat}

theorem start (data : List UInt8) (posted : Mem) : Filled data posted posted ∅ where
  inside := fun _ h => absurd h (Set.notMem_empty _)
  behind := fun _ _ => rfl

theorem mono (h : Filled data posted buffer filled) {filled' : Set Nat}
    (hsub : filled' ⊆ filled) : Filled data posted buffer filled' where
  inside := fun a ha => h.inside a (hsub ha)
  behind := h.behind

/-- A part of the list is written to its place. -/
theorem write (h : Filled data posted buffer filled) {pos : Nat} {bs : List UInt8}
    (hbs : bs = (data.drop pos).take bs.length) (hfit : pos + bs.length ≤ data.length) :
    Filled data posted (Memory.write buffer pos bs)
      (filled ∪ Set.Ico pos (pos + bs.length)) where
  inside := by
    intro a ha
    by_cases hin : a ∈ Set.Ico pos (pos + bs.length)
    · obtain ⟨hlo, hhi⟩ := hin
      obtain ⟨i, rfl⟩ := Nat.exists_eq_add_of_le hlo
      have hi : i < bs.length := by omega
      have hget : bs[i]? = data[pos + i]? := by
        conv_lhs => rw [hbs]
        rw [List.getElem?_take, if_pos hi, List.getElem?_drop]
      rw [write_inside hi, ← hget, List.getElem?_eq_getElem hi]
    · have hfilled := ha.resolve_right hin
      rcases Nat.lt_or_ge a pos with hlt | hge
      · rw [write_below _ hlt]
        exact h.inside a hfilled
      · rw [write_above (Nat.le_of_not_lt fun hlt => hin ⟨hge, hlt⟩)]
        exact h.inside a hfilled
  behind := by
    intro a ha
    rw [write_above (Nat.le_trans hfit ha)]
    exact h.behind a ha

/-- A filled piece reads as the list. -/
theorem read_eq (h : Filled data posted buffer filled) {pos n : Nat}
    (hfilled : Set.Ico pos (pos + n) ⊆ filled) : read buffer pos n = (data.drop pos).take n := by
  refine List.ext_getElem? fun i => ?_
  rw [getElem?_read, List.getElem?_take]
  split_ifs with hi
  · rw [List.getElem?_drop, h.inside (pos + i) (hfilled ⟨by omega, by omega⟩)]
  · rfl

/-- A buffer that is filled up to the end of the list starts with the list. -/
theorem read_all (h : Filled data posted buffer filled)
    (hfilled : ∀ a < data.length, a ∈ filled) : read buffer 0 data.length = data := by
  rw [h.read_eq fun a ha => hfilled a (Nat.zero_add data.length ▸ ha.2), List.drop_zero,
    List.take_length]

end Filled

end NetDedup.Memory
