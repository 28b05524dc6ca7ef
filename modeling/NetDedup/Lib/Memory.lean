import Mathlib.Data.List.OfFn
import Mathlib.Tactic.Common
import Mathlib.Tactic.Ring

/-!
# Byte memory

A memory is a function from addresses to bytes. Blocks are read as lists and
written from lists; two blocks that do not overlap do not interfere. Numbers
are stored least significant byte first.
-/

namespace NetDedup.Memory

/-- A byte memory, or a region of one addressed from its own start. -/
abbrev Mem := Nat → UInt8

/-- The `n` bytes from `pos` on. -/
def read (m : Mem) (pos n : Nat) : List UInt8 := (List.range n).map fun i => m (pos + i)

/-- The memory with `bs` stored from `pos` on. -/
def write (m : Mem) (pos : Nat) (bs : List UInt8) : Mem :=
  fun a => if pos ≤ a then (bs[a - pos]?).getD (m a) else m a

section Blocks

variable (m : Mem)

@[simp] theorem length_read (pos n : Nat) : (read m pos n).length = n := by
  simp [read]

@[simp] theorem read_zero (pos : Nat) : read m pos 0 = [] := rfl

theorem getElem?_read (pos n i : Nat) :
    (read m pos n)[i]? = if i < n then some (m (pos + i)) else none := by
  unfold read
  split
  · next h => simp [h]
  · next h => simp [Nat.le_of_not_lt h]

theorem read_add (pos a b : Nat) :
    read m pos (a + b) = read m pos a ++ read m (pos + a) b := by
  unfold read
  rw [List.range_add, List.map_append, List.map_map]
  congr 1
  refine List.map_congr_left fun i _ => ?_
  rw [Function.comp_apply, Nat.add_assoc]

theorem take_read {k n : Nat} (h : k ≤ n) (pos : Nat) : (read m pos n).take k = read m pos k := by
  obtain ⟨r, rfl⟩ := Nat.exists_eq_add_of_le h
  rw [read_add, List.take_left' (length_read m pos k)]

theorem drop_read {k n : Nat} (h : k ≤ n) (pos : Nat) :
    (read m pos n).drop k = read m (pos + k) (n - k) := by
  obtain ⟨r, rfl⟩ := Nat.exists_eq_add_of_le h
  rw [read_add, List.drop_left' (length_read m pos k), Nat.add_sub_cancel_left]

variable {m}

/-- A block depends only on its own bytes. -/
theorem read_congr {m' : Mem} {pos n : Nat} (h : ∀ a, pos ≤ a → a < pos + n → m a = m' a) :
    read m pos n = read m' pos n := by
  refine List.map_congr_left fun i hi => ?_
  exact h _ (by omega) (by have := List.mem_range.mp hi; omega)

theorem read_eq_replicate {b : UInt8} {pos n : Nat} (h : ∀ i < n, m (pos + i) = b) :
    read m pos n = List.replicate n b := by
  refine List.eq_replicate_iff.mpr ⟨length_read m pos n, fun x hx => ?_⟩
  obtain ⟨i, hi, rfl⟩ := List.mem_map.mp hx
  exact h i (List.mem_range.mp hi)

/-- A sub-block of two equal blocks is equal. -/
theorem read_sub {m' : Mem} {pos n : Nat} (h : read m pos n = read m' pos n) {k l : Nat}
    (hkl : k + l ≤ n) : read m (pos + k) l = read m' (pos + k) l := by
  have h' := congrArg (fun bs => (bs.drop k).take l) h
  simp only [drop_read _ (show k ≤ n by omega), take_read _ (show l ≤ n - k by omega)] at h'
  exact h'

theorem write_below {pos a : Nat} (bs : List UInt8) (h : a < pos) : write m pos bs a = m a := by
  rw [write, if_neg (by omega)]

theorem write_above {pos a : Nat} {bs : List UInt8} (h : pos + bs.length ≤ a) :
    write m pos bs a = m a := by
  rw [write, if_pos (by omega), List.getElem?_eq_none (by omega), Option.getD_none]

theorem write_inside {pos i : Nat} {bs : List UInt8} (h : i < bs.length) :
    write m pos bs (pos + i) = bs[i] := by
  rw [write, if_pos (by omega), Nat.add_sub_cancel_left, List.getElem?_eq_getElem h,
    Option.getD_some]

/-- A written block holds the written bytes. -/
theorem read_write_self (pos : Nat) (bs : List UInt8) :
    read (write m pos bs) pos bs.length = bs := by
  refine List.ext_getElem (by simp) fun i h _ => ?_
  have hi : i < bs.length := by simpa using h
  simp only [read, List.getElem_map, List.getElem_range, write_inside hi]

/-- A write does not touch a block it does not overlap. -/
theorem read_write_disjoint {pos pos' n : Nat} {bs : List UInt8}
    (h : pos' + n ≤ pos ∨ pos + bs.length ≤ pos') :
    read (write m pos bs) pos' n = read m pos' n := by
  refine read_congr fun a hge hlt => ?_
  rcases h with h | h
  · exact write_below bs (by omega)
  · exact write_above (by omega)

@[simp] theorem write_nil (pos : Nat) : write m pos [] = m := by
  funext a
  simp [write]

/-- Writing back what is there changes nothing. -/
@[simp] theorem write_read (pos n : Nat) : write m pos (read m pos n) = m := by
  funext a
  rw [write]
  split
  · rw [getElem?_read]
    split
    · rw [Option.getD_some, show pos + (a - pos) = a by omega]
    · rfl
  · rfl

/-- Two writes of adjacent blocks are one write. -/
theorem write_append (pos : Nat) (xs ys : List UInt8) :
    write (write m pos xs) (pos + xs.length) ys = write m pos (xs ++ ys) := by
  funext a
  rcases Nat.lt_or_ge a pos with hlt | hge
  · rw [write_below _ (by omega), write_below _ hlt, write_below _ hlt]
  · obtain ⟨i, rfl⟩ := Nat.exists_eq_add_of_le hge
    rcases Nat.lt_or_ge i xs.length with hi | hi
    · rw [write_below _ (by omega), write_inside hi,
        write_inside (by rw [List.length_append]; omega), List.getElem_append_left hi]
    · rcases Nat.lt_or_ge i (xs.length + ys.length) with hj | hj
      · obtain ⟨j, rfl⟩ := Nat.exists_eq_add_of_le hi
        rw [← Nat.add_assoc, write_inside (show j < ys.length by omega), Nat.add_assoc,
          write_inside (by rw [List.length_append]; omega),
          List.getElem_append_right (by omega)]
        simp only [Nat.add_sub_cancel_left]
      · rw [write_above (by omega), write_above (by omega),
          write_above (by rw [List.length_append]; omega)]

/-- After an adjacent write the block has grown by the written bytes. -/
theorem read_write_append {pos n : Nat} (bs : List UInt8) :
    read (write m (pos + n) bs) pos (n + bs.length) = read m pos n ++ bs := by
  rw [read_add, read_write_disjoint (Or.inl (Nat.le_refl _)), read_write_self]

end Blocks

/-- The low `w` bytes of a number, least significant first. -/
def leBytes : Nat → Nat → List UInt8
  | 0, _ => []
  | w + 1, n => UInt8.ofNat n :: leBytes w (n / 256)

/-- The number stored in some bytes, least significant first. -/
def leNat : List UInt8 → Nat
  | [] => 0
  | b :: bs => b.toNat + 256 * leNat bs

@[simp] theorem length_leBytes (w n : Nat) : (leBytes w n).length = w := by
  induction w generalizing n with
  | zero => rfl
  | succ w ih => rw [leBytes, List.length_cons, ih]

theorem leNat_lt (bs : List UInt8) : leNat bs < 256 ^ bs.length := by
  induction bs with
  | nil => simp [leNat]
  | cons b bs ih =>
      have hb := b.toNat_lt
      rw [leNat, List.length_cons, Nat.pow_succ]
      omega

/-- Storing and loading a number truncates it to the width. -/
theorem leNat_leBytes (w n : Nat) : leNat (leBytes w n) = n % 256 ^ w := by
  induction w generalizing n with
  | zero => simp [leNat, leBytes, Nat.mod_one]
  | succ w ih =>
      rw [leBytes, leNat, ih, UInt8.toNat_ofNat', show 256 ^ (w + 1) = 256 * 256 ^ w by ring,
        Nat.mod_mul]

theorem leBytes_leNat (bs : List UInt8) : leBytes bs.length (leNat bs) = bs := by
  induction bs with
  | nil => rfl
  | cons b bs ih =>
      have hb := b.toNat_lt
      rw [List.length_cons, leBytes, leNat,
        show (b.toNat + 256 * leNat bs) / 256 = leNat bs by omega,
        ih]
      congr 1
      apply UInt8.toNat_inj.mp
      rw [UInt8.toNat_ofNat']
      omega

/-- Element `i` of an array whose elements take `w` bytes each. -/
theorem flatMap_window {α : Type*} (enc : α → List UInt8) {w : Nat}
    (hw : ∀ x, (enc x).length = w) (xs : List α) {i : Nat} (hi : i < xs.length) :
    ((xs.flatMap enc).drop (w * i)).take w = enc xs[i] := by
  induction xs generalizing i with
  | nil => simp at hi
  | cons x xs ih =>
      rw [List.flatMap_cons]
      cases i with
      | zero => rw [Nat.mul_zero, List.drop_zero, List.take_left' (hw x), List.getElem_cons_zero]
      | succ i =>
          have hsplit : w * (i + 1) = (enc x).length + w * i := by rw [hw]; ring
          rw [hsplit, List.drop_append, Nat.add_sub_cancel_left, List.drop_eq_nil_of_le (by omega),
            List.nil_append]
          exact ih (by simpa using hi)

theorem length_flatMap_window {α : Type*} (enc : α → List UInt8) {w : Nat}
    (hw : ∀ x, (enc x).length = w) (xs : List α) : (xs.flatMap enc).length = w * xs.length := by
  induction xs with
  | nil => simp
  | cons x xs ih => rw [List.flatMap_cons, List.length_append, hw, ih, List.length_cons]; ring

end NetDedup.Memory
