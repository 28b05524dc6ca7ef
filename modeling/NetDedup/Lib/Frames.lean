import Mathlib.Tactic.Common

/-!
# A stream of frames

Frames follow one another in a stream. A position is a frame and a number of its
elements; what lies between the position of the writer and that of the reader
is in flight.
-/

namespace NetDedup.Frames

variable {α : Type*}

/-- A part of the middle of three lists. -/
theorem window {xs ys zs : List α} {n o k : Nat} (hn : xs.length = n) (hk : o + k ≤ ys.length) :
    ((xs ++ (ys ++ zs)).drop (n + o)).take k = (ys.drop o).take k := by
  rw [← hn, List.drop_length_add_append, List.drop_append_of_le_length (by omega),
    List.take_append_of_le_length (by rw [List.length_drop]; omega)]

variable {frames frames' : Nat → List α}

/-- The stream up to `p` elements of frame `i`. -/
def sofar (frames : Nat → List α) (i p : Nat) : List α :=
  (List.range i).flatMap frames ++ (frames i).take p

theorem sofar_zero (i : Nat) : sofar frames i 0 = (List.range i).flatMap frames := by
  rw [sofar, List.take_zero, List.append_nil]

theorem length_sofar (i p : Nat) : (sofar frames i p).length =
    ((List.range i).flatMap frames).length + min p (frames i).length := by
  rw [sofar, List.length_append, List.length_take]

/-- At its end a frame gives way to the next one. -/
theorem sofar_next (i : Nat) : sofar frames i (frames i).length = sofar frames (i + 1) 0 := by
  rw [sofar_zero, sofar, List.take_length, List.range_succ, List.flatMap_append,
    List.flatMap_singleton]

/-- The stream goes on with the next elements of its frame. -/
theorem sofar_add (i p n : Nat) :
    sofar frames i (p + n) = sofar frames i p ++ ((frames i).drop p).take n := by
  rw [sofar, sofar, List.take_add, List.append_assoc]

theorem sofar_congr {i p : Nat} (hbefore : ∀ m < i, frames' m = frames m)
    (htake : (frames' i).take p = (frames i).take p) : sofar frames' i p = sofar frames i p := by
  rw [sofar, sofar, htake]
  have hframes : (List.range i).map frames' = (List.range i).map frames :=
    List.map_congr_left fun m hm => hbefore m (List.mem_range.mp hm)
  rw [List.flatMap_def, List.flatMap_def, hframes]

/-- The stream up to a position is a part of the stream up to the end of any later frame. -/
theorem sofar_begun {i n : Nat} (p : Nat) (h : i ≤ n) :
    sofar frames i p <+: sofar frames (n + 1) 0 := by
  obtain ⟨k, rfl⟩ := Nat.exists_eq_add_of_le h
  induction k with
  | zero =>
      rw [Nat.add_zero, ← sofar_next, sofar, sofar, List.take_length]
      apply (List.prefix_append_right_inj _).mpr
      exact List.take_prefix ..
  | succ k ih =>
      refine (ih (Nat.le_add_right i k)).trans ?_
      rw [← Nat.add_assoc, ← sofar_next (i + k + 1), sofar_zero, sofar]
      exact List.prefix_append ..

/-- A position before the end of a frame is before all positions from there on. -/
theorem sofar_lt {i p j q : Nat} (hp : p < (frames i).length)
    (hq : i < j ∨ i = j ∧ (frames j).length ≤ q) :
    (sofar frames i p).length < (sofar frames j q).length := by
  have hend : (sofar frames i p).length < (sofar frames i (frames i).length).length := by
    rw [length_sofar, length_sofar]
    omega
  refine Nat.lt_of_lt_of_le hend ?_
  rcases hq with hlt | ⟨rfl, hle⟩
  · obtain ⟨k, rfl⟩ : ∃ k, j = k + 1 := ⟨j - 1, by omega⟩
    have hbegun := (@sofar_begun _ frames i k (frames i).length (Nat.le_of_lt_succ hlt)).length_le
    refine Nat.le_trans hbegun ?_
    rw [sofar_zero, sofar, List.length_append]
    exact Nat.le_add_right _ _
  · exact Nat.le_of_eq (by rw [length_sofar, length_sofar, Nat.min_self, Nat.min_eq_right hle])

/-- A position is not beyond the frames that have been begun. -/
theorem le_of_begun {i p j : Nat} (h : sofar frames i p <+: sofar frames j 0)
    (hpos : frames j ≠ []) : i ≤ j := by
  by_contra hlt
  have hlen : 0 < (frames j).length := List.length_pos_iff.mpr hpos
  have hbegun : sofar frames (j + 1) 0 <+: sofar frames i 0 := by
    rcases Nat.lt_or_ge (j + 1) i with hmore | hle
    · obtain ⟨k, rfl⟩ : ∃ k, i = k + 1 := ⟨i - 1, by omega⟩
      exact sofar_begun 0 (by omega)
    · obtain rfl : i = j + 1 := by omega
      exact List.prefix_refl _
  have hmore : (sofar frames i 0).length ≤ (sofar frames i p).length := by
    rw [sofar_zero, sofar, List.length_append]
    omega
  have hle := Nat.le_trans (Nat.le_trans hbegun.length_le hmore) h.length_le
  rw [← sofar_next, sofar_zero, sofar, List.take_length, List.length_append] at hle
  omega

section Flight

variable {i p j q : Nat} {flight : List α}

/-- The reader at `(i, p)` finds the next elements of its frame in flight. -/
theorem take_flight (h : sofar frames i p ++ flight = sofar frames j q) {n : Nat}
    (hn : n ≤ flight.length) (hp : p + n ≤ (frames i).length) :
    flight.take n = ((frames i).drop p).take n := by
  have hi : sofar frames i p ++ (frames i).drop p <+: sofar frames (max i j + 1) 0 := by
    have hframe : sofar frames i p ++ (frames i).drop p = sofar frames i (frames i).length := by
      rw [sofar, List.append_assoc, List.take_append_drop, sofar, List.take_length]
    rw [hframe]
    exact sofar_begun _ (Nat.le_max_left i j)
  have hj : sofar frames i p ++ flight <+: sofar frames (max i j + 1) 0 := by
    rw [h]
    exact sofar_begun q (Nat.le_max_right i j)
  have hshort : ((frames i).drop p).take n <+: flight := by
    have hlen : (((frames i).drop p).take n).length ≤ flight.length := by
      rw [List.length_take]
      omega
    have hpart : sofar frames i p ++ ((frames i).drop p).take n <+:
        sofar frames (max i j + 1) 0 := by
      refine ((List.prefix_append_right_inj _).mpr ?_).trans hi
      exact List.take_prefix n _
    refine (List.prefix_append_right_inj _).mp (List.prefix_of_prefix_length_le hpart hj ?_)
    rw [List.length_append, List.length_append]
    omega
  have hlen : (((frames i).drop p).take n).length = n := by
    rw [List.length_take, List.length_drop]
    omega
  rw [List.prefix_iff_eq_take.mp hshort, hlen]

/-- The reader takes the next elements of its frame. -/
theorem flight_read (h : sofar frames i p ++ flight = sofar frames j q) {n : Nat}
    (htake : flight.take n = ((frames i).drop p).take n) :
    sofar frames i (p + n) ++ flight.drop n = sofar frames j q := by
  rw [sofar_add, ← htake, List.append_assoc, List.take_append_drop, h]

/-- The writer adds the next elements of its frame. -/
theorem flight_write (h : sofar frames i p ++ flight = sofar frames j q) (n : Nat) :
    sofar frames i p ++ (flight ++ ((frames j).drop q).take n) = sofar frames j (q + n) := by
  rw [sofar_add, ← h, List.append_assoc]

end Flight

end NetDedup.Frames
