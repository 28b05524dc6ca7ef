import Mathlib.Tactic.Common

/-!
# Cutting a stream into pieces

A list is cut into pieces of given lengths, with nothing left over.
-/

namespace NetDedup.Framing

variable {α : Type*}

/-- The pieces of a list, none when it is too short or too long for them. -/
def cut : List Nat → List α → Option (List (List α))
  | [], [] => some []
  | [], _ :: _ => none
  | n :: ns, xs => if n ≤ xs.length then (cut ns (xs.drop n)).map (xs.take n :: ·) else none

/-- What was put together from pieces is cut into them. -/
theorem cut_flatten (pieces : List (List α)) :
    cut (pieces.map List.length) pieces.flatten = some pieces := by
  induction pieces with
  | nil => rfl
  | cons piece rest ih =>
      rw [List.map_cons, List.flatten_cons, cut, if_pos (by simp), List.drop_left, ih,
        List.take_left, Option.map_some]

/-- Pieces of one length. -/
def words (w : Nat) (xs : List α) : Option (List (List α)) :=
  cut (List.replicate (xs.length / w) w) xs

theorem words_flatten {w : Nat} (hw : 0 < w) {pieces : List (List α)}
    (h : ∀ piece ∈ pieces, piece.length = w) : words w pieces.flatten = some pieces := by
  have hlengths : pieces.map List.length = List.replicate pieces.length w := by
    rw [List.eq_replicate_iff]
    refine ⟨List.length_map .., fun n hn => ?_⟩
    obtain ⟨piece, hpiece, rfl⟩ := List.mem_map.mp hn
    exact h piece hpiece
  have hcount : pieces.flatten.length / w = pieces.length := by
    rw [List.length_flatten, hlengths, List.sum_replicate_nat, Nat.mul_div_cancel _ hw]
  rw [words, hcount, ← hlengths, cut_flatten]

end NetDedup.Framing
