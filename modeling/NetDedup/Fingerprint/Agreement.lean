import NetDedup.Fingerprint.Partition

/-!
# Hashes that match alike

Two hashes of one chunk lead to the same cut exactly when they match the
magic value at the same candidate sizes, as far as the match decides: up to
the first match, to the maximal size, or to a remainder that is shorter than
a minimal chunk and is merged wherever the cut falls. Two ring indices chunk
the same bytes alike when this holds in one chunk after the other.
-/

namespace NetDedup.Chunking

variable {s : FingerprintingSettings}

section Candidates

variable (s)

/-- From candidate size `c` on the two hashes match at the same sizes, up to
the first match and as long as a match decides the size of the chunk. -/
def HitsAlike : List UInt8 → Nat → Roll → Roll → Prop
  | [], _, _, _ => True
  | b :: rest, c, r, r' => s.maxSize ≤ c ∨ rest.length + 1 < s.minSize ∨
      (r.hit s = r'.hit s ∧ (r.hit s = true ∨ HitsAlike rest (c + 1) (r.next s b) (r'.next s b)))

variable {s}

theorem HitsAlike.refl (rest : List UInt8) (c : Nat) (r : Roll) : HitsAlike s rest c r r := by
  induction rest generalizing c r with
  | nil => trivial
  | cons b rest ih => exact Or.inr (Or.inr ⟨rfl, Or.inr (ih _ _)⟩)

/-- No match decides a chunk that holds fewer bytes than two minimal chunks. -/
theorem HitsAlike.of_short {rest : List UInt8} (h : rest.length < s.minSize) (c : Nat)
    (r r' : Roll) : HitsAlike s rest c r r' := by
  cases rest with
  | nil => trivial
  | cons b rest => exact Or.inr (Or.inl h)

/-- A cut that leaves less than a minimal chunk takes all that is left. -/
theorem cutSize_merged {n c c' : Nat} (h : n - c < s.minSize) (hc : c ≤ c') :
    cutSize s n c' = n := by
  rw [cutSize, if_pos]
  omega

theorem cutSize_kept {n c : Nat} (h : c < n) (hmin : s.minSize ≤ n - c) : cutSize s n c = c := by
  rw [cutSize, if_neg]
  omega

/-- A hash that goes on where another one cuts gives another chunk. -/
theorem cutSize_scan_ne {b : UInt8} {rest : List UInt8} {c : Nat} (r r' : Roll)
    (hmin : s.minSize ≤ rest.length + 1) :
    cutSize s (c + (b :: rest).length) (scan s rest (c + 1) (r'.next s b)).1 ≠
      cutSize s (c + (b :: rest).length) (c, r).1 := by
  have hb := @scan_bounds s rest (c + 1) (r'.next s b)
  have hle := @le_cutSize s (c + (b :: rest).length) (scan s rest (c + 1) (r'.next s b)).1
    (by rw [List.length_cons]; omega)
  rw [cutSize_kept (c := c) (by rw [List.length_cons]; omega) (by rw [List.length_cons]; omega)]
  omega

/-- Two hashes give the same chunk size exactly when they match alike. -/
theorem scan_cutSize_eq_iff {rest : List UInt8} {c : Nat} {r r' : Roll} :
    cutSize s (c + rest.length) (scan s rest c r).1 =
      cutSize s (c + rest.length) (scan s rest c r').1 ↔ HitsAlike s rest c r r' := by
  induction rest generalizing c r r' with
  | nil => simp [scan, HitsAlike]
  | cons b rest ih =>
      rcases Nat.lt_or_ge c s.maxSize with hmax | hmax
      swap
      · simp [scan, HitsAlike, hmax]
      rcases Nat.lt_or_ge (rest.length + 1) s.minSize with hshort | hmin
      · have hmerged (r : Roll) : cutSize s (c + (b :: rest).length) (scan s (b :: rest) c r).1 =
            c + (b :: rest).length :=
          cutSize_merged (by rw [List.length_cons]; omega) scan_bounds.1
        rw [hmerged, hmerged]
        exact iff_of_true rfl (Or.inr (Or.inl hshort))
      have hrest : c + (b :: rest).length = c + 1 + rest.length := by
        rw [List.length_cons]
        omega
      have halike : HitsAlike s (b :: rest) c r r' ↔ r.hit s = r'.hit s ∧
          (r.hit s = true ∨ HitsAlike s rest (c + 1) (r.next s b) (r'.next s b)) := by
        rw [HitsAlike, or_iff_right (by omega), or_iff_right (by omega)]
      rw [halike]
      simp only [scan, decide_eq_false (Nat.not_le_of_lt hmax), Bool.or_false]
      -- the chunk ends here for a hash that matches, and later for one that does not
      cases hr : r.hit s <;> cases hr' : r'.hit s
      · simp only [Bool.false_eq_true, if_false, true_and, false_or]
        rw [hrest]
        exact ih
      · simp only [Bool.false_eq_true, if_false, if_true, false_and, iff_false]
        exact cutSize_scan_ne r' r hmin
      · simp only [Bool.false_eq_true, if_false, if_true, Bool.true_eq_false, false_and, iff_false]
        exact (cutSize_scan_ne r r' hmin).symm
      · simp

end Candidates

/-- The sizes of the first chunk of `d` agree exactly when the hashes match alike in it. -/
theorem firstCut_cutSize_eq_iff {d : List UInt8} {r r' : Roll} :
    cutSize s d.length (firstCut s d r).1 = cutSize s d.length (firstCut s d r').1 ↔
      HitsAlike s (d.drop s.minSize) s.minSize r r' := by
  rcases Nat.lt_or_ge d.length s.minSize with hlt | hge
  · have hnil : d.drop s.minSize = [] := List.drop_eq_nil_of_le (Nat.le_of_lt hlt)
    simp [firstCut, hnil, scan, HitsAlike]
  · have hlen : d.length = s.minSize + (d.drop s.minSize).length := by
      rw [List.length_drop]
      omega
    rw [hlen]
    exact scan_cutSize_eq_iff

/-- The two hashes match alike in the first chunk of `d`, and so do the
restarted ones in every later chunk, each with the ring index it is left with. -/
inductive MatchAlike (s : FingerprintingSettings) : List UInt8 → Roll → Roll → Prop
  | done {r r'} : MatchAlike s [] r r'
  | chunk {d r r'} (hd : d ≠ [])
      (hits : HitsAlike s (d.drop s.minSize) s.minSize r r')
      (tail : MatchAlike s (d.drop (cutSize s d.length (firstCut s d r).1))
        (Roll.start s (d.drop (cutSize s d.length (firstCut s d r).1)) (firstCut s d r).2.slot)
        (Roll.start s (d.drop (cutSize s d.length (firstCut s d r).1)) (firstCut s d r').2.slot)) :
      MatchAlike s d r r'

/-- Chunking `d` from the ring indices `i` and `j`, the hashes match alike. -/
def RingAgrees (s : FingerprintingSettings) (d : List UInt8) (i j : Nat) : Prop :=
  MatchAlike s d (Roll.start s d i) (Roll.start s d j)

/-- Two hashes cut a buffer alike exactly when they match alike. -/
theorem Cuts.eq_iff {d : List UInt8} {r r' : Roll} {ks ks' : List Nat} (h : Cuts s d r ks)
    (h' : Cuts s d r' ks') : ks = ks' ↔ MatchAlike s d r r' := by
  induction h generalizing r' ks' with
  | done => exact iff_of_true (h'.nil_of_empty rfl).symm MatchAlike.done
  | @chunk d r ks hd tail ih =>
      obtain ⟨ks', rfl, tail'⟩ := h'.uncons hd
      rw [List.cons_eq_cons, firstCut_cutSize_eq_iff]
      constructor
      · rintro ⟨hits, rfl⟩
        rw [← firstCut_cutSize_eq_iff.mpr hits] at tail'
        exact MatchAlike.chunk hd hits ((ih tail').mp rfl)
      · intro halike
        cases halike with
        | done => exact absurd rfl hd
        | chunk _ hits halike =>
            rw [← firstCut_cutSize_eq_iff.mpr hits] at tail'
            exact ⟨hits, (ih tail').mpr halike⟩

/-- A buffer that holds fewer bytes than two minimal chunks is one chunk,
whatever the ring holds. -/
theorem RingAgrees.of_short {d : List UInt8} (h : d.length < 2 * s.minSize) (i j : Nat) :
    RingAgrees s d i j := by
  by_cases hd : d = []
  · subst hd
    exact MatchAlike.done
  · refine MatchAlike.chunk hd (HitsAlike.of_short (by rw [List.length_drop]; omega) _ _ _) ?_
    have hall : cutSize s d.length (firstCut s d (Roll.start s d i)).1 = d.length :=
      cutSize_merged (c := s.minSize) (by omega) scan_bounds.1
    rw [hall, List.drop_length]
    exact MatchAlike.done

end NetDedup.Chunking
