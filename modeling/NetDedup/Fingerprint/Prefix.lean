import NetDedup.Fingerprint.Partition

/-!
# What a boundary depends on

A cut before the end of the buffer is decided by the bytes before it: the
hash of a candidate reads no later byte, and the two rules that look at the
remainder do not fire. A boundary is therefore kept by every continuation
that leaves room for a minimal chunk.
-/

namespace NetDedup.Chunking

variable {sha256 : List UInt8 → Digest} {s : FingerprintingSettings}

/-- A scan that stops before the bytes end reads none of the bytes after. -/
theorem scan_append {u v v' : List UInt8} (hv : v ≠ []) (hv' : v' ≠ []) :
    ∀ {c : Nat} {r : Roll}, (scan s (u ++ v) c r).1 ≤ c + u.length →
      scan s (u ++ v') c r = scan s (u ++ v) c r := by
  induction u with
  | nil =>
      intro c r h
      obtain ⟨b, w, rfl⟩ := List.exists_cons_of_ne_nil hv
      obtain ⟨b', w', rfl⟩ := List.exists_cons_of_ne_nil hv'
      simp only [List.nil_append, scan, List.length_nil, Nat.add_zero] at h ⊢
      split
      · rfl
      · next hstop =>
        rw [if_neg hstop] at h
        have := (@scan_bounds s w (c + 1) (r.next s b)).1
        omega
  | cons b u ih =>
      intro c r h
      simp only [List.cons_append, scan, List.length_cons] at h ⊢
      split
      · rfl
      · next hstop =>
        rw [if_neg hstop] at h
        exact ih (by omega)

/-- Every buffer that is empty or holds a minimal chunk has cuts. -/
theorem Cuts.exists (hs : s.Ordered) (m : Nat) :
    ∀ (d : List UInt8) (r : Roll), d.length = m → d = [] ∨ s.minSize ≤ d.length →
      ∃ ks, Cuts s d r ks := by
  induction m using Nat.strong_induction_on with
  | _ m ih =>
    intro d r hm hd
    by_cases hne : d = []
    · exact ⟨[], hne ▸ Cuts.done⟩
    · have hb := firstCut_bounds (hd.resolve_left hne) r
      have hck := le_cutSize (s := s) hb.2
      have hwin := hs.window_lt_min
      have hlen := List.length_pos_iff.mpr hne
      obtain ⟨ks, h⟩ := ih (d.length - cutSize s d.length (firstCut s d r).1) (by omega)
        (d.drop (cutSize s d.length (firstCut s d r).1))
        (Roll.start s (d.drop (cutSize s d.length (firstCut s d r).1)) (firstCut s d r).2.slot)
        (List.length_drop ..) (length_empty_or_min (rest_empty_or_min hb.2))
      exact ⟨_, Cuts.chunk hne h⟩

/-- The hash of a chunk restarts on bytes before its minimal size. -/
theorem Roll.start_append (hs : s.Ordered) {pre : List UInt8} (h : s.minSize ≤ pre.length)
    (x x' : List UInt8) (slot : Nat) :
    Roll.start s (pre ++ x) slot = Roll.start s (pre ++ x') slot := by
  have hwin := hs.window_lt_min
  have hdrop (y : List UInt8) : ((pre ++ y).drop (s.minSize - 1 - s.window)).take s.window =
      (pre.drop (s.minSize - 1 - s.window)).take s.window := by
    rw [List.drop_append_of_le_length (by omega), List.take_append_of_le_length]
    rw [List.length_drop]
    omega
  simp only [Roll.start, hdrop]

/-- The first chunk of a buffer is the same before every continuation that
leaves a minimal chunk after it. -/
theorem firstCut_append {pre x x' : List UInt8} {r : Roll} (hx : x ≠ []) (hx' : x' ≠ [])
    (hmin : s.minSize ≤ pre.length) (h : (firstCut s (pre ++ x) r).1 ≤ pre.length) :
    firstCut s (pre ++ x') r = firstCut s (pre ++ x) r := by
  unfold firstCut at h ⊢
  rw [List.drop_append_of_le_length hmin] at h ⊢
  rw [List.drop_append_of_le_length hmin]
  exact scan_append hx hx' (by rw [List.length_drop]; omega)

/-- The first `k` cuts, when they end with `pre`, are cuts of every buffer
that continues `pre` by at least a minimal chunk. -/
theorem Cuts.extend (hs : s.Ordered) {x x' : List UInt8} (hx : x ≠ [])
    (hx' : s.minSize ≤ x'.length) (k : Nat) :
    ∀ {pre : List UInt8} {r : Roll} {ks : List Nat}, Cuts s (pre ++ x) r ks →
      s.minSize ≤ (pre ++ x).length → (ks.take k).sum = pre.length →
      ∃ ks', Cuts s (pre ++ x') r (ks.take k ++ ks') := by
  have hwin := hs.window_lt_min
  have hne' : x' ≠ [] := List.length_pos_iff.mp (by omega)
  induction k with
  | zero =>
      intro pre r ks _ _ hsum
      have hnil : pre = [] := List.length_eq_zero_iff.mp (by simpa using hsum.symm)
      subst hnil
      simpa using Cuts.exists hs _ x' r rfl (Or.inr hx')
  | succ k ih =>
      intro pre r ks h hmin hsum
      have hxlen := List.length_pos_iff.mpr hx
      have hb := firstCut_bounds hmin r
      obtain ⟨ks, rfl, tail⟩ := h.uncons (by simp [hx])
      rw [List.take_succ_cons, List.sum_cons] at hsum
      obtain ⟨hcut, hleft⟩ := cutSize_lt (s := s) (n := (pre ++ x).length)
        (c := (firstCut s (pre ++ x) r).1) (by rw [List.length_append] at *; omega)
      obtain ⟨c, slot, hc, hslot⟩ : ∃ c slot, (firstCut s (pre ++ x) r).1 = c ∧
          (firstCut s (pre ++ x) r).2.slot = slot := ⟨_, _, rfl, rfl⟩
      rw [hcut, hc] at hsum
      rw [hc] at hb hleft
      have hcle : c ≤ pre.length := by omega
      have hfirst : firstCut s (pre ++ x') r = firstCut s (pre ++ x) r :=
        firstCut_append hx hne' (by omega) (by omega)
      have hcut' : cutSize s (pre ++ x').length c = c := by
        unfold cutSize
        rw [List.length_append, if_neg (by omega)]
      rw [hcut, hc, hslot, List.drop_append_of_le_length hcle] at tail
      obtain ⟨ks', hks'⟩ : ∃ ks', Cuts s (pre.drop c ++ x') (Roll.start s (pre.drop c ++ x') slot)
          (ks.take k ++ ks') := by
        have hsum' : (ks.take k).sum = (pre.drop c).length := by
          rw [List.length_drop]
          omega
        cases k with
        | zero =>
            have := Cuts.exists hs _ (pre.drop c ++ x') (Roll.start s (pre.drop c ++ x') slot) rfl
              (Or.inr (by rw [List.length_append]; omega))
            simpa using this
        | succ k =>
            -- one more whole chunk lies in `pre`, so its hash restarts inside `pre`
            have hrest : s.minSize ≤ (pre.drop c ++ x).length := by
              rw [List.length_append, List.length_drop] at *
              omega
            obtain ⟨ks₁, hks₁, -⟩ := tail.uncons (by simp [hx])
            have hk₁ := firstCut_bounds hrest (Roll.start s (pre.drop c ++ x) slot)
            have hle := le_cutSize (s := s) hk₁.2
            have hpre : s.minSize ≤ (pre.drop c).length := by
              rw [← hsum', hks₁, List.take_succ_cons, List.sum_cons]
              omega
            rw [Roll.start_append hs hpre x x'] at tail
            exact ih tail hrest hsum'
      refine ⟨ks', ?_⟩
      have := @Cuts.chunk s (pre ++ x') r (ks.take k ++ ks') (by simp [hne'])
      rw [hfirst, hc, hslot, hcut', List.drop_append_of_le_length hcle] at this
      rw [List.take_succ_cons, hcut, hc]
      exact this hks'

end NetDedup.Chunking
