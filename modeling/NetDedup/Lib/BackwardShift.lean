import NetDedup.Lib.Probing

/-!
# Removal by backward shift

A key is removed from a linear-probing table by moving later keys back into
the hole. While the walk behind the hole goes on, the table is well formed but
for the hole; a key stays in its slot when its own walk starts behind the hole.
-/

namespace NetDedup.Probing

variable {K : Type*} {m : Nat} {occ : Nat → Prop} {key : Nat → K} {hash : K → Nat}

section Distance

theorem dist_eq {h i : Nat} (hh : h < m) (hi : i < m) :
    dist m h i = if h ≤ i then i - h else i + m - h := by
  unfold dist
  split
  · rw [show i + m - h = i - h + m by omega, Nat.add_mod_right, Nat.mod_eq_of_lt (by omega)]
  · rw [Nat.mod_eq_of_lt (by omega)]

theorem dist_self (h : Nat) : dist m h h = 0 := by
  rw [dist, Nat.add_sub_cancel_left, Nat.mod_self]

theorem dist_pos {h i : Nat} (hh : h < m) (hi : i < m) (hne : i ≠ h) : 0 < dist m h i := by
  rw [dist_eq hh hi]
  split <;> omega

theorem dist_inj {h i j : Nat} (hh : h < m) (hi : i < m) (hj : j < m)
    (heq : dist m h i = dist m h j) : i = j := by
  rw [← walk_dist hh hi, heq, walk_dist hh hj]

/-- A slot on the way to another splits the way. -/
theorem dist_add {a b c : Nat} (ha : a < m) (hb : b < m) (hc : c < m)
    (hle : dist m a b ≤ dist m a c) : dist m a c = dist m a b + dist m b c := by
  rw [dist_eq ha hb, dist_eq ha hc] at *
  rw [dist_eq hb hc]
  split_ifs at hle ⊢ <;> omega

/-- The next slot is one step further, unless the turn is complete. -/
theorem dist_succ {h i : Nat} (hh : h < m) (hi : i < m) (hturn : dist m h i + 1 < m) :
    dist m h ((i + 1) % m) = dist m h i + 1 := by
  have hwalk := walk_dist hh hi
  have hnext : (i + 1) % m = (h + (dist m h i + 1)) % m := by
    rw [← Nat.add_assoc, ← Nat.mod_add_mod (h + dist m h i), hwalk]
  rw [hnext, dist_walk hh hturn]

theorem dist_next {h : Nat} (hh : h < m) : dist m h ((h + 1) % m) ≤ 1 := by
  rcases Nat.lt_or_ge 1 m with hm | hm
  · exact Nat.le_of_eq (dist_walk hh hm)
  · have := @dist_lt m h ((h + 1) % m) (by omega)
    omega

/-- The two linear cases of the move condition are one cyclic comparison. -/
theorem le_dist_iff {e cur h : Nat} (he : e < m) (hcur : cur < m) (hh : h < m) (hne : cur ≠ e) :
    dist m e cur ≤ dist m h cur ↔
      (e < cur ∧ (h ≤ e ∨ cur < h)) ∨ (cur < e ∧ h ≤ e ∧ cur < h) := by
  rw [dist_eq he hcur, dist_eq hh hcur]
  split_ifs <;> omega

end Distance

/-- Well-formedness but for a hole at `e`. The keys between the hole and `cur`
hash behind the hole. -/
structure Hollow (m : Nat) (occ : Nat → Prop) (key : Nat → K) (hash : K → Nat) (e cur : Nat) :
    Prop where
  hash_lt : ∀ k, hash k < m
  hole_lt : e < m
  path : ∀ i < m, occ i → i ≠ e → ∀ j < dist m (hash (key i)) i, occ ((hash (key i) + j) % m)
  unique : ∀ i < m, ∀ j < m, i ≠ e → j ≠ e → occ i → occ j → key i = key j → i = j
  settled : ∀ i < m, occ i → i ≠ e → dist m e i < dist m e cur →
    dist m (hash (key i)) i < dist m e i

theorem WellFormed.congr {key' : Nat → K} (h : WellFormed m occ key hash)
    (hkey : ∀ i, occ i → key' i = key i) : WellFormed m occ key' hash where
  hash_lt := h.hash_lt
  path i hi hocc := by
    rw [hkey i hocc]
    exact h.path i hi hocc
  unique i hi j hj hocci hoccj := by
    rw [hkey i hocci, hkey j hoccj]
    exact h.unique i hi j hj hocci hoccj

/-- Taking out the key of slot `e` leaves a hole. -/
theorem WellFormed.hollow (h : WellFormed m occ key hash) {e : Nat} (he : e < m) :
    Hollow m occ key hash e ((e + 1) % m) where
  hash_lt := h.hash_lt
  hole_lt := he
  path i hi hocc _ := h.path i hi hocc
  unique i hi j hj _ _ := h.unique i hi j hj
  settled i hi _ hne hlt := by
    have hpos := dist_pos he hi hne
    have hnext := dist_next he
    omega

namespace Hollow

variable {e cur : Nat}

/-- The key at `cur` hashes behind the hole and stays. -/
theorem skip (h : Hollow m occ key hash e cur) (hcur : cur < m) (hturn : dist m e cur + 1 < m)
    (hstays : dist m (hash (key cur)) cur < dist m e cur) :
    Hollow m occ key hash e ((cur + 1) % m) where
  hash_lt := h.hash_lt
  hole_lt := h.hole_lt
  path := h.path
  unique := h.unique
  settled i hi hocc hne hlt := by
    rw [dist_succ h.hole_lt hcur hturn] at hlt
    rcases Nat.lt_or_eq_of_le (Nat.le_of_lt_succ hlt) with hbefore | heq
    · exact h.settled i hi hocc hne hbefore
    · obtain rfl := dist_inj h.hole_lt hi hcur heq
      exact hstays

/-- The key at `cur` does not hash behind the hole and moves into it. -/
theorem move (h : Hollow m occ key hash e cur) (hcur : cur < m) (hocc : occ cur) (hne : cur ≠ e)
    (hmoves : dist m e cur ≤ dist m (hash (key cur)) cur) :
    Hollow m occ (Function.update key e (key cur)) hash cur ((cur + 1) % m) where
  hash_lt := h.hash_lt
  hole_lt := hcur
  path i hi hocci hicur j hj := by
    by_cases hie : i = e
    · subst hie
      rw [Function.update_self] at hj ⊢
      -- the walk to the hole is the beginning of the walk to `cur`
      have hhash := h.hash_lt (key cur)
      have hle : dist m (hash (key cur)) i ≤ dist m (hash (key cur)) cur := by
        rw [dist_eq hi hcur, dist_eq hhash hcur] at hmoves
        rw [dist_eq hhash hi, dist_eq hhash hcur]
        split_ifs at hmoves ⊢ <;> omega
      exact h.path cur hcur hocc hne j (Nat.lt_of_lt_of_le hj hle)
    · rw [Function.update_of_ne hie] at hj ⊢
      exact h.path i hi hocci hie j hj
  unique i hi j hj hicur hjcur hocci hoccj hkey := by
    by_cases hie : i = e <;> by_cases hje : j = e
    · rw [hie, hje]
    · rw [hie, Function.update_self, Function.update_of_ne hje] at hkey
      exact absurd (h.unique cur hcur j hj hne hje hocc hoccj hkey).symm hjcur
    · rw [hje, Function.update_self, Function.update_of_ne hie] at hkey
      exact absurd (h.unique i hi cur hcur hie hne hocci hocc hkey) hicur
    · rw [Function.update_of_ne hie, Function.update_of_ne hje] at hkey
      exact h.unique i hi j hj hie hje hocci hoccj hkey
  settled i hi _ hicur hlt := by
    have hpos := dist_pos hcur hi hicur
    have hnext := dist_next hcur
    omega

/-- Once the walk behind the hole is at a free slot, the hole can be freed. -/
theorem close (h : Hollow m occ key hash e cur) (hcur : cur < m) (hfree : ¬ occ cur) :
    WellFormed m (fun i => occ i ∧ i ≠ e) key hash where
  hash_lt := h.hash_lt
  path i hi hocc j hj := by
    obtain ⟨hocci, hie⟩ := hocc
    have hhash := h.hash_lt (key i)
    refine ⟨h.path i hi hocci hie j hj, fun hhole => ?_⟩
    have hjm : j < m := Nat.lt_trans hj (dist_lt (by omega))
    have hje : dist m (hash (key i)) e = j := by
      rw [← hhole, dist_walk hhash hjm]
    have hsplit := dist_add hhash h.hole_lt hi (by omega)
    rcases Nat.lt_or_ge (dist m e i) (dist m e cur) with hlt | hge
    · have := h.settled i hi hocci hie hlt
      omega
    · -- a walk through the hole goes on through `cur`, which is free
      have hicur : dist m e cur ≠ dist m e i := by
        intro heq
        exact hfree (dist_inj h.hole_lt hcur hi heq ▸ hocci)
      apply hfree
      have hwalk : (hash (key i) + (j + dist m e cur)) % m = cur := by
        rw [← Nat.add_assoc, ← Nat.mod_add_mod, hhole, walk_dist h.hole_lt hcur]
      rw [← hwalk]
      exact h.path i hi hocci hie _ (by omega)
  unique i hi j hj hocci hoccj := h.unique i hi j hj hocci.2 hoccj.2 hocci.1 hoccj.1

end Hollow

end NetDedup.Probing
