import Mathlib.Logic.Function.Basic
import Mathlib.Tactic.Common

/-!
# Linear probing

An open-addressing table of `m` slots with occupied slots `occ` and their
keys. The invariant says that the walk from a key's hash to its slot meets no
free slot; searching a key up to the first free slot is then complete.
-/

namespace NetDedup.Probing

variable {K : Type*} {m : Nat} {occ : Nat → Prop} {key : Nat → K} {hash : K → Nat}

/-- Cyclic distance from `h` forward to `i`. -/
def dist (m h i : Nat) : Nat := (i + m - h) % m

theorem dist_lt {h i : Nat} (hm : 0 < m) : dist m h i < m := Nat.mod_lt _ hm

theorem walk_dist {h i : Nat} (hh : h < m) (hi : i < m) : (h + dist m h i) % m = i := by
  unfold dist
  rcases Nat.lt_or_ge i h with hlt | hge
  · rw [Nat.mod_eq_of_lt (show i + m - h < m by omega), show h + (i + m - h) = i + m by omega,
      Nat.add_mod_right, Nat.mod_eq_of_lt hi]
  · rw [show i + m - h = i - h + m by omega, Nat.add_mod_right,
      Nat.mod_eq_of_lt (show i - h < m by omega), show h + (i - h) = i by omega,
      Nat.mod_eq_of_lt hi]

theorem dist_walk {h t : Nat} (hh : h < m) (ht : t < m) : dist m h ((h + t) % m) = t := by
  unfold dist
  rcases Nat.lt_or_ge (h + t) m with hlt | hge
  · rw [Nat.mod_eq_of_lt hlt, show h + t + m - h = t + m by omega, Nat.add_mod_right,
      Nat.mod_eq_of_lt ht]
  · rw [show h + t = h + t - m + m by omega, Nat.add_mod_right,
      Nat.mod_eq_of_lt (show h + t - m < m by omega), show h + t - m + m - h = t by omega,
      Nat.mod_eq_of_lt ht]

/-- The invariant of a table without removed-slot markers. -/
structure WellFormed (m : Nat) (occ : Nat → Prop) (key : Nat → K) (hash : K → Nat) : Prop where
  hash_lt : ∀ k, hash k < m
  path : ∀ i < m, occ i → ∀ j < dist m (hash (key i)) i, occ ((hash (key i) + j) % m)
  unique : ∀ i < m, ∀ j < m, occ i → occ j → key i = key j → i = j

/-- The first free slot of the walk from `h` is `t` steps away. -/
structure FirstFree (m : Nat) (occ : Nat → Prop) (h t : Nat) : Prop where
  lt : t < m
  free : ¬ occ ((h + t) % m)
  before : ∀ j < t, occ ((h + j) % m)

theorem FirstFree.unique {h t t' : Nat} (hfree : FirstFree m occ h t)
    (hfree' : FirstFree m occ h t') : t = t' := by
  rcases Nat.lt_trichotomy t t' with hlt | heq | hgt
  · exact absurd (hfree'.before t hlt) hfree.free
  · exact heq
  · exact absurd (hfree.before t' hgt) hfree'.free

namespace WellFormed

theorem empty (hhash : ∀ k, hash k < m) (key : Nat → K) :
    WellFormed m (fun _ => False) key hash where
  hash_lt := hhash
  path := fun _ _ h => h.elim
  unique := fun _ _ _ _ h => h.elim

/-- A stored key lies before the first free slot of its walk. -/
theorem dist_lt_free (hwf : WellFormed m occ key hash) {i t : Nat} (hi : i < m) (hocc : occ i)
    (hfree : FirstFree m occ (hash (key i)) t) : dist m (hash (key i)) i < t := by
  by_contra hge
  rcases Nat.lt_or_eq_of_le (Nat.le_of_not_lt hge) with hlt | heq
  · exact hfree.free (hwf.path i hi hocc t hlt)
  · apply hfree.free
    rw [heq, walk_dist (hwf.hash_lt _) hi]
    exact hocc

/-- Storing an absent key in the first free slot of its walk keeps the invariant. -/
theorem insert (hwf : WellFormed m occ key hash) {k : K} {t : Nat}
    (hfree : FirstFree m occ (hash k) t) (habsent : ∀ i < m, occ i → key i ≠ k) :
    WellFormed m (fun i => occ i ∨ i = (hash k + t) % m)
      (Function.update key ((hash k + t) % m) k) hash where
  hash_lt := hwf.hash_lt
  path := by
    intro i hi hocc j hj
    by_cases he : i = (hash k + t) % m
    · subst he
      rw [Function.update_self] at hj ⊢
      rw [dist_walk (hwf.hash_lt k) hfree.lt] at hj
      exact Or.inl (hfree.before j hj)
    · have hold : occ i := hocc.resolve_right he
      rw [Function.update_of_ne he] at hj ⊢
      exact Or.inl (hwf.path i hi hold j hj)
  unique := by
    intro i hi j hj hocci hoccj hkey
    by_cases hie : i = (hash k + t) % m <;> by_cases hje : j = (hash k + t) % m
    · rw [hie, hje]
    · subst hie
      rw [Function.update_self, Function.update_of_ne hje] at hkey
      exact absurd hkey.symm (habsent j hj (hoccj.resolve_right hje))
    · subst hje
      rw [Function.update_self, Function.update_of_ne hie] at hkey
      exact absurd hkey (habsent i hi (hocci.resolve_right hie))
    · rw [Function.update_of_ne hie, Function.update_of_ne hje] at hkey
      exact hwf.unique i hi j hj (hocci.resolve_right hie) (hoccj.resolve_right hje) hkey

end WellFormed

section Search

variable [DecidableEq K]

/-- Compare `k` with the slots of the walk from `h`, at most `n` of them. -/
def search (key : Nat → K) (m : Nat) (k : K) : Nat → Nat → Option Nat
  | 0, _ => none
  | n + 1, h => if k = key h then some h else search key m k n ((h + 1) % m)

/-- A search that succeeds stops at a slot of the walk with the key. -/
theorem search_some {k : K} {i : Nat} (n : Nat) :
    ∀ {h : Nat}, h < m → search key m k n h = some i →
      key i = k ∧ ∃ j < n, i = (h + j) % m := by
  induction n with
  | zero => intro h _ hs; simp [search] at hs
  | succ n ih =>
      intro h hh hs
      unfold search at hs
      split at hs
      · next hk =>
        obtain rfl := Option.some_inj.mp hs
        exact ⟨hk.symm, 0, by omega, by rw [Nat.add_zero, Nat.mod_eq_of_lt hh]⟩
      · obtain ⟨hk, j, hj, rfl⟩ := ih (Nat.mod_lt _ (by omega)) hs
        refine ⟨hk, j + 1, by omega, ?_⟩
        rw [Nat.mod_add_mod]
        congr 1
        omega

/-- A search that fails has compared every slot of the walk. -/
theorem search_none {k : K} (n : Nat) :
    ∀ {h : Nat}, h < m → search key m k n h = none → ∀ j < n, key ((h + j) % m) ≠ k := by
  induction n with
  | zero => intro h _ _ j hj; omega
  | succ n ih =>
      intro h hh hs j hj
      unfold search at hs
      split at hs
      · exact absurd hs (by simp)
      · next hk =>
        cases j with
        | zero =>
            rw [Nat.add_zero, Nat.mod_eq_of_lt hh]
            exact fun he => hk he.symm
        | succ j =>
            have h' := ih (Nat.mod_lt _ (by omega)) hs j (by omega)
            rwa [Nat.mod_add_mod, show h + 1 + j = h + (j + 1) by omega] at h'

/-- Searching a stored key up to the first free slot, or further, finds its slot. -/
theorem WellFormed.search_stored (hwf : WellFormed m occ key hash) {i t n : Nat} (hi : i < m)
    (hocc : occ i) (hfree : FirstFree m occ (hash (key i)) t) (hn : t ≤ n)
    (hpast : ∀ j, t ≤ j → j < n → key ((hash (key i) + j) % m) ≠ key i) :
    search key m (key i) n (hash (key i)) = some i := by
  have hdist := hwf.dist_lt_free hi hocc hfree
  cases hs : search key m (key i) n (hash (key i)) with
  | none =>
      have h := search_none n (hwf.hash_lt _) hs (dist m (hash (key i)) i) (by omega)
      rw [walk_dist (hwf.hash_lt _) hi] at h
      exact absurd rfl h
  | some i' =>
      obtain ⟨hk, j, hj, rfl⟩ := search_some n (hwf.hash_lt _) hs
      rcases Nat.lt_or_ge j t with hjt | hjt
      · have hlt := Nat.mod_lt (hash (key i) + j) (show 0 < m by omega)
        rw [hwf.unique _ hlt i hi (hfree.before j hjt) hocc hk]
      · exact absurd hk (hpast j hjt hj)

/-- Searching a key that no slot of the walk holds fails. -/
theorem search_absent {k : K} {h : Nat} (hh : h < m) (n : Nat)
    (habsent : ∀ j < n, key ((h + j) % m) ≠ k) : search key m k n h = none := by
  cases hs : search key m k n h with
  | none => rfl
  | some i =>
      obtain ⟨hk, j, hj, rfl⟩ := search_some n hh hs
      exact absurd hk (habsent j hj)

end Search

end NetDedup.Probing
