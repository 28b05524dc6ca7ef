import Mathlib.Order.Filter.AtTopBot.Basic
import Mathlib.Order.WellFounded
import NetDedup.Lib.Run

/-!
# Endless runs

A run that never ends, and what comes about along one in which two parties keep
taking turns. A measure that no step raises is lowered by every turn, unless the
party that has it waits; the run gets to where both wait.
-/

namespace NetDedup.Run

open Filter

variable {S L M : Type*} {step : S → L → Option S} {s : ℕ → S} {l : ℕ → L}

/-- The states and the labels of a run without an end. -/
def Endless (step : S → L → Option S) (s : ℕ → S) (l : ℕ → L) : Prop :=
  ∀ n, step (s n) (l n) = some (s (n + 1))

/-- What every guarded step preserves holds from where it held once. -/
theorem Endless.always {guard : S → L → Prop} {I : S → Prop} (h : Endless step s l)
    (hguard : ∀ n, guard (s n) (l n))
    (hstep : ∀ s l s', I s → guard s l → step s l = some s' → I s') {k n : ℕ} (hk : I (s k))
    (hn : k ≤ n) : I (s n) := by
  induction n, hn using Nat.le_induction with
  | base => exact hk
  | succ n hn ih => exact hstep _ _ _ ih (hguard n) (h n)

/-- The first labels of an endless run make a run. -/
theorem Endless.run_range (h : Endless step s l) (n : ℕ) :
    run step (s 0) ((List.range n).map l) = some (s n) := by
  induction n with
  | zero => rfl
  | succ n ih =>
      rw [List.range_succ, List.map_append, List.map_singleton, run_append, ih, Option.bind_some,
        run, h n, Option.bind_some, run]

theorem Endless.guarded_range {guard : S → L → Prop} (h : Endless step s l)
    (hguard : ∀ n, guard (s n) (l n)) (n : ℕ) :
    Guarded step guard (s 0) ((List.range n).map l) := by
  induction n with
  | zero => trivial
  | succ n ih =>
      rw [List.range_succ, List.map_append, List.map_singleton]
      refine guarded_append.mpr ⟨ih, fun s' hs' => guarded_cons.mpr ⟨?_, fun _ _ => trivial⟩⟩
      obtain rfl := Option.some_inj.mp ((h.run_range n).symm.trans hs')
      exact hguard n

/-- When no label gets stuck, any sequence of labels makes an endless run. -/
theorem exists_endless {I : S → Prop} {s₀ : S} (hs : I s₀)
    (hstep : ∀ n s, I s → ∃ s', step s (l n) = some s' ∧ I s') :
    ∃ s, s 0 = s₀ ∧ Endless step s l ∧ ∀ n, I (s n) := by
  let s : ℕ → S := Nat.rec s₀ fun n s => (step s (l n)).getD s
  have hsucc (n : ℕ) : s (n + 1) = (step (s n) (l n)).getD (s n) := rfl
  have hI (n : ℕ) : I (s n) := by
    induction n with
    | zero => exact hs
    | succ n ih =>
        obtain ⟨s', hs', hI'⟩ := hstep n (s n) ih
        rw [hsucc, hs']
        exact hI'
  refine ⟨s, rfl, fun n => ?_, hI⟩
  obtain ⟨s', hs', -⟩ := hstep n (s n) (hI n)
  rw [hsucc, hs', Option.getD_some]

/-- What holds for as long as need be meets a label that comes again and again. -/
theorem exists_turn {A : ℕ → Prop} {P Q : S → Prop} {k : ℕ} (hA : ∃ᶠ n in atTop, A n)
    (hP : ∀ n, k ≤ n → P (s n) → P (s (n + 1)))
    (hQ : ∀ n, k ≤ n → A n → P (s n) → Q (s (n + 1))) (hk : P (s k)) : ∃ n, k ≤ n ∧ Q (s n) := by
  obtain ⟨a, hka, ha⟩ := frequently_atTop.mp hA k
  have hstays (n : ℕ) (hn : k ≤ n) : P (s n) := by
    induction n, hn using Nat.le_induction with
    | base => exact hk
    | succ n hn ih => exact hP n hn ih
  exact ⟨a + 1, by omega, hQ a hka ha (hstays a hka)⟩

section Turns

variable [Preorder M] [WellFoundedLT M] {μ : S → M} {k : ℕ}

/-- A measure that no step raises is lowered for the last time at some point. -/
theorem exists_settled (μ : S → M) (s : ℕ → S) (k : ℕ)
    (hle : ∀ n, k ≤ n → μ (s (n + 1)) ≤ μ (s n)) :
    ∃ n, k ≤ n ∧ ∀ m, n ≤ m → ¬ μ (s (m + 1)) < μ (s m) := by
  obtain ⟨n, hn, hmin⟩ := WellFounded.has_min (InvImage.wf (fun n => μ (s n)) wellFounded_lt)
    (Set.Ici k) ⟨k, Set.self_mem_Ici⟩
  have hkn : k ≤ n := hn
  have hdown (m : ℕ) (hm : n ≤ m) : μ (s m) ≤ μ (s n) := by
    induction m, hm using Nat.le_induction with
    | base => exact le_rfl
    | succ m hm ih => exact (hle m (hkn.trans hm)).trans ih
  refine ⟨n, hkn, fun m hm hlt => hmin (m + 1) (Set.mem_Ici.mpr (by omega)) ?_⟩
  exact lt_of_lt_of_le hlt (hdown m hm)

/-- Two parties take turns again and again. A turn of the first one lowers the measure
or leaves it waiting, for as long as the measure stays; a turn of the second one
lowers the measure or finds it waiting. Then both wait at once. -/
theorem exists_both {A B : ℕ → Prop} {P Q : S → Prop}
    (hle : ∀ n, k ≤ n → μ (s (n + 1)) ≤ μ (s n))
    (hA : ∀ n, k ≤ n → A n → μ (s (n + 1)) < μ (s n) ∨ P (s (n + 1)))
    (hP : ∀ n, k ≤ n → P (s n) → μ (s (n + 1)) < μ (s n) ∨ P (s (n + 1)))
    (hB : ∀ n, k ≤ n → B n → μ (s (n + 1)) < μ (s n) ∨ Q (s n))
    (hAs : ∃ᶠ n in atTop, A n) (hBs : ∃ᶠ n in atTop, B n) :
    ∃ n, k ≤ n ∧ P (s n) ∧ Q (s n) := by
  obtain ⟨n, hkn, hsettled⟩ := exists_settled μ s k hle
  obtain ⟨a, hna, ha⟩ := frequently_atTop.mp hAs n
  obtain ⟨b, hab, hb⟩ := frequently_atTop.mp hBs (a + 1)
  have hwaits (m : ℕ) (hm : a + 1 ≤ m) : P (s m) := by
    induction m, hm using Nat.le_induction with
    | base => exact (hA a (hkn.trans hna) ha).resolve_left (hsettled a hna)
    | succ m hm ih => exact (hP m (by omega) ih).resolve_left (hsettled m (by omega))
  exact ⟨b, by omega, hwaits b hab, (hB b (by omega) hb).resolve_left (hsettled b (by omega))⟩

end Turns

end NetDedup.Run
