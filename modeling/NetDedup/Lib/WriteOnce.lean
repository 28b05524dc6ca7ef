import Mathlib.Data.List.Basic
import Mathlib.Logic.Function.Basic
import Mathlib.Tactic.Common

/-!
# Write-once maps

A map whose keys keep the first value that was accepted for them. A run is a
list of attempts, each accepted or not; what a key yields afterwards is the
value of its first accepted attempt.
-/

namespace NetDedup.WriteOnce

variable {K V : Type*} [DecidableEq K]

/-- One attempt to write, with its outcome. -/
structure Attempt (K V : Type*) where
  key : K
  value : V
  accepted : Bool

/-- Write a key that has no value yet. -/
def put (m : K → Option V) (k : K) (v : V) : K → Option V :=
  Function.update m k (some ((m k).getD v))

/-- The map after one attempt. -/
def attempt (m : K → Option V) (a : Attempt K V) : K → Option V :=
  if a.accepted then put m a.key a.value else m

/-- The map after a run of attempts. -/
def run (m : K → Option V) (as : List (Attempt K V)) : K → Option V := as.foldl attempt m

variable {m : K → Option V} {k : K} {v : V}

theorem put_stable (h : m k = some v) (k' : K) (v' : V) : put m k' v' k = some v := by
  unfold put
  by_cases hk : k = k'
  · subst hk
    rw [Function.update_self, h, Option.getD_some]
  · rw [Function.update_of_ne hk, h]

/-- A value is never replaced. -/
theorem attempt_stable (h : m k = some v) (a : Attempt K V) : attempt m a k = some v := by
  unfold attempt
  split
  · exact put_stable h _ _
  · exact h

theorem run_stable (h : m k = some v) (as : List (Attempt K V)) : run m as k = some v := by
  induction as generalizing m with
  | nil => exact h
  | cons a as ih => exact ih (attempt_stable h a)

/-- A key without a value gets the value of its first accepted attempt. -/
theorem run_of_none (h : m k = none) (as : List (Attempt K V)) :
    run m as k = (as.find? fun a => a.accepted && decide (a.key = k)).map Attempt.value := by
  induction as generalizing m with
  | nil => exact h
  | cons a as ih =>
      rw [List.find?_cons]
      change run (attempt m a) as k = _
      split
      · next hhit =>
        obtain ⟨hacc, hkey⟩ := Bool.and_eq_true_iff.mp hhit
        have hkey : a.key = k := of_decide_eq_true hkey
        refine run_stable ?_ as
        rw [attempt, if_pos hacc, put, hkey, Function.update_self, h, Option.getD_none]
      · next hmiss =>
        refine ih ?_
        unfold attempt
        split
        · next hacc =>
          have hkey : k ≠ a.key := fun hk => by simp [hacc, hk] at hmiss
          rw [put, Function.update_of_ne hkey, h]
        · exact h

end NetDedup.WriteOnce
