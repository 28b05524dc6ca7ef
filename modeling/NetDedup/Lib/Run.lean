import Mathlib.Tactic.Common

/-!
# Runs of a labelled system

A system steps from a state under a label; `none` means that the label is not
enabled. A run is a list of labels. The invariant rule below allows for a
condition on the steps that the run takes.
-/

namespace NetDedup.Run

variable {S L : Type*} (step : S → L → Option S)

/-- The state after a run. -/
def run : S → List L → Option S
  | s, [] => some s
  | s, l :: ls => (step s l).bind fun s' => run s' ls

/-- Every step of the run meets the condition in the state it is taken from. -/
def Guarded (guard : S → L → Prop) : S → List L → Prop
  | _, [] => True
  | s, l :: ls => guard s l ∧
      match step s l with
      | some s' => Guarded guard s' ls
      | none => True

instance decidableGuarded (guard : S → L → Prop) [∀ s l, Decidable (guard s l)] :
    ∀ s ls, Decidable (Guarded step guard s ls)
  | _, [] => inferInstanceAs (Decidable True)
  | s, l :: ls =>
      have : Decidable (match step s l with
          | some s' => Guarded step guard s' ls
          | none => True) :=
        match step s l with
        | some s' => decidableGuarded guard s' ls
        | none => inferInstanceAs (Decidable True)
      inferInstanceAs (Decidable (_ ∧ _))

/-- The state after a run that stops at the first step that does not meet the condition. -/
def runChecked (guard : S → L → Prop) [∀ s l, Decidable (guard s l)] : S → List L → Option S
  | s, [] => some s
  | s, l :: ls => if guard s l then (step s l).bind fun s' => runChecked guard s' ls else none

variable {step}

theorem guarded_cons {guard : S → L → Prop} {s : S} {l : L} {ls : List L} :
    Guarded step guard s (l :: ls) ↔
      guard s l ∧ ∀ s', step s l = some s' → Guarded step guard s' ls := by
  rw [Guarded]
  cases step s l with
  | none => simp
  | some s' => simp

theorem of_runChecked {guard : S → L → Prop} [∀ s l, Decidable (guard s l)] :
    ∀ {s s' : S} {ls : List L}, runChecked step guard s ls = some s' →
      Guarded step guard s ls ∧ run step s ls = some s'
  | _, _, [], h => ⟨trivial, h⟩
  | s, s', l :: ls, h => by
      rw [runChecked] at h
      split_ifs at h with hl
      obtain ⟨s₁, hs₁, hrest⟩ := Option.bind_eq_some_iff.mp h
      obtain ⟨hls, hrun⟩ := of_runChecked hrest
      refine ⟨guarded_cons.mpr ⟨hl, fun s₂ hs₂ => ?_⟩, ?_⟩
      · obtain rfl := Option.some_inj.mp (hs₁.symm.trans hs₂)
        exact hls
      · rw [run, hs₁, Option.bind_some, hrun]

/-- A run that keeps to a stronger condition keeps to a weaker one. -/
theorem Guarded.mono {A B : S → L → Prop} (h : ∀ s l, A s l → B s l) :
    ∀ {s : S} {ls : List L}, Guarded step A s ls → Guarded step B s ls
  | _, [], _ => trivial
  | s, l :: ls, hguard => by
      obtain ⟨hl, hls⟩ := guarded_cons.mp hguard
      exact guarded_cons.mpr ⟨h s l hl, fun s' hs' => Guarded.mono h (hls s' hs')⟩

/-- One condition is enough for another one where what the latter preserves holds. -/
theorem Guarded.strengthen {A B : S → L → Prop} {I : S → Prop} (h : ∀ s l, I s → A s l → B s l)
    (hstep : ∀ s l s', I s → B s l → step s l = some s' → I s') :
    ∀ {s : S} {ls : List L}, I s → Guarded step A s ls → Guarded step B s ls
  | _, [], _, _ => trivial
  | s, l :: ls, hI, hguard => by
      obtain ⟨hl, hls⟩ := guarded_cons.mp hguard
      have hB := h s l hI hl
      exact guarded_cons.mpr ⟨hB, fun s' hs' =>
        Guarded.strengthen h hstep (hstep s l s' hI hB hs') (hls s' hs')⟩

theorem Guarded.of_forall {guard : S → L → Prop} :
    ∀ {s : S} {ls : List L}, (∀ l ∈ ls, ∀ s, guard s l) → Guarded step guard s ls
  | _, [], _ => trivial
  | s, l :: _, h => guarded_cons.mpr ⟨h l List.mem_cons_self s,
      fun _ _ => Guarded.of_forall fun l' hl' => h l' (List.mem_cons_of_mem l hl')⟩

theorem run_append (s : S) (ls ls' : List L) :
    run step s (ls ++ ls') = (run step s ls).bind fun s' => run step s' ls' := by
  induction ls generalizing s with
  | nil => rfl
  | cons l ls ih =>
      rw [List.cons_append, run, run]
      cases step s l with
      | none => rfl
      | some s' => exact ih s'

/-- A condition on a run is one on its first part and one on what follows. -/
theorem guarded_append {guard : S → L → Prop} {s : S} {ls ls' : List L} :
    Guarded step guard s (ls ++ ls') ↔
      Guarded step guard s ls ∧ ∀ s', run step s ls = some s' → Guarded step guard s' ls' := by
  induction ls generalizing s with
  | nil => simp [run, Guarded]
  | cons l ls ih =>
      rw [List.cons_append, guarded_cons, guarded_cons, and_assoc]
      refine and_congr_right fun _ => ?_
      rw [run]
      cases step s l with
      | none => simp
      | some s₁ => simpa using ih

/-- What every guarded step preserves holds at the end of every guarded run. -/
theorem run_invariant {guard : S → L → Prop} {I : S → Prop}
    (hstep : ∀ s l s', I s → guard s l → step s l = some s' → I s') :
    ∀ {s s' : S} {ls : List L}, I s → Guarded step guard s ls → run step s ls = some s' → I s'
  | s, s', [], hI, _, hrun => by
      obtain rfl := Option.some_inj.mp hrun
      exact hI
  | s, s', l :: ls, hI, hguard, hrun => by
      obtain ⟨s₁, hs₁, hrest⟩ := Option.bind_eq_some_iff.mp hrun
      obtain ⟨hl, hls⟩ := hguard
      rw [hs₁] at hls
      exact run_invariant hstep (hstep s l s₁ hI hl hs₁) hls hrest

/-- The invariant rule for runs without a condition. -/
theorem run_invariant_all {I : S → Prop}
    (hstep : ∀ s l s', I s → step s l = some s' → I s') :
    ∀ {s s' : S} {ls : List L}, I s → run step s ls = some s' → I s'
  | s, s', [], hI, hrun => by
      obtain rfl := Option.some_inj.mp hrun
      exact hI
  | s, s', l :: ls, hI, hrun => by
      obtain ⟨s₁, hs₁, hrest⟩ := Option.bind_eq_some_iff.mp hrun
      exact run_invariant_all hstep (hstep s l s₁ hI hs₁) hrest

/-- Two conditions that agree wherever one of them has been kept so far hold
along the same runs. -/
theorem guarded_iff {A B : S → L → Prop} {I : S → Prop}
    (hiff : ∀ s l s', I s → step s l = some s' → (A s l ↔ B s l))
    (hstep : ∀ s l s', I s → B s l → step s l = some s' → I s') :
    ∀ {s : S} {ls : List L}, I s → run step s ls ≠ none →
      (Guarded step A s ls ↔ Guarded step B s ls)
  | s, [], _, _ => Iff.rfl
  | s, l :: ls, hI, hrun => by
      rw [run] at hrun
      cases hs : step s l with
      | none => rw [hs] at hrun; exact absurd rfl hrun
      | some s₁ =>
          rw [hs, Option.bind_some] at hrun
          simp only [Guarded, hs]
          rw [hiff s l s₁ hI hs]
          exact and_congr_right fun hl => guarded_iff hiff hstep (hstep s l s₁ hI hl hs) hrun

/-- When no step that keeps to the condition gets stuck, no guarded run does. -/
theorem run_total {guard : S → L → Prop} {I : S → Prop}
    (hstep : ∀ s l, I s → guard s l → ∃ s', step s l = some s' ∧ I s') :
    ∀ {s : S} {ls : List L}, I s → Guarded step guard s ls → ∃ s', run step s ls = some s' ∧ I s'
  | s, [], hI, _ => ⟨s, rfl, hI⟩
  | s, l :: ls, hI, ⟨hl, hls⟩ => by
      obtain ⟨s₁, hs₁, hI₁⟩ := hstep s l hI hl
      rw [hs₁] at hls
      obtain ⟨s', hrun, hI'⟩ := run_total hstep hI₁ hls
      exact ⟨s', by rw [run, hs₁, Option.bind_some, hrun], hI'⟩

/-- When every step is, seen from above, a run of another system, so is every run. -/
theorem run_simulates {T M : Type*} {upper : T → M → Option T} {guard : S → L → Prop}
    {upperGuard : T → M → Prop} {R : S → T → Prop}
    (hstep : ∀ s t l, R s t → guard s l → ∃ s' ms t', step s l = some s' ∧
      Guarded upper upperGuard t ms ∧ run upper t ms = some t' ∧ R s' t') :
    ∀ {s : S} {t : T} {ls : List L}, R s t → Guarded step guard s ls →
      ∃ s' ms t', run step s ls = some s' ∧ Guarded upper upperGuard t ms ∧
        run upper t ms = some t' ∧ R s' t'
  | s, t, [], hR, _ => ⟨s, [], t, rfl, trivial, rfl, hR⟩
  | s, t, l :: ls, hR, hguard => by
      obtain ⟨hl, hls⟩ := guarded_cons.mp hguard
      obtain ⟨s₁, ms₁, t₁, hs₁, hguard₁, hrun₁, hR₁⟩ := hstep s t l hR hl
      obtain ⟨s', ms₂, t', hs', hguard₂, hrun₂, hR'⟩ := run_simulates hstep hR₁ (hls s₁ hs₁)
      refine ⟨s', ms₁ ++ ms₂, t', ?_, guarded_append.mpr ⟨hguard₁, fun t₂ ht₂ => ?_⟩, ?_, hR'⟩
      · rw [run, hs₁, Option.bind_some, hs']
      · obtain rfl := Option.some_inj.mp (hrun₁.symm.trans ht₂)
        exact hguard₂
      · rw [run_append, hrun₁, Option.bind_some, hrun₂]

end NetDedup.Run
