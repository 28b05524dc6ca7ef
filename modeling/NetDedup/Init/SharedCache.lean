import NetDedup.Lib.Run

/-!
# Opening the shared cache

`netDedup_init` of several processes on one shared-memory object. A step is
one system call of one process, or the beginning or end of its
`init_fingerprint_cache`; system calls may fail. A process that has returned
`ncclSuccess` may insert entries.
-/

namespace NetDedup.Init

/-- Where a process is inside `netDedup_init`. -/
inductive Pc where
  | start
  /-- The network devices are known; next is `shm_open` with `O_CREAT | O_EXCL`. -/
  | shmOpenExcl
  /-- `fd == -1`: sleep, then `shm_open` of the existing object. -/
  | waiting
  /-- The existing object is open; next is `mmap`. -/
  | opened
  /-- The object was created; next is `ftruncate`. -/
  | created
  | truncated
  /-- Next is `init_fingerprint_cache` on the mapping. -/
  | mapped (valid : Bool)
  | initializing
  /-- Next are the environment variables and the dump files. -/
  | attached (valid : Bool)
  | ncclSuccess (valid : Bool)
  | ncclSystemError
  | crashed
  deriving DecidableEq

/-- What a process does next, with the outcome of the call. -/
inductive Action where
  | initNetSocketDevs (ok : Bool)
  | shmOpenExcl (ok : Bool)
  | shmOpen (ok : Bool)
  | ftruncate (ok : Bool)
  | mmap (ok : Bool)
  | beginInit
  | endInit
  | finish (ok : Bool)
  | insert
  deriving DecidableEq

/-- The shared object and the processes. -/
structure World where
  /-- `shm_open` with `O_EXCL` has created the object. -/
  linked : Bool
  /-- The object has the size of a `Fingerprint_Cache`. -/
  sized : Bool
  /-- How often `init_fingerprint_cache` has begun on the object. -/
  initRuns : Nat
  /-- `init_fingerprint_cache` has completed on the object. -/
  initDone : Bool
  /-- Some process has inserted an entry. -/
  inserted : Bool
  pc : Nat → Pc

/-- No object and no process inside `netDedup_init`. -/
def initial : World := ⟨false, false, 0, false, false, fun _ => .start⟩

namespace World

variable (w : World) (p : Nat)

def goto (pc : Pc) : World := { w with pc := Function.update w.pc p pc }

/-- One step of process `p`. A failed `mmap` is not null, so no branch notices
it; touching such a mapping, or one whose object has no size yet, kills the
process. An insert on an object that is still zeroed finds no free page. -/
def step : Action → Option World
  | .initNetSocketDevs ok =>
      if w.pc p = .start then
        some (w.goto p (if ok then .shmOpenExcl else .ncclSystemError))
      else none
  | .shmOpenExcl ok =>
      if w.pc p = .shmOpenExcl then
        if w.linked = false ∧ ok = true then
          some { w.goto p .created with linked := true }
        else some (w.goto p .waiting)
      else none
  | .shmOpen ok =>
      if w.pc p = .waiting then
        some (w.goto p (if w.linked = true ∧ ok = true then .opened else .waiting))
      else none
  | .ftruncate ok =>
      if w.pc p = .created then
        some { w.goto p .truncated with sized := w.sized || ok }
      else none
  | .mmap ok =>
      if w.pc p = .opened then some (w.goto p (.attached ok))
      else if w.pc p = .truncated then some (w.goto p (.mapped ok))
      else none
  | .beginInit =>
      if w.pc p = .mapped true ∧ w.sized = true then
        some { w.goto p .initializing with initRuns := w.initRuns + 1 }
      else if w.pc p = .mapped true ∨ w.pc p = .mapped false then some (w.goto p .crashed)
      else none
  | .endInit =>
      if w.pc p = .initializing then
        some { w.goto p (.attached true) with initDone := true }
      else none
  | .finish ok =>
      match w.pc p with
      | .attached valid => some (w.goto p (if ok then .ncclSuccess valid else .ncclSystemError))
      | _ => none
  | .insert =>
      if w.pc p = .ncclSuccess true ∧ w.sized = true then
        some { w with inserted := w.inserted || decide (1 ≤ w.initRuns) }
      else if w.pc p = .ncclSuccess true ∨ w.pc p = .ncclSuccess false then some (w.goto p .crashed)
      else none

end World

/-- The system of all processes. -/
def step (w : World) (l : Nat × Action) : Option World := w.step l.1 l.2

/-- What a starter and its peers rely on. -/
structure Safe (w : World) : Prop where
  /-- Who has returned `ncclSuccess` finds a full-sized, initialised object. -/
  ready : ∀ p valid, w.pc p = .ncclSuccess valid → w.sized = true ∧ w.initDone = true
  once : w.initRuns ≤ 1
  /-- No entry was inserted before the initialisation was over. -/
  kept : w.inserted = true → w.initDone = true

/-- The existing object is opened only after its initialisation. -/
def OpensLate (w : World) (l : Nat × Action) : Prop :=
  w.pc l.1 = .waiting → w.linked = true → l.2 = .shmOpen true → w.initDone = true

instance (w : World) (l : Nat × Action) : Decidable (OpensLate w l) :=
  inferInstanceAs (Decidable (_ → _ → _ → _))

/-- The process is the creator and has not completed the initialisation. -/
def Pc.Creating (pc : Pc) : Prop :=
  pc = .created ∨ pc = .truncated ∨ pc = .mapped true ∨ pc = .mapped false ∨ pc = .initializing

/-- The process is past the initialisation of the object. -/
def Pc.Attached (pc : Pc) : Prop :=
  pc = .opened ∨ ∃ valid, pc = .attached valid ∨ pc = .ncclSuccess valid

/-- The invariant of the runs that open the object late. -/
structure Inv (w : World) : Prop where
  attached : ∀ p, (w.pc p).Attached → w.initDone = true
  unlinked : w.linked = false → ∀ p, ¬ (w.pc p).Creating
  creator : ∀ p q, (w.pc p).Creating → (w.pc q).Creating → p = q
  pending : ∀ p, (w.pc p).Creating → w.initDone = false ∧
    w.initRuns = if w.pc p = .initializing then 1 else 0
  sized : ∀ p, w.pc p = .initializing → w.sized = true
  fresh : w.linked = false → w.initRuns = 0 ∧ w.initDone = false
  done_sized : w.initDone = true → w.sized = true
  once : w.initRuns ≤ 1
  kept : w.inserted = true → w.initDone = true

theorem Inv.safe {w : World} (h : Inv w) : Safe w where
  ready := fun p valid hp =>
    have hdone := h.attached p (Or.inr ⟨valid, Or.inr hp⟩)
    ⟨h.done_sized hdone, hdone⟩
  once := h.once
  kept := h.kept

theorem initial_inv : Inv initial := by
  constructor <;> simp [initial, Pc.Attached, Pc.Creating]

section Steps

variable {w : World} {p : Nat}

@[simp] theorem goto_self (pc : Pc) : (w.goto p pc).pc p = pc := Function.update_self ..

theorem goto_of_ne {q : Nat} (hq : q ≠ p) (pc : Pc) : (w.goto p pc).pc q = w.pc q :=
  Function.update_of_ne hq ..

/-- A process that leaves the initialisation to others, or gives it up. -/
theorem Inv.leave (h : Inv w) {pc : Pc} (hcreating : ¬ pc.Creating)
    (hattached : pc.Attached → w.initDone = true) : Inv (w.goto p pc) := by
  have hold {q : Nat} (hq : ((w.goto p pc).pc q).Creating) :
      q ≠ p ∧ (w.pc q).Creating := by
    by_cases hqp : q = p
    · subst hqp
      rw [goto_self] at hq
      exact absurd hq hcreating
    · rw [goto_of_ne hqp] at hq
      exact ⟨hqp, hq⟩
  refine ⟨fun q hq => ?_, fun hl q hq => h.unlinked hl q (hold hq).2,
    fun q r hq hr => h.creator q r (hold hq).2 (hold hr).2, fun q hq => ?_, fun q hq => ?_,
    h.fresh, h.done_sized, h.once, h.kept⟩
  · by_cases hqp : q = p
    · subst hqp
      rw [goto_self] at hq
      exact hattached hq
    · rw [goto_of_ne hqp] at hq
      exact h.attached q hq
  · rw [goto_of_ne (hold hq).1]
    exact h.pending q (hold hq).2
  · have hq' : ((w.goto p pc).pc q).Creating := by simp [Pc.Creating, hq]
    rw [goto_of_ne (hold hq').1] at hq
    exact h.sized q hq

/-- The creator moves on inside the initialisation. -/
theorem Inv.advance (h : Inv w) (hpc : (w.pc p).Creating) {pc : Pc} (hcreating : pc.Creating)
    {sized : Bool} {runs : Nat} (hruns : runs = if pc = .initializing then 1 else 0)
    (hinit : pc = .initializing → sized = true) :
    Inv { w.goto p pc with sized := sized, initRuns := runs } := by
  have hlinked : w.linked = true := by
    by_contra hl
    exact h.unlinked (by simpa using hl) p hpc
  have hcreator {q : Nat} (hq : ((w.goto p pc).pc q).Creating) : q = p := by
    by_contra hqp
    rw [goto_of_ne hqp] at hq
    exact hqp (h.creator q p hq hpc)
  obtain ⟨hdone, -⟩ := h.pending p hpc
  refine ⟨fun q hq => ?_, fun hl => ?_, fun q r hq hr => (hcreator hq).trans (hcreator hr).symm,
    fun q hq => ?_, fun q hq => ?_, fun hl => ?_, fun hd => ?_, ?_, h.kept⟩
  · by_cases hqp : q = p
    · subst hqp
      have hatt : pc.Attached := by simpa using hq
      rcases hcreating with rfl | rfl | rfl | rfl | rfl <;>
        rcases hatt with hatt | ⟨_, hatt | hatt⟩ <;> exact Pc.noConfusion hatt
    · exact h.attached q (by simpa [goto_of_ne hqp] using hq)
  · exact absurd (hlinked.symm.trans hl) (by decide)
  · obtain rfl := hcreator hq
    refine ⟨hdone, ?_⟩
    simpa using hruns
  · have hq' : ((w.goto p pc).pc q).Creating := by
      have hq : (w.goto p pc).pc q = .initializing := hq
      simp [Pc.Creating, hq]
    obtain rfl := hcreator hq'
    exact hinit (by simpa using hq)
  · exact absurd (hlinked.symm.trans hl) (by decide)
  · exact absurd (hdone.symm.trans hd) (by decide)
  · change runs ≤ 1
    rw [hruns]
    split <;> omega

/-- The object is created by a process that found none. -/
theorem Inv.create (h : Inv w) (hl : w.linked = false) :
    Inv { w.goto p .created with linked := true } := by
  have hnone := h.unlinked hl
  obtain ⟨hruns, hdone⟩ := h.fresh hl
  have hcreator {q : Nat} (hq : ((w.goto p .created).pc q).Creating) : q = p := by
    by_contra hqp
    rw [goto_of_ne hqp] at hq
    exact hnone q hq
  have hatt : ∀ q, ¬ (w.pc q).Attached := fun q hq =>
    absurd (hdone.symm.trans (h.attached q hq)) (by decide)
  refine ⟨fun q hq => ?_, fun hl' => by simp at hl', fun q r hq hr =>
    (hcreator hq).trans (hcreator hr).symm, fun q hq => ?_, fun q hq => ?_,
    fun hl' => by simp at hl', h.done_sized, h.once, h.kept⟩
  · by_cases hqp : q = p
    · subst hqp
      have hbad : Pc.created.Attached := by simpa using hq
      rcases hbad with hbad | ⟨_, hbad | hbad⟩ <;> exact Pc.noConfusion hbad
    · exact absurd (by simpa [goto_of_ne hqp] using hq) (hatt q)
  · obtain rfl := hcreator hq
    refine ⟨hdone, ?_⟩
    change w.initRuns = if (w.goto q .created).pc q = .initializing then 1 else 0
    rw [goto_self, hruns]
    rfl
  · by_cases hqp : q = p
    · subst hqp
      simp at hq
    · exact h.sized q (by simpa [goto_of_ne hqp] using hq)

/-- The initialisation completes. -/
theorem Inv.complete (h : Inv w) (hpc : w.pc p = .initializing) :
    Inv { w.goto p (.attached true) with initDone := true } := by
  have hcreating : (w.pc p).Creating := by simp [Pc.Creating, hpc]
  have hnone (q : Nat) : ¬ ((w.goto p (.attached true)).pc q).Creating := by
    by_cases hqp : q = p
    · subst hqp
      simp [Pc.Creating]
    · rw [goto_of_ne hqp]
      exact fun hq => hqp (h.creator q p hq hcreating)
  have hlinked : w.linked = true := by
    by_contra hl
    exact h.unlinked (by simpa using hl) p hcreating
  refine ⟨fun _ _ => rfl, fun _ q => hnone q, fun q _ hq => absurd hq (hnone q),
    fun q hq => absurd hq (hnone q), fun q hq => ?_, fun hl => ?_, fun _ => h.sized p hpc, h.once,
    fun _ => rfl⟩
  · have hq : (w.goto p (.attached true)).pc q = .initializing := hq
    exact absurd (show ((w.goto p (.attached true)).pc q).Creating by simp [Pc.Creating, hq])
        (hnone q)
  · exact absurd (hlinked.symm.trans hl) (by decide)

/-- Every step that does not open the object early keeps the invariant. -/
theorem Inv.step (h : Inv w) {l : Nat × Action} (hlate : OpensLate w l) {w' : World}
    (hstep : step w l = some w') : Inv w' := by
  obtain ⟨p, a⟩ := l
  cases a with
  | initNetSocketDevs ok =>
      obtain ⟨-, heq⟩ := Option.ite_none_right_eq_some.mp hstep
      obtain rfl := Option.some_inj.mp heq
      cases ok <;> exact h.leave (by simp [Pc.Creating]) (by simp [Pc.Attached])
  | shmOpenExcl ok =>
      obtain ⟨-, heq⟩ := Option.ite_none_right_eq_some.mp hstep
      split at heq
      · next hl =>
        obtain rfl := Option.some_inj.mp heq
        exact h.create hl.1
      · obtain rfl := Option.some_inj.mp heq
        exact h.leave (by simp [Pc.Creating]) (by simp [Pc.Attached])
  | shmOpen ok =>
      obtain ⟨hpc, heq⟩ := Option.ite_none_right_eq_some.mp hstep
      obtain rfl := Option.some_inj.mp heq
      refine h.leave ?_ fun hatt => ?_
      · split <;> simp [Pc.Creating]
      · split at hatt
        · next hl => exact hlate hpc hl.1 (congrArg Action.shmOpen hl.2)
        · simp [Pc.Attached] at hatt
  | ftruncate ok =>
      obtain ⟨hpc, heq⟩ := Option.ite_none_right_eq_some.mp hstep
      obtain rfl := Option.some_inj.mp heq
      have hcreating : (w.pc p).Creating := by simp [Pc.Creating, hpc]
      refine h.advance hcreating (by simp [Pc.Creating]) ?_ (by simp)
      change w.initRuns = _
      rw [(h.pending p hcreating).2, hpc]
      rfl
  | mmap ok =>
      change (if w.pc p = .opened then _ else if w.pc p = .truncated then _ else _) = _ at hstep
      split at hstep
      · next hpc =>
        obtain rfl := Option.some_inj.mp hstep
        exact h.leave (by simp [Pc.Creating]) fun _ => h.attached p (Or.inl hpc)
      · obtain ⟨hpc, heq⟩ := Option.ite_none_right_eq_some.mp hstep
        obtain rfl := Option.some_inj.mp heq
        have hcreating : (w.pc p).Creating := by simp [Pc.Creating, hpc]
        refine h.advance hcreating (by cases ok <;> simp [Pc.Creating]) ?_ (by simp)
        rw [(h.pending p hcreating).2, hpc]
        rfl
  | beginInit =>
      change (if w.pc p = .mapped true ∧ w.sized = true then _
        else if w.pc p = .mapped true ∨ w.pc p = .mapped false then _ else _) = _ at hstep
      split at hstep
      · next hpc =>
        obtain rfl := Option.some_inj.mp hstep
        have hcreating : (w.pc p).Creating := by simp [Pc.Creating, hpc.1]
        refine h.advance hcreating (by simp [Pc.Creating]) ?_ fun _ => hpc.2
        rw [(h.pending p hcreating).2, hpc.1]
        rfl
      · obtain ⟨-, heq⟩ := Option.ite_none_right_eq_some.mp hstep
        obtain rfl := Option.some_inj.mp heq
        exact h.leave (by simp [Pc.Creating]) (by simp [Pc.Attached])
  | endInit =>
      obtain ⟨hpc, heq⟩ := Option.ite_none_right_eq_some.mp hstep
      obtain rfl := Option.some_inj.mp heq
      exact h.complete hpc
  | finish ok =>
      change (match w.pc p with
        | .attached valid => some (w.goto p (if ok then .ncclSuccess valid else .ncclSystemError))
        | _ => none) = _ at hstep
      split at hstep
      · next valid hpc =>
        obtain rfl := Option.some_inj.mp hstep
        have hdone := h.attached p (Or.inr ⟨valid, Or.inl hpc⟩)
        exact h.leave (by cases ok <;> simp [Pc.Creating]) fun _ => hdone
      · exact absurd hstep (by simp)
  | insert =>
      change (if w.pc p = .ncclSuccess true ∧ w.sized = true then _
        else if w.pc p = .ncclSuccess true ∨ w.pc p = .ncclSuccess false then _ else _) = _ at hstep
      split at hstep
      · next hpc =>
        obtain rfl := Option.some_inj.mp hstep
        have hdone := h.attached p (Or.inr ⟨true, Or.inr hpc.1⟩)
        exact ⟨h.attached, h.unlinked, h.creator, h.pending, h.sized, h.fresh, h.done_sized, h.once,
          fun _ => hdone⟩
      · obtain ⟨-, heq⟩ := Option.ite_none_right_eq_some.mp hstep
        obtain rfl := Option.some_inj.mp heq
        exact h.leave (by simp [Pc.Creating]) (by simp [Pc.Attached])

end Steps

/-- In every run that opens the object only after its initialisation, whoever
has returned finds it ready, and the initialisation runs once. -/
theorem init_safe {ls : List (Nat × Action)} {w : World}
    (hlate : Run.Guarded step OpensLate initial ls) (hrun : Run.run step initial ls = some w) :
    Safe w :=
  (Run.run_invariant (fun _ _ _ hI hguard hstep => Inv.step hI hguard hstep) initial_inv hlate
    hrun).safe

/-- One early opening is enough: the process returns before the object is ready. -/
theorem opensEarly_unsafe {w : World} {p : Nat} (hpc : w.pc p = .waiting)
    (hlinked : w.linked = true)
    (hdone : w.initDone = false) :
    ∃ w', Run.run step w [(p, .shmOpen true), (p, .mmap true), (p, .finish true)] = some w' ∧
      ¬ Safe w' := by
  have hopen : step w (p, .shmOpen true) = some (w.goto p .opened) := by
    simp [step, World.step, hpc, hlinked]
  have hmmap : step (w.goto p .opened) (p, .mmap true) =
      some ((w.goto p .opened).goto p (.attached true)) := by
    simp [step, World.step]
  have hfinish : step ((w.goto p .opened).goto p (.attached true)) (p, .finish true) =
      some (((w.goto p .opened).goto p (.attached true)).goto p (.ncclSuccess true)) := by
    simp [step, World.step]
  refine ⟨((w.goto p .opened).goto p (.attached true)).goto p (.ncclSuccess true), ?_, fun h => ?_⟩
  · simp only [Run.run, hopen, hmmap, hfinish, Option.bind_some]
  have hready := (h.ready p true (goto_self _)).2
  exact absurd (hdone.symm.trans hready) (by decide)

/-- A creator that is done before the next process looks. -/
def lateStarter : List (Nat × Action) :=
  [(0, .initNetSocketDevs true), (1, .initNetSocketDevs true), (0, .shmOpenExcl true),
    (1, .shmOpenExcl true), (0, .ftruncate true), (0, .mmap true), (0, .beginInit), (0, .endInit),
    (1, .shmOpen true), (1, .mmap true), (1, .finish true), (0, .finish true), (1, .insert)]

theorem init_safe_lateStarter :
    ∃ w, Run.run step initial lateStarter = some w ∧ w.pc 1 = .ncclSuccess true ∧
      w.inserted = true ∧ Safe w := by
  exact ⟨_, rfl, rfl, rfl, @init_safe lateStarter _ (by decide) rfl⟩

/-- A starter that gets in while the creator is still initialising. -/
def earlyStarter : List (Nat × Action) :=
  [(0, .initNetSocketDevs true), (1, .initNetSocketDevs true), (0, .shmOpenExcl true),
    (1, .shmOpenExcl true), (1, .shmOpen true), (1, .mmap true), (1, .finish true)]

theorem init_safe_fails :
    ∃ w, Run.run step initial earlyStarter = some w ∧ w.pc 1 = .ncclSuccess true ∧
      w.sized = false ∧ ¬ Safe w := by
  refine ⟨_, rfl, rfl, rfl, fun h => ?_⟩
  exact absurd (h.ready 1 true rfl).1 (by decide)

end NetDedup.Init
