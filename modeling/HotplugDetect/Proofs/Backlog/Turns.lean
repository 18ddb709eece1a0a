import HotplugDetect.Proofs.Watch.Runs

/-! # Runs on one thread

On an executor with one thread a worker that moves goes on until it has to wait, and nobody else
acts meanwhile. A state in which no worker is in the middle of its turn is a scheduling point.
-/

namespace HotplugDetect

/-- A run of the job never waits, so that nobody finds its lock taken. -/
def Job.prompt : Job → Bool
  | .digital => true
  | .generic => false
  | .pollInit => false
  | .reenable => true

namespace Controller

variable {ρ : Type} [Probe ρ]

/-- The worker that keeps the thread when an action is over. -/
def keepsThread (s : Controller ρ) : Action → Option Job
  | .move j timerFirst => if (s.move j timerFirst).canMove j then some j else none
  | _ => none

/-- The worker that has the thread goes on. One whose runs can bring about further ones gives way
now and then. -/
def mayFollow : Option Job → Action → Bool
  | none, _ => true
  | some j, .move k _ => k = j
  | some j, .giveWay => !j.prompt
  | some _, _ => false

/-- Nobody acts while a worker has the thread. -/
def OneThreaded (s : Controller ρ) (busy : Option Job) : List Action → Bool
  | [] => true
  | a :: as => mayFollow busy a && (s.act a).OneThreaded (s.keepsThread a) as

/-- The worker that has the thread in the end. -/
def busyAfter (s : Controller ρ) (busy : Option Job) : List Action → Option Job
  | [] => busy
  | a :: as => (s.act a).busyAfter (s.keepsThread a) as

/-- A run on one thread after which no worker is in the middle of its turn. -/
def SchedulingPoint (s : Controller ρ) (as : List Action) : Prop :=
  s.OneThreaded none as = true ∧ s.busyAfter none as = none

instance (s : Controller ρ) (as : List Action) : Decidable (s.SchedulingPoint as) :=
  inferInstanceAs (Decidable (_ ∧ _))

theorem oneThreaded_concat (s : Controller ρ) (busy : Option Job) (as : List Action) (a : Action) :
    s.OneThreaded busy (as ++ [a]) =
      (s.OneThreaded busy as && mayFollow (s.busyAfter busy as) a) := by
  induction as generalizing s busy with
  | nil => exact Bool.and_true _
  | cons b as ih =>
    simp only [List.cons_append, OneThreaded, busyAfter, ih, Bool.and_assoc]

theorem busyAfter_concat (s : Controller ρ) (busy : Option Job) (as : List Action) (a : Action) :
    s.busyAfter busy (as ++ [a]) = (s.run as).keepsThread a := by
  induction as generalizing s busy with
  | nil => rfl
  | cons b as ih => exact ih (s.act b) (s.keepsThread b)

/-- What every step on one thread keeps holds along every run on one thread. -/
theorem oneThreaded_induction {P : Option Job → Controller ρ → Prop}
    (hstep : ∀ busy s a, P busy s → mayFollow busy a = true → P (s.keepsThread a) (s.act a))
    {s : Controller ρ} {busy : Option Job} (h : P busy s) {as : List Action}
    (has : s.OneThreaded busy as = true) : P (s.busyAfter busy as) (s.run as) := by
  induction as generalizing s busy with
  | nil => exact h
  | cons a as ih =>
    obtain ⟨ha, has⟩ := Bool.and_eq_true_iff.mp has
    exact ih (hstep busy s a h ha) has

end Controller

end HotplugDetect
