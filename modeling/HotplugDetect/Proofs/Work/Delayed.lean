import HotplugDetect.Proofs.Work.Line
import HotplugDetect.Work.Delayed

/-! # The worker of a delayed item

On its way to a run the worker sleeps until the deadline that it has read, and it is notified
whenever the deadline changes. It claims a run under the run lock, and only when the deadline has
come.
-/

namespace HotplugDetect

variable {β : Type}

/-- What a move of the worker on its way to a run comes to. -/
inductive DelayedWork.Seeks (w : DelayedWork β) (now : Nat) : DelayedWork β → Moved → Prop

  /-- Its instant has come. -/
  | asks (permit : Bool) (out : w.worker = some .idle ∨ ∃ u n, w.worker = some (.parked u n)) :
      Seeks w now { w with toLane := { w.toLane with permit }.ask } .looking

  /-- Roused, it reads the deadline again. -/
  | looks (permit : Bool) (out : w.worker = some .idle ∨ ∃ u, w.worker = some (.parked u true)) :
      Seeks w now { w with toLane := { w.toLane with permit, worker := some .idle } } .looking

  | parks (idle : w.worker = some .idle) :
      Seeks w now { w with worker := some (.parked w.deadline false) } .looking

  | claims (claiming : w.worker = some .claiming) (head : w.run.holder = some .worker)
      (due : w.due now = true) : Seeks w now { w with deadline := none } .claimed

  | withdraws (claiming : w.worker = some .claiming) (head : w.run.holder = some .worker)
      (due : w.due now = false) : Seeks w now { w with toLane := w.toLane.finish } .looking

  | waits : Seeks w now w .looking

theorem DelayedWork.seeks {w w' : DelayedWork β} {now : Nat} {timerFirst : Bool} {m : Moved}
    (h : w.seek now timerFirst = (w', m)) : w.Seeks now w' m := by
  rcases w with ⟨⟨permit, run, _ | _ | ⟨u, notified⟩ | _ | rest⟩, deadline⟩
  · cases h
    exact .waits
  · simp only [seek] at h
    split at h
    · cases h
      exact .asks _ (.inl rfl)
    · split at h
      · cases h
        exact .looks false (.inl rfl)
      · cases h
        exact .parks rfl
  · simp only [seek] at h
    split at h
    · cases h
      exact .asks _ (.inr ⟨u, notified, rfl⟩)
    · split at h
      · rename_i hn
        cases h
        exact .looks permit (.inr ⟨u, by rw [hn]⟩)
      · cases h
        exact .waits
  · simp only [seek, claim] at h
    split at h
    · rename_i hh
      rw [Lock.heldBy_iff] at hh
      split at h
      · rename_i hd
        cases h
        exact .claims rfl hh hd
      · rename_i hd
        cases h
        exact .withdraws rfl hh (Bool.not_eq_true _ ▸ hd)
    · cases h
      exact .waits
  · cases h
    exact .waits

theorem DelayedWork.seek_claimed {w w' : DelayedWork β} {now : Nat} {timerFirst : Bool}
    (h : w.seek now timerFirst = (w', .claimed)) :
    w.worker = some .claiming ∧ w.due now = true ∧ w' = { w with deadline := none } := by
  cases seeks h with
  | claims hw _ hd => exact ⟨hw, hd, rfl⟩

theorem DelayedWork.holder_of_claimed {w w' : DelayedWork β} {now : Nat} {timerFirst : Bool}
    (h : w.seek now timerFirst = (w', .claimed)) : w'.run.holder = some .worker := by
  cases seeks h with
  | claims _ hh _ => exact hh

theorem DelayedWork.deadline_seek {w w' : DelayedWork β} {now : Nat} {timerFirst : Bool}
    (h : w.seek now timerFirst = (w', .looking)) : w'.deadline = w.deadline := by
  cases seeks h <;> rfl

theorem DelayedWork.run_of_looking {w w' : DelayedWork β} {now : Nat} {timerFirst : Bool}
    (h : w.seek now timerFirst = (w', .looking)) (hd : w.due now = true) :
    w'.run = w.run ∨ w'.run = w.run.request .worker := by
  cases seeks h with
  | asks => exact .inr rfl
  | looks => exact .inl rfl
  | parks => exact .inl rfl
  | withdraws _ _ hn =>
    rw [hd] at hn
    cases hn
  | waits => exact .inl rfl

theorem DelayedWork.rest?_of_seek {w w' : DelayedWork β} {now : Nat} {timerFirst : Bool}
    {m : Moved} (h : w.seek now timerFirst = (w', m)) : w'.rest? = w.rest? := by
  cases seeks h with
  | asks permit out =>
    rcases out with hw | ⟨u, n, hw⟩
    all_goals simp [Lane.rest?, Lane.ask, hw]
  | looks permit out =>
    rcases out with hw | ⟨u, hw⟩
    all_goals simp [Lane.rest?, hw]
  | parks hw => simp [Lane.rest?, hw]
  | claims => rfl
  | withdraws hw => simp [Lane.rest?, Lane.finish, hw]
  | waits => rfl

theorem DelayedWork.due_iff (w : DelayedWork β) (now : Nat) :
    w.due now = true ↔ ∃ d, w.deadline = some d ∧ d ≤ now := by
  simp [due, Option.any_eq_true]

theorem DelayedWork.lined_of_seek {w w' : DelayedWork β} {now : Nat} {timerFirst : Bool}
    {m : Moved} (hs : w.seek now timerFirst = (w', m)) {ids : List Nat} (h : w.Lined ids) :
    w'.Lined ids := by
  have hp := h.placed
  cases seeks hs with
  | asks permit out =>
    have hout : .worker ∉ w.run.line := by
      rcases out with hw | ⟨u, n, hw⟩
      all_goals simpa only [Lane.Placed, hw] using hp
    exact Lane.Lined.ask (l := { w.toLane with permit }) ⟨h.orderly, hp, h.clients⟩ hout
  | looks permit out =>
    have hout : .worker ∉ w.run.line := by
      rcases out with hw | ⟨u, hw⟩
      all_goals simpa only [Lane.Placed, hw] using hp
    exact ⟨h.orderly, hout, h.clients⟩
  | parks hw =>
    have hout : .worker ∉ w.run.line := by
      simpa only [Lane.Placed, hw] using hp
    exact ⟨h.orderly, hout, h.clients⟩
  | claims => exact ⟨h.orderly, hp, h.clients⟩
  | withdraws _ hh => exact h.finish hh
  | waits => exact h

theorem DelayedWork.worker_of_seek {w w' : DelayedWork β} {now : Nat} {timerFirst : Bool}
    {m : Moved} (h : w.seek now timerFirst = (w', m)) :
    w'.worker.isSome = w.worker.isSome := by
  cases seeks h with
  | asks permit out =>
    rcases out with hw | ⟨u, n, hw⟩
    all_goals simp [Lane.ask, hw]
  | looks permit out =>
    rcases out with hw | ⟨u, hw⟩
    all_goals simp [hw]
  | parks hw => simp [hw]
  | claims => rfl
  | withdraws hw => simp [Lane.finish, hw]
  | waits => rfl

def DelayedWork.Set (w : DelayedWork β) : Prop :=
  ∀ u, w.worker = some (.parked u false) → u = w.deadline

theorem Lane.worker_notify_ne (l : Lane β) (u : Option Nat) :
    l.notify.worker ≠ some (.parked u false) := by
  rcases l with ⟨permit, run, _ | _ | ⟨v, _ | _⟩ | _ | rest⟩ <;> simp [notify]

namespace DelayedWork

theorem set_schedule (w : DelayedWork β) (instant : Nat) : (w.schedule instant).Set :=
  fun u hu => absurd hu (w.toLane.worker_notify_ne u)

theorem set_disarm (w : DelayedWork β) : w.disarm.Set :=
  fun u hu => absurd hu (w.toLane.worker_notify_ne u)

theorem Set.of_seek {w w' : DelayedWork β} {now : Nat} {timerFirst : Bool} {m : Moved}
    (hs : w.seek now timerFirst = (w', m)) (h : w.Set) : w'.Set := by
  cases seeks hs with
  | parks => rintro u ⟨⟩; rfl
  | claims hw =>
    intro u hu
    rw [hw] at hu
    cases hu
  | waits => exact h
  | _ => rintro u ⟨⟩

end DelayedWork

end HotplugDetect
