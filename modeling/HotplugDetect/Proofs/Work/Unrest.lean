import HotplugDetect.Proofs.Work.Delayed

/-! # Unrest

Between two runs a worker makes a few moves: it notices what it was notified of, asks for the run
lock, or finds its run dropped. Each of these moves costs it some of its unrest.
-/

namespace HotplugDetect

variable {β : Type}

def Lane.Patient (l : Lane β) : Prop :=
  match l.worker with
  | some (.parked u _) => u = none
  | _ => True

theorem Lane.Patient.notify {l : Lane β} (h : l.Patient) : l.notify.Patient := by
  rcases l with ⟨permit, run, _ | _ | ⟨u, _ | _⟩ | _ | rest⟩ <;> exact h

theorem Work.Patient.queue {w : Work β} (h : w.Patient) : w.queue.1.Patient := by
  unfold Work.queue
  split
  · exact h
  · exact h.notify

theorem Work.Patient.of_seek {w w' : Work β} {m : Moved} (hs : w.seek = (w', m))
    (h : w.Patient) : w'.Patient := by
  cases seeks hs with
  | parks => exact rfl
  | claims => exact h
  | waits => exact h
  | _ => exact trivial

/-- What a worker may still spend before it waits; `due` tells whether it would find its instant
come when it looks. -/
def Station.unrest (now : Nat) (due : Bool) : Station β → Nat
  | .idle => 1 + 2 * due.toNat
  | .parked u notified => if notified then 5 else 3 * (u.any (· ≤ now)).toNat
  | .claiming => 2
  | .running _ => 2

def Lane.unrest (l : Lane β) (now : Nat) (due : Bool) : Nat :=
  l.worker.elim 0 (Station.unrest now due) + 2 * l.permit.toNat

theorem Lane.unrest_of {l : Lane β} {x : Station β} (h : l.worker = some x) (now : Nat)
    (due : Bool) : l.unrest now due = x.unrest now due + 2 * l.permit.toNat := by
  rw [unrest, h]
  rfl

theorem Lane.unrest_notify (l : Lane β) (now : Nat) (due due' : Bool) :
    l.notify.unrest now due' ≤ l.unrest now due + 5 := by
  have hdue := due'.toNat_le
  rcases l with ⟨permit, run, _ | _ | ⟨u, _ | _⟩ | _ | rest⟩ <;>
    simp [notify, unrest, Station.unrest] <;> omega

theorem Lane.unrest_le (l : Lane β) (now : Nat) (due : Bool) : l.unrest now due ≤ 7 := by
  have hpermit := l.permit.toNat_le
  have hdue := due.toNat_le
  have hstation (x : Station β) : x.unrest now due ≤ 5 := by
    rcases x with _ | ⟨u, _ | _⟩ | _ | rest
    · simp only [Station.unrest]
      omega
    · have hcome := (u.any (· ≤ now)).toNat_le
      simp only [Station.unrest, Bool.false_eq_true, if_false]
      omega
    all_goals simp [Station.unrest]
  unfold unrest
  cases l.worker with
  | none =>
    show 0 + _ ≤ 7
    omega
  | some x =>
    have := hstation x
    show x.unrest now due + _ ≤ 7
    omega

theorem Work.unrest_looking {w w' : Work β} (h : w.seek = (w', .looking)) (hp : w.Patient)
    (hr : w.rest? = none) {now : Nat} {ready : β → Bool} (hm : w.canMove now ready = true) :
    w'.unrest now false < w.unrest now false := by
  rcases w with ⟨⟨permit, run, _ | _ | ⟨u, notified⟩ | _ | rest⟩, pending⟩
  · cases hm
  · cases permit <;> cases h <;> simp [Lane.unrest, Station.unrest, Lane.ask]
  · obtain rfl : u = none := hp
    cases notified
    · cases hm
    · cases h
      simp [Lane.unrest, Station.unrest, Lane.ask]
  · have hheld : run.heldBy .worker = true := hm
    simp only [seek, claim, hheld] at h
    cases pending
    · cases h
      simp [Lane.unrest, Station.unrest, Lane.finish]
    · cases h
  · cases hr

theorem DelayedWork.unrest_looking {w w' : DelayedWork β} {now : Nat} {timerFirst : Bool}
    (h : w.seek now timerFirst = (w', .looking)) (hr : w.rest? = none)
    (hm : w.canMove now (fun _ => true) = true) :
    w'.unrest now (w'.due now) < w.unrest now (w.due now) := by
  have hdue : w'.due now = w.due now := congrArg (Option.any _) (deadline_seek h)
  rw [hdue]
  rcases w with ⟨⟨permit, run, _ | _ | ⟨u, notified⟩ | _ | rest⟩, deadline⟩
  · cases hm
  · simp only [seek] at h
    split at h
    · rename_i hnow
      cases h
      simp [Lane.unrest, Station.unrest, Lane.ask, (Bool.and_eq_true_iff.mp hnow).1]
    · rename_i hnow
      split at h
      · rename_i hpermit
        cases h
        simp [Lane.unrest, Station.unrest, hpermit]
      · rename_i hpermit
        have hlater : deadline.any (· ≤ now) = false := by
          rw [← Bool.not_eq_true]
          intro hd
          exact hnow (Bool.and_eq_true_iff.mpr ⟨hd, by simp [hpermit]⟩)
        cases h
        simp only [Lane.unrest, Station.unrest, hlater, Option.elim_some, Bool.false_eq_true,
          if_false, Bool.toNat_false]
        omega
  · simp only [seek] at h
    split at h
    · rename_i hnow
      have hcome := (Bool.and_eq_true_iff.mp hnow).1
      cases h
      cases notified <;> simp [Lane.unrest, Station.unrest, Lane.ask, hcome]
      omega
    · rename_i hnow
      split at h
      · rename_i hn
        cases h
        have hlate := (deadline.any (· ≤ now)).toNat_le
        simp only [Lane.unrest, Station.unrest, hn, due, Option.elim_some, if_true]
        omega
      · rename_i hn
        obtain rfl : notified = false := Bool.not_eq_true _ ▸ hn
        have hcome : (false || u.any (· ≤ now)) = true := hm
        rw [Bool.false_or] at hcome
        exact absurd (Bool.and_eq_true_iff.mpr ⟨hcome, Bool.or_true _⟩) hnow
  · have hheld : run.heldBy .worker = true := hm
    simp only [seek, claim, hheld, if_true] at h
    split at h
    · cases h
    · rename_i hnot
      cases h
      simp [Lane.unrest, Station.unrest, Lane.finish, Bool.not_eq_true _ ▸ hnot]
  · cases hr

end HotplugDetect
