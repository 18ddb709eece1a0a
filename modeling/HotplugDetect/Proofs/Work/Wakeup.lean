import HotplugDetect.Proofs.Work.Line
import HotplugDetect.Work.Bench

/-! # Queued work wakes its worker

As long as an item is pending, its worker has a notification before it or is on its way to the run
lock. The flag, the kept notification, the lock and the worker are changed in separate steps, and
every step of every party keeps this.
-/

namespace HotplugDetect

variable {β : Type}

/-- The worker has a notification before it, or noticed one and asks for the run lock. -/
def Lane.roused (l : Lane β) : Bool :=
  match l.worker with
  | some (.parked _ notified) => notified
  | some .claiming => true
  | _ => l.permit

@[simp] theorem Lane.roused_notify (l : Lane β) : l.notify.roused = true := by
  rcases l with ⟨permit, run, _ | _ | ⟨u, _ | _⟩ | _ | rest⟩ <;> rfl

@[simp] theorem Lane.roused_start (l : Lane β) : l.start.roused = l.roused := by
  rcases l with ⟨permit, run, _ | _⟩ <;> rfl

/-- A pending item is not left to a worker that nobody rouses. -/
def Work.Attended (w : Work β) : Prop := w.pending = true → w.roused = true

namespace Work

theorem attended_of_not_pending {w : Work β} (h : w.pending = false) : w.Attended := by
  intro hp
  rw [h] at hp
  cases hp

theorem Attended.queue {w : Work β} (h : w.Attended) : w.queue.1.Attended := by
  unfold Work.queue
  split
  · exact h
  · exact fun _ => w.toLane.roused_notify

/-- A worker that consumes a notification is on its way to the run lock. -/
theorem Attended.of_seek {w w' : Work β} {m : Moved} (hs : w.seek = (w', m)) (h : w.Attended) :
    w'.Attended := by
  cases seeks hs with
  | consumes => exact fun _ => rfl
  | parks hw halone =>
    intro hpending
    have hroused : w.roused = w.permit := by rw [Lane.roused, hw]
    rw [h hpending, halone] at hroused
    cases hroused
  | wakes => exact fun _ => rfl
  | claims => exact attended_of_not_pending rfl
  | withdraws _ _ hdropped => exact attended_of_not_pending hdropped
  | waits => exact h

theorem Attended.finish {w : Work β} (h : w.Attended) {rest : β}
    (hw : w.worker = some (.running rest)) :
    ({ w with toLane := w.toLane.finish } : Work β).Attended := by
  intro hp
  have hroused : w.roused = w.permit := by rw [Lane.roused, hw]
  exact hroused.symm.trans (h hp)

end Work

theorem Work.worker_queue {w : Work β} (h : w.worker ≠ none) : w.queue.1.worker ≠ none := by
  rwa [← Option.isSome_iff_ne_none, isSome_worker_queue, Option.isSome_iff_ne_none]

theorem Work.present_of_seek {w w' : Work β} {m : Moved} (hs : w.seek = (w', m))
    (h : w.worker ≠ none) : w'.worker ≠ none := by
  rwa [← Option.isSome_iff_ne_none, worker_of_seek hs, Option.isSome_iff_ne_none]

namespace WorkBench

def run (b : WorkBench) (as : List Action) : WorkBench := as.foldl act b

/-- What the parties at a bench keep: the item is attended, and the clients in the line at the run
lock are those whose cancel waits. -/
structure Regular (b : WorkBench) : Prop where

  attended : b.work.Attended

  lined : b.work.Lined b.cancelling

theorem regular_manned : manned.Regular where
  attended := Work.attended_of_not_pending rfl
  lined := ⟨Lock.orderly_empty, List.not_mem_nil, rfl⟩

section Steps

variable {b : WorkBench}

theorem Regular.queue (h : b.Regular) : (b.act .queue).Regular :=
  ⟨h.attended.queue, Work.lined_queue h.lined⟩

theorem Regular.cancel (h : b.Regular) (client : Nat) : (b.act (.cancel client)).Regular := by
  show (b.cancel client).Regular
  unfold WorkBench.cancel
  split
  · exact h
  · rename_i hbusy
    have hlined := h.lined.request client
    simp only
    split
    · rename_i hh
      have hrel := hlined.release ((Lock.heldBy_iff _ _).mp hh)
      have hempty : b.work.run = {} := by
        refine h.lined.orderly.eq_empty_of_request (fun hm => hbusy ?_) hh
        rw [← h.lined.clients]
        exact Lane.mem_clients.mpr hm
      have hids : b.cancelling = [] := by
        rw [← h.lined.clients, Lane.clients, hempty]
        rfl
      refine ⟨Work.attended_of_not_pending rfl, ?_⟩
      rw [hids] at hrel
      exact hids.symm ▸ hrel
    · exact ⟨Work.attended_of_not_pending rfl, hlined⟩

theorem Regular.resume (h : b.Regular) (client : Nat) : (b.act (.resume client)).Regular := by
  show (b.resume client).Regular
  unfold WorkBench.resume
  split
  · rename_i hr
    have hh : b.work.run.holder = some (.client client) := (Lock.heldBy_iff _ _).mp hr.2
    have hids : b.cancelling = client :: b.cancelling.tail := by
      have hc := h.lined.clients
      rw [Lane.clients, Lock.line_of_holder hh] at hc
      rw [← hc]
      rfl
    have hrest : b.cancelling.erase client = b.cancelling.tail := by
      rw [hids, List.erase_cons_head, List.tail_cons]
    refine ⟨h.attended, ?_⟩
    show Lane.Lined _ (b.cancelling.erase client)
    rw [hrest]
    exact h.lined.release hh
  · exact h

theorem Regular.endRun (h : b.Regular) {stop : Nat} (hw : b.work.worker = some (.running stop)) :
    b.endRun.Regular where
  attended := h.attended.finish hw
  lined := by
    have hp := h.lined.placed
    rw [Lane.Placed, hw] at hp
    exact h.lined.finish hp.1

theorem Regular.beginRun (h : b.Regular) (hpending : b.work.pending = false)
    (hh : b.work.run.holder = some .worker) (length : Nat) : (b.beginRun length).Regular := by
  have hbegun : ({ b with
      work := { b.work with worker := some (.running (wakeUp b.now length)) }
      runs := { start := b.now } :: b.runs } : WorkBench).Regular :=
    ⟨Work.attended_of_not_pending hpending, h.lined.begin hh _⟩
  unfold WorkBench.beginRun
  simp only
  split
  · exact hbegun.endRun rfl
  · exact hbegun

theorem Regular.move (h : b.Regular) (length : Nat) : (b.act (.move length)).Regular := by
  show (b.move length).Regular
  unfold WorkBench.move
  split
  · rename_i stop hw
    split
    · exact h.endRun hw
    · exact h
  · split
    · rename_i w hs
      obtain ⟨hh, hp⟩ := Work.holder_of_claimed hs
      exact Regular.beginRun (b := { b with work := w })
        ⟨h.attended.of_seek hs, Work.lined_of_seek hs h.lined⟩ hp hh length
    · rename_i w hs
      exact ⟨h.attended.of_seek hs, Work.lined_of_seek hs h.lined⟩

theorem Regular.act (h : b.Regular) (a : Action) : (b.act a).Regular := by
  cases a with
  | queue => exact h.queue
  | cancel client => exact h.cancel client
  | resume client => exact h.resume client
  | move length => exact h.move length
  | advance instant => exact ⟨h.attended, h.lined⟩

theorem Regular.run (h : b.Regular) (as : List Action) : (b.run as).Regular := by
  induction as generalizing b with
  | nil => exact h
  | cons a as ih => exact ih (h.act a)

end Steps

end WorkBench

end HotplugDetect
