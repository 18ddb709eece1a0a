import HotplugDetect.Proofs.Work.Delayed
import HotplugDetect.Work.DelayedBench

/-! # Alarms follow deadlines

A worker that sleeps has read the deadline before, and whoever moves the deadline rouses it. Every
step of every party keeps this, together with what the line at the run lock looks like.
-/

namespace HotplugDetect

variable {β : Type}

@[simp] theorem DelayedWork.deadline_schedule (w : DelayedWork β) (instant : Nat) :
    (w.schedule instant).deadline = some instant := rfl

theorem DelayedWork.holder_of_seek {w w' : DelayedWork β} {now : Nat} {timerFirst : Bool}
    {m : Moved} (hs : w.seek now timerFirst = (w', m)) {id : Nat}
    (h : w.run.holder = some (.client id)) : w'.run.holder = some (.client id) := by
  cases seeks hs with
  | asks => exact w.run.holder_request_of_held _ _ h
  | withdraws _ hh =>
    rw [hh] at h
    cases h
  | _ => exact h

namespace DelayedBench

def run (b : DelayedBench) (as : List Action) : DelayedBench := as.foldl act b

/-- What the parties at a bench keep. -/
structure Regular (b : DelayedBench) : Prop where

  alarm : b.work.Set

  lined : ∃ ids, b.work.Lined ids

  present : b.work.worker ≠ none

  /-- Whoever has taken the item over has the run lock. -/
  holding {client : Nat} : b.visits.lookup client = some .holding → b.holdsRun client = true

theorem regular_manned : manned.Regular where
  alarm _ hu := nomatch hu
  lined := ⟨[], Lock.orderly_empty, List.not_mem_nil, rfl⟩
  present := Option.some_ne_none _
  holding h := nomatch h

section Steps

variable {b : DelayedBench} {client : Nat}

theorem eq_of_holdsRun {c : Nat} (h : b.holdsRun client = true) (hc : b.holdsRun c = true) :
    c = client := by
  rw [holdsRun, Lock.heldBy_iff] at h hc
  simpa [h] using hc.symm

theorem lookup_leave (b : DelayedBench) (client c : Nat) :
    (b.leave client).visits.lookup c = if c = client then none else b.visits.lookup c := by
  unfold leave
  induction b.visits with
  | nil => simp
  | cons x xs ih =>
    obtain ⟨c', v⟩ := x
    by_cases hx : c' = client
    · rw [List.filter_cons_of_neg (by simp [hx]), ih, List.lookup_cons]
      by_cases hc : c = client
      · simp [hc]
      · simp [hc, hx, beq_false_of_ne hc]
    · rw [List.filter_cons_of_pos (by simp [hx]), List.lookup_cons, List.lookup_cons, ih]
      by_cases hc : c = c'
      · simp [hc, hx]
      · simp [beq_false_of_ne hc]

theorem Regular.leave (h : b.Regular) (client : Nat) : (b.leave client).Regular where
  alarm := h.alarm
  lined := h.lined
  present := h.present
  holding {c} hc := by
    rw [lookup_leave] at hc
    split at hc
    · cases hc
    · exact h.holding hc

theorem Regular.not_holding (h : b.Regular) (hh : b.holdsRun client = true)
    (hc : b.visits.lookup client ≠ some .holding) (c : Nat) :
    b.visits.lookup c ≠ some .holding := by
  intro hv
  obtain rfl := eq_of_holdsRun hh (h.holding hv)
  exact hc hv

theorem Regular.disarm (h : b.Regular) : ({ b with work := b.work.disarm } : DelayedBench).Regular
    where
  alarm := b.work.set_disarm
  lined := by
    obtain ⟨ids, hl⟩ := h.lined
    exact ⟨ids, hl.notify⟩
  present := by
    have hthere := b.work.toLane.isSome_worker_notify
    rw [Option.isSome_iff_ne_none.mpr h.present] at hthere
    exact Option.isSome_iff_ne_none.mp hthere
  holding hc := by
    have hheld := h.holding hc
    rw [holdsRun] at hheld ⊢
    exact (congrArg (Lock.heldBy · _) (Lane.run_notify _)).trans hheld

theorem Regular.requestRun (h : b.Regular) (client : Nat) : (b.requestRun client).Regular where
  alarm := h.alarm
  lined := by
    obtain ⟨ids, hl⟩ := h.lined
    exact ⟨_, hl.request client⟩
  present := h.present
  holding hc := by
    have hheld := h.holding hc
    rw [holdsRun, Lock.heldBy_iff] at hheld ⊢
    exact Lock.holder_request_of_held _ _ _ hheld

theorem Regular.releaseRun (h : b.Regular) (hh : b.holdsRun client = true)
    (hc : ∀ c, b.visits.lookup c ≠ some .holding) : b.releaseRun.Regular where
  alarm := h.alarm
  lined := by
    obtain ⟨ids, hl⟩ := h.lined
    exact ⟨_, hl.release ((Lock.heldBy_iff _ _).mp hh)⟩
  present := h.present
  holding hv := absurd hv (hc _)

theorem Regular.visit (h : b.Regular) {v : Visit}
    (hv : v = .holding → b.holdsRun client = true) :
    ({ b with visits := b.visits ++ [(client, v)] } : DelayedBench).Regular where
  alarm := h.alarm
  lined := h.lined
  present := h.present
  holding {c} hc := by
    rw [List.lookup_append, Option.or_eq_some_iff] at hc
    rcases hc with hc | ⟨-, hc⟩
    · exact h.holding hc
    · by_cases he : c = client
      · subst he
        exact hv (by simpa using hc)
      · simp [List.lookup_cons, beq_false_of_ne he] at hc

theorem Regular.takeOver (h : b.Regular) (hh : b.holdsRun client = true)
    (hc : ∀ c, b.visits.lookup c ≠ some .holding) : (b.takeOver client).Regular := by
  have hdisarmed := h.disarm
  have hheld : ({ b with work := b.work.disarm } : DelayedBench).holdsRun client = true :=
    (congrArg (Lock.heldBy · _) (Lane.run_notify _)).trans hh
  unfold DelayedBench.takeOver
  simp only
  split
  · exact hdisarmed.visit fun _ => hheld
  · exact hdisarmed.releaseRun hheld hc

theorem not_holding_of_not_busy (hb : b.busy client = false) :
    b.visits.lookup client ≠ some .holding := by
  intro h
  simp [busy, h] at hb

theorem Regular.cancel (h : b.Regular) (client : Nat) : (b.act (.cancel client)).Regular := by
  have hasked := h.disarm.requestRun client
  simp only [act]
  unfold DelayedBench.cancel
  split
  · exact h
  · rename_i hbusy
    simp only
    split
    · rename_i hh
      exact hasked.releaseRun hh
        (hasked.not_holding hh (not_holding_of_not_busy (Bool.not_eq_true _ ▸ hbusy)))
    · exact hasked.visit nofun

theorem Regular.take (h : b.Regular) (client : Nat) : (b.act (.take client)).Regular := by
  have hasked := h.requestRun client
  simp only [act]
  unfold DelayedBench.take
  split
  · exact h
  · rename_i hbusy
    simp only
    split
    · rename_i hh
      exact hasked.takeOver hh
        (hasked.not_holding hh (not_holding_of_not_busy (Bool.not_eq_true _ ▸ hbusy)))
    · exact hasked.visit nofun

theorem Regular.resume (h : b.Regular) (client : Nat) : (b.act (.resume client)).Regular := by
  simp only [act]
  unfold DelayedBench.resume
  split
  · rename_i hh
    have hleft := h.leave client
    have hnobody : ∀ c, (b.leave client).visits.lookup c ≠ some .holding :=
      hleft.not_holding hh (by simp [lookup_leave])
    split
    · exact hleft.releaseRun hh hnobody
    · exact hleft.takeOver hh hnobody
    · exact h
  · exact h

theorem Regular.giveBack (h : b.Regular) (client : Nat) : (b.act (.giveBack client)).Regular := by
  simp only [act]
  unfold DelayedBench.giveBack
  split
  · rename_i hv
    have hleft := h.leave client
    have hh := h.holding hv
    exact hleft.releaseRun hh (hleft.not_holding hh (by simp [lookup_leave]))
  · exact h

theorem Regular.endRun (h : b.Regular) {stop : Nat} (hw : b.work.worker = some (.running stop)) :
    b.endRun.Regular where
  alarm _ hu := nomatch hu
  lined := by
    obtain ⟨ids, hl⟩ := h.lined
    have hp := hl.placed
    rw [Lane.Placed, hw] at hp
    exact ⟨ids, hl.finish hp.1⟩
  present := Option.some_ne_none _
  holding {c} hc := by
    obtain ⟨ids, hl⟩ := h.lined
    have hp := hl.placed
    have hheld := h.holding hc
    rw [Lane.Placed, hw] at hp
    simp [holdsRun, Lock.heldBy, hp.1] at hheld

theorem Regular.beginRun (h : b.Regular) (hh : b.work.run.holder = some .worker) (length : Nat) :
    (b.beginRun length).Regular := by
  obtain ⟨ids, hl⟩ := h.lined
  have hbegun : ({ b with
      work := { b.work with worker := some (.running (wakeUp b.now length)) }
      runs := { start := b.now } :: b.runs } : DelayedBench).Regular :=
    ⟨nofun, ⟨ids, hl.begin hh _⟩, Option.some_ne_none _, h.holding⟩
  unfold DelayedBench.beginRun
  simp only
  split
  · exact hbegun.endRun rfl
  · exact hbegun

theorem Regular.of_seek {w : DelayedWork Nat} {m : Moved} {timerFirst : Bool}
    (hs : b.work.seek b.now timerFirst = (w, m)) (h : b.Regular) :
    ({ b with work := w } : DelayedBench).Regular where
  alarm := h.alarm.of_seek hs
  lined := by
    obtain ⟨ids, hl⟩ := h.lined
    exact ⟨ids, DelayedWork.lined_of_seek hs hl⟩
  present := by
    rw [← Option.isSome_iff_ne_none, DelayedWork.worker_of_seek hs, Option.isSome_iff_ne_none]
    exact h.present
  holding hc := by
    have hheld := h.holding hc
    rw [holdsRun, Lock.heldBy_iff] at hheld ⊢
    exact DelayedWork.holder_of_seek hs hheld

theorem Regular.move (h : b.Regular) (length : Nat) (timerFirst : Bool) :
    (b.act (.move length timerFirst)).Regular := by
  simp only [act]
  unfold DelayedBench.move
  split
  · rename_i stop hw
    split
    · exact h.endRun hw
    · exact h
  · split
    · rename_i w hs
      exact Regular.beginRun (b := { b with work := w }) (h.of_seek hs)
        (DelayedWork.holder_of_claimed hs) length
    · rename_i w hs
      exact h.of_seek hs

/-- Every step of a party keeps the bench regular. -/
theorem Regular.act (h : b.Regular) (a : Action) : (b.act a).Regular := by
  cases a with
  | schedule delay =>
    have hdisarmed := h.disarm
    exact ⟨b.work.set_schedule _, hdisarmed.lined, hdisarmed.present, hdisarmed.holding⟩
  | cancel client => exact h.cancel client
  | take client => exact h.take client
  | resume client => exact h.resume client
  | giveBack client => exact h.giveBack client
  | move length timerFirst => exact h.move length timerFirst
  | advance instant => exact ⟨h.alarm, h.lined, h.present, h.holding⟩

theorem Regular.run (h : b.Regular) (as : List Action) : (b.run as).Regular := by
  induction as generalizing b with
  | nil => exact h
  | cons a as ih => exact ih (h.act a)

end Steps

end DelayedBench

end HotplugDetect
