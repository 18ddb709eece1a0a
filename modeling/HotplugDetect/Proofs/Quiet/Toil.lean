import HotplugDetect.Proofs.Dispatch.Settling
import HotplugDetect.Proofs.Quiet.Moves

/-! # Toil

A controller that is left alone has a certain amount of work before it. Every move of a worker that
can move and every errand that goes on takes some of it away, and neither the clock nor the outside
party adds to it.
-/

namespace HotplugDetect

variable {ρ : Type}

section Lanes

variable {β : Type} {now now' : Nat}

theorem Lane.Patient.unrest_eq {l : Lane β} (h : l.Patient) (now now' : Nat) (due : Bool) :
    l.unrest now due = l.unrest now' due := by
  rcases l with ⟨permit, run, _ | _ | ⟨u, _ | _⟩ | _ | rest⟩
  · rfl
  · rfl
  · obtain rfl : u = none := h
    rfl
  · rfl
  · rfl
  · rfl

theorem Lane.unrest_stop (l : Lane β) (now : Nat) (due : Bool) :
    l.stop.unrest now due ≤ l.unrest now due := by
  rcases l with ⟨permit, run, _ | _ | ⟨u, _ | _⟩ | _ | rest⟩ <;>
    simp [stop, unrest, Station.unrest]
  have := permit.toNat_le
  cases permit <;> simp

namespace DelayedWork

theorem Set.start {w : DelayedWork β} (h : w.Set) :
    ({ w with toLane := w.toLane.start } : DelayedWork β).Set := by
  rcases w with ⟨⟨permit, run, _ | station⟩, deadline⟩
  · exact nofun
  · exact h

theorem set_stop (w : DelayedWork β) :
    ({ w with toLane := w.toLane.stop } : DelayedWork β).Set := by
  rcases w with ⟨⟨permit, run, _ | _ | _ | _ | rest⟩, deadline⟩ <;> exact nofun

/-- The worker rests more than once when the instant of an armed item comes. -/
def toil (w : DelayedWork β) (now : Nat) : Nat :=
  w.unrest now (w.due now) + 4 * (w.armed && !w.due now).toNat

theorem unrest_le_toil (w : DelayedWork β) (now : Nat) :
    w.unrest now (w.due now) ≤ w.toil now := Nat.le_add_right _ _

theorem toil_schedule (w : DelayedWork β) (now instant : Nat) :
    (w.schedule instant).toil now ≤ w.toil now + 9 := by
  have hnotified := w.toLane.unrest_notify now (w.due now) ((w.schedule instant).due now)
  have hlater := ((w.schedule instant).armed && !(w.schedule instant).due now).toNat_le
  have hle := w.unrest_le_toil now
  show w.toLane.notify.unrest now ((w.schedule instant).due now) +
    4 * ((w.schedule instant).armed && !(w.schedule instant).due now).toNat ≤ _
  omega

theorem toil_disarm (w : DelayedWork β) (now : Nat) : w.disarm.toil now ≤ w.toil now + 5 := by
  have hnotified := w.toLane.unrest_notify now (w.due now) false
  have hle := w.unrest_le_toil now
  show w.toLane.notify.unrest now false + 0 ≤ _
  omega

theorem unrest_advance {w : DelayedWork β} (h : w.Set) (now now' : Nat) :
    w.unrest now' (w.due now') ≤
      w.unrest now (w.due now) + 3 * (w.due now' && !w.due now).toNat := by
  rcases w with ⟨⟨permit, run, _ | _ | ⟨u, _ | _⟩ | _ | rest⟩, d⟩
  case parked.false =>
    obtain rfl : u = d := h u rfl
    simp only [due, Lane.unrest, Station.unrest, Option.elim_some, Bool.false_eq_true, if_false]
    cases u.any (· ≤ now) <;> cases u.any (· ≤ now') <;>
      simp only [Bool.toNat_true, Bool.toNat_false, Bool.and_true, Bool.and_false, Bool.not_true,
        Bool.not_false] <;> omega
  case idle =>
    simp only [due, Lane.unrest, Station.unrest, Option.elim_some]
    cases d.any (· ≤ now) <;> cases d.any (· ≤ now') <;>
      simp only [Bool.toNat_true, Bool.toNat_false, Bool.and_true, Bool.and_false, Bool.not_true,
        Bool.not_false] <;> omega
  all_goals exact Nat.le_add_right _ _

/-- The clock may rouse the worker, but it does not add to its toil. -/
theorem toil_advance {w : DelayedWork β} (h : w.Set) (hle : now ≤ now') :
    w.toil now' ≤ w.toil now := by
  have hunrest := unrest_advance h now now'
  have hcome : w.due now = true → w.due now' = true := by
    rw [due_iff, due_iff]
    rintro ⟨d, hd, hdue⟩
    exact ⟨d, hd, hdue.trans hle⟩
  have harmed : w.due now' = true → w.armed = true := by
    rw [due_iff]
    rintro ⟨d, hd, -⟩
    simp [armed, hd]
  unfold toil
  cases hnow : w.due now with
  | true =>
    have hthen := hcome hnow
    rw [hnow, hthen] at hunrest
    rw [hthen]
    simpa using hunrest
  | false =>
    cases hthen : w.due now' with
    | true =>
      rw [hnow, hthen] at hunrest
      rw [harmed hthen]
      simp only [Bool.not_true, Bool.not_false, Bool.and_true, Bool.and_false, Bool.toNat_true,
        Bool.toNat_false] at hunrest ⊢
      omega
    | false =>
      rw [hnow, hthen] at hunrest
      simpa using hunrest

end DelayedWork

end Lanes

theorem Work.seek_of_not_canMove {β : Type} {w w' : Work β} {m : Moved} {now : Nat}
    {ready : β → Bool} (hm : w.canMove now ready = false) (h : w.seek = (w', m)) :
    w' = w ∧ m = .looking := by
  rcases w with ⟨⟨permit, run, _ | _ | ⟨u, _ | _⟩ | _ | rest⟩, pending⟩
  case some.idle => cases hm
  case some.parked.true => cases hm
  case some.claiming =>
    have hheld : run.heldBy .worker = false := hm
    simp only [seek, hheld, Bool.false_eq_true, if_false] at h
    cases h
    exact ⟨rfl, rfl⟩
  all_goals
    cases h
    exact ⟨rfl, rfl⟩

theorem DelayedWork.seek_of_not_canMove {β : Type} {w w' : DelayedWork β} {m : Moved} {now : Nat}
    {ready : β → Bool} {timerFirst : Bool} (hm : w.canMove now ready = false)
    (h : w.seek now timerFirst = (w', m)) : w' = w ∧ m = .looking := by
  rcases w with ⟨⟨permit, run, _ | _ | ⟨u, notified⟩ | _ | rest⟩, deadline⟩
  case some.idle => cases hm
  case some.parked =>
    obtain ⟨rfl, hlater⟩ : notified = false ∧ u.any (· ≤ now) = false := Bool.or_eq_false_iff.mp hm
    simp only [seek, hlater, Bool.false_and, Bool.false_eq_true, if_false] at h
    cases h
    exact ⟨rfl, rfl⟩
  case some.claiming =>
    have hheld : run.heldBy .worker = false := hm
    simp only [seek, hheld, Bool.false_eq_true, if_false] at h
    cases h
    exact ⟨rfl, rfl⟩
  all_goals
    cases h
    exact ⟨rfl, rfl⟩

namespace Errand

/-- A waiting client has to take the run locks that are left, and may rouse a worker each time. In
the end it may have to wait for a digital run. -/
def toil : Errand → Nat
  | cancel .digital [] _ => 1
  | cancel _ rest _ => 7 * rest.length + 2
  | flush => 6

theorem toil_pos (e : Errand) : 0 < e.toil := by
  unfold toil
  split <;> omega

theorem toil_cancel_le (j : Job) (rest : List Job) (stop : Bool) :
    (cancel j rest stop).toil ≤ 7 * rest.length + 2 := by
  unfold toil
  split
  · omega
  · rename_i h
    cases h
    exact le_rfl
  · rename_i h
    cases h

def totalToil (es : List (Nat × Errand)) : Nat := (es.map (·.2.toil)).sum

theorem totalToil_append (es : List (Nat × Errand)) (client : Nat) (e : Errand) :
    totalToil (es ++ [(client, e)]) = totalToil es + e.toil := by
  simp [totalToil]

theorem totalToil_filter_le (es : List (Nat × Errand)) (client : Nat) :
    totalToil (es.filter (·.1 != client)) ≤ totalToil es := by
  induction es with
  | nil => exact le_rfl
  | cons x es ih =>
    simp only [totalToil, List.filter_cons] at ih ⊢
    split <;> simp only [List.map_cons, List.sum_cons] <;> omega

theorem totalToil_filter {es : List (Nat × Errand)} {client : Nat} {e : Errand}
    (h : es.lookup client = some e) :
    totalToil (es.filter (·.1 != client)) + e.toil ≤ totalToil es := by
  induction es with
  | nil => cases h
  | cons x es ih =>
    obtain ⟨c, e'⟩ := x
    by_cases hc : c = client
    · subst hc
      obtain rfl : e' = e := by simpa using h
      have hle := totalToil_filter_le es c
      rw [List.filter_cons_of_neg (by simp)]
      simp only [totalToil, List.map_cons, List.sum_cons] at hle ⊢
      omega
    · rw [List.lookup_cons, beq_false_of_ne (Ne.symm hc)] at h
      have hrest := ih h
      rw [List.filter_cons_of_pos (by simpa using hc)]
      simp only [totalToil, List.map_cons, List.sum_cons] at hrest ⊢
      omega

end Errand

namespace Backlog

/-- How the workers wait, whatever happened before. -/
structure Composed (b : Backlog) : Prop where

  digital : b.digital.Patient

  generic : b.generic.Patient

  pollInit : b.pollInit.Patient

  reenable : b.reenable.Set

  /-- A recovery ends in the move that claims it. -/
  prompt : b.reenable.rest? = none

section Composed

variable {b b' : Backlog}

theorem Composed.withLane (h : b.Composed) (j : Job) {f : Lane Rest → Lane Rest}
    (hf : ∀ l, ∃ run, f l = { l with run }) : (b.withLane j f).Composed := by
  obtain ⟨run, hrun⟩ := hf (b.lane j)
  cases j with
  | digital =>
    have hrun : f b.digital.toLane = { b.digital.toLane with run } := hrun
    simp only [Backlog.withLane, hrun]
    exact ⟨h.digital, h.generic, h.pollInit, h.reenable, h.prompt⟩
  | generic =>
    have hrun : f b.generic.toLane = { b.generic.toLane with run } := hrun
    simp only [Backlog.withLane, hrun]
    exact ⟨h.digital, h.generic, h.pollInit, h.reenable, h.prompt⟩
  | pollInit =>
    have hrun : f b.pollInit.toLane = { b.pollInit.toLane with run } := hrun
    simp only [Backlog.withLane, hrun]
    exact ⟨h.digital, h.generic, h.pollInit, h.reenable, h.prompt⟩
  | reenable =>
    have hrun : f b.reenable.toLane = { b.reenable.toLane with run } := hrun
    simp only [Backlog.withLane, hrun]
    exact ⟨h.digital, h.generic, h.pollInit, h.reenable, h.prompt⟩

theorem Composed.withErrands (h : b.Composed) (errands : List (Nat × Errand)) :
    ({ b with errands } : Backlog).Composed :=
  ⟨h.digital, h.generic, h.pollInit, h.reenable, h.prompt⟩

theorem Composed.interrupted (h : b.Composed) (hi : b.Interrupted b') : b'.Composed := by
  rw [hi.rest]
  have hdigital : b'.digital.Patient := by
    rcases hi.digital with hd | ⟨hd, -, -⟩
    · rw [hd]
      exact Work.Patient.queue h.digital
    · rw [hd]
      exact h.digital
  have hgeneric : b'.generic.Patient := by
    rcases hi.generic with hg | ⟨hg, -⟩
    · rw [hg]
      exact Work.Patient.queue h.generic
    · rw [hg]
      exact h.generic
  exact ⟨hdigital, hgeneric, h.pollInit, h.reenable, h.prompt⟩

theorem Composed.disarm (h : b.Composed) (j : Job) : (b.disarm j).Composed := by
  cases j with
  | reenable =>
    exact { h with
      reenable := b.reenable.set_disarm
      prompt := (Lane.rest?_notify _).trans h.prompt }
  | _ => exact ⟨h.digital, h.generic, h.pollInit, h.reenable, h.prompt⟩

theorem Composed.step {a : Action} (h : b.Composed) (hs : Step a b b') : b'.Composed := by
  have hstart {l : Lane Rest} (hl : l.Patient) : l.start.Patient := by
    rcases l with ⟨permit, run, _ | station⟩
    · trivial
    · exact hl
  have hstop (l : Lane Rest) : l.stop.Patient := by
    rcases l with ⟨permit, run, _ | _ | _ | _ | rest⟩ <;> trivial
  cases hs with
  | interrupted _ hi => exact h.interrupted hi
  | queuesPollInit => exact { h with pollInit := Work.Patient.queue h.pollInit }
  | digitalLooks _ hs => exact { h with digital := Work.Patient.of_seek hs h.digital }
  | genericLooks _ hs => exact { h with generic := Work.Patient.of_seek hs h.generic }
  | pollInitLooks _ hs => exact { h with pollInit := Work.Patient.of_seek hs h.pollInit }
  | reenableLooks _ hs =>
    exact { h with
      reenable := h.reenable.of_seek hs
      prompt := (DelayedWork.rest?_of_seek hs).trans h.prompt }
  | drains => exact { h with digital := trivial }
  | delivers => exact { h with digital := trivial }
  | fallsBack _ _ _ hrefused =>
    refine ⟨trivial, ?_, h.pollInit, h.reenable, h.prompt⟩
    rcases hrefused with ⟨rfl, -⟩ | ⟨rfl, -⟩
    · exact h.generic
    · exact Work.Patient.queue h.generic
  | takes _ _ harmed =>
    refine ⟨h.digital, trivial, h.pollInit, ?_, ?_⟩
    · rcases harmed with rfl | ⟨instant, rfl⟩
      · exact h.reenable
      · exact b.reenable.set_schedule instant
    · rcases harmed with rfl | ⟨instant, rfl⟩
      · exact h.prompt
      · exact (Lane.rest?_notify _).trans h.prompt
  | probed => exact { h with generic := trivial }
  | reads => exact { h with pollInit := trivial }
  | reinitialized => exact { h with pollInit := trivial }
  | recovers => exact { h with reenable := nofun, prompt := rfl }
  | forgets => exact ⟨h.digital, h.generic, h.pollInit, h.reenable, h.prompt⟩
  | disarms j => exact h.disarm j
  | passes => exact h.withLane _ fun l => ⟨_, rfl⟩
  | waits => exact (h.withLane _ fun l => ⟨_, rfl⟩).withErrands _
  | resumes => exact (h.withLane _ fun l => ⟨_, rfl⟩).withErrands _
  | leaves => exact (h.withLane _ fun l => ⟨_, rfl⟩).withErrands _
  | starts =>
    exact ⟨hstart h.digital, hstart h.generic, hstart h.pollInit, h.reenable.start,
      (Lane.rest?_start _).trans h.prompt⟩
  | stops => exact ⟨hstop _, hstop _, hstop _, b.reenable.set_stop, Lane.rest?_stop _⟩
  | holds => exact ⟨h.digital, h.generic, h.pollInit, h.reenable, h.prompt⟩
  | releases => exact ⟨h.digital, h.generic, h.pollInit, h.reenable, h.prompt⟩

theorem composed_ofSettings (settings : Settings) (connectors : ConnectorList ρ)
    (ports : Port → Option PulseHandler) :
    (Controller.ofSettings settings connectors ports).backlog.Composed :=
  ⟨trivial, trivial, trivial, nofun, rfl⟩

theorem composed_run [Probe ρ] {s : Controller ρ} (h : s.backlog.Composed) (as : List Action) :
    (s.run as).backlog.Composed := by
  induction as generalizing s with
  | nil => exact h
  | cons a as ih =>
    exact ih (Steps.induction (P := Composed) (fun _ _ hs hb => hb.step hs) (s.steps_act a) h)

end Composed

def burden (b : Backlog) (now : Nat) : Nat :=
  (b.digital.unrest now false + 17 * b.digital.pending.toNat) +
    b.digital.rest?.elim 0 (14 + ·.moves) +
    (b.generic.unrest now false + 10 * b.generic.pending.toNat) +
    (b.pollInit.unrest now false + b.pollInit.pending.toNat) + b.reenable.toil now

/-- What all workers and the waiting clients may still spend. -/
def toil (b : Backlog) (now : Nat) : Nat := b.burden now + Errand.totalToil b.errands

section Burden

variable {b b' : Backlog} {now now' : Nat}

/-- The clock rouses a worker whose instant has come, which was taken into account. -/
theorem toil_advance (h : b.Composed) (hle : now ≤ now') : b.toil now' ≤ b.toil now := by
  have hreenable := DelayedWork.toil_advance h.reenable hle
  have hdigital := h.digital.unrest_eq now' now false
  have hgeneric := h.generic.unrest_eq now' now false
  have hpollInit := h.pollInit.unrest_eq now' now false
  simp only [toil, burden]
  omega

theorem toil_withLane (b : Backlog) (j : Job) {f : Lane Rest → Lane Rest}
    (hf : ∀ l, ∃ run, f l = { l with run }) (now : Nat) :
    (b.withLane j f).toil now = b.toil now := by
  obtain ⟨run, hrun⟩ := hf (b.lane j)
  cases j with
  | digital =>
    have hrun : f b.digital.toLane = { b.digital.toLane with run } := hrun
    simp only [withLane, hrun]
    rfl
  | generic =>
    have hrun : f b.generic.toLane = { b.generic.toLane with run } := hrun
    simp only [withLane, hrun]
    rfl
  | pollInit =>
    have hrun : f b.pollInit.toLane = { b.pollInit.toLane with run } := hrun
    simp only [withLane, hrun]
    rfl
  | reenable =>
    have hrun : f b.reenable.toLane = { b.reenable.toLane with run } := hrun
    simp only [withLane, hrun]
    rfl

theorem toil_disarm (b : Backlog) (j : Job) (now : Nat) :
    (b.disarm j).toil now ≤ b.toil now + 5 := by
  cases j with
  | reenable =>
    have hdisarmed := b.reenable.toil_disarm now
    simp only [toil, burden, disarm]
    omega
  | _ =>
    simp only [toil, burden, disarm, Work.disarm, Bool.toNat_false]
    omega

theorem toil_interrupted (h : b.Interrupted b') (now : Nat) : b'.toil now ≤ b.toil now + 37 := by
  have hdigital : b'.digital.unrest now false + 17 * b'.digital.pending.toNat ≤
      b.digital.unrest now false + 17 * b.digital.pending.toNat + 22 := by
    rcases h.digital with hd | ⟨hd, -, -⟩
    · rw [hd]
      exact b.digital.unrest_queue now 17
    · rw [hd]
      exact Nat.le_add_right _ _
  have hgeneric : b'.generic.unrest now false + 10 * b'.generic.pending.toNat ≤
      b.generic.unrest now false + 10 * b.generic.pending.toNat + 15 := by
    rcases h.generic with hg | ⟨hg, -⟩
    · rw [hg]
      exact b.generic.unrest_queue now 10
    · rw [hg]
      exact Nat.le_add_right _ _
  have hrest : b'.digital.rest? = b.digital.rest? := h.rest?_lane .digital
  rw [h.rest]
  simp only [toil, burden, hrest]
  omega

theorem toil_stops (b : Backlog) (mode : Lock ModeParty) (now : Nat) :
    ({ b with
      digital := { b.digital with toLane := b.digital.toLane.stop }
      generic := { b.generic with toLane := b.generic.toLane.stop }
      pollInit := { b.pollInit with toLane := b.pollInit.toLane.stop }
      reenable := { b.reenable with toLane := b.reenable.toLane.stop }
      mode } : Backlog).toil now ≤ b.toil now := by
  have hdigital := b.digital.toLane.unrest_stop now false
  have hgeneric := b.generic.toLane.unrest_stop now false
  have hpollInit := b.pollInit.toLane.unrest_stop now false
  have hreenable := b.reenable.toLane.unrest_stop now (b.reenable.due now)
  have hrest : b.digital.toLane.stop.rest? = none := Lane.rest?_stop _
  rw [toil, burden, hrest, Option.elim_none]
  simp only [toil, burden, DelayedWork.toil, DelayedWork.due, DelayedWork.armed] at hreenable ⊢
  omega

theorem toil_delivered {rest : Rest} {pulses : PortSet × PortSet}
    (hw : b.digital.worker = some (.running rest)) (htaken : rest.pulses = some pulses)
    (refused : PinSet) (now : Nat) :
    ({ b with digital := { b.digital with toLane := b.digital.toLane.begin { pins := refused } } } :
      Backlog).toil now < b.toil now := by
  have hbefore : b.digital.unrest now false = 2 + _ := Lane.unrest_of hw now false
  have hafter : (b.digital.begin { pins := refused }).unrest now false =
      2 + 2 * b.digital.permit.toNat := rfl
  have hmoves : b.digital.rest?.elim 0 (14 + ·.moves) = 16 := by
    rw [Lane.rest?_eq_some_iff.mpr hw, Option.elim_some, Rest.moves, htaken]
    rfl
  have hlast : (b.digital.begin { pins := refused }).rest?.elim 0 (14 + ·.moves) = 15 := rfl
  simp only [toil, burden, hmoves, hlast]
  omega

theorem toil_probed {rest : Rest} (hw : b.generic.worker = some (.running rest)) (now : Nat) :
    ({ b with
      generic := { b.generic with toLane := b.generic.toLane.finish }
      mode := b.mode.release } : Backlog).toil now < b.toil now := by
  have hrunning : b.generic.unrest now false = 2 + _ := Lane.unrest_of hw now false
  have hidle : b.generic.finish.unrest now false = 1 + 2 * b.generic.permit.toNat := rfl
  simp only [toil, burden]
  omega

/-- A move of a worker that can move spends some toil. -/
theorem Moves.toil_lt {j : Job} (h : b.Moves now j b') (hb : b.Composed)
    (hm : b.canMove now j = true) : b'.toil now < b.toil now := by
  cases h with
  | digitalLooks hs idle =>
    have hless := Work.unrest_looking hs hb.digital idle hm
    have hpending := Work.pending_looking hs
    have hrest := Work.rest?_of_seek hs
    simp only [toil, burden, hpending, hrest]
    omega
  | drains hs =>
    obtain ⟨hw, hp, rfl⟩ := Work.seek_claimed hs
    have hclaiming : b.digital.unrest now false = 2 + _ := Lane.unrest_of hw now false
    have hrunning : (b.digital.begin { pulses := some (b.longPorts, b.shortPorts) }).unrest now
        false = 2 + 2 * b.digital.permit.toNat := rfl
    have hmoves : (b.digital.begin { pulses := some (b.longPorts, b.shortPorts) }).rest?.elim 0
        (14 + ·.moves) = 16 := rfl
    simp only [toil, burden, hp, hmoves, Bool.toNat_true, Bool.toNat_false]
    omega
  | delivers hw htaken => exact toil_delivered hw htaken _ now
  | @fallsBack rest hw hdone =>
    have hgeneric := b.generic.unrest_queue now 10
    have hrunning : b.digital.unrest now false = 2 + _ := Lane.unrest_of hw now false
    have hidle : b.digital.finish.unrest now false = 1 + 2 * b.digital.permit.toNat := rfl
    have hmoves : b.digital.rest?.elim 0 (14 + ·.moves) = 15 := by
      rw [Lane.rest?_eq_some_iff.mpr hw, Option.elim_some, Rest.moves, hdone]
      rfl
    have hlast : b.digital.finish.rest?.elim 0 (14 + ·.moves) = 0 := rfl
    simp only [toil, burden, hmoves, hlast]
    split <;> omega
  | genericLooks hs idle =>
    have hless := Work.unrest_looking hs hb.generic idle hm
    have hpending := Work.pending_looking hs
    simp only [toil, burden, hpending]
    omega
  | @takes w reenable hs harmed =>
    obtain ⟨hw, hp, rfl⟩ := Work.seek_claimed hs
    have hreenable : reenable.toil now ≤ b.reenable.toil now + 9 := by
      rcases harmed with rfl | ⟨instant, rfl⟩
      · exact Nat.le_add_right _ _
      · exact b.reenable.toil_schedule now instant
    have hclaiming : b.generic.unrest now false = 2 + _ := Lane.unrest_of hw now false
    have hrunning : (b.generic.begin { pins := b.eventPins }).unrest now false =
        2 + 2 * b.generic.permit.toNat := rfl
    simp only [toil, burden, hp, Bool.toNat_true, Bool.toNat_false]
    omega
  | probes hw => exact toil_probed hw now
  | genericWaits hw hheld =>
    rw [canMove, Lane.canMove, hw] at hm
    cases hheld.symm.trans hm
  | pollInitLooks hs idle =>
    have hless := Work.unrest_looking hs hb.pollInit idle hm
    have hpending := Work.pending_looking hs
    simp only [toil, burden, hpending]
    omega
  | @reads w disabled hs =>
    obtain ⟨hw, hp, rfl⟩ := Work.seek_claimed hs
    have hclaiming : b.pollInit.unrest now false = 2 + _ := Lane.unrest_of hw now false
    have hrunning : (b.pollInit.begin { pins := disabled }).unrest now false =
        2 + 2 * b.pollInit.permit.toNat := rfl
    simp only [toil, burden, hp, Bool.toNat_true, Bool.toNat_false]
    omega
  | reinitializes hw =>
    have hrunning : b.pollInit.unrest now false = 2 + _ := Lane.unrest_of hw now false
    have hidle : b.pollInit.finish.unrest now false = 1 + 2 * b.pollInit.permit.toNat := rfl
    simp only [toil, burden]
    omega
  | pollInitWaits hw hheld =>
    rw [canMove, Lane.canMove, hw] at hm
    cases hheld.symm.trans hm
  | @reenableLooks w timerFirst hs =>
    have hless := DelayedWork.unrest_looking hs hb.prompt hm
    have hdeadline := DelayedWork.deadline_seek hs
    simp only [toil, burden, DelayedWork.toil, DelayedWork.armed, DelayedWork.due, hdeadline]
      at hless ⊢
    omega
  | recovers hs =>
    obtain ⟨hw, -, rfl⟩ := DelayedWork.seek_claimed hs
    have hclaiming : b.reenable.unrest now (b.reenable.due now) = 2 + _ :=
      Lane.unrest_of hw now _
    have hidle : (b.reenable.past {}).unrest now false = 1 + 2 * b.reenable.permit.toNat := rfl
    have hle := b.reenable.unrest_le_toil now
    have hover : ({ b.reenable with toLane := b.reenable.toLane.past {}, deadline := none } :
        DelayedWork Rest).toil now = (b.reenable.past {}).unrest now false := rfl
    simp only [toil, burden, hover]
    omega

end Burden

end Backlog

def Action.operates : Action → Bool
  | .init | .forcePolling _ | .setIrqs _ | .disable _ | .enable _ | .setThreshold _ _
  | .setShortStorms _ _ | .cancelAll _ | .shutdown _ | .start => true
  | _ => false

namespace Controller

open Backlog

/-- What is left to be done at the present instant and at the instant of the recovery. -/
def toil (s : Controller ρ) : Nat := s.backlog.toil s.now

/-- The action gets somebody on: a worker that can move, or a client that was handed the run lock or
does not want it any more. -/
def stirs (s : Controller ρ) : Action → Bool
  | .move j _ => s.canMove j
  | .resume client => (s.errand? client).any fun e => s.holdsRun e.job client
  | .abandon client => (s.errand? client).isSome
  | _ => false

section Errands

variable {s : Controller ρ} {client : Nat}

theorem toil_cancelJobs (s : Controller ρ) (client : Nat) (stop : Bool) (js : List Job)
    (now : Nat) :
    (s.cancelJobs client stop js).backlog.toil now ≤ s.backlog.toil now + 7 * js.length + 1 := by
  induction js generalizing s with
  | nil =>
    unfold cancelJobs
    split
    · unfold stopAll
      simp only
      split
      · have hasked := s.backlog.toil_withLane .digital
          (f := fun l => { l with run := l.run.request (.client client) }) (fun l => ⟨_, rfl⟩) now
        rw [backlog_withErrand, backlog_requestRun]
        simp only [Backlog.toil, burden, Errand.totalToil_append, Errand.toil] at hasked ⊢
        omega
      · have hstopped := s.backlog.toil_stops ((s.mode.leave .generic).leave .pollInit) now
        rw [backlog_stopWorkers]
        exact Nat.le_succ_of_le hstopped
    · exact Nat.le_succ _
  | cons j js ih =>
    have hasked : ((s.disarm j).requestRun j client).backlog.toil now ≤ s.backlog.toil now + 5 := by
      rw [backlog_requestRun, toil_withLane _ j (fun l => ⟨_, rfl⟩), backlog_disarm]
      exact s.backlog.toil_disarm j now
    unfold cancelJobs
    simp only [List.length_cons]
    split
    · have hrest := ih (((s.disarm j).requestRun j client).releaseRun j)
      rw [backlog_releaseRun, toil_withLane _ j (fun l => ⟨_, rfl⟩)] at hrest
      omega
    · have herrand := Errand.toil_cancel_le j js stop
      rw [backlog_withErrand]
      simp only [Backlog.toil, burden, Errand.totalToil_append] at hasked ⊢
      omega

theorem toil_withoutErrand {e : Errand} (he : s.errand? client = some e) (now : Nat) :
    (s.withoutErrand client).backlog.toil now + e.toil ≤ s.backlog.toil now := by
  have hlookup : s.backlog.errands.lookup client = some e := he
  have hspent := Errand.totalToil_filter hlookup
  rw [backlog_withoutErrand]
  simp only [Backlog.toil, burden] at hspent ⊢
  omega

/-- A client that goes on has spent its errand, and takes up what is left of it. It does not have to
wait for a digital run twice. -/
theorem toil_resume_lt {there : Bool} (hl : s.backlog.InLine there)
    (h : s.stirs (.resume client) = true) :
    (s.resume client).backlog.toil s.now < s.toil := by
  obtain ⟨e, he, hh⟩ := (Option.any_eq_true _ _).mp h
  have hspent := toil_withoutErrand he s.now
  unfold resume
  rw [he]
  cases e with
  | cancel j rest stop =>
    have hreleased : ((s.withoutErrand client).releaseRun j).backlog.toil s.now =
        (s.withoutErrand client).backlog.toil s.now := by
      rw [backlog_releaseRun, toil_withLane _ j (fun l => ⟨_, rfl⟩)]
    have hrest := toil_cancelJobs ((s.withoutErrand client).releaseRun j) client stop rest s.now
    rw [Errand.job] at hh
    simp only [hh, if_true]
    unfold Errand.toil at hspent
    split at hspent
    · rename_i heq
      cases heq
      have hholder : (s.backlog.lane .digital).run.holder = some (.client client) :=
        (Lock.heldBy_iff _ _).mp (lane_backlog s .digital ▸ hh)
      have hidle : ((s.withoutErrand client).releaseRun .digital).digital.rest? = none := by
        have hrelease := congrArg (fun b => b.digital.rest?) (backlog_released s client .digital)
        refine hrelease.trans (hl.rest?_of_holder (j := .digital) ?_)
        rw [hholder]
        simp
      have hstopped : (((s.withoutErrand client).releaseRun .digital).cancelJobs client stop
          []).backlog.toil s.now ≤
            ((s.withoutErrand client).releaseRun .digital).backlog.toil s.now := by
        unfold cancelJobs
        split
        · rw [stopAll_of_idle hidle, backlog_stopWorkers]
          exact Backlog.toil_stops _ _ s.now
        · exact le_rfl
      unfold toil
      omega
    · rename_i heq
      cases heq
      unfold toil
      omega
    · rename_i heq
      cases heq
  | flush =>
    have hdisarmed := (s.withoutErrand client).backlog.toil_disarm .reenable s.now
    rw [Errand.job] at hh
    simp only [hh, if_true]
    rw [backlog_recoverNow_eq, toil_withLane _ _ (fun l => ⟨_, rfl⟩)]
    simp only [Errand.toil] at hspent
    unfold toil
    omega

theorem toil_abandon_lt (h : s.stirs (.abandon client) = true) :
    (s.abandon client).backlog.toil s.now < s.toil := by
  obtain ⟨e, he⟩ := Option.isSome_iff_exists.mp h
  have hspent := toil_withoutErrand he s.now
  have hpos := e.toil_pos
  rw [backlog_abandon he, ← withErrands_withLane, toil_withLane _ _ (fun l => ⟨_, rfl⟩)]
  exact Nat.lt_of_lt_of_le (Nat.lt_add_of_pos_right hpos) hspent

end Errands

section Idling

theorem abandon_of_not_stirs {s : Controller ρ} {client : Nat}
    (h : s.stirs (.abandon client) = false) : s.abandon client = s :=
  abandon_of_none (Option.not_isSome_iff_eq_none.mp (Bool.not_eq_true _ ▸ h))

theorem resume_of_not_stirs {s : Controller ρ} {client : Nat}
    (h : s.stirs (.resume client) = false) : s.resume client = s := by
  have hwaits {e : Errand} (he : s.errand? client = some e) : s.holdsRun e.job client ≠ true := by
    intro hh
    simp [stirs, he, hh] at h
  rcases s.resume_cases client with hr | ⟨j, rest, stop, he, hh, -⟩ | ⟨he, hh, -⟩
  · exact hr
  · exact absurd hh (hwaits he)
  · exact absurd hh (hwaits he)

theorem move_of_not_canMove [Probe ρ] {s : Controller ρ} {j : Job} (hm : s.canMove j = false)
    (timerFirst : Bool) : ∃ line, s.move j timerFirst = { s with ready := line } := by
  have hseek {w w' : Work Rest} {m : Moved} {ready : Rest → Bool}
      (hw : w.canMove s.now ready = false) (hs : w.seek = (w', m)) : w' = w ∧ m = .looking :=
    Work.seek_of_not_canMove hw hs
  cases j with
  | digital =>
    have hsame : s.moveDigital = s := by
      unfold moveDigital
      split
      · rename_i rest hw
        rw [canMove, Lane.canMove, hw] at hm
        cases hm
      · split
        · rename_i hs
          rw [(hseek hm hs).1]
        · rename_i hs
          cases (hseek hm hs).2
    exact ⟨_, by rw [move, hsame]⟩
  | generic =>
    have hsame : s.moveGeneric = s := by
      unfold moveGeneric
      split
      · rename_i pins hw
        have hheld : s.mode.heldBy .generic = false := by
          rw [canMove, Lane.canMove, hw] at hm
          exact hm
        simp [hheld]
      · split
        · rename_i hs
          rw [(hseek hm hs).1]
        · rename_i hs
          cases (hseek hm hs).2
    exact ⟨_, by rw [move, hsame]⟩
  | pollInit =>
    have hsame : s.movePollInit = s := by
      unfold movePollInit
      split
      · rename_i disabled hw
        have hheld : s.mode.heldBy .pollInit = false := by
          rw [canMove, Lane.canMove, hw] at hm
          exact hm
        simp [hheld]
      · split
        · rename_i hs
          rw [(hseek hm hs).1]
        · rename_i hs
          cases (hseek hm hs).2
    exact ⟨_, by rw [move, hsame]⟩
  | reenable =>
    have hsame : s.moveReenable timerFirst = s := by
      unfold moveReenable
      split
      · rename_i hs
        rw [(DelayedWork.seek_of_not_canMove hm hs).1]
      · rename_i hs
        cases (DelayedWork.seek_of_not_canMove hm hs).2
    exact ⟨_, by rw [move, hsame]⟩

end Idling

theorem now_advance (s : Controller ρ) (instant : Nat) :
    (s.advance instant).now = max s.now instant := by
  obtain ⟨line, hline⟩ := rouse_eq ({ s with now := max s.now instant } : Controller ρ) .reenable
  rw [advance, hline]

section Interrupts

theorem toil_foldl_interrupt (is : List Interrupt) (s : Controller ρ) (now : Nat) :
    (is.foldl interrupt s).backlog.toil now ≤ s.backlog.toil now + 37 * is.length := by
  induction is generalizing s with
  | nil => exact le_rfl
  | cons i is ih =>
    have hone := toil_interrupted (s.interrupted_interrupt i) now
    have hrest := ih (s.interrupt i)
    simp only [List.foldl_cons, List.length_cons] at hrest ⊢
    omega

theorem toil_deliver (long short : PortSet) (refused : PinSet) (s : Controller ρ) (now : Nat) :
    (s.deliver long short refused Port.all).1.backlog.toil now ≤
      s.backlog.toil now + 37 * (raisedBy (s.pulsesFor long short Port.all)).length := by
  have hpulses (xs : List (Port × PulseHandler × Bool)) (t : Controller ρ) :
      (xs.foldl handOver t).backlog.toil now ≤
        t.backlog.toil now + 37 * (raisedBy xs).length := by
    induction xs generalizing t with
    | nil => exact le_rfl
    | cons x xs ih =>
      have hraised : (t.handOver x).backlog.toil now ≤
          t.backlog.toil now + 37 * (x.2.1.answer x.2.2).raised.length :=
        toil_foldl_interrupt (x.2.1.answer x.2.2).raised
          ((t.call (.pulse x.1 x.2.2)).withHandler x.1 x.2.1.next) now
      have hrest := ih (t.handOver x)
      rw [List.foldl_cons, raisedBy_cons, List.length_append]
      omega
  rw [deliver_eq s long short refused (by decide)]
  exact hpulses _ s

variable [Probe ρ]

theorem toil_probeAll (pins : PinSet) (cs : List (Connector ρ)) (s : Controller ρ) (now : Nat) :
    (s.probeAll pins cs).1.backlog.toil now ≤
      s.backlog.toil now + 37 * (raisedOn pins cs).length := by
  induction cs generalizing s with
  | nil => exact le_rfl
  | cons c cs ih =>
    rw [raisedOn_cons, List.length_append]
    unfold probeAll
    by_cases h : c.isOn pins = true
    · have hraised := toil_foldl_interrupt (Probe.detect c.probe).raised
        ((s.note (.connectorEvent c.name)).call (.detect c.name)) now
      have hrest := ih (s.probe c).1
      simp only [h, if_true]
      rw [silent_backlog.call, silent_backlog.note] at hraised
      simp only [probe] at hrest ⊢
      omega
    · have hrest := ih s
      simp only [h, Bool.false_eq_true, if_false, List.length_nil, Nat.zero_add]
      omega

/-- A move in the course of which interrupts arrive hands pulses over, or is the second part of a
generic run. -/
theorem move_cases (s : Controller ρ) (j : Job) (timerFirst : Bool) :
    s.interruptsOf (.move j timerFirst) = [] ∨
      (j = .digital ∧ ∃ rest long short, s.digital.worker = some (.running rest) ∧
        rest.pulses = some (long, short) ∧
        s.interruptsOf (.move j timerFirst) = raisedBy (s.pulsesFor long short Port.all) ∧
        (s.move j timerFirst).backlog =
          { (s.deliver long short ∅ Port.all).1.backlog with
            digital := { (s.deliver long short ∅ Port.all).1.digital with
              toLane := (s.deliver long short ∅ Port.all).1.digital.toLane.begin
                { pins := (s.deliver long short ∅ Port.all).2 } } }) ∨
      j = .generic ∧ ∃ rest,
        s.generic.worker = some (.running rest) ∧ s.mode.heldBy .generic = true ∧
        s.interruptsOf (.move j timerFirst) = raisedOn rest.pins s.connectors ∧
        (s.move j timerFirst).backlog = { (s.probeAll rest.pins s.connectors).1.backlog with
          generic := { (s.probeAll rest.pins s.connectors).1.generic with
            toLane := (s.probeAll rest.pins s.connectors).1.generic.toLane.finish }
          mode := s.mode.release } := by
  cases j with
  | digital =>
    cases hr : s.digital.rest?.bind (·.pulses) with
    | none => exact .inl (by simp [interruptsOf, hr])
    | some pulses =>
      obtain ⟨long, short⟩ := pulses
      obtain ⟨rest, hrest, htaken⟩ := Option.bind_eq_some_iff.mp hr
      have hw := Lane.rest?_eq_some_iff.mp hrest
      refine .inr (.inl ⟨rfl, rest, long, short, hw, htaken, by simp [interruptsOf, hr], ?_⟩)
      show s.moveDigital.backlog = _
      simp only [moveDigital, hw, htaken]
      exact backlog_beginRun _ .digital _
  | generic =>
    cases hr : s.generic.rest? with
    | none => exact .inl (by simp [interruptsOf, hr])
    | some rest =>
      cases hheld : s.mode.heldBy .generic with
      | false => exact .inl (by simp [interruptsOf, hr, hheld])
      | true =>
        have hw := Lane.rest?_eq_some_iff.mp hr
        have hb : (s.move .generic timerFirst).backlog =
            ((s.probePass rest.pins).finishRun .generic).backlog := by
          show s.moveGeneric.backlog = _
          simp only [moveGeneric, hw, hheld, if_true]
        refine .inr (.inr ⟨rfl, rest, hw, rfl, by simp [interruptsOf, hr, hheld], ?_⟩)
        rw [hb, backlog_finishRun, backlog_probePass, (running_probeAll rest.pins s.connectors).2]
        rfl
  | _ => exact .inl rfl

/-- A worker that can move spends some toil, also when its probes raise interrupts. -/
theorem toil_move_lt {s : Controller ρ} (hc : s.backlog.Composed) {j : Job}
    (hm : s.canMove j = true) (timerFirst : Bool) :
    (s.move j timerFirst).backlog.toil s.now <
      s.toil + 37 * (s.interruptsOf (.move j timerFirst)).length := by
  rcases s.move_cases j timerFirst with hi | ⟨rfl, rest, long, short, hw, htaken, hi, hb⟩ |
    ⟨rfl, rest, hw, -, hi, hb⟩
  · have hless := (moves_move hi).toil_lt hc ((s.canMove_backlog j).trans hm)
    rw [hi]
    exact hless
  · have hdelivered := toil_deliver long short ∅ s s.now
    have hrest := s.running_deliver long short ∅ Port.all
    have hover := toil_delivered (b := (s.deliver long short ∅ Port.all).1.backlog)
      (Lane.rest?_eq_some_iff.mp (hrest.trans (Lane.rest?_eq_some_iff.mpr hw))) htaken
      (s.deliver long short ∅ Port.all).2 s.now
    rw [hb, hi]
    exact hover.trans_le hdelivered
  · have hprobed := toil_probeAll rest.pins s.connectors s s.now
    obtain ⟨hrest, -⟩ := running_probeAll (s := s) rest.pins s.connectors
    have hover := toil_probed (b := (s.probeAll rest.pins s.connectors).1.backlog)
      (Lane.rest?_eq_some_iff.mp (hrest.trans (Lane.rest?_eq_some_iff.mpr hw))) s.now
    rw [hb, hi]
    exact hover.trans_le hprobed

/-- Nothing that happens outside of operations adds to the toil, but for interrupts. -/
theorem toil_act_le {s : Controller ρ} (hc : s.backlog.Composed) {there : Bool}
    (hl : s.backlog.InLine there) {a : Action} (ha : a.operates = false) :
    (s.act a).toil ≤ s.toil + 37 * (s.interruptsOf a).length := by
  by_cases hadvance : ∃ instant, a = .advance instant
  · obtain ⟨instant, rfl⟩ := hadvance
    rw [act, toil, backlog_advance, now_advance]
    have hadvanced : s.backlog.toil (max s.now instant) ≤ s.toil :=
      toil_advance hc (Nat.le_max_left _ _)
    exact hadvanced.trans (Nat.le_add_right _ _)
  have hnow : (s.act a).now = s.now :=
    (s.effect_act a).now_eq fun instant he => hadvance ⟨instant, he⟩
  rw [toil, hnow]
  cases a with
  | interrupt i => exact toil_interrupted (s.interrupted_interrupt i) s.now
  | raw pinMask longMask => exact toil_interrupted (s.interrupted_raw pinMask longMask) s.now
  | resume client =>
    cases hs : s.stirs (.resume client) with
    | true => exact (toil_resume_lt hl hs).le
    | false => exact (congrArg (fun t => t.backlog.toil s.now) (resume_of_not_stirs hs)).le
  | abandon client =>
    cases hs : s.stirs (.abandon client) with
    | true => exact (toil_abandon_lt hs).le
    | false => exact (congrArg (fun t => t.backlog.toil s.now) (abandon_of_not_stirs hs)).le
  | hold party =>
    rw [act, backlog_hold]
    exact le_rfl
  | release party =>
    rw [act, backlog_release]
    exact le_rfl
  | move j timerFirst =>
    cases hm : s.canMove j with
    | true => exact (toil_move_lt hc hm timerFirst).le
    | false =>
      obtain ⟨line, hline⟩ := move_of_not_canMove hm timerFirst
      rw [act, hline]
      exact Nat.le_add_right _ _
  | giveWay => exact Nat.le_add_right _ _
  | advance instant => exact absurd ⟨instant, rfl⟩ hadvance
  | _ => cases ha

/-- Whoever gets on spends some toil. -/
theorem toil_act_lt {s : Controller ρ} (hc : s.backlog.Composed) {there : Bool}
    (hl : s.backlog.InLine there) {a : Action} (ha : s.stirs a = true) :
    (s.act a).toil < s.toil + 37 * (s.interruptsOf a).length := by
  have hnow : (s.act a).now = s.now := (s.effect_act a).now_eq <| by
    rintro instant rfl
    cases ha
  rw [toil, hnow]
  cases a with
  | resume client => exact toil_resume_lt hl ha
  | abandon client => exact toil_abandon_lt ha
  | move j timerFirst => exact toil_move_lt hc ha timerFirst
  | _ => cases ha

end Interrupts

end Controller

end HotplugDetect
