import HotplugDetect.Proofs.Backlog.Alarm
import HotplugDetect.Proofs.Dispatch.Stride
import HotplugDetect.Proofs.Work.Unrest

/-! # The workers settle

A worker that can move has its unrest to spend: every stride of it costs some, and what a stride
hands on to other workers is worth less than what it costs. Workers that are left alone come to
rest.
-/

namespace HotplugDetect

variable {ρ : Type}

section Lanes

variable {β : Type}

theorem Work.unrest_queue (w : Work β) (now worth : Nat) :
    w.queue.1.unrest now false + worth * w.queue.1.pending.toNat ≤
      w.unrest now false + worth * w.pending.toNat + (worth + 5) := by
  have hnotified := w.toLane.unrest_notify now false false
  unfold queue
  split
  · exact Nat.le_add_right _ _
  · simp only [Bool.toNat_true, Nat.mul_one]
    omega

/-- The worker is there and minds its work, and nobody else wants its run lock. -/
structure Work.Tended (w : Work β) : Prop where

  lined : w.Lined []

  attended : w.Attended

  present : w.worker ≠ none

  patient : w.Patient

namespace Work

theorem Tended.queue {w : Work β} (h : w.Tended) : w.queue.1.Tended :=
  ⟨lined_queue h.lined, h.attended.queue, worker_queue h.present, Patient.queue h.patient⟩

theorem Tended.seek {w w' : Work β} {m : Moved} (h : w.Tended) (hs : w.seek = (w', m)) :
    w'.Tended :=
  ⟨lined_of_seek hs h.lined, h.attended.of_seek hs, present_of_seek hs h.present,
    Patient.of_seek hs h.patient⟩

theorem Tended.begin {w : Work β} (h : w.Tended) (hp : w.pending = false)
    (hh : w.run.holder = some .worker) (rest : β) :
    ({ w with toLane := w.toLane.begin rest } : Work β).Tended :=
  ⟨h.lined.begin hh rest, attended_of_not_pending hp, Option.some_ne_none _, trivial⟩

theorem Tended.goesOn {w : Work β} (h : w.Tended) {rest : β}
    (hw : w.worker = some (.running rest)) (rest' : β) :
    ({ w with toLane := w.toLane.begin rest' } : Work β).Tended := by
  have hp := h.lined.placed
  rw [Lane.Placed, hw] at hp
  refine ⟨h.lined.begin hp.1 rest', fun hpending => ?_, Option.some_ne_none _, trivial⟩
  have hroused := h.attended hpending
  rwa [Lane.roused, hw] at hroused

theorem Tended.finish {w : Work β} (h : w.Tended) {rest : β}
    (hw : w.worker = some (.running rest)) :
    ({ w with toLane := w.toLane.finish } : Work β).Tended := by
  have hp := h.lined.placed
  rw [Lane.Placed, hw] at hp
  exact ⟨h.lined.finish hp.1, h.attended.finish hw, Option.some_ne_none _, trivial⟩

/-- A worker that cannot move has nothing left to do. -/
theorem Tended.not_pending {w : Work β} (h : w.Tended) (hr : w.rest? = none) {now : Nat}
    {ready : β → Bool} (hm : w.canMove now ready = false) : w.pending = false := by
  rw [← Bool.not_eq_true]
  intro hp
  have hroused := h.attended hp
  have hpresent := h.present
  have hclaiming : w.canMove now (fun _ => true) = false → w.run = {} :=
    h.lined.run_of_not_canMove
  have hplaced := h.lined.placed
  rcases w with ⟨⟨permit, run, _ | _ | ⟨u, notified⟩ | _ | rest⟩, pending⟩
  · exact hpresent rfl
  · cases hm
  · obtain rfl : notified = true := hroused
    cases hm
  · obtain rfl : run = {} := hclaiming hm
    cases hplaced
  · cases hr

end Work

end Lanes

/-- The moves that a digital run in flight still takes. -/
def Rest.moves (r : Rest) : Nat := if r.pulses.isSome then 2 else 1

namespace Backlog

variable {b b' : Backlog}

def canMove (b : Backlog) (now : Nat) : Job → Bool
  | .digital => b.digital.canMove now fun _ => true
  | .generic => b.generic.canMove now fun _ => b.mode.heldBy .generic
  | .pollInit => b.pollInit.canMove now fun _ => b.mode.heldBy .pollInit
  | .reenable => b.reenable.canMove now fun _ => true

/-- What all workers together may still spend. -/
def unrest (b : Backlog) (now : Nat) : Nat :=
  b.digital.unrest now false + 13 * b.digital.pending.toNat +
    b.digital.rest?.elim 0 (10 + ·.moves) +
    (b.generic.unrest now false + 6 * b.generic.pending.toNat) +
    b.pollInit.unrest now false + b.reenable.unrest now (b.reenable.due now)

/-- The workers are left alone with the pulses and the pins; nobody wants poll modes set anew. -/
structure Tended (b : Backlog) : Prop where

  digital : b.digital.Tended

  generic : b.generic.Tended

  pollInit : b.pollInit.Patient

  pollInit_pending : b.pollInit.pending = false

  pollInit_rest : b.pollInit.rest? = none

  reenable_rest : b.reenable.rest? = none

  pulses : b.digital.pending = false → b.longPorts = ∅ ∧ b.shortPorts = ∅

  events : b.generic.pending = false → b.eventPins = ∅

  /-- A run of the generic job has the lock on the display configuration. -/
  mode : b.mode = if b.generic.rest?.isSome then ⟨some .generic, []⟩ else {}

/-- When no worker can move, nothing is left to do for the pulses and the pins. -/
theorem Tended.settled (h : b.Tended) {now : Nat} (hm : ∀ j, b.canMove now j = false) :
    b.digital.pending = false ∧ b.digital.rest? = none ∧ b.generic.pending = false ∧
      b.generic.rest? = none := by
  have hdigital : b.digital.rest? = none := by
    refine Lane.rest?_of_not_running fun rest hw => ?_
    have hidle := hm .digital
    rw [canMove, Lane.canMove, hw] at hidle
    cases hidle
  have hrest : b.generic.rest? = none := by
    rw [← Option.not_isSome_iff_eq_none]
    intro hrunning
    have hmode := h.mode
    have hidle := hm .generic
    rw [if_pos hrunning] at hmode
    obtain ⟨pins, hr⟩ := Option.isSome_iff_exists.mp hrunning
    have hw := Lane.rest?_eq_some_iff.mp hr
    rw [canMove, Lane.canMove, hw, hmode] at hidle
    cases hidle
  exact ⟨h.digital.not_pending hdigital (hm .digital), hdigital,
    h.generic.not_pending hrest (hm .generic), hrest⟩

theorem unrest_le {b : Backlog} (hr : b.digital.rest? = none) (now : Nat) : b.unrest now ≤ 47 := by
  have hdigital := b.digital.unrest_le now false
  have hgeneric := b.generic.unrest_le now false
  have hpollInit := b.pollInit.unrest_le now false
  have hreenable := b.reenable.unrest_le now (b.reenable.due now)
  have hd := b.digital.pending.toNat_le
  have hg := b.generic.pending.toNat_le
  rw [unrest, hr, Option.elim_none]
  omega

end Backlog

theorem Controller.canMove_backlog (s : Controller ρ) (j : Job) :
    s.backlog.canMove s.now j = s.canMove j := by
  cases j <;> rfl

namespace Stride

variable [Probe ρ] {now : Nat} {b b' : Backlog} {g g' : Ledger ρ} {j : Job}

theorem tended (h : Stride now b g j b' g') (hb : b.Tended) : b'.Tended := by
  cases h with
  | digitalLooks seek idle =>
    exact { hb with
      digital := hb.digital.seek seek
      pulses := fun hp => hb.pulses ((Work.pending_looking seek).symm.trans hp) }
  | drains seek =>
    obtain ⟨hh, hp⟩ := Work.holder_of_claimed seek
    exact { hb with
      digital := (hb.digital.seek seek).begin hp hh _
      pulses := fun _ => ⟨rfl, rfl⟩ }
  | @delivers rest long short refused handlers running taken refused_iff =>
    exact { hb with digital := hb.digital.goesOn running { pins := refused } }
  | fallsBack running done =>
    exact { hb with
      digital := hb.digital.finish running
      generic := by
        split
        · exact hb.generic
        · exact hb.generic.queue
      events := by
        split
        · rename_i he
          rw [Mask.union_of_isEmpty he]
          exact hb.events
        · exact fun hp => nomatch b.generic.pending_queue.symm.trans hp
      mode := by
        split
        · exact hb.mode
        · rw [Work.rest?_queue]
          exact hb.mode }
  | genericLooks seek idle =>
    exact { hb with
      generic := hb.generic.seek seek
      events := fun hp => hb.events ((Work.pending_looking seek).symm.trans hp)
      mode := by
        rw [Work.rest?_of_seek seek]
        exact hb.mode }
  | takes seek armed =>
    obtain ⟨hh, hp⟩ := Work.holder_of_claimed seek
    obtain ⟨hw, -, -⟩ := Work.seek_claimed seek
    have hfree : b.mode = {} := by
      rw [hb.mode, Lane.rest?, hw]
      rfl
    exact { hb with
      generic := (hb.generic.seek seek).begin hp hh { pins := b.eventPins }
      reenable_rest := by
        rcases armed with rfl | ⟨u, rfl⟩
        · exact hb.reenable_rest
        · exact (Lane.rest?_notify _).trans hb.reenable_rest
      events := fun _ => rfl
      mode := by
        rw [hfree]
        rfl }
  | waits running held => exact hb
  | probes running held =>
    have hmode : b.mode = ⟨some .generic, []⟩ := by
      rw [hb.mode, Lane.rest?_eq_some_iff.mpr running]
      rfl
    exact { hb with
      generic := hb.generic.finish running
      mode := by
        rw [hmode]
        rfl }
  | pollInitLooks seek =>
    exact { hb with
      pollInit := Work.Patient.of_seek seek hb.pollInit
      pollInit_pending := (Work.pending_looking seek).trans hb.pollInit_pending
      pollInit_rest := (Work.rest?_of_seek seek).trans hb.pollInit_rest }
  | reenableLooks seek =>
    exact { hb with reenable_rest := (DelayedWork.rest?_of_seek seek).trans hb.reenable_rest }
  | recovers seek => exact { hb with reenable_rest := rfl }

/-- A stride of a worker that can move leaves less to spend. -/
theorem unrest_lt (h : Stride now b g j b' g') (hb : b.Tended) (hm : b.canMove now j = true) :
    b'.unrest now < b.unrest now := by
  cases h with
  | digitalLooks seek idle =>
    have hless := Work.unrest_looking seek hb.digital.patient idle hm
    have hpending := Work.pending_looking seek
    have hrest := Work.rest?_of_seek seek
    simp only [Backlog.unrest, hpending, hrest]
    omega
  | drains seek =>
    obtain ⟨hw, hp, rfl⟩ := Work.seek_claimed seek
    have hclaiming : b.digital.unrest now false = 2 + _ := Lane.unrest_of hw now false
    have hrunning : (b.digital.begin { pulses := some (b.longPorts, b.shortPorts) }).unrest now
        false = 2 + 2 * b.digital.permit.toNat := rfl
    have hmoves : (b.digital.begin { pulses := some (b.longPorts, b.shortPorts) }).rest?.elim 0
        (10 + ·.moves) = 12 := rfl
    simp only [Backlog.unrest, hp, Bool.toNat_true, Bool.toNat_false]
    omega
  | @delivers rest long short refused handlers running taken =>
    have hbefore : b.digital.unrest now false = 2 + _ := Lane.unrest_of running now false
    have hafter : (b.digital.begin { pins := refused }).unrest now false =
        2 + 2 * b.digital.permit.toNat := rfl
    have hmoves : b.digital.rest?.elim 0 (10 + ·.moves) = 12 := by
      rw [Lane.rest?_eq_some_iff.mpr running, Option.elim_some, Rest.moves, taken]
      rfl
    have hlast : (b.digital.begin { pins := refused }).rest?.elim 0 (10 + ·.moves) = 11 := rfl
    simp only [Backlog.unrest]
    omega
  | @fallsBack rest running done =>
    have hgeneric : ∀ w, w = (if rest.pins.isEmpty then b.generic else b.generic.queue.1) →
        w.unrest now false + 6 * w.pending.toNat ≤
          b.generic.unrest now false + 6 * b.generic.pending.toNat + 11 := by
      rintro w rfl
      split
      · exact Nat.le_add_right _ _
      · exact b.generic.unrest_queue now 6
    have := hgeneric _ rfl
    have hbefore : b.digital.unrest now false = 2 + _ := Lane.unrest_of running now false
    have hafter : b.digital.finish.unrest now false = 1 + 2 * b.digital.permit.toNat := rfl
    have hmoves : b.digital.rest?.elim 0 (10 + ·.moves) = 11 := by
      rw [Lane.rest?_eq_some_iff.mpr running, Option.elim_some, Rest.moves, done]
      rfl
    have hlast : b.digital.finish.rest?.elim 0 (10 + ·.moves) = 0 := rfl
    simp only [Backlog.unrest]
    omega
  | genericLooks seek idle =>
    have hless := Work.unrest_looking seek hb.generic.patient idle hm
    have hpending := Work.pending_looking seek
    simp only [Backlog.unrest, hpending]
    omega
  | @takes w r seek armed =>
    obtain ⟨hw, hp, rfl⟩ := Work.seek_claimed seek
    have hreenable : r.unrest now (r.due now) ≤ b.reenable.unrest now (b.reenable.due now) + 5 := by
      rcases armed with rfl | ⟨u, rfl⟩
      · exact Nat.le_add_right _ _
      · exact Lane.unrest_notify _ _ _ _
    have hclaiming : b.generic.unrest now false = 2 + _ := Lane.unrest_of hw now false
    have hrunning : (b.generic.begin { pins := b.eventPins }).unrest now false =
        2 + 2 * b.generic.permit.toNat := rfl
    simp only [Backlog.unrest, hp, Bool.toNat_true, Bool.toNat_false]
    omega
  | waits running held =>
    rw [Backlog.canMove, Lane.canMove, running] at hm
    cases (show b.mode.heldBy .generic = true from hm).symm.trans held
  | probes running held =>
    have hrunning : b.generic.unrest now false = 2 + _ := Lane.unrest_of running now false
    have hidle : b.generic.finish.unrest now false = 1 + 2 * b.generic.permit.toNat := rfl
    simp only [Backlog.unrest]
    omega
  | pollInitLooks seek =>
    have hless := Work.unrest_looking seek hb.pollInit hb.pollInit_rest hm
    simp only [Backlog.unrest]
    omega
  | reenableLooks seek =>
    have hless := DelayedWork.unrest_looking seek hb.reenable_rest hm
    simp only [Backlog.unrest]
    omega
  | recovers seek =>
    obtain ⟨hw, -, rfl⟩ := DelayedWork.seek_claimed seek
    have hclaiming : b.reenable.unrest now (b.reenable.due now) = 2 + _ :=
      Lane.unrest_of hw now _
    have hidle : (b.reenable.past {}).unrest now false = 1 + 2 * b.reenable.permit.toNat := rfl
    have hnot : ({ b.reenable with
        toLane := b.reenable.toLane.past {}, deadline := none } :
        DelayedWork Rest).due now = false := rfl
    simp only [Backlog.unrest, hnot]
    omega

end Stride

end HotplugDetect
