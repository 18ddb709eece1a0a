import HotplugDetect.Proofs.Cancellation
import HotplugDetect.Proofs.PollModes
import HotplugDetect.Proofs.Settling.Lineup
import HotplugDetect.Proofs.Shutdown

/-! # Workers that are left to themselves

On one thread, and with probes and ports that raise no interrupts, the worker at the head of the
line is the only one with a run in flight. What the operations and the moves of such workers keep is
put together here.
-/

namespace HotplugDetect

variable {ρ : Type}

/-- The operations of a driver that drops no work and never takes the lock on the display
configuration itself; the clock is one of them. -/
def Action.routine : Action → Bool
  | .interrupt _ | .raw _ _ | .init | .forcePolling _ | .setIrqs _ | .disable _ | .enable _
  | .setThreshold _ _ | .setShortStorms _ _ | .advance _ => true
  | _ => false

theorem Action.not_drops_of_routine {a : Action} (h : a.routine = true) : a.drops = false := by
  cases a with
  | cancelAll client => cases h
  | shutdown client => cases h
  | resume client => cases h
  | _ => rfl

namespace Backlog

variable {b : Backlog} {q : ModeParty}

theorem InLine.heldBy_of_running {there : Bool} (h : b.InLine there)
    (hout : ∀ r ∈ b.mode.line, r.isRun = true) (hrun : b.running q = true)
    (hsole : ∀ r, r ≠ q → b.running r = false) : b.mode.heldBy q = true := by
  have hq : q.isRun = true := by
    cases q with
    | outside party => cases hrun
    | _ => rfl
  have hin : q ∈ b.mode.line := by
    rw [← List.count_pos_iff, h.mode.once hq, hrun]
    exact Nat.one_pos
  cases hholder : b.mode.holder with
  | none =>
    rw [h.mode.orderly.line_eq_nil.mpr hholder] at hin
    cases hin
  | some r =>
    have hr := Lock.mem_line_of_holder hholder
    by_cases he : r = q
    · exact (Lock.heldBy_iff _ _).mpr (he ▸ hholder)
    · have hcount := List.count_pos_iff.mpr hr
      rw [h.mode.once (hout r hr), hsole r he] at hcount
      cases hcount

end Backlog

namespace Controller

open Backlog

/-- Some reading accounts for the outputs on every pin that a storm disabled, and it knew that the
pin is disabled. -/
def Monitored (s : Controller ρ) : Prop :=
  ∀ p, ∃ last, Accounted s.watch p last ∧ Covered s.watch p last

theorem Monitored.polled {s : Controller ρ} (h : s.Monitored) {c : Connector ρ}
    (hc : c ∈ s.connectors) (hstream : c.multiStream = false) {p : Pin} (hpin : c.pin = some p)
    (hmark : (s.table.get p).mitigated = true) : c.polled ≠ .hpd := by
  obtain ⟨last, haccount, hcovered⟩ := h p
  exact hcovered.polled haccount hc hstream hpin hmark

/-- The ports raise no interrupts any more. -/
def Mute (s : Controller ρ) : Prop := ∀ port h, s.digitalPorts port = some h → h.budget = 0

theorem Mute.withHandler {s : Controller ρ} (h : s.Mute) {port : Port} {handler : PulseHandler}
    (hport : s.digitalPorts port = some handler) : (s.withHandler port handler.next).Mute := by
  intro p later hp
  simp only [Controller.withHandler] at hp
  split at hp
  · obtain rfl := Option.some.inj hp
    have hspent := handler.budget_next true
    rw [h port handler hport] at hspent
    omega
  · exact h p later hp

theorem Mute.of_wiring {s t : Controller ρ} (h : s.Mute) (ht : t.wiring = s.wiring) : t.Mute := by
  intro port handler hport
  exact h port handler ((congrFun (congrArg Prod.snd ht) port).symm.trans hport)

theorem Mute.interrupt {s : Controller ρ} (h : s.Mute) (i : Interrupt) : (s.interrupt i).Mute :=
  h.of_wiring (s.wiring_interrupt i)

/-- Nothing arrives in the course of a digital run. -/
theorem Mute.raisedBy_eq_nil {s : Controller ρ} (h : s.Mute) (long short : PortSet) :
    raisedBy (s.pulsesFor long short Port.all) = [] := by
  refine List.flatMap_eq_nil_iff.mpr fun x hx => ?_
  have hspent := x.2.1.budget_next x.2.2
  rw [h x.1 x.2.1 (digitalPorts_of_mem hx)] at hspent
  exact List.length_eq_zero_iff.mp (by omega)

variable [Probe ρ]

theorem Mute.act {s : Controller ρ} (h : s.Mute) (a : Action) : (s.act a).Mute := by
  by_cases hm : ∃ timerFirst, a = .move .digital timerFirst
  · obtain ⟨timerFirst, rfl⟩ := hm
    have hmoved {t : Controller ρ} (ht : t.Mute) (hb : s.moveDigital.wiring = t.wiring) :
        (s.act (.move .digital timerFirst)).Mute := ht.of_wiring hb
    unfold moveDigital at hmoved
    split at hmoved
    · split at hmoved
      · rename_i long short _
        refine hmoved ?_ (outward_wiring.beginRun _ .digital _)
        exact deliver_induction (P := Mute) (fun _ _ ht => ht)
          (fun _ _ _ hport ht => ht.withHandler hport)
          (fun _ i ht => ht.interrupt i) long short ∅ Port.all s h
      · exact hmoved h ((outward_wiring.finishRun _ .digital).trans (outward_wiring.fallBack s _))
    · split at hmoved
      · exact hmoved h rfl
      · exact hmoved h (outward_wiring.beginRun _ .digital _)
  · push Not at hm
    exact h.of_wiring (wiring_act hm)

theorem Monitored.act {s : Controller ρ} (h : s.Monitored) (hs : s.watch.Sound) {a : Action}
    (hfree : (∃ timerFirst, a = .move .generic timerFirst) → s.pollInit.rest? = none) :
    (s.act a).Monitored := by
  intro p
  obtain ⟨last, haccount, hcovered⟩ := h p
  refine ⟨_, haccount.act hs a,
    hcovered.act hs fun hm => congrArg (Option.map Rest.pins) (hfree ?_)⟩
  unfold mitigates at hm
  split at hm
  · exact ⟨_, rfl⟩
  · cases hm

/-- What holds on one thread while `busy` is in the middle of its turn. No operation waits, no
outside party takes part, and no port raises interrupts. -/
structure Tidy (busy : Option Job) (s : Controller ρ) : Prop where

  line : s.backlog.InLine true

  composed : s.backlog.Composed

  kept : s.backlog.Kept busy

  attended {j : Job} : j ≠ .reenable → (s.backlog.work j).Attended

  sound : s.watch.Sound

  heeded (p : Pin) : s.Heeded p

  monitored : s.Monitored

  errands : s.errands = []

  unclaimed : s.unclaimed = true

  mute : s.Mute

  /-- Nobody else is in the middle of a run. -/
  idle {j : Job} : busy ≠ some j → (s.lane j).rest? = none

  aligned (j : Job) : s.Aligned j

  head {j : Job} : busy = some j → s.ready.head? = some j

section Steps

variable {s : Controller ρ} {busy : Option Job} {j : Job} {a : Action}

theorem inLine_act (h : s.backlog.InLine true) (ha : a.drops = false) :
    (s.act a).backlog.InLine true := by
  refine Steps.induction (P := fun b => b.InLine true) (fun b b' hs hb => ?_) (s.steps_act a) h
  obtain ⟨there, hb', hstays⟩ := hb.step hs
  rwa [hstays ha rfl] at hb'

theorem composed_act (h : s.backlog.Composed) (a : Action) : (s.act a).backlog.Composed :=
  composed_run h [a]

theorem attended_act (h : (s.backlog.work j).Attended) (hj : j ≠ .reenable)
    (ha : a.drops = false) : ((s.act a).backlog.work j).Attended :=
  Steps.induction (P := fun b => (b.work j).Attended)
    (fun _ _ hs hb => (hs.serves hj).attended ha hb) (s.steps_act a) h

end Steps

section Moves

variable {s : Controller ρ} {busy : Option Job} {j : Job}

omit [Probe ρ] in
/-- Only the worker that has the thread is in the middle of a run. -/
theorem Tidy.idle_of_ne (h : Tidy busy s) (hb : mayFollow busy (.move j true) = true) {k : Job}
    (hk : k ≠ j) : (s.lane k).rest? = none := by
  refine h.idle ?_
  rintro rfl
  exact hk (of_decide_eq_true hb).symm

theorem Tidy.canMove_of_rest? (h : Tidy busy s) (hb : mayFollow busy (.move j true) = true)
    (hi : s.interruptsOf (.move j true) = []) (hr : ((s.move j true).lane j).rest? ≠ none) :
    (s.move j true).canMove j = true := by
  have hmoves := moves_move hi
  have hline := inLine_act (a := .move j true) h.line rfl
  have hout : ∀ r ∈ (s.move j true).backlog.mode.line, r.isRun = true :=
    unclaimed_iff.mp (unclaimed_act (a := .move j true) (fun _ => nofun) h.unclaimed)
  have hrest {k : Job} (hk : k ≠ j) : ((s.move j true).backlog.lane k).rest? = none :=
    (hmoves.rest?_of_ne hk).trans ((lane_backlog s k).symm ▸ h.idle_of_ne hb hk)
  have hcomposed := composed_act h.composed (.move j true)
  have hrunning : ((s.move j true).backlog.lane j).rest?.isSome = true := by
    rw [lane_backlog]
    exact Option.isSome_iff_ne_none.mpr hr
  cases j with
  | digital =>
    obtain ⟨rest, hrest⟩ := Option.ne_none_iff_exists'.mp hr
    have hw : (s.move .digital true).digital.worker = some (.running rest) :=
      Lane.rest?_eq_some_iff.mp hrest
    simp [canMove, Lane.canMove, hw]
  | reenable => exact absurd hcomposed.prompt hr
  | generic =>
    refine canMove_of_running (.inl rfl) hrunning (hline.heldBy_of_running hout hrunning ?_)
    intro q hq
    cases q with
    | generic => exact absurd rfl hq
    | pollInit => exact congrArg Option.isSome (hrest (k := .pollInit) (by decide))
    | outside party => rfl
  | pollInit =>
    refine canMove_of_running (.inr rfl) hrunning (hline.heldBy_of_running hout hrunning ?_)
    intro q hq
    cases q with
    | generic => exact congrArg Option.isSome (hrest (k := .generic) (by decide))
    | pollInit => exact absurd rfl hq
    | outside party => rfl

theorem head?_move (hm : (s.move j true).canMove j = true) :
    (s.move j true).ready.head? = some j := by
  obtain ⟨t, ht⟩ : ∃ t : Controller ρ, s.move j true =
      { t with ready := (if t.canMove j then [j] else []) ++ t.ready.filter (· ≠ j) } := ⟨_, rfl⟩
  rw [ht] at hm ⊢
  have hcan : t.canMove j = true := hm
  simp [hcan]

/-- The worker at the head of the line moves. -/
theorem Tidy.move (h : Tidy busy s) (hb : mayFollow busy (.move j true) = true)
    (hi : s.interruptsOf (.move j true) = []) :
    Tidy (s.keepsThread (.move j true)) (s.move j true) := by
  have hmoves := moves_move hi
  have hbusy {k : Job} (hk : s.keepsThread (.move j true) = some k) :
      k = j ∧ (s.move j true).canMove j = true := by
    have hk : (if (s.move j true).canMove j then some j else none) = some k := hk
    split at hk
    · rename_i hm
      exact ⟨(Option.some.inj hk).symm, hm⟩
    · cases hk
  refine {
    line := inLine_act (a := .move j true) h.line rfl
    composed := composed_act h.composed (.move j true)
    kept := kept_act h.kept hb
    attended := fun hk => attended_act (a := .move j true) (h.attended hk) hk rfl
    sound := (s.effect_act (.move j true)).sound h.sound
    heeded := fun p => heeded_act h.sound (a := .move j true) rfl (h.heeded p)
    monitored := ?_
    errands := hmoves.errands.trans h.errands
    unclaimed := unclaimed_act (a := .move j true) (fun _ => nofun) h.unclaimed
    mute := h.mute.act (.move j true)
    idle := fun {k} hk => ?_
    aligned := aligned_move h.aligned j true
    head := fun {k} hk => ?_ }
  · refine h.monitored.act (a := .move j true) h.sound ?_
    rintro ⟨timerFirst, ha⟩
    cases ha
    exact h.idle_of_ne hb (k := .pollInit) (by decide)
  · by_cases he : k = j
    · subst he
      by_contra hr
      have hm := h.canMove_of_rest? hb hi hr
      exact hk (if_pos hm)
    · exact (lane_backlog _ k) ▸ (hmoves.rest?_of_ne he).trans
        ((lane_backlog s k).symm ▸ h.idle_of_ne hb he)
  · obtain ⟨rfl, hm⟩ := hbusy hk
    exact head?_move hm

end Moves

section Operations

variable {s : Controller ρ} {a : Action}

/-- The lock on the display configuration is left alone, nobody waits, and no run begins or ends. -/
structure Unhindered (s t : Controller ρ) : Prop where

  mode : t.mode = s.mode

  errands : t.errands = s.errands

  rest (j : Job) : (t.lane j).rest? = (s.lane j).rest?

omit [Probe ρ] in
theorem unhindered_of_backlog {t : Controller ρ} (h : t.backlog = s.backlog) : s.Unhindered t where
  mode := congrArg Backlog.mode h
  errands := congrArg Backlog.errands h
  rest j := by rw [← lane_backlog, h, lane_backlog]

omit [Probe ρ] in
theorem unhindered_of_interrupted {t : Controller ρ} (h : s.backlog.Interrupted t.backlog) :
    s.Unhindered t where
  mode := congrArg Backlog.mode h.rest
  errands := congrArg Backlog.errands h.rest
  rest j := by
    rw [← lane_backlog, h.rest?_lane, lane_backlog]

omit [Probe ρ] in
theorem unhindered_of_queuePollInit {t : Controller ρ}
    (h : t.backlog = { s.backlog with pollInit := s.pollInit.queue.1 }) : s.Unhindered t where
  mode := congrArg Backlog.mode h
  errands := congrArg Backlog.errands h
  rest j := by
    rw [← lane_backlog, h]
    cases j with
    | pollInit => exact Work.rest?_queue _
    | _ => rfl

omit [Probe ρ] in
theorem unhindered_flush (hfree : (s.lane .reenable).run = {}) (client : Nat) :
    s.Unhindered (s.flush client) := by
  have hb : (s.flush client).backlog = (s.requestRun .reenable client).recoverNow.backlog := by
    unfold flush
    simp only
    rw [if_pos (holdsRun_of_free hfree client)]
  rw [backlog_recoverNow, backlog_requestRun] at hb
  refine ⟨congrArg Backlog.mode hb, congrArg Backlog.errands hb, fun j => ?_⟩
  rw [← lane_backlog, hb]
  cases j with
  | reenable => exact Lane.rest?_notify _
  | _ => rfl

theorem unhindered_act (h : s.backlog.Kept none) (ha : a.routine = true) :
    s.Unhindered (s.act a) := by
  have hknob (client : Nat) (m : Message) (config : StormConfig) :
      s.Unhindered (if (s.errand? client).isSome then s
        else (s.note m).configure client config) := by
    split
    · exact unhindered_of_backlog rfl
    · have hset := unhindered_flush
        (s := { s.note m with table := { s.table with config }.clearCounts })
        (h.reenableLane.free nofun) client
      exact ⟨hset.mode, hset.errands, hset.rest⟩
  cases a with
  | interrupt i => exact unhindered_of_interrupted (s.interrupted_interrupt i)
  | raw pinMask longMask => exact unhindered_of_interrupted (s.interrupted_raw pinMask longMask)
  | init =>
    refine unhindered_of_queuePollInit ?_
    rw [act, backlog_init]
  | forcePolling on =>
    refine unhindered_of_queuePollInit ?_
    rw [act, backlog_forcePolling]
  | setThreshold client k => exact hknob client _ _
  | setShortStorms client k => exact hknob client _ _
  | setIrqs on => exact unhindered_of_backlog rfl
  | disable pin => exact unhindered_of_backlog rfl
  | enable pin => exact unhindered_of_backlog rfl
  | advance instant => exact unhindered_of_backlog (s.backlog_advance instant)
  | _ => cases ha

theorem Tidy.aligned_act (h : Tidy none s) (ha : a.routine = true) (k : Job) :
    (s.act a).Aligned k := by
  have hs := h.aligned k
  have hfree : s.reenable.run = {} := h.kept.reenableLane.free nofun
  have hidle : s.reenable.worker ≠ some .claiming := by
    intro hw
    have hplaced : s.reenable.Placed := h.kept.reenableLane.lined.placed
    rw [Lane.Placed, hw, hfree] at hplaced
    cases hplaced
  have hknob (client : Nat) (m : Message) (config : StormConfig) :
      (if (s.errand? client).isSome then s else (s.note m).configure client config).Aligned k := by
    split
    · exact hs
    · exact aligned_configure (s := s.note m) hs hidle client config
  have hsame {t : Controller ρ} (ht : s.SameLine t) : t.Aligned k := ht.aligned hs
  cases a with
  | interrupt i => exact aligned_interrupt hs i
  | raw pinMask longMask => exact aligned_raw hs pinMask longMask
  | init => exact aligned_init hs
  | forcePolling on => exact aligned_forcePolling hs on
  | setIrqs on => exact hsame ⟨rfl, fun _ => rfl⟩
  | disable pin => exact hsame ⟨rfl, fun _ => rfl⟩
  | enable pin => exact hsame ⟨rfl, fun _ => rfl⟩
  | setThreshold client k => exact hknob client _ _
  | setShortStorms client k => exact hknob client _ _
  | advance instant => exact aligned_advance h.composed hs instant
  | _ => cases ha

/-- Operations come between two turns. -/
theorem Tidy.act (h : Tidy none s) (ha : a.routine = true) : Tidy none (s.act a) := by
  have hunhindered := unhindered_act h.kept ha
  have hdrops := Action.not_drops_of_routine ha
  have hkept : s.keepsThread a = none := by
    cases a with
    | move j timerFirst => cases ha
    | _ => rfl
  exact {
    line := inLine_act h.line hdrops
    composed := composed_act h.composed a
    kept := hkept ▸ kept_act_of_free h.kept a
    attended := fun hj => attended_act (h.attended hj) hj hdrops
    sound := (s.effect_act a).sound h.sound
    heeded := fun p => heeded_act h.sound hdrops (h.heeded p)
    monitored := h.monitored.act h.sound <| by
      rintro ⟨timerFirst, rfl⟩
      cases ha
    errands := hunhindered.errands.trans h.errands
    unclaimed := by
      rw [Controller.unclaimed, hunhindered.mode]
      exact h.unclaimed
    mute := h.mute.act a
    idle := fun {j} _ => (hunhindered.rest j).trans (h.idle nofun)
    aligned := h.aligned_act ha
    head := nofun }

end Operations

section Settling

variable {s : Controller ρ} {busy : Option Job}

omit [Probe ρ] in
theorem toil_le (h : s.errands = []) : s.toil ≤ 76 := by
  have hdigital := s.digital.unrest_le s.now false
  have hgeneric := s.generic.unrest_le s.now false
  have hpollInit := s.pollInit.unrest_le s.now false
  have hreenable := s.reenable.unrest_le s.now (s.reenable.due s.now)
  have hd := s.digital.pending.toNat_le
  have hg := s.generic.pending.toNat_le
  have hp := s.pollInit.pending.toNat_le
  have hr := (s.reenable.armed && !s.reenable.due s.now).toNat_le
  have herrands : Errand.totalToil s.backlog.errands = 0 := by
    rw [show s.backlog.errands = [] from h]
    rfl
  have hmoves : s.digital.rest?.elim 0 (14 + ·.moves) ≤ 16 := by
    cases s.digital.rest? with
    | none => exact Nat.zero_le _
    | some rest =>
      rw [Option.elim_some, Rest.moves]
      split <;> decide
  have htoil : s.toil = s.digital.unrest s.now false + 17 * s.digital.pending.toNat +
      s.digital.rest?.elim 0 (14 + ·.moves) +
      (s.generic.unrest s.now false + 10 * s.generic.pending.toNat) +
      (s.pollInit.unrest s.now false + s.pollInit.pending.toNat) +
      (s.reenable.unrest s.now (s.reenable.due s.now) +
        4 * (s.reenable.armed && !s.reenable.due s.now).toNat) +
      Errand.totalToil s.backlog.errands := rfl
  omega

/-- The probes raise no interrupts. -/
def Quiet (ρ : Type) [Probe ρ] : Prop := ∀ x : ρ, (Probe.detect x).raised = []

theorem interruptsOf_of_quiet (hq : Quiet ρ) (hs : s.Mute) (j : Job) (timerFirst : Bool) :
    s.interruptsOf (.move j timerFirst) = [] := by
  have hraised (pins : PinSet) (cs : List (Connector ρ)) : raisedOn pins cs = [] := by
    simp [raisedOn, hq _]
  rcases s.move_cases j timerFirst with hi | ⟨-, rest, long, short, -, -, hi, -⟩ |
    ⟨-, rest, -, -, hi, -⟩
  · exact hi
  · rw [hi]
    exact hs.raisedBy_eq_nil long short
  · rw [hi]
    exact hraised rest.pins s.connectors

/-- A worker in the line spends some toil. -/
theorem Tidy.toil_move_lt (h : Tidy busy s) (hq : Quiet ρ) {j : Job} (hj : j ∈ s.ready) :
    (s.move j true).toil < s.toil := by
  have hless := toil_act_lt h.composed h.line (a := .move j true) ((h.aligned j).mp hj)
  rwa [interruptsOf_of_quiet hq h.mute] at hless

omit [Probe ρ] in
theorem Tidy.of_empty (h : Tidy busy s) (hempty : s.ready = []) : Tidy none s := by
  cases busy with
  | none => exact h
  | some j =>
    have hhead := h.head rfl
    rw [hempty] at hhead
    cases hhead

/-- The workers come to rest before their moves and the locks of a turn are used up. -/
theorem Tidy.settleFor (hq : Quiet ρ) (fuel left : Nat) (h : Tidy busy s) (hfuel : s.toil ≤ fuel)
    (hleft : s.toil ≤ left) :
    Tidy none (s.settleFor fuel left) ∧ (s.settleFor fuel left).ready = [] := by
  induction fuel generalizing s busy left with
  | zero =>
    have hempty : s.ready = [] := by
      refine List.eq_nil_iff_forall_not_mem.mpr fun j hj => ?_
      have hless := h.toil_move_lt hq hj
      omega
    exact ⟨h.of_empty hempty, hempty⟩
  | succ fuel ih =>
    rw [Controller.settleFor]
    split
    · rename_i hempty
      exact ⟨h.of_empty hempty, hempty⟩
    · rename_i j rest hready
      have hless := h.toil_move_lt hq (j := j) (by rw [hready]; exact List.mem_cons_self)
      have hfollow : mayFollow busy (.move j true) = true := by
        cases busy with
        | none => rfl
        | some k =>
          have hhead := h.head rfl
          rw [hready] at hhead
          exact decide_eq_true (Option.some.inj hhead)
      have hcost : (if s.atLock j then 1 else 0) ≤ 1 := by
        split <;> decide
      have hmoved := h.move hfollow (interruptsOf_of_quiet hq h.mute j true)
      have hbound := toil_le hmoved.errands
      simp only
      rw [if_neg (by omega)]
      refine ih _ hmoved (by omega) ?_
      unfold locksPerTurn
      split <;> omega

end Settling

end Controller

end HotplugDetect
