import HotplugDetect.Proofs.Settling.Thread

/-! # Controllers at rest

A driver that lets some time pass after every operation always finds the workers waiting for the
next event. Nothing is pending then but perhaps the recovery, no storm waits to be handed over, and
no output listens on a pin that a storm disabled.
-/

namespace HotplugDetect

variable {ρ : Type}

theorem Lane.canMove_of_rest?_eq_none {β : Type} {l : Lane β} (h : l.rest? = none) {now : Nat}
    (ready ready' : β → Bool) : l.canMove now ready = l.canMove now ready' := by
  rcases l with ⟨permit, run, _ | _ | ⟨u, notified⟩ | _ | rest⟩
  case some.running => cases h
  all_goals rfl

def Backlog.staffed (b : Backlog) : Backlog :=
  { b with
    digital := { b.digital with toLane := b.digital.toLane.start }
    generic := { b.generic with toLane := b.generic.toLane.start }
    pollInit := { b.pollInit with toLane := b.pollInit.toLane.start }
    reenable := { b.reenable with toLane := b.reenable.toLane.start } }

/-- Nothing is left to the workers but perhaps the recovery, and nobody has a run lock. -/
structure Backlog.Finished (b : Backlog) : Prop where

  pending : b.digital.pending = false ∧ b.generic.pending = false ∧ b.pollInit.pending = false

  free (j : Job) : (b.lane j).run = {}

namespace Controller

open Backlog

/-- The workers have finished on one thread. -/
structure Rested [Probe ρ] (s : Controller ρ) : Prop where

  tidy : Tidy none s

  finished : s.backlog.Finished

/-- The system has come to rest: no event waits, no storm waits to be handed over, and the
outputs are watched. -/
structure InOrder (s : Controller ρ) : Prop where

  quiescent : s.Quiescent

  idle (j : Job) : (s.lane j).rest? = none

  events : s.longPorts = ∅ ∧ s.shortPorts = ∅ ∧ s.eventPins = ∅

  states (p : Pin) : s.table.state p = .enabled ∨ s.table.state p = .disabled

  mitigated {p : Pin} : (s.table.get p).mitigated = true → s.table.state p = .disabled

  /-- Outputs on a pin that a storm disabled do not listen to it. -/
  outputs {c : Connector ρ} {p : Pin} : c ∈ s.connectors → c.multiStream = false →
    c.pin = some p → (s.table.get p).mitigated = true → c.polled ≠ .hpd

section Probes

variable [Probe ρ] {s t : Controller ρ}

omit [Probe ρ] in
theorem Tidy.same {busy : Option Job} (h : Tidy busy s) (hb : t.backlog = s.backlog)
    (hw : t.watch = s.watch) (hp : t.wiring = s.wiring) (hr : t.ready = s.ready) : Tidy busy t where
  line := hb ▸ h.line
  composed := hb ▸ h.composed
  kept := hb ▸ h.kept
  attended := hb ▸ h.attended
  sound := hw ▸ h.sound
  heeded p := heeded_of_stats (congrArg Watch.stats hw)
    (congrArg (fun b => b.generic.pending) hb) (h.heeded p)
  monitored p := hw ▸ h.monitored p
  errands := (congrArg Backlog.errands hb).trans h.errands
  unclaimed := by
    have hmode : t.mode = s.mode := congrArg Backlog.mode hb
    rw [Controller.unclaimed, hmode]
    exact h.unclaimed
  mute := h.mute.of_wiring hp
  idle hj := by
    rw [← lane_backlog, hb, lane_backlog]
    exact h.idle hj
  aligned j := by
    have hnow : t.now = s.now := congrArg Watch.now hw
    unfold Aligned
    rw [hr, ← canMove_backlog, hb, hnow, canMove_backlog]
    exact h.aligned j
  head hj := hr ▸ h.head hj

theorem Tidy.rested (h : Tidy none s) (hempty : s.ready = []) : s.Rested := by
  have hwaits (j : Job) : s.canMove j = false := by
    rw [← Bool.not_eq_true]
    intro hmove
    have hin := (h.aligned j).mpr hmove
    rw [hempty] at hin
    cases hin
  have hrest : s.AtRest := ⟨fun j _ => hwaits j, by simp [h.errands]⟩
  have hstarted : s.started = true := (h.line.lanes .digital).worker
  have hheld : s.held = false := not_held_of_unclaimed h.unclaimed
  have hqueued {j : Job} (hj : j ≠ .reenable) : s.queued j = false :=
    not_queued_of_attended h.line hrest hstarted hheld hj (h.attended hj)
  refine ⟨h, ⟨?_, ?_, ?_⟩, fun j => ?_⟩
  · exact hqueued (j := .digital) (by decide)
  · exact hqueued (j := .generic) (by decide)
  · exact hqueued (j := .pollInit) (by decide)
  · rw [lane_backlog]
    have hlined := (h.line.lanes j).lined
    rw [show s.backlog.errands = [] from h.errands, lane_backlog] at hlined
    have hidle := h.idle (j := j) nofun
    have hwait := hwaits j
    have hstill : (s.lane j).canMove s.now (fun _ => true) = false := by
      cases j with
      | digital => exact hwait
      | generic => exact (Lane.canMove_of_rest?_eq_none hidle _ _).trans hwait
      | pollInit => exact (Lane.canMove_of_rest?_eq_none hidle _ _).trans hwait
      | reenable => exact hwait
    exact hlined.run_of_not_canMove hstill

theorem Rested.same (h : s.Rested) (hb : t.backlog = s.backlog) (hw : t.watch = s.watch)
    (hp : t.wiring = s.wiring) (hr : t.ready = s.ready) : t.Rested :=
  ⟨h.tidy.same hb hw hp hr, hb ▸ h.finished⟩

theorem Rested.advance (h : s.Rested) (instant : Nat) : (s.advance instant).Rested :=
  ⟨h.tidy.act (a := .advance instant) rfl, (s.backlog_advance instant).symm ▸ h.finished⟩

/-- Workers at rest leave everything in order. -/
theorem Rested.inOrder (h : s.Rested) : s.InOrder where
  quiescent := by
    obtain ⟨hdigital, hgeneric, hpollInit⟩ := h.finished.pending
    refine ⟨hdigital, hgeneric, hpollInit, fun j _ => ?_⟩
    rw [← lane_backlog, h.finished.free j]
  idle j := h.tidy.idle nofun
  events := by
    obtain ⟨hdigital, hgeneric, -⟩ := h.finished.pending
    obtain ⟨hlong, hshort⟩ := h.tidy.kept.digital hdigital
    exact ⟨hlong, hshort, h.tidy.kept.generic hgeneric⟩
  states p := by
    have hheeded := h.tidy.heeded p
    unfold Heeded at hheeded
    cases hstate : s.table.state p with
    | enabled => exact .inl rfl
    | disabled => exact .inr rfl
    | autoDisabled => cases (hheeded hstate).symm.trans h.finished.pending.2.1
  mitigated {p} hmark := h.tidy.sound p hmark
  outputs hc hstream hpin hmark := h.tidy.monitored.polled hc hstream hpin hmark

end Probes

section Sleep

variable [BoundedProbe ρ] {s : Controller ρ}

theorem Tidy.settle (h : Tidy none s) (hq : Quiet ρ) : s.settle.Rested := by
  have htoil := toil_le h.errands
  have hsettled := h.settleFor hq s.movesPerInstant locksPerTurn
    (by unfold movesPerInstant; omega) (by unfold locksPerTurn; omega)
  exact hsettled.1.rested hsettled.2

theorem sleepUntil_rested (hq : Quiet ρ) (instant fuel : Nat) (h : Tidy none s)
    (hrested : fuel = 0 → s.Rested) : (sleepUntil instant fuel s).Rested := by
  induction fuel generalizing s with
  | zero => exact (hrested rfl).advance instant
  | succ fuel ih =>
    have hsettled := h.settle hq
    unfold sleepUntil
    simp only
    split
    · rename_i alarm _
      split
      · exact ih (hsettled.advance alarm).tidy fun _ => hsettled.advance alarm
      · exact hsettled.advance instant
    · exact hsettled.advance instant

/-- Some time brings the workers to rest. -/
theorem Tidy.sleep (h : Tidy none s) (hq : Quiet ρ) (ms : Nat) : (s.sleep ms).Rested :=
  sleepUntil_rested hq _ alarmsPerSleep h (fun h0 => absurd h0 (by decide))

theorem await_of_no_errands (h : s.errands = []) (client : Nat) : s.await client = s := by
  simp [await, awaitErrand, errand?, h]

end Sleep

section Start

theorem act_start [Probe ρ] {s : Controller ρ} (h : s.started = false) :
    s.act .start = (Job.all.foldl (fun s j => (s.withLane j Lane.start).rouse j) s).note
      (.started Job.all.length) := by
  simp only [act, start, h, Bool.not_true, Bool.false_eq_true, if_false]
  rfl

theorem aligned_start [Probe ρ] {s : Controller ρ} (h : s.started = false) {j : Job}
    (hs : s.Aligned j) : (s.act .start).Aligned j := by
  have hstarted := aligned_startWorkers Job.all hs
  rw [act_start h]
  generalize Job.all.foldl (fun s j => (s.withLane j Lane.start).rouse j) s = t at hstarted ⊢
  exact hstarted

theorem backlog_start [Probe ρ] {s : Controller ρ} (h : s.started = false) :
    (s.act .start).backlog = s.backlog.staffed := by
  rw [act_start h, silent_backlog.note, backlog_startWorkers]
  rfl

variable (settings : Settings) (connectors : ConnectorList ρ) (ports : Port → Option PulseHandler)

theorem monitored_ofSettings : (ofSettings settings connectors ports).Monitored := by
  intro p
  have hunmarked : ((ofSettings settings connectors ports).watch.stats p).mitigated ≠ true := by
    rw [stats_ofSettings]
    exact nofun
  exact ⟨none, fun hmark => absurd hmark hunmarked, fun hmark => absurd hmark hunmarked⟩

theorem heeded_ofSettings (p : Pin) : (ofSettings settings connectors ports).Heeded p := by
  have hstats := stats_ofSettings settings connectors ports p
  have hstate : (ofSettings settings connectors ports).table.state p = .enabled :=
    congrArg PinStats.state hstats
  intro hauto
  rw [hstate] at hauto
  cases hauto

variable {settings connectors ports} in
theorem tidy_start [Probe ρ] (hmute : (ofSettings settings connectors ports).Mute) :
    Tidy none ((ofSettings settings connectors ports).act .start) := by
  have hb : ((ofSettings settings connectors ports).act .start).backlog =
      (ofSettings settings connectors ports).backlog.staffed := backlog_start rfl
  have hline : ((ofSettings settings connectors ports).act .start).backlog.InLine true := by
    rw [hb]
    exact (inLine_ofSettings settings connectors ports).starts
  have hsound := sound_ofSettings settings connectors ports
  exact {
    line := hline
    composed := composed_run (composed_ofSettings settings connectors ports) [.start]
    kept := kept_act_of_free (kept_ofSettings settings connectors ports) .start
    attended := fun {j} hj =>
      attended_act (a := .start) (attended_ofSettings settings connectors ports j) hj rfl
    sound := (effect_act _ .start).sound hsound
    heeded := fun p =>
      heeded_act hsound (a := .start) rfl (heeded_ofSettings settings connectors ports p)
    monitored := (monitored_ofSettings settings connectors ports).act (a := .start) hsound nofun
    errands := congrArg Backlog.errands hb
    unclaimed := unclaimed_iff.mpr fun q hq => by
      have hmode : ((ofSettings settings connectors ports).act .start).mode = {} :=
        congrArg Backlog.mode hb
      rw [hmode] at hq
      cases hq
    mute := hmute.act .start
    idle := fun {j} _ => by
      rw [← lane_backlog, hb]
      cases j <;> rfl
    aligned := fun j => aligned_start rfl (by cases j <;> exact ⟨nofun, nofun⟩)
    head := nofun }

variable {settings connectors ports} in
theorem rested_start [Probe ρ] (hmute : (ofSettings settings connectors ports).Mute) :
    ((ofSettings settings connectors ports).act .start).Rested := by
  refine ⟨tidy_start hmute, ?_⟩
  rw [backlog_start rfl]
  exact ⟨⟨rfl, rfl, rfl⟩, fun j => by cases j <;> rfl⟩

end Start

end Controller

end HotplugDetect
