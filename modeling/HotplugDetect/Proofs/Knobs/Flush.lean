import HotplugDetect.Proofs.Quiet.Moves
import HotplugDetect.Proofs.Reenabling

/-! # What the setting of a knob does

New storm settings come in force at once, and every count starts anew. As soon as the client of the
knob owns the run lock of the re-enable job, it takes an armed recovery over and recovers itself,
just as the worker would have done.
-/

namespace HotplugDetect

variable {ρ : Type}

/-- What a run of the recovery changes, apart from the messages. -/
structure Outcome (ρ : Type) where
  /-- The state of a pin, and whether a storm disabled it. -/
  phases : Pin → PinState × Bool
  connectors : ConnectorList ρ
  /-- The calls so far, last one first. -/
  calls : List Call

namespace Outcome

def pinsIn (o : Outcome ρ) (state : PinState) : PinSet :=
  Mask.ofList (Pin.all.filter fun p => (o.phases p).1 = state)

def setup (o : Outcome ρ) : Call :=
  .irqSetup (o.pinsIn .enabled) (o.pinsIn .disabled) (o.pinsIn .autoDisabled)

/-- The pins are enabled and their connectors go back to their own way. -/
def freed (o : Outcome ρ) (pins : List Pin) : Outcome ρ :=
  { o with
    phases := fun p => if p ∈ pins then (.enabled, false) else o.phases p
    connectors := o.connectors.map (·.returned (· ∈ pins)) }

def recovered (o : Outcome ρ) (pins : List Pin) (irqsEnabled : Bool) : Outcome ρ :=
  { o.freed pins with
    calls := (if pins ≠ [] ∧ irqsEnabled then [(o.freed pins).setup] else []) ++ o.calls }

end Outcome

namespace Controller

def outcome (s : Controller ρ) : Outcome ρ where
  phases p := ((s.table.get p).state, (s.table.get p).mitigated)
  connectors := s.connectors
  calls := s.calls

/-- Two states that the recovery does not tell apart. -/
structure Alike (s t : Controller ρ) : Prop where

  outcome : t.outcome = s.outcome

  caps : t.caps = s.caps

  reenableDigital : t.reenableDigital = s.reenableDigital

  digitalPorts : t.digitalPorts = s.digitalPorts

  irqsEnabled : t.irqsEnabled = s.irqsEnabled

section Recovery

variable {s t u : Controller ρ}

theorem Alike.refl (s : Controller ρ) : s.Alike s := ⟨rfl, rfl, rfl, rfl, rfl⟩

theorem Alike.trans (h : s.Alike t) (h' : t.Alike u) : s.Alike u where
  outcome := h'.outcome.trans h.outcome
  caps := h'.caps.trans h.caps
  reenableDigital := h'.reenableDigital.trans h.reenableDigital
  digitalPorts := h'.digitalPorts.trans h.digitalPorts
  irqsEnabled := h'.irqsEnabled.trans h.irqsEnabled

theorem pinsIn_outcome (s : Controller ρ) (state : PinState) :
    s.outcome.pinsIn state = s.table.pinsIn state := rfl

theorem Alike.recoverable (h : s.Alike t) : t.recoverable = s.recoverable := by
  have hdisabled : t.table.pinsIn .disabled = s.table.pinsIn .disabled := by
    rw [← pinsIn_outcome, ← pinsIn_outcome, h.outcome]
  have hmitigated (p : Pin) : (t.table.get p).mitigated = (s.table.get p).mitigated :=
    congrArg (fun o => (o.phases p).2) h.outcome
  have heligible (p : Pin) : t.eligible p = s.eligible p := by
    simp only [eligible, digitalPortForPin, portForPin, h.caps, h.reenableDigital, h.digitalPorts]
  simp only [Controller.recoverable, hdisabled, hmitigated, heligible]

theorem calls_reenablingNotes (s : Controller ρ) (pins : List Pin) (trace : List Event) :
    ({ s with trace := (s.reenablingNotes pins).reverse ++ trace } : Controller ρ).calls =
      ({ s with trace } : Controller ρ).calls := by
  have hnotes : ∀ e ∈ s.reenablingNotes pins, ∃ m, e = .note m := by
    intro e he
    obtain ⟨p, -, hp⟩ := List.mem_flatMap.mp he
    obtain ⟨c, -, rfl⟩ := List.mem_map.mp hp
    exact ⟨_, rfl⟩
  unfold calls
  rw [List.filterMap_append, List.filterMap_eq_nil_iff.mpr, List.nil_append]
  intro e he
  obtain ⟨m, rfl⟩ := hnotes e (List.mem_reverse.mp he)
  rfl

theorem outcome_reenablePass (s : Controller ρ) :
    s.reenablePass.outcome = s.outcome.recovered s.recoverable s.irqsEnabled := by
  rw [reenablePass_closed]
  by_cases hnone : s.recoverable = []
  · simp [hnone, Outcome.recovered, Outcome.freed, Connector.returned]
  rw [if_neg hnone]
  generalize hu : ({ s with
    table := s.recoverable.foldl PinTable.enable s.table
    connectors := s.connectors.map (·.returned (· ∈ s.recoverable))
    trace := .note (.reenabled (.ofList s.recoverable)) ::
      ((s.reenablingNotes s.recoverable).reverse ++ s.trace) } : Controller ρ) = u
  have hfreed : u.outcome = s.outcome.freed s.recoverable := by
    subst hu
    have hcalls := s.calls_reenablingNotes s.recoverable s.trace
    simp only [outcome, Outcome.freed, PinTable.get_foldl_enable]
    congr 1
    funext p
    split <;> rfl
  have hirqs : u.irqsEnabled = s.irqsEnabled := by rw [← hu]
  have hsetup : u.setupIrqs.outcome =
      { u.outcome with calls := (if u.irqsEnabled then [u.outcome.setup] else []) ++ u.calls } := by
    unfold setupIrqs
    split <;> rfl
  rw [hsetup, hirqs, hfreed, Outcome.recovered]
  simp only [ne_eq, hnone, not_false_eq_true, true_and]
  exact congrArg _ (congrArg _ (congrArg Outcome.calls hfreed))

theorem Alike.outcome_reenablePass (h : s.Alike t) :
    t.reenablePass.outcome = s.reenablePass.outcome := by
  rw [Controller.outcome_reenablePass, Controller.outcome_reenablePass, h.recoverable, h.outcome,
    h.irqsEnabled]

/-- The pin table, the poll modes and the calls are the same. -/
structure Shows (s t : Controller ρ) : Prop where

  table : t.table = s.table

  alike : s.Alike t

theorem Shows.refl (s : Controller ρ) : s.Shows s := ⟨rfl, .refl s⟩

theorem Shows.trans (h : s.Shows t) (h' : t.Shows u) : s.Shows u :=
  ⟨h'.table.trans h.table, h.alike.trans h'.alike⟩

theorem shows_work (s : Controller ρ) (reenable : DelayedWork Rest) (ready : List Job)
    (errands : List (Nat × Errand)) (now : Nat) :
    s.Shows { s with reenable, ready, errands, now } := ⟨rfl, rfl, rfl, rfl, rfl, rfl⟩

theorem reenablePass_frame (s : Controller ρ) :
    s.reenablePass = { s with
      table := s.recoverable.foldl PinTable.enable s.table
      connectors := s.reenablePass.connectors
      trace := s.reenablePass.trace } := by
  rw [reenablePass_closed]
  split
  · rename_i hnone
    rw [hnone]
    rfl
  · rw [setupIrqs_closed]

theorem Alike.reenablePass (h : s.Alike t) : s.reenablePass.Alike t.reenablePass := by
  have houtcome := h.outcome_reenablePass
  refine ⟨houtcome, ?_, ?_, ?_, ?_⟩ <;> rw [reenablePass_frame, reenablePass_frame s]
  · exact h.caps
  · exact h.reenableDigital
  · exact h.digitalPorts
  · exact h.irqsEnabled

theorem Shows.reenablePass (h : s.Shows t) : s.reenablePass.Shows t.reenablePass where
  table := by
    rw [reenablePass_frame, reenablePass_frame s]
    show t.recoverable.foldl PinTable.enable t.table = s.recoverable.foldl PinTable.enable s.table
    rw [h.alike.recoverable, h.table]
  alike := h.alike.reenablePass

/-- The state after a run that the worker makes because the deadline is now and the run lock is its
own. -/
def timerRun [Probe ρ] (s : Controller ρ) : Controller ρ :=
  ({ s with reenable :=
      { worker := some .claiming, run := ⟨some .worker, []⟩, deadline := some s.now } } :
    Controller ρ).act (.move .reenable true)

theorem outcome_timerRun [Probe ρ] (s : Controller ρ) :
    s.timerRun.outcome = s.reenablePass.outcome := by
  have hseek : ({ worker := some .claiming, run := ⟨some .worker, []⟩, deadline := some s.now } :
      DelayedWork Rest).seek s.now true =
        ({ worker := some .claiming, run := ⟨some .worker, []⟩ }, .claimed) := by
    simp [DelayedWork.seek, DelayedWork.claim, DelayedWork.due, Lock.heldBy]
  have hrun (u : Controller ρ) : (u.finishRun .reenable).outcome = u.outcome := rfl
  show (moveReenable _ true).outcome = _
  unfold moveReenable
  simp only [hseek]
  rw [hrun]
  exact Alike.outcome_reenablePass ⟨rfl, rfl, rfl, rfl, rfl⟩

def takeOver (s : Controller ρ) : Controller ρ := if s.reenable.armed then s.reenablePass else s

theorem takeOver_frame (s : Controller ρ) :
    s.takeOver = { s with
      table := s.takeOver.table
      connectors := s.takeOver.connectors
      trace := s.takeOver.trace } := by
  unfold takeOver
  split
  · rw [reenablePass_frame]
  · rfl

theorem watch_takeOver (s : Controller ρ) :
    s.takeOver.watch = if s.reenable.armed then s.watch.recovered else s.watch := by
  unfold takeOver
  split
  · exact s.watch_reenablePass
  · rfl

theorem config_takeOver (s : Controller ρ) : s.takeOver.table.config = s.table.config := by
  have hconfig := congrArg Watch.config s.watch_takeOver
  split at hconfig <;> exact hconfig

theorem stats_takeOver (s : Controller ρ) (p : Pin) :
    (s.takeOver.table.get p).count = (s.table.get p).count ∧
      (s.takeOver.table.get p).windowStart = (s.table.get p).windowStart := by
  have hstats : s.takeOver.table.get p = s.takeOver.watch.stats p := rfl
  rw [hstats, watch_takeOver]
  split
  · rcases s.watch.stats_recovered p with ⟨-, heq⟩ | ⟨-, heq⟩ <;> rw [heq] <;> exact ⟨rfl, rfl⟩
  · exact ⟨rfl, rfl⟩

theorem reenablePass_withReenable (s : Controller ρ) (reenable : DelayedWork Rest)
    (ready : List Job) :
    ({ s with reenable, ready } : Controller ρ).reenablePass =
      { s.reenablePass with reenable, ready } := by
  have hsame : ({ s with reenable, ready } : Controller ρ).recoverable = s.recoverable := rfl
  rw [reenablePass_closed, reenablePass_closed s, hsame]
  split
  · rfl
  · rw [setupIrqs_closed, setupIrqs_closed]
    rfl

/-- Taking the recovery over disarms it, and it runs if it was armed. -/
theorem recoverNow_eq (s : Controller ρ) :
    ∃ reenable ready, reenable.deadline = none ∧
      s.recoverNow = { s.takeOver with reenable, ready } := by
  obtain ⟨ready, hdisarmed⟩ :=
    ({ s with reenable := s.reenable.disarm } : Controller ρ).rouse_eq .reenable
  have htaken : (if s.reenable.armed then (s.disarm .reenable).reenablePass
      else s.disarm .reenable) =
      { s.takeOver with reenable := s.reenable.disarm, ready } := by
    rw [disarm, hdisarmed, takeOver]
    split
    · exact s.reenablePass_withReenable _ _
    · rfl
  unfold recoverNow
  simp only [htaken, releaseRun]
  obtain ⟨ready', hroused⟩ := (({ s.takeOver with reenable := s.reenable.disarm, ready } :
    Controller ρ).withLane .reenable fun l => { l with run := l.run.release }).rouse_eq .reenable
  exact ⟨_, ready', rfl, hroused⟩

end Recovery

section Knobs

/-- What is left when a client's take-over of the recovery is through, which found the state `s`:
the settings and the counts as given, the recovery disarmed, and what a run of the worker would have
changed, if it was armed. -/
structure Applied [Probe ρ] (s : Controller ρ) (client : Nat) (config : StormConfig)
    (counts : Pin → UInt32) (t : Controller ρ) : Prop where

  returned : t.errand? client = none

  disarmed : t.reenable.armed = false

  config : t.table.config = config

  counts (p : Pin) : (t.table.get p).count = counts p

  windows (p : Pin) : (t.table.get p).windowStart = (s.table.get p).windowStart

  outcome : t.outcome = if s.reenable.armed then s.timerRun.outcome else s.outcome

/-- The client did that in one step and touched nothing else. -/
structure AppliedAlone [Probe ρ] (s : Controller ρ) (client : Nat) (config : StormConfig)
    (counts : Pin → UInt32) (t : Controller ρ) : Prop extends s.Applied client config counts t where

  rest : t = { s with
    table := t.table
    connectors := t.connectors
    trace := t.trace
    reenable := t.reenable
    ready := t.ready
    errands := s.errands.filter (·.1 != client) }

theorem applied_recoverNow [Probe ρ] {s u : Controller ρ} {client : Nat} (h : s.Alike u)
    (harmed : u.reenable.armed = s.reenable.armed)
    (hwindows : ∀ p, (u.table.get p).windowStart = (s.table.get p).windowStart)
    (hrest : u = { s with
      table := u.table
      trace := u.trace
      reenable := u.reenable
      errands := s.errands.filter (·.1 != client) }) :
    s.AppliedAlone client u.table.config (fun p => (u.table.get p).count) u.recoverNow := by
  obtain ⟨reenable, ready, hnone, hnow⟩ := u.recoverNow_eq
  have herrands : u.takeOver.errands = s.errands.filter (·.1 != client) := by
    rw [takeOver_frame, hrest]
  rw [hnow]
  refine ⟨⟨?_, ?_, u.config_takeOver, fun p => (u.stats_takeOver p).1,
    fun p => (u.stats_takeOver p).2.trans (hwindows p), ?_⟩, ?_⟩
  · show u.takeOver.errands.lookup client = none
    rw [herrands]
    exact lookup_filter_self s.errands client
  · show reenable.deadline.isSome = false
    rw [hnone]
    rfl
  · show u.takeOver.outcome = _
    rw [takeOver, harmed]
    split
    · rw [outcome_timerRun]
      exact h.outcome_reenablePass
    · exact h.outcome
  · rw [takeOver_frame, hrest]

/-- What is left when a client has set a knob in the state `s` and has to wait for the run lock: the
new settings, no counts, and the recovery as it was. -/
structure Awaits (s : Controller ρ) (client : Nat) (config : StormConfig) (t : Controller ρ) :
    Prop where

  errand : t.errand? client = some .flush

  config : t.table.config = config

  counts (p : Pin) : (t.table.get p).count = 0

  windows (p : Pin) : (t.table.get p).windowStart = (s.table.get p).windowStart

  outcome : t.outcome = s.outcome

  rest : t = { s with
    table := t.table
    trace := t.trace
    reenable := { s.reenable with run := t.reenable.run }
    errands := s.errands ++ [(client, .flush)] }

variable {s : Controller ρ} {client : Nat} {config : StormConfig}

theorem filter_errands (h : s.errand? client = none) :
    s.errands.filter (·.1 != client) = s.errands := by
  rw [List.filter_eq_self]
  intro x hx
  rw [bne_iff_ne]
  rintro rfl
  exact not_mem_of_fresh h (List.mem_map_of_mem hx)

def configuring (s : Controller ρ) (client : Nat) (config : StormConfig) (m : Message) :
    Controller ρ :=
  ({ s.note m with table := { s.table with config }.clearCounts } : Controller ρ).requestRun
    .reenable client

theorem alike_configuring (s : Controller ρ) (client : Nat) (config : StormConfig) (m : Message) :
    s.Alike (s.configuring client config m) := by
  refine ⟨?_, rfl, rfl, rfl, rfl⟩
  have hphases : (s.configuring client config m).outcome.phases = s.outcome.phases := by
    funext p
    have hget : (s.configuring client config m).table.get p = { s.table.get p with count := 0 } :=
      PinTable.get_clearCounts _ p
    simp only [outcome, hget]
  exact congrArg (fun phases => { s.outcome with phases }) hphases

/-- A knob that finds the run lock free has recovered when it returns, which it does at once. -/
theorem applied_configure [Probe ρ] (h : s.errand? client = none)
    (hfree : s.reenable.run.holder = none) (m : Message) :
    s.AppliedAlone client config (fun _ => 0) ((s.note m).configure client config) := by
  have hget (p : Pin) : (s.configuring client config m).table.get p =
      { s.table.get p with count := 0 } := PinTable.get_clearCounts _ p
  have hgranted : (s.configuring client config m).holdsRun .reenable client = true :=
    Lock.heldBy_request_of_free _ _ hfree
  have hact : (s.note m).configure client config = (s.configuring client config m).recoverNow :=
    if_pos hgranted
  have happlied : s.AppliedAlone client _ _ _ :=
    applied_recoverNow (s.alike_configuring client config m) rfl (fun p => by rw [hget])
      (by rw [filter_errands h]; rfl)
  simp only [hget] at happlied
  rw [hact]
  exact happlied

/-- A knob that finds the run lock taken puts its settings in force and waits. -/
theorem awaits_configure (h : s.errand? client = none)
    (htaken : (s.requestRun .reenable client).holdsRun .reenable client = false) (m : Message) :
    s.Awaits client config ((s.note m).configure client config) := by
  have hact : (s.note m).configure client config =
      (s.configuring client config m).withErrand client .flush :=
    if_neg (by rw [Bool.not_eq_true]; exact htaken)
  have hget (p : Pin) : (s.configuring client config m).table.get p =
      { s.table.get p with count := 0 } := PinTable.get_clearCounts _ p
  rw [hact]
  refine ⟨?_, rfl, fun p => ?_, fun p => ?_, (s.alike_configuring client config m).outcome, rfl⟩
  · show (s.errands ++ [(client, Errand.flush)]).lookup client = some .flush
    rw [List.lookup_append, show s.errands.lookup client = none from h]
    simp
  · show ((s.configuring client config m).table.get p).count = 0
    rw [hget]
  · show ((s.configuring client config m).table.get p).windowStart = _
    rw [hget]

theorem applied_resume [Probe ρ] (h : s.errand? client = some .flush)
    (hheld : s.holdsRun .reenable client = true) :
    s.AppliedAlone client s.table.config (fun p => (s.table.get p).count)
      (s.act (.resume client)) := by
  have hact : s.act (.resume client) = (s.withoutErrand client).recoverNow := by
    show s.resume client = _
    simp only [resume, h, hheld, if_true]
  rw [hact]
  exact applied_recoverNow (u := s.withoutErrand client) ⟨rfl, rfl, rfl, rfl, rfl⟩ rfl
    (fun _ => rfl) rfl

end Knobs

end Controller

end HotplugDetect
