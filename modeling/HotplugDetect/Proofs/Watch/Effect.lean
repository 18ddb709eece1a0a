import HotplugDetect.Proofs.Watch.Passes
import HotplugDetect.Proofs.Work.Delayed

/-! # What an action does to the view

Every action has one of a few effects on how the outputs are watched, whatever the locks, the
places in line and the notifications are. Invariants of the view are proved by cases on the effect.
-/

namespace HotplugDetect

variable {ρ : Type}

namespace Watch

def reset (w : Watch) : Watch :=
  { w with
    stats := fun p => { w.stats p with count := 0, state := .enabled, mitigated := false }
    forced := false }

def disabled (w : Watch) (p : Pin) : Watch :=
  { w with
    stats := fun q =>
      if q = p ∧ (w.stats p).state = .enabled then { w.stats p with state := .disabled }
      else w.stats q }

def enabled (w : Watch) (p : Pin) : Watch :=
  { w with stats := fun q => if q = p then (w.stats p).freed else w.stats q }

theorem stats_disabled (w : Watch) (q p : Pin) :
    (w.disabled q).stats p = w.stats p ∨
      p = q ∧ (w.stats p).state = .enabled ∧
        (w.disabled q).stats p = { w.stats p with state := .disabled } := by
  by_cases h : p = q ∧ (w.stats q).state = .enabled
  · obtain ⟨rfl, hs⟩ := h
    exact .inr ⟨rfl, hs, if_pos ⟨rfl, hs⟩⟩
  · exact .inl (if_neg h)

theorem stats_enabled (w : Watch) (q p : Pin) :
    (w.enabled q).stats p = w.stats p ∨ p = q ∧ (w.enabled q).stats p = (w.stats p).freed := by
  by_cases h : p = q
  · subst h
    exact .inr ⟨rfl, if_pos rfl⟩
  · exact .inl (if_neg h)

def configured (w : Watch) (config : StormConfig) : Watch :=
  { w with stats := fun p => { w.stats p with count := 0 }, config }

/-- The recovery, a poll-init run in flight, or both are dropped. -/
def dropping (w : Watch) (recovery run : Bool) : Watch :=
  { w with
    deadline := if recovery then none else w.deadline
    glimpse := if run then none else w.glimpse }

theorem dropping_dropping (w : Watch) (a b c d : Bool) :
    (w.dropping a b).dropping c d = w.dropping (a || c) (b || d) := by
  cases a <;> cases b <;> cases c <;> cases d <;> rfl

end Watch

/-- Actions that change the view only by the interrupts that arrive in their course. -/
def Action.passive : Action → Bool
  | .init | .forcePolling _ | .disable _ | .enable _ | .advance _ => false
  | _ => true

def Action.drops : Action → Bool
  | .cancelAll _ | .shutdown _ | .resume _ => true
  | _ => false

namespace Controller

/-- The interrupts that are handled in the course of an action, in their order. -/
def interruptsOf [Probe ρ] (s : Controller ρ) : Action → List Interrupt
  | .interrupt i => [i]
  | .raw pinMask longMask => [⟨.ofBits pinMask, .ofBits longMask⟩]
  | .move .digital _ =>
    match s.digital.rest?.bind (·.pulses) with
    | some (long, short) => raisedBy (s.pulsesFor long short Port.all)
    | none => []
  | .move .generic _ =>
    match s.generic.rest? with
    | some rest => if s.mode.heldBy .generic then raisedOn rest.pins s.connectors else []
    | none => []
  | _ => []

/-- The pins that were disabled when the poll-init run that ends in an action read them. -/
def endedReading (s : Controller ρ) : Action → Option PinSet
  | .move .pollInit _ =>
    if s.mode.heldBy .pollInit then s.pollInit.rest?.map (·.pins) else none
  | _ => none

/-- The client that sets a knob, unless it is busy, and the storm settings that come in force. -/
def knob? (s : Controller ρ) : Action → Option (Nat × StormConfig)
  | .setThreshold client k =>
    if (s.errand? client).isSome then none
    else
      let threshold := match k with
        | .reset => defaultThreshold
        | .set n => n
      some (client, { s.table.config with threshold })
  | .setShortStorms client k =>
    if (s.errand? client).isSome then none
    else
      let shortStorms := match k with
        | .reset => s.caps.countsShortStorms
        | .set on => on
      some (client, { s.table.config with shortStorms })
  | _ => none

/-- The actions in which a re-enable pass runs: by the timer, or right after a knob was set. A knob
flushes an armed recovery as soon as no run of the re-enable job is in flight. -/
inductive RecoveryPass (s : Controller ρ) : Action → Prop where

  | timer {timerFirst : Bool} : (s.reenable.seek s.now timerFirst).2 = .claimed →
      RecoveryPass s (.move .reenable timerFirst)

  | knob {a : Action} {client : Nat} {config : StormConfig} : s.knob? a = some (client, config) →
      (s.requestRun .reenable client).holdsRun .reenable client = true →
      s.reenable.armed = true → RecoveryPass s a

  | resume {client : Nat} : s.errand? client = some .flush →
      s.holdsRun .reenable client = true → s.reenable.armed = true →
      RecoveryPass s (.resume client)

/-- The view after an action. -/
inductive Effect [Probe ρ] (s : Controller ρ) : Action → Watch → Prop where

  | interrupts {a : Action} : a.passive = true →
      Effect s a ((s.interruptsOf a).foldl Watch.interrupted s.watch)

  | init : Effect s .init s.watch.reset

  | forcePolling (on : Bool) : Effect s (.forcePolling on) { s.watch with forced := on }

  | disable (p : Pin) : Effect s (.disable p) (s.watch.disabled p)

  | enable (p : Pin) : Effect s (.enable p) (s.watch.enabled p)

  | advance (instant : Nat) :
      Effect s (.advance instant) { s.watch with now := max s.watch.now instant }

  | mitigation {timerFirst : Bool} : s.generic.seek.2 = .claimed →
      Effect s (.move .generic timerFirst) s.watch.mitigated

  | glimpse {timerFirst : Bool} : s.pollInit.seek.2 = .claimed →
      Effect s (.move .pollInit timerFirst)
        { s.watch with glimpse := some (s.watch.pinsIn .disabled) }

  | reinitialization {timerFirst : Bool} {disabled : PinSet} :
      s.endedReading (.move .pollInit timerFirst) = some disabled →
      Effect s (.move .pollInit timerFirst) (s.watch.reinitialized disabled)

  | recovery {timerFirst : Bool} {deadline : Nat} : s.RecoveryPass (.move .reenable timerFirst) →
      s.watch.deadline = some deadline → deadline ≤ s.watch.now →
      Effect s (.move .reenable timerFirst) (s.watch.dropping true false).recovered

  | configuration {a : Action} {client : Nat} {config : StormConfig} :
      s.knob? a = some (client, config) → Effect s a (s.watch.configured config)

  | knob {a : Action} {client : Nat} {config : StormConfig} :
      s.knob? a = some (client, config) → s.RecoveryPass a →
      Effect s a ((s.watch.configured config).dropping true false).recovered

  | flush {client : Nat} : s.RecoveryPass (.resume client) →
      Effect s (.resume client) (s.watch.dropping true false).recovered

  | cancellation {a : Action} (recovery run : Bool) : a.drops = true →
      Effect s a (s.watch.dropping recovery run)

section Moves

theorem watch_withLane_of_ne (s : Controller ρ) {j : Job} (h : j ≠ .pollInit)
    (f : Lane Rest → Lane Rest) : (s.withLane j f).watch = s.watch := by
  rw [watch_withLane, if_neg h]

theorem watch_beginRun (s : Controller ρ) {j : Job} (h : j ≠ .pollInit) (rest : Rest) :
    (s.beginRun j rest).watch = s.watch :=
  s.watch_withLane_of_ne h _

theorem watch_finishRun (s : Controller ρ) {j : Job} (h : j ≠ .pollInit) :
    (s.finishRun j).watch = s.watch :=
  s.watch_withLane_of_ne h _

theorem watch_fallBack (s : Controller ρ) (refused : PinSet) :
    (s.fallBack refused).watch = s.watch := by
  rw [silent_watch.fallBack]
  split <;> rfl

theorem effect_moveDigital [Probe ρ] (s : Controller ρ) (timerFirst : Bool) :
    s.Effect (.move .digital timerFirst) s.moveDigital.watch := by
  have he := Effect.interrupts (s := s) (a := .move .digital timerFirst) rfl
  unfold moveDigital
  split
  · rename_i rest h
    rw [interruptsOf, Lane.rest?_eq_some_iff.mpr h, Option.bind_some] at he
    split
    · rename_i hpulses
      rw [hpulses] at he
      simp only
      rwa [watch_beginRun _ (by decide), watch_deliver]
    · rename_i hpulses
      rw [hpulses] at he
      rwa [watch_finishRun _ (by decide), watch_fallBack]
  · rename_i h
    rw [interruptsOf, Lane.rest?_of_not_running h] at he
    split
    · exact he
    · simp only
      rw [watch_beginRun _ (by decide)]
      exact he

theorem effect_moveGeneric [Probe ρ] (s : Controller ρ) (timerFirst : Bool) :
    s.Effect (.move .generic timerFirst) s.moveGeneric.watch := by
  unfold moveGeneric
  split
  · rename_i rest h
    have hrest : s.generic.rest? = some rest := Lane.rest?_eq_some_iff.mpr h
    have hi : s.interruptsOf (.move .generic timerFirst) =
        if s.mode.heldBy .generic then raisedOn rest.pins s.connectors else [] := by
      rw [interruptsOf, hrest]
    have he := Effect.interrupts (s := s) (a := .move .generic timerFirst) rfl
    rw [hi] at he
    split
    · rename_i hm
      rw [watch_finishRun _ (by decide), watch_probePass]
      rwa [if_pos hm] at he
    · rename_i hm
      rwa [if_neg hm] at he
  · rename_i h
    have hrest : s.generic.rest? = none := Lane.rest?_of_not_running h
    split
    · have he := Effect.interrupts (s := s) (a := .move .generic timerFirst) rfl
      rw [interruptsOf, hrest] at he
      exact he
    · rename_i hs
      simp only
      rw [watch_requestMode, watch_beginRun _ (by decide), watch_takeEvents]
      split
      · have he := Effect.interrupts (s := s) (a := .move .generic timerFirst) rfl
        rw [interruptsOf, hrest] at he
        exact he
      · exact .mitigation (by rw [hs])

theorem watch_claim_generic [Probe ρ] {s : Controller ρ} (h : s.generic.seek.2 = .claimed)
    (timerFirst : Bool) :
    (s.act (.move .generic timerFirst)).watch =
      if (s.watch.pinsIn .autoDisabled).isEmpty then s.watch else s.watch.mitigated := by
  show s.moveGeneric.watch = _
  unfold moveGeneric
  split
  · rename_i pins hw
    rw [Work.seek, hw] at h
    cases h
  · split
    · rename_i w hs
      rw [hs] at h
      cases h
    · simp only
      rw [watch_requestMode, watch_beginRun _ (by decide), watch_takeEvents]
      rfl

theorem watch_movePollInit {s : Controller ρ} {timerFirst : Bool} {disabled : PinSet}
    (h : s.endedReading (.move .pollInit timerFirst) = some disabled) :
    s.movePollInit.watch = s.watch.reinitialized disabled := by
  simp only [endedReading] at h
  split at h
  · rename_i hm
    obtain ⟨rest, hrest, rfl⟩ := Option.map_eq_some_iff.mp h
    have hw : s.pollInit.worker = some (.running rest) := Lane.rest?_eq_some_iff.mp hrest
    unfold movePollInit
    rw [hw]
    simp only
    rw [if_pos hm, finishRun, watch_withLane, watch_pollInitPass]
    rfl
  · cases h

theorem effect_movePollInit [Probe ρ] (s : Controller ρ) (timerFirst : Bool) :
    s.Effect (.move .pollInit timerFirst) s.movePollInit.watch := by
  have hidle : s.Effect (.move .pollInit timerFirst) s.watch := .interrupts rfl
  cases he : s.endedReading (.move .pollInit timerFirst) with
  | some disabled =>
    rw [watch_movePollInit he]
    exact .reinitialization he
  | none =>
    unfold movePollInit
    split
    · rename_i disabled h
      split
      · rename_i hm
        rw [endedReading, if_pos hm, Lane.rest?, h] at he
        cases he
      · exact hidle
    · rename_i h
      split
      · rename_i w hs
        have hw : w.rest? = s.pollInit.rest? := Work.rest?_of_seek hs
        have h : ({ s with pollInit := w } : Controller ρ).watch = s.watch := by
          simp only [watch, hw]
          rfl
        rwa [h]
      · rename_i hs
        rw [watch_requestMode, beginRun, watch_withLane]
        exact .glimpse (by rw [hs])

theorem watch_claim_reenable {s : Controller ρ} {timerFirst : Bool}
    (h : (s.reenable.seek s.now timerFirst).2 = .claimed) :
    (s.moveReenable timerFirst).watch = (s.watch.dropping true false).recovered := by
  unfold moveReenable
  split
  · rename_i w hs
    rw [hs] at h
    cases h
  · rename_i w hs
    obtain ⟨-, -, rfl⟩ := DelayedWork.seek_claimed hs
    rw [watch_finishRun _ (by decide), watch_reenablePass, watch_beginRun _ (by decide)]
    rfl

theorem effect_moveReenable [Probe ρ] (s : Controller ρ) (timerFirst : Bool) :
    s.Effect (.move .reenable timerFirst) (s.moveReenable timerFirst).watch := by
  cases hs : s.reenable.seek s.now timerFirst with
  | mk w found =>
  cases found with
  | looking =>
    have h : ({ s with reenable := w } : Controller ρ).watch = s.watch := by
      simp only [watch, DelayedWork.deadline_seek hs]
      rfl
    unfold moveReenable
    rw [hs, h]
    exact .interrupts rfl
  | claimed =>
    obtain ⟨-, hdue, -⟩ := DelayedWork.seek_claimed hs
    obtain ⟨d, hd, hle⟩ := (s.reenable.due_iff s.now).mp hdue
    have hclaimed : (s.reenable.seek s.now timerFirst).2 = .claimed := by rw [hs]
    rw [watch_claim_reenable hclaimed]
    exact .recovery (.timer hclaimed) hd hle

theorem effect_move [Probe ρ] (s : Controller ρ) (j : Job) (timerFirst : Bool) :
    s.Effect (.move j timerFirst) (s.move j timerFirst).watch := by
  cases j with
  | digital => exact s.effect_moveDigital timerFirst
  | generic => exact s.effect_moveGeneric timerFirst
  | pollInit => exact s.effect_movePollInit timerFirst
  | reenable => exact s.effect_moveReenable timerFirst

end Moves

section Errands

theorem watch_disarm (s : Controller ρ) (j : Job) :
    (s.disarm j).watch = s.watch.dropping (j = .reenable) false := by
  cases j with
  | digital => rfl
  | generic => rfl
  | pollInit => rfl
  | reenable =>
    rw [disarm, plain_watch.rouse]
    rfl

theorem watch_stopWorkers (s : Controller ρ) :
    s.stopWorkers.watch = s.watch.dropping false true := by
  have hstop (s : Controller ρ) {j : Job} (h : j ≠ .pollInit) :
      (s.withLane j Lane.stop).watch = s.watch := s.watch_withLane_of_ne h _
  have hlanes : (Job.all.foldl (fun s j => s.withLane j Lane.stop) s).watch =
      s.watch.dropping false true := by
    simp only [Job.all, List.foldl_cons, List.foldl_nil]
    rw [hstop _ (show Job.reenable ≠ .pollInit by decide), watch_withLane, Lane.rest?_stop,
      hstop _ (show Job.generic ≠ .pollInit by decide),
      hstop _ (show Job.digital ≠ .pollInit by decide)]
    rfl
  exact hlanes

theorem watch_stopAll (s : Controller ρ) (client : Nat) :
    ∃ run, (s.stopAll client).watch = s.watch.dropping false run := by
  unfold stopAll
  simp only
  split
  · exact ⟨false, s.watch_requestRun .digital client⟩
  · exact ⟨true, s.watch_stopWorkers⟩

theorem watch_cancelJobs (client : Nat) (stop : Bool) (js : List Job) (s : Controller ρ) :
    ∃ recovery run, (s.cancelJobs client stop js).watch = s.watch.dropping recovery run := by
  induction js generalizing s with
  | nil =>
    unfold cancelJobs
    split
    · exact ⟨false, s.watch_stopAll client⟩
    · exact ⟨false, false, rfl⟩
  | cons j js ih =>
    have hw : ((s.disarm j).requestRun j client).watch =
        s.watch.dropping (j = .reenable) false := by
      rw [watch_requestRun, watch_disarm]
    unfold cancelJobs
    simp only
    split
    · obtain ⟨recovery, run, h⟩ := ih (((s.disarm j).requestRun j client).releaseRun j)
      rw [watch_releaseRun, hw, Watch.dropping_dropping] at h
      exact ⟨_, _, h⟩
    · exact ⟨_, _, hw⟩

theorem watch_recoverNow (s : Controller ρ) :
    s.recoverNow.watch =
      if s.reenable.armed then (s.watch.dropping true false).recovered else s.watch := by
  unfold recoverNow
  simp only
  rw [watch_releaseRun]
  split
  · rw [watch_reenablePass, watch_disarm]
    rfl
  · rename_i h
    have hd : s.reenable.deadline = none := by simpa [DelayedWork.armed] using h
    rw [watch_disarm]
    simp only [Watch.dropping, watch, hd]
    rfl

theorem watch_flush (s : Controller ρ) (client : Nat) :
    (s.flush client).watch =
      if (s.requestRun .reenable client).holdsRun .reenable client = true ∧
          s.reenable.armed = true then
        (s.watch.dropping true false).recovered
      else s.watch := by
  unfold flush
  simp only
  split
  · rename_i hr
    rw [watch_recoverNow, watch_requestRun]
    exact if_congr ⟨fun ha => ⟨hr, ha⟩, And.right⟩ rfl rfl
  · rename_i hr
    rw [watch_withErrand, watch_requestRun, if_neg fun h => hr h.1]

theorem watch_configure (s : Controller ρ) (client : Nat) (config : StormConfig) :
    (s.configure client config).watch =
      if (s.requestRun .reenable client).holdsRun .reenable client = true ∧
          s.reenable.armed = true then
        ((s.watch.configured config).dropping true false).recovered
      else s.watch.configured config := by
  have h : ({ s with table := { s.table with config }.clearCounts } : Controller ρ).watch =
      s.watch.configured config := by
    rw [watch_withTable]
    simp only [Watch.configured]
    congr 1
    funext p
    exact PinTable.get_clearCounts _ p
  rw [← h]
  exact watch_flush _ client

theorem effect_configure [Probe ρ] (s : Controller ρ) {a : Action} {client : Nat}
    {config : StormConfig} (h : s.knob? a = some (client, config)) (m : Message) :
    s.Effect a ((s.note m).configure client config).watch := by
  rw [watch_configure, silent_watch.note]
  split
  · rename_i hr
    exact .knob h (.knob h hr.1 hr.2)
  · exact .configuration h

theorem effect_setThreshold [Probe ρ] (s : Controller ρ) (client : Nat) (k : ThresholdKnob) :
    s.Effect (.setThreshold client k) (s.setThreshold client k).watch := by
  unfold setThreshold
  split
  · exact .interrupts rfl
  · rename_i h
    refine s.effect_configure ?_ _
    unfold knob?
    exact if_neg h

theorem effect_setShortStorms [Probe ρ] (s : Controller ρ) (client : Nat) (k : ShortStormKnob) :
    s.Effect (.setShortStorms client k) (s.setShortStorms client k).watch := by
  unfold setShortStorms
  split
  · exact .interrupts rfl
  · rename_i h
    refine s.effect_configure ?_ _
    unfold knob?
    exact if_neg h

theorem effect_cancelAll [Probe ρ] (s : Controller ρ) (client : Nat) :
    s.Effect (.cancelAll client) (s.cancelAll client).watch := by
  unfold cancelAll
  split
  · exact .interrupts rfl
  · obtain ⟨recovery, run, h⟩ := watch_cancelJobs client false Job.all
      { s with longPorts := ∅, shortPorts := ∅, eventPins := ∅ }
    rw [h]
    exact .cancellation recovery run rfl

theorem effect_shutdown [Probe ρ] (s : Controller ρ) (client : Nat) :
    s.Effect (.shutdown client) (s.shutdown client).watch := by
  unfold shutdown
  split
  · exact .interrupts rfl
  · obtain ⟨recovery, run, h⟩ := watch_cancelJobs client true Job.all
      { s with longPorts := ∅, shortPorts := ∅, eventPins := ∅ }
    rw [h]
    exact .cancellation recovery run rfl

theorem effect_resume [Probe ρ] (s : Controller ρ) (client : Nat) :
    s.Effect (.resume client) (s.resume client).watch := by
  unfold resume
  split
  · rename_i j rest stop _
    split
    · obtain ⟨recovery, run, h⟩ := watch_cancelJobs client stop rest
        ((s.withoutErrand client).releaseRun j)
      rw [h, watch_releaseRun, watch_withoutErrand]
      exact .cancellation recovery run rfl
    · exact .interrupts rfl
  · rename_i he
    split
    · rename_i hr
      rw [watch_recoverNow]
      split
      · rename_i ha
        exact .flush (.resume he hr ha)
      · exact .interrupts rfl
    · exact .interrupts rfl
  · exact .interrupts rfl

theorem watch_abandon (s : Controller ρ) (client : Nat) : (s.abandon client).watch = s.watch := by
  unfold abandon
  split
  · rw [plain_watch.rouse]
    exact watch_withLane_of_rest? _ _ fun _ => rfl
  · rfl

theorem watch_start (s : Controller ρ) :
    ((s.start true).toOption.getD s).watch = s.watch := by
  have h (js : List Job) (s : Controller ρ) :
      (js.foldl (fun s j => (s.withLane j Lane.start).rouse j) s).watch = s.watch := by
    induction js generalizing s with
    | nil => rfl
    | cons j js ih =>
      rw [List.foldl_cons, ih, plain_watch.rouse, watch_withLane_of_rest? _ _ Lane.rest?_start]
  unfold start
  simp only [Bool.not_true, Bool.false_eq_true, if_false]
  split
  · rfl
  · exact h Job.all s

end Errands

section Pins

theorem watch_init (s : Controller ρ) : s.init.watch = s.watch.reset := by
  have h : ({ s with table := s.table.reset, pollForced := false } : Controller ρ).watch =
      s.watch.reset := by
    simp only [Watch.reset, watch]
    congr 1
    funext p
    exact PinTable.get_reset _ p
  rw [init, silent_watch.setupIrqs, watch_queuePollInit, h]

theorem watch_disable (s : Controller ρ) (p : Pin) :
    (s.disable p).1.watch = s.watch.disabled p := by
  simp only [disable, watch_withTable, PinTable.config_disable]
  congr 1
  funext q
  exact PinTable.get_disable _ p q

theorem watch_enable (s : Controller ρ) (p : Pin) : (s.enable p).watch = s.watch.enabled p := by
  simp only [enable, watch_withTable]
  congr 1
  funext q
  exact PinTable.get_enable _ p q

end Pins

/-- Every action has its effect. -/
theorem effect_act [Probe ρ] (s : Controller ρ) (a : Action) : s.Effect a (s.act a).watch := by
  cases a with
  | interrupt i =>
    rw [act, watch_interrupt]
    exact .interrupts (a := .interrupt i) rfl
  | raw pinMask longMask =>
    rw [act, watch_raw]
    exact .interrupts (a := .raw pinMask longMask) rfl
  | init =>
    rw [act, watch_init]
    exact .init
  | forcePolling on =>
    rw [act, forcePolling, watch_queuePollInit]
    exact .forcePolling on
  | setIrqs on => exact .interrupts rfl
  | disable p =>
    rw [act, watch_disable]
    exact .disable p
  | enable p =>
    rw [act, watch_enable]
    exact .enable p
  | setThreshold client k => exact s.effect_setThreshold client k
  | setShortStorms client k => exact s.effect_setShortStorms client k
  | cancelAll client => exact s.effect_cancelAll client
  | shutdown client => exact s.effect_shutdown client
  | resume client => exact s.effect_resume client
  | abandon client =>
    rw [act, watch_abandon]
    exact .interrupts rfl
  | start =>
    rw [act, watch_start]
    exact .interrupts rfl
  | hold party =>
    have h : (s.hold party).watch = s.watch := by
      unfold hold
      split <;> rfl
    rw [act, h]
    exact .interrupts rfl
  | release party =>
    have h : (s.release party).watch = s.watch := by
      unfold release
      split
      · exact plain_watch.releaseMode s
      · rfl
    rw [act, h]
    exact .interrupts rfl
  | move j timerFirst => exact s.effect_move j timerFirst
  | giveWay => exact .interrupts rfl
  | advance instant =>
    rw [act, advance, plain_watch.rouse]
    exact .advance instant

section Recovery

variable [Probe ρ] {s : Controller ρ} {a : Action}

theorem act_knob {client : Nat} {config : StormConfig} (h : s.knob? a = some (client, config)) :
    ∃ m, s.act a = (s.note m).configure client config := by
  cases a with
  | setThreshold client k =>
    simp only [knob?] at h
    split at h
    · cases h
    · rename_i hfree
      cases h
      exact ⟨_, if_neg hfree⟩
  | setShortStorms client k =>
    simp only [knob?] at h
    split at h
    · cases h
    · rename_i hfree
      cases h
      exact ⟨_, if_neg hfree⟩
  | _ => cases h

/-- A re-enable pass frees every pin that it covers. -/
theorem RecoveryPass.watch (h : s.RecoveryPass a) :
    ∃ w : Watch, (s.act a).watch = w.recovered ∧ w.eligible = s.eligible ∧
      w.connectors = s.watch.connectors ∧
        ∀ p, (w.stats p).state = s.table.state p ∧
          (w.stats p).mitigated = (s.table.get p).mitigated := by
  cases h with
  | timer hs =>
    exact ⟨s.watch.dropping true false, watch_claim_reenable hs, rfl, rfl, fun p => ⟨rfl, rfl⟩⟩
  | @knob _ client config hk hr ha =>
    obtain ⟨m, hact⟩ := act_knob hk
    refine ⟨(s.watch.configured config).dropping true false, ?_, rfl, rfl, fun p => ⟨rfl, rfl⟩⟩
    rw [hact, watch_configure, silent_watch.note]
    exact if_pos ⟨hr, ha⟩
  | @resume client he hr ha =>
    refine ⟨s.watch.dropping true false, ?_, rfl, rfl, fun p => ⟨rfl, rfl⟩⟩
    simp only [act, Controller.resume]
    rw [he]
    simp only
    rw [if_pos hr, watch_recoverNow]
    exact if_pos ha

end Recovery

theorem fixed_foldl_interrupted (is : List Interrupt) (w : Watch) :
    ∃ stats, is.foldl Watch.interrupted w = { w with stats } := by
  induction is generalizing w with
  | nil => exact ⟨w.stats, rfl⟩
  | cons i is ih =>
    obtain ⟨stats, h⟩ := ih (w.interrupted i)
    exact ⟨stats, h⟩

theorem Effect.fixed [Probe ρ] {s : Controller ρ} {a : Action} {w : Watch} (he : s.Effect a w) :
    w.hasHotplug = s.watch.hasHotplug ∧ w.reenableDelay = s.watch.reenableDelay ∧
      w.digital = s.watch.digital ∧ w.eligible = s.watch.eligible := by
  cases he with
  | interrupts _ =>
    obtain ⟨stats, h⟩ := fixed_foldl_interrupted (s.interruptsOf a) s.watch
    rw [h]
    exact ⟨rfl, rfl, rfl, rfl⟩
  | _ => exact ⟨rfl, rfl, rfl, rfl⟩

end Controller

end HotplugDetect
