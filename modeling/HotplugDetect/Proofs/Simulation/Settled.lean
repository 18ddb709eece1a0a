import HotplugDetect.Proofs.Settling.Sleep
import HotplugDetect.Proofs.Simulation.Steps

/-! # Simulations settle after every step

The sinks and the ports raise no interrupts and no step leaves an errand behind, so that the time
after a step brings the workers to rest. A report never shows a system in the middle of something.
-/

namespace HotplugDetect

/-- The report of a system in order, on given hardware. -/
structure Report.InOrder (specs : List ConnectorSpec) (r : Report) : Prop where

  states {status : PinStatus} : status ∈ r.pins →
    status.state = .enabled ∨ status.state = .disabled

  mitigated {status : PinStatus} : status ∈ r.pins → status.mitigated = true →
    status.state = .disabled

  /-- Outputs on a pin that a storm disabled are shown with another mode. -/
  outputs : List.Forall₂ (fun c spec => c.name = spec.name ∧ c.pin = spec.pin ∧
    (spec.multiStream = false → ∀ status ∈ r.pins, spec.pin = some status.pin →
      status.mitigated = true → c.mode ≠ .hpd)) r.connectors specs

namespace Simulation

open Controller

variable {s t : Simulation} {step : Step}

theorem quiet_sink : Quiet Sink := fun _ => rfl

theorem budget_handler (ports : List DigitalPortSpec) (port : Port) (h : PulseHandler)
    (hport : handler ports port = some h) : h.budget = 0 := by
  obtain ⟨spec, -, rfl⟩ := Option.map_eq_some_iff.mp hport
  rfl

section Steps

variable {c d : Controller Sink}

theorem tidy_plugged (h : Tidy none c) (name : String) (connected : Bool) :
    Tidy none (c.plugged name connected) :=
  h.same rfl (c.watch_plugged name connected) rfl rfl

theorem tidy_bursts (h : Tidy none c) (i : Interrupt) (n : Nat) :
    Tidy none (Nat.repeat (·.interrupt i) n c) := by
  induction n with
  | zero => exact h
  | succ n ih => exact ih.act (a := .interrupt i) rfl

theorem tidy_knob (h : Tidy none c) {a : Action} (ha : a.routine = true) (client : Nat) :
    Tidy none ((c.act a).await client) := by
  have hset := h.act ha
  rwa [await_of_no_errands hset.errands]

theorem tidy_performed (h : Tidy none c) (hp : c.Performed d) : Tidy none d := by
  cases hp with
  | bursts i n => exact tidy_bursts h i n
  | slept ms => exact (h.sleep quiet_sink ms).tidy
  | plugged name connected => exact tidy_plugged h name connected
  | acted ha => exact h.act ha
  | awaited ha client => exact tidy_knob h ha client

theorem rested_gather (h : s.core.Rested) : s.gather.core.Rested := h.same rfl rfl rfl rfl

/-- Every step leaves the workers at rest, also one that fails. -/
theorem rested_runStep (h : s.core.Rested) (step : Step) : (s.runStep step).1.core.Rested := by
  rcases s.runStep_cases step with ⟨e, hfail⟩ | ⟨t, ht, hdone⟩
  · rw [hfail]
    exact h
  · have hperformed := performed ht
    have htidy : Tidy none t.core := tidy_performed h.tidy hperformed
    rw [hdone]
    exact rested_gather (s := t.withCore (·.sleep settleTime)) (htidy.sleep quiet_sink settleTime)

theorem rested_opening (scenario : Scenario) (settings : Settings) :
    (opening scenario settings).core.Rested := by
  have hmute : (Controller.ofSettings (scenario.settings.getD settings)
      (scenario.connectors.map connector) (handler scenario.digitalPorts)).Mute :=
    budget_handler scenario.digitalPorts
  have hstart := rested_start hmute
  have hnoted (c : Controller Sink) (hc : c.Rested) (m : Message) : (c.note m).Rested :=
    hc.same rfl rfl rfl rfl
  exact rested_gather (hnoted _ hstart _)

end Steps

section Reports

theorem mem_status {t : PinTable} {status : PinStatus} (h : status ∈ t.status) :
    status.state = t.state status.pin ∧ status.mitigated = (t.get status.pin).mitigated := by
  obtain ⟨p, -, rfl⟩ := List.mem_map.mp h
  exact ⟨rfl, rfl⟩

/-- A core in order on the hardware of some connectors is reported as it is. -/
theorem inOrder_report {specs : List ConnectorSpec} (h : s.core.InOrder)
    (hspecs : s.hardware =
      specs.map fun c => .make c.name c.pin c.preference c.multiStream ()) :
    s.report.InOrder specs where
  states hin := by
    rw [(mem_status hin).1]
    exact h.states _
  mitigated hin hmark := by
    rw [(mem_status hin).1]
    rw [(mem_status hin).2] at hmark
    exact h.mitigated hmark
  outputs := by
    have hmade : List.Forall₂ (fun c spec =>
        c.installed = .make spec.name spec.pin spec.preference spec.multiStream ())
        s.core.connectors specs := by
      have hsame : List.Forall₂ (· = ·) (s.core.connectors.map Connector.installed)
          (specs.map fun c => .make c.name c.pin c.preference c.multiStream ()) := by
        rw [List.forall₂_eq_eq_eq]
        exact hspecs
      exact List.forall₂_map_right_iff.mp (List.forall₂_map_left_iff.mp hsame)
    have hwatched : ∀ c ∈ s.core.connectors, c.multiStream = false → ∀ p, c.pin = some p →
        (s.core.table.get p).mitigated = true → c.polled ≠ .hpd :=
      fun c hc hstream p hpin hmark => h.outputs hc hstream hpin hmark
    refine List.forall₂_map_left_iff.mpr
      (((List.forall₂_and_left _ _).mpr ⟨hwatched, hmade⟩).imp ?_)
    rintro c spec ⟨hc, hspec⟩
    have hname := congrArg Connector.name hspec
    have hpin := congrArg Connector.pin hspec
    have hstream := congrArg Connector.multiStream hspec
    refine ⟨hname, hpin, fun hsingle status hin hstatus hmark => ?_⟩
    rw [(mem_status hin).2] at hmark
    exact hc (hstream.trans hsingle) status.pin (hpin.trans hstatus) hmark

end Reports

end Simulation

namespace Scenario

/-- On the hardware of a valid scenario every step leaves everything in order, and so does a
whole run that reports. -/
theorem settles_after_steps {scenario : Scenario} (hvalid : scenario.validate = .ok ())
    (settings : Settings) :
    ∃ s, Simulation.new scenario settings = .ok s ∧
      (∀ steps : List Step, (steps.foldl (fun t step => (t.runStep step).1) s).core.InOrder) ∧
      ∀ steps r, (s.run steps).1 = .ok r → r.InOrder scenario.connectors := by
  refine ⟨Simulation.opening scenario settings, Simulation.new_of_valid hvalid settings, ?_, ?_⟩
  · intro steps
    suffices h : (steps.foldl (fun t step => (t.runStep step).1)
        (Simulation.opening scenario settings)).core.Rested from h.inOrder
    exact List.foldlRecOn (motive := fun t : Simulation => t.core.Rested) steps _
      (Simulation.rested_opening scenario settings)
      fun t ht step _ => Simulation.rested_runStep ht step
  · intro steps r hrun
    obtain ⟨-, rfl, -⟩ := Simulation.run_eq_ok hrun
    have hrested : ((Simulation.opening scenario settings).runSteps steps).1.core.Rested :=
      Simulation.runSteps_induction (P := fun t => t.core.Rested)
        (fun t step ht => Simulation.rested_runStep ht step)
        (Simulation.rested_opening scenario settings) steps
    refine Simulation.inOrder_report hrested.inOrder ?_
    rw [Simulation.hardware_runSteps, Simulation.hardware_opening]

/-- The pin is in the hands of the storm detector when the burst is over, and in those of polling
when its step is. -/
theorem settles_after_storm :
    let scenario : Scenario :=
      { connectors := [{ name := "HDMI-A-1", pin := some .portB, connected := true }]
        steps := [.init, .irq [.portB] [.portB] 6] }
    scenario.validate = .ok () ∧
      ∃ s, Simulation.new scenario {} = .ok s ∧
        (∀ steps : List Step, (steps.foldl (fun t step => (t.runStep step).1) s).core.InOrder) ∧
        (∀ steps r, (s.run steps).1 = .ok r → r.InOrder scenario.connectors) ∧
        (s.report.pins.map (·.mitigated)).count true = 0 ∧
        ((s.runSteps scenario.steps).1.report.pins.map (·.mitigated)).count true = 1 ∧
        (s.runSteps scenario.steps).1.report.connectors.map (·.mode) = [.connectDisconnect] := by
  intro scenario
  have hvalid : scenario.validate = .ok () := by rfl
  obtain ⟨s, hnew, hsteps, hreport⟩ := settles_after_steps hvalid {}
  obtain rfl := Simulation.eq_opening hnew
  exact ⟨hvalid, _, hnew, hsteps, hreport, by decide +kernel, by decide +kernel, by decide +kernel⟩

end Scenario

end HotplugDetect
