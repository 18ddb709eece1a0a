import HotplugDetect.Proofs.Simulation.Steps

/-! # Valid scenarios run to their end

Validation looks connectors up and reads knobs as the steps will do. On the hardware of a valid
scenario, whatever happened before, a list of steps fails half way just if validation rejects it.
-/

namespace HotplugDetect

namespace Scenario

theorem checkKnob_ok_iff {α : Type} (index : Nat) (r : Except Failure α) :
    checkKnob index r = .ok () ↔ ∃ k, r = .ok k := by
  cases r with
  | error e => simp [checkKnob]
  | ok k => simp [checkKnob]

theorem checkSteps_cons (names : List String) (index : Nat) (step : Step) (rest : List Step) :
    checkSteps names index (step :: rest) = .ok () ↔
      checkStep names index step = .ok () ∧ checkSteps names (index + 1) rest = .ok () := by
  rw [checkSteps, bind_eq_ok]
  exact ⟨fun ⟨_, h⟩ => h, fun h => ⟨(), h⟩⟩

theorem validate_ok_iff (s : Scenario) :
    s.validate = .ok () ↔
      ({ s with steps := [] } : Scenario).validate = .ok () ∧
        checkSteps (s.connectors.map (·.name)) 0 s.steps = .ok () := by
  unfold validate
  rw [checkSteps]
  cases s.settings with
  | none => simp [bind_eq_ok, and_assoc]
  | some settings => simp [bind_eq_ok, and_assoc]

end Scenario

namespace Simulation

variable {s : Simulation}

/-- A step fails just if its check does. -/
theorem perform_ok_iff (s : Simulation) (step : Step) (index : Nat) :
    (∃ t, s.perform step = .ok t) ↔
      Scenario.checkStep (s.hardware.map (·.name)) index step = .ok () := by
  cases step with
  | plug name connected =>
    rw [perform, plug_eq, names_eq, Scenario.checkStep]
    split <;> simp
  | threshold value =>
    simp [perform, Scenario.checkStep, Scenario.checkKnob_ok_iff, bind_eq_ok]
  | shortStorms value =>
    simp [perform, Scenario.checkStep, Scenario.checkKnob_ok_iff, bind_eq_ok]
  | _ => exact ⟨fun _ => rfl, fun _ => ⟨_, rfl⟩⟩

theorem runStep_ok_iff (s : Simulation) (step : Step) (index : Nat) :
    (s.runStep step).2 = none ↔
      Scenario.checkStep (s.hardware.map (·.name)) index step = .ok () := by
  have hchecked := (s.remember (.step step)).perform_ok_iff step index
  refine Iff.trans ?_ hchecked
  unfold runStep
  simp only
  cases (s.remember (.step step)).perform step <;> simp

/-- The check of later steps need not know what the earlier ones did. -/
theorem runSteps_ok_iff (s : Simulation) (steps : List Step) (index : Nat) :
    (s.runSteps steps).2 = none ↔
      Scenario.checkSteps (s.hardware.map (·.name)) index steps = .ok () := by
  induction steps generalizing s index with
  | nil => exact ⟨fun _ => rfl, fun _ => rfl⟩
  | cons step rest ih =>
    rw [Scenario.checkSteps_cons, ← s.runStep_ok_iff step index, runSteps]
    have hhardware := s.hardware_runStep step
    rcases hstep : s.runStep step with ⟨t, _ | e⟩
    · rw [hstep] at hhardware
      rw [← hhardware]
      simpa using ih t (index + 1)
    · simp

theorem run_ok_iff (s : Simulation) (steps : List Step) :
    (∃ r, (s.run steps).1 = .ok r) ↔ (s.runSteps steps).2 = none := by
  unfold run
  rcases s.runSteps steps with ⟨t, _ | e⟩ <;> simp

end Simulation

namespace Scenario

/-- A valid scenario sets its simulation up and runs to the end, and on its hardware exactly the
steps that validation would reject are those that fail half way, whatever happened before. -/
theorem runs_iff_valid {scenario : Scenario} (hvalid : scenario.validate = .ok ())
    (settings : Settings) :
    ∃ s, Simulation.new scenario settings = .ok s ∧
      (∃ r, (s.run scenario.steps).1 = .ok r) ∧
      ∀ before steps, (∃ r, ((s.runSteps before).1.run steps).1 = .ok r) ↔
        ({ scenario with steps } : Scenario).validate = .ok () := by
  obtain ⟨hhardware, -⟩ := scenario.validate_ok_iff.mp hvalid
  refine ⟨Simulation.opening scenario settings, Simulation.new_of_valid hvalid settings, ?_⟩
  have hnames : (Simulation.opening scenario settings).hardware.map (·.name) =
      scenario.connectors.map (·.name) := by
    rw [Simulation.hardware_opening, List.map_map]
    rfl
  have hruns (before steps : List Step) :
      (∃ r, (((Simulation.opening scenario settings).runSteps before).1.run steps).1 = .ok r) ↔
        ({ scenario with steps } : Scenario).validate = .ok () := by
    rw [Simulation.run_ok_iff, Simulation.runSteps_ok_iff _ _ 0, Simulation.hardware_runSteps,
      hnames, validate_ok_iff { scenario with steps }]
    exact ⟨fun h => ⟨hhardware, h⟩, fun h => h.2⟩
  exact ⟨(hruns [] scenario.steps).mpr hvalid, hruns⟩

theorem runs_iff_valid_replugged :
    let scenario : Scenario :=
      { connectors := [{ name := "DP-1", pin := some .portC }]
        steps := [.threshold " 20 ", .plug "DP-1" true, .irq [.portC] [] 3, .shortStorms "off"] }
    scenario.validate = .ok () ∧
      (∃ s, Simulation.new scenario {} = .ok s ∧
        (∃ r, (s.run scenario.steps).1 = .ok r) ∧
        ∀ before steps, (∃ r, ((s.runSteps before).1.run steps).1 = .ok r) ↔
          ({ scenario with steps } : Scenario).validate = .ok ()) ∧
      ({ scenario with steps := [.plug "DP-2" true] } : Scenario).validate ≠ .ok () := by
  intro scenario
  have hvalid : scenario.validate = .ok () := by rfl
  exact ⟨hvalid, runs_iff_valid hvalid {}, nofun⟩

end Scenario

end HotplugDetect
