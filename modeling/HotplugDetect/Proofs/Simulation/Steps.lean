import HotplugDetect.Proofs.Settling.Thread
import HotplugDetect.Simulation.Basic

/-! # The steps of a simulation

Time passes by moves of the workers and by the clock, and clients wait in the same way, so that a
step is a run of the controller. Only a sink that comes or goes is no action; the controller does
not see it before it asks.
-/

namespace HotplugDetect

variable {ρ : Type}

def Connector.installed (c : Connector ρ) : Connector Unit :=
  .make c.name c.pin c.preference c.multiStream ()

namespace Controller

section Reachability

variable [Probe ρ] {s t u : Controller ρ}

/-- Some actions lead from one state to the other. -/
def Reaches (s t : Controller ρ) : Prop := ∃ as, s.run as = t

theorem Reaches.refl (s : Controller ρ) : s.Reaches s := ⟨[], rfl⟩

theorem reaches_act (s : Controller ρ) (a : Action) : s.Reaches (s.act a) := ⟨[a], rfl⟩

theorem Reaches.trans (h : s.Reaches t) (h' : t.Reaches u) : s.Reaches u := by
  obtain ⟨as, rfl⟩ := h
  obtain ⟨bs, rfl⟩ := h'
  exact ⟨as ++ bs, s.run_append as bs⟩

/-- What every action keeps is kept on the way. -/
theorem Reaches.induction {P : Controller ρ → Prop} (hact : ∀ s a, P s → P (s.act a))
    (h : s.Reaches t) (hs : P s) : P t := by
  obtain ⟨as, rfl⟩ := h
  induction as generalizing s with
  | nil => exact hs
  | cons a as ih => exact ih (hact s a hs)

theorem reaches_bursts (i : Interrupt) (n : Nat) (s : Controller ρ) :
    s.Reaches (Nat.repeat (·.interrupt i) n s) := by
  induction n with
  | zero => exact .refl s
  | succ n ih => exact ih.trans (reaches_act _ (.interrupt i))

theorem reaches_settleFor (fuel left : Nat) (s : Controller ρ) :
    s.Reaches (s.settleFor fuel left) := by
  induction fuel generalizing s left with
  | zero => exact .refl s
  | succ fuel ih =>
    unfold settleFor
    split
    · exact .refl s
    · rename_i j rest hready
      simp only
      generalize (if s.atLock j then 1 else 0) = cost
      split
      · exact (s.reaches_act .giveWay).trans (ih _ _)
      · exact (s.reaches_act (.move j true)).trans (ih _ _)

end Reachability

section Waiting

variable [BoundedProbe ρ]

theorem reaches_sleepUntil (instant fuel : Nat) (s : Controller ρ) :
    s.Reaches (sleepUntil instant fuel s) := by
  induction fuel generalizing s with
  | zero => exact s.reaches_act (.advance instant)
  | succ fuel ih =>
    have hsettle : s.Reaches s.settle := s.reaches_settleFor _ _
    refine hsettle.trans ?_
    unfold sleepUntil
    simp only
    split
    · rename_i alarm halarm
      split
      · exact (reaches_act _ (.advance alarm)).trans (ih _)
      · exact reaches_act _ (.advance instant)
    · exact reaches_act _ (.advance instant)

theorem reaches_sleep (s : Controller ρ) (ms : Nat) : s.Reaches (s.sleep ms) :=
  reaches_sleepUntil _ _ s

theorem reaches_await (s : Controller ρ) (client : Nat) : s.Reaches (s.await client) := by
  have hawait (fuel : Nat) (s : Controller ρ) : s.Reaches (awaitErrand client fuel s) := by
    induction fuel generalizing s with
    | zero => exact .refl s
    | succ fuel ih =>
      unfold awaitErrand
      split
      · exact .refl s
      · have hsettle : s.Reaches s.settle := s.reaches_settleFor _ _
        simp only
        split
        · exact (hsettle.trans (reaches_act _ (.resume client))).trans (ih _)
        · exact hsettle
  exact hawait _ s

end Waiting

section Hardware

theorem installed_bare (c : Connector ρ) : c.bare.installed = c.installed := rfl

theorem Effect.installed [Probe ρ] {s : Controller ρ} {a : Action} {w : Watch} (h : s.Effect a w) :
    w.connectors.map Connector.installed = s.watch.connectors.map Connector.installed := by
  have hmap {f : Connector Unit → Connector Unit} (hf : ∀ c, (f c).installed = c.installed)
      (cs : List (Connector Unit)) :
      (cs.map f).map Connector.installed = cs.map Connector.installed := by
    simp [hf]
  have hreturned (returns : Pin → Bool) (c : Connector Unit) :
      (c.returned returns).installed = c.installed := by
    unfold Connector.returned
    split <;> rfl
  have hswitched (pins : PinSet) (c : Connector Unit) :
      (c.switched pins).installed = c.installed := by
    unfold Connector.switched
    split <;> rfl
  cases h with
  | interrupts _ =>
    obtain ⟨stats, hw⟩ := fixed_foldl_interrupted (s.interruptsOf a) s.watch
    rw [hw]
  | mitigation _ => exact hmap (hswitched _) _
  | @reinitialization timerFirst disabled _ =>
    exact hmap (f := (·.reinitialized s.watch.hasHotplug s.watch.forced disabled)) (fun _ => rfl) _
  | recovery _ _ _ => exact hmap (hreturned _) _
  | knob _ _ => exact hmap (hreturned _) _
  | flush _ => exact hmap (hreturned _) _
  | _ => rfl

theorem installed_watch (s : Controller ρ) :
    s.watch.connectors.map Connector.installed = s.connectors.map Connector.installed := by
  simp [watch, Function.comp_def, installed_bare]

theorem installed_act [Probe ρ] (s : Controller ρ) (a : Action) :
    (s.act a).connectors.map Connector.installed = s.connectors.map Connector.installed := by
  have h := (s.effect_act a).installed
  rwa [installed_watch, installed_watch] at h

end Hardware

def plugged (s : Controller Sink) (name : String) (connected : Bool) : Controller Sink :=
  { s with
    connectors := s.connectors.map fun c =>
      if c.name = name then { c with probe := { c.probe with connected } } else c }

theorem watch_plugged (s : Controller Sink) (name : String) (connected : Bool) :
    (s.plugged name connected).watch = s.watch := by
  have hbare : (s.plugged name connected).connectors.map Connector.bare =
      s.connectors.map Connector.bare := by
    rw [plugged, List.map_map]
    refine List.map_congr_left fun c _ => ?_
    simp only [Function.comp_apply]
    split <;> rfl
  unfold watch
  rw [hbare]
  rfl

/-- What a step can do to the controller. -/
inductive Performed (s : Controller Sink) : Controller Sink → Prop
  | bursts (i : Interrupt) (n : Nat) : Performed s (Nat.repeat (·.interrupt i) n s)
  | slept (ms : Nat) : Performed s (s.sleep ms)
  | plugged (name : String) (connected : Bool) : Performed s (s.plugged name connected)
  | acted {a : Action} (h : a.routine = true) : Performed s (s.act a)
  | awaited {a : Action} (h : a.routine = true) (client : Nat) :
    Performed s ((s.act a).await client)

/-- A step is a run of the controller, unless it is about a sink. -/
theorem Performed.reaches {s t : Controller Sink} (h : s.Performed t) :
    s.Reaches t ∨ ∃ name connected, t = s.plugged name connected := by
  cases h with
  | bursts i n => exact .inl (reaches_bursts i n s)
  | slept ms => exact .inl (s.reaches_sleep ms)
  | plugged name connected => exact .inr ⟨name, connected, rfl⟩
  | acted _ => exact .inl (s.reaches_act _)
  | awaited _ client => exact .inl ((s.reaches_act _).trans (reaches_await _ client))

end Controller

namespace Simulation

variable {s t : Simulation} {step : Step}

theorem plug_eq (s : Simulation) (name : String) (connected : Bool) :
    s.plug name connected =
      if name ∈ s.core.connectors.map (·.name) then .ok (s.withCore (·.plugged name connected))
      else .error (.unknownConnector name) := by
  unfold plug ConnectorList.named
  cases hfind : s.core.connectors.find? (·.name == name) with
  | none =>
    have hnone := List.find?_eq_none.mp hfind
    rw [if_neg]
    intro hin
    obtain ⟨c, hc, hname⟩ := List.mem_map.mp hin
    exact hnone c hc (by simp [hname])
  | some c =>
    have hname : c.name = name := by simpa using List.find?_some hfind
    rw [if_pos (List.mem_map.mpr ⟨c, List.mem_of_find?_eq_some hfind, hname⟩)]
    rfl

theorem performed (h : s.perform step = .ok t) : s.core.Performed t.core := by
  cases step with
  | irq pins long times =>
    cases h
    exact .bursts _ _
  | raw pinMask longMask =>
    cases h
    exact .acted (a := .raw pinMask longMask) rfl
  | wait ms =>
    cases h
    exact .slept _
  | plug name connected =>
    rw [perform, plug_eq] at h
    split at h
    · cases h
      exact .plugged name connected
    · cases h
  | disablePin pin =>
    cases h
    exact .acted (a := .disable pin) rfl
  | enablePin pin =>
    cases h
    exact .acted (a := .enable pin) rfl
  | forcePolling on =>
    cases h
    exact .acted (a := .forcePolling on) rfl
  | irqsEnabled on =>
    cases h
    exact .acted (a := .setIrqs on) rfl
  | threshold value =>
    obtain ⟨k, -, hset⟩ := bind_eq_ok.mp h
    cases hset
    exact .awaited (a := .setThreshold client k) rfl client
  | shortStorms value =>
    obtain ⟨k, -, hset⟩ := bind_eq_ok.mp h
    cases hset
    exact .awaited (a := .setShortStorms client k) rfl client
  | init =>
    cases h
    exact .acted (a := .init) rfl

/-- A step fails before it does anything, or the workers get their time after it. -/
theorem runStep_cases (s : Simulation) (step : Step) :
    (∃ e, s.runStep step = (s.remember (.step step), some e)) ∨
      ∃ t, (s.remember (.step step)).perform step = .ok t ∧
        s.runStep step = ((t.withCore (·.sleep settleTime)).gather, none) := by
  unfold runStep
  simp only
  cases (s.remember (.step step)).perform step with
  | error e => exact .inl ⟨e, rfl⟩
  | ok t => exact .inr ⟨t, rfl, rfl⟩

/-- What every step keeps is kept by the steps up to the first one that fails. -/
theorem runSteps_induction {P : Simulation → Prop} (hstep : ∀ s step, P s → P (s.runStep step).1)
    (hs : P s) (steps : List Step) : P (s.runSteps steps).1 := by
  induction steps generalizing s with
  | nil => exact hs
  | cons step rest ih =>
    have hnext := hstep s step hs
    unfold runSteps
    split
    · rename_i t ht
      rw [ht] at hnext
      exact ih hnext
    · rename_i t e ht
      rwa [ht] at hnext

theorem run_eq_ok {steps : List Step} {r : Report} (h : (s.run steps).1 = .ok r) :
    (s.runSteps steps).2 = none ∧ r = (s.runSteps steps).1.report ∧
      s.run steps = (.ok r, (s.runSteps steps).1.records ++ [reportRecord r]) := by
  rcases hsteps : s.runSteps steps with ⟨t, _ | e⟩
  · rw [run, hsteps] at h ⊢
    cases h
    exact ⟨rfl, rfl, rfl⟩
  · rw [run, hsteps] at h
    cases h

def hardware (s : Simulation) : List (Connector Unit) :=
  s.core.connectors.map Connector.installed

theorem hardware_runStep (s : Simulation) (step : Step) :
    (s.runStep step).1.hardware = s.hardware := by
  have hreaches {c d : Controller Sink} (h : c.Reaches d) :
      d.connectors.map Connector.installed = c.connectors.map Connector.installed := by
    refine h.induction (P := fun d => d.connectors.map Connector.installed =
      c.connectors.map Connector.installed) (fun d a hd => ?_) rfl
    exact (d.installed_act a).trans hd
  rcases s.runStep_cases step with ⟨e, hfail⟩ | ⟨t, ht, hdone⟩
  · rw [hfail]
    rfl
  · have hslept : (t.core.sleep settleTime).connectors.map Connector.installed = t.hardware :=
      hreaches (t.core.reaches_sleep settleTime)
    rw [hdone]
    refine hslept.trans ?_
    rcases (performed ht).reaches with hrun | ⟨name, connected, hplug⟩
    · exact hreaches hrun
    · unfold hardware
      rw [hplug, ← Controller.installed_watch, Controller.watch_plugged, Controller.installed_watch]
      rfl

theorem hardware_runSteps (s : Simulation) (steps : List Step) :
    (s.runSteps steps).1.hardware = s.hardware :=
  runSteps_induction (P := fun t => t.hardware = s.hardware)
    (fun t step ht => (t.hardware_runStep step).trans ht) rfl steps

theorem names_eq (s : Simulation) : s.core.connectors.map (·.name) = s.hardware.map (·.name) := by
  simp [hardware, Function.comp_def, Connector.installed, Connector.make]

section Opening

variable {scenario : Scenario}

def opening (scenario : Scenario) (settings : Settings) : Simulation :=
  let core := (Controller.ofSettings (scenario.settings.getD settings)
    (scenario.connectors.map connector) (handler scenario.digitalPorts)).act .start
  gather
    { name := scenario.name
      core := core.note (.simulating scenario.connectors.length scenario.digitalPorts.length)
      ports := scenario.digitalPorts }

theorem new_of_valid (hvalid : scenario.validate = .ok ()) (settings : Settings) :
    Simulation.new scenario settings = .ok (opening scenario settings) := by
  unfold Simulation.new
  rw [hvalid]
  rfl

theorem eq_opening {settings : Settings} (h : Simulation.new scenario settings = .ok s) :
    s = opening scenario settings := by
  obtain ⟨⟨⟩, hvalid, -⟩ := bind_eq_ok.mp h
  exact Except.ok.inj (h.symm.trans (new_of_valid hvalid settings))

theorem hardware_opening (scenario : Scenario) (settings : Settings) :
    (opening scenario settings).hardware =
      scenario.connectors.map fun c => .make c.name c.pin c.preference c.multiStream () := by
  have hopened (c : Controller Sink) (m : Message) :
      (gather { name := scenario.name, core := c.note m,
                ports := scenario.digitalPorts }).hardware =
        c.connectors.map Connector.installed := rfl
  unfold opening
  rw [hopened, Controller.installed_act, Controller.ofSettings, List.map_map]
  rfl

end Opening

end Simulation

end HotplugDetect
