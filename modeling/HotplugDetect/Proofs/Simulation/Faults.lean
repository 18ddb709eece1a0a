import Mathlib.Data.List.Nodup
import Mathlib.Data.Prod.Lex
import HotplugDetect.Scenario.Basic

/-! # The faults of a scenario

A scenario can be at fault in its settings, in a connector, in a digital port, or in a step, and in
several of these places at once. Validation passes a scenario without faults. Otherwise it reports
the fault of the first place, where the settings come before the connectors, these before the
digital ports, and the steps come last.
-/

namespace HotplugDetect

/-- What is wrong with the storm settings. -/
inductive Settings.Fault (s : Settings) : Failure → Prop where

  | noPeriod : s.storm.detectPeriod = 0 →
      Fault s (.invalidSetting "storm.detect_period_ms" "must be greater than zero")

  | noDelay : s.storm.detectPeriod ≠ 0 → s.storm.reenableDelay = 0 →
      Fault s (.invalidSetting "storm.reenable_delay_ms" "must be greater than zero")

  | shortDelay : s.storm.reenableDelay ≠ 0 → s.storm.reenableDelay < s.storm.detectPeriod →
      Fault s (.invalidSetting "storm.reenable_delay_ms"
        "must not be shorter than storm.detect_period_ms")

theorem Settings.validate_eq_error_iff (s : Settings) (e : Failure) :
    s.validate = .error e ↔ s.Fault e := by
  unfold validate
  constructor
  · intro h
    split at h
    · rename_i hperiod
      cases h
      exact .noPeriod hperiod
    · rename_i hperiod
      split at h
      · rename_i hdelay
        cases h
        exact .noDelay hperiod hdelay
      · rename_i hdelay
        split at h
        · rename_i hshort
          cases h
          exact .shortDelay hdelay hshort
        · cases h
  · intro h
    cases h with
    | noPeriod hperiod => rw [if_pos hperiod]
    | noDelay hperiod hdelay => rw [if_neg hperiod, if_pos hdelay]
    | shortDelay hdelay hshort =>
      have hperiod : s.storm.detectPeriod ≠ 0 := fun h0 => UInt64.not_lt_zero (h0 ▸ hshort)
      rw [if_neg hperiod, if_neg hdelay, if_pos hshort]

/-- Places are checked in some order: none is at fault, or the result is a fault of the first place
that is. -/
def Reports {α : Type} (before : α → α → Prop) (fault : α → Failure → Prop) :
    Except Failure Unit → Prop
  | .ok _ => ∀ x e, ¬fault x e
  | .error e => ∃ x, fault x e ∧ ∀ y e', fault y e' → ¬before y x

section Reports

variable {α : Type} {before : α → α → Prop} {fault first second : α → Failure → Prop}
  {r r' : Except Failure Unit}

theorem Reports.andThen (h : Reports before first r) (h' : Reports before second r')
    (horder : ∀ {x y e e'}, first x e → second y e' → ¬before y x)
    (hfault : ∀ x e, fault x e ↔ first x e ∨ second x e) :
    Reports before fault (r >>= fun _ => r') := by
  cases r with
  | error e =>
    obtain ⟨x, hx, hbefore⟩ := h
    refine ⟨x, (hfault x e).mpr (.inl hx), fun y e' hy => ?_⟩
    rcases (hfault y e').mp hy with hy | hy
    · exact hbefore y e' hy
    · exact horder hx hy
  | ok u =>
    have hnone : ∀ {x e}, fault x e → second x e := fun {x e} hx =>
      ((hfault x e).mp hx).resolve_left (h x e)
    cases r' with
    | error e =>
      obtain ⟨x, hx, hbefore⟩ := h'
      exact ⟨x, (hfault x e).mpr (.inr hx), fun y e' hy => hbefore y e' (hnone hy)⟩
    | ok u => exact fun x e hx => h' x e (hnone hx)

theorem Reports.entries {entry : ℕ → Failure → Prop} (h : Reports (· < ·) entry r) (place : ℕ → α)
    (hplace : ∀ {i j}, before (place i) (place j) → i < j)
    (hfault : ∀ x e, fault x e ↔ ∃ i, x = place i ∧ entry i e) : Reports before fault r := by
  cases r with
  | error e =>
    obtain ⟨i, hi, hbefore⟩ := h
    refine ⟨place i, (hfault _ e).mpr ⟨i, rfl, hi⟩, fun y e' hy hlt => ?_⟩
    obtain ⟨j, rfl, hj⟩ := (hfault y e').mp hy
    exact hbefore j e' hj (hplace hlt)
  | ok u =>
    intro x e hx
    obtain ⟨i, -, hi⟩ := (hfault x e).mp hx
    exact h i e hi

end Reports

section Scans

variable {α : Type} (fault? : List α → α → Option Failure)

def scan (earlier : List α) : List α → Except Failure Unit
  | [] => .ok ()
  | x :: xs =>
    match fault? earlier x with
    | some e => .error e
    | none => scan (earlier ++ [x]) xs

def FaultAt (earlier xs : List α) (i : ℕ) (e : Failure) : Prop :=
  ∃ x, xs[i]? = some x ∧ fault? (earlier ++ xs.take i) x = some e

theorem faultAt_zero (earlier : List α) (x : α) (xs : List α) (e : Failure) :
    FaultAt fault? earlier (x :: xs) 0 e ↔ fault? earlier x = some e := by
  simp [FaultAt]

theorem faultAt_succ (earlier : List α) (x : α) (xs : List α) (i : ℕ) (e : Failure) :
    FaultAt fault? earlier (x :: xs) (i + 1) e ↔ FaultAt fault? (earlier ++ [x]) xs i e := by
  simp [FaultAt]

theorem FaultAt.unique {earlier xs : List α} {i : ℕ} {e e' : Failure}
    (h : FaultAt fault? earlier xs i e) (h' : FaultAt fault? earlier xs i e') : e = e' := by
  obtain ⟨x, hx, he⟩ := h
  obtain ⟨x', hx', he'⟩ := h'
  obtain rfl : x = x' := Option.some.inj (hx.symm.trans hx')
  exact Option.some.inj (he.symm.trans he')

theorem reports_scan (earlier xs : List α) :
    Reports (· < ·) (FaultAt fault? earlier xs) (scan fault? earlier xs) := by
  induction xs generalizing earlier with
  | nil =>
    rintro i e ⟨x, hx, -⟩
    cases hx
  | cons x xs ih =>
    unfold scan
    cases hx : fault? earlier x with
    | some e => exact ⟨0, (faultAt_zero ..).mpr hx, fun j _ _ => Nat.not_lt_zero j⟩
    | none =>
      have hfirst (e : Failure) : ¬FaultAt fault? earlier (x :: xs) 0 e := by
        rw [faultAt_zero, hx]
        exact nofun
      have hrest := ih (earlier ++ [x])
      simp only
      rcases hr : scan fault? (earlier ++ [x]) xs with e | u
      · rw [hr] at hrest
        obtain ⟨i, hi, hbefore⟩ := hrest
        refine ⟨i + 1, (faultAt_succ ..).mpr hi, fun j e' hj hlt => ?_⟩
        cases j with
        | zero => exact hfirst e' hj
        | succ j => exact hbefore j e' ((faultAt_succ ..).mp hj) (Nat.lt_of_succ_lt_succ hlt)
      · rw [hr] at hrest
        intro i e hi
        cases i with
        | zero => exact hfirst e hi
        | succ i => exact hrest i e ((faultAt_succ ..).mp hi)

end Scans

namespace Scenario

/-- A place where a scenario can be at fault. -/
inductive Site
  | settings
  | connector (index : ℕ)
  | port (index : ℕ)
  | step (index : ℕ)

namespace Site

def position : Site → ℕ × ℕ
  | settings => (0, 0)
  | connector index => (1, index)
  | port index => (2, index)
  | step index => (3, index)

/-- The order in which the places are checked. -/
def Before (x y : Site) : Prop := Prod.Lex (· < ·) (· < ·) x.position y.position

theorem position_inj {x y : Site} (h : x.position = y.position) : x = y := by
  cases x <;> cases y <;> simp_all [position]

theorem eq_of_not_before {x y : Site} (hxy : ¬x.Before y) (hyx : ¬y.Before x) : x = y := by
  rw [Before, Prod.lex_def] at hxy hyx
  exact position_inj (Prod.ext (by omega) (by omega))

end Site

/-- A part of a scenario breaks a rule. -/
inductive Fault (s : Scenario) : Site → Failure → Prop where

  | settings {settings : Settings} {e : Failure} : s.settings = some settings →
      settings.Fault e → Fault s .settings e

  | emptyName {i : ℕ} {c : ConnectorSpec} : s.connectors[i]? = some c → c.name = "" →
      Fault s (.connector i) (.scenario "connector with empty name")

  | sameName {i : ℕ} {c : ConnectorSpec} : s.connectors[i]? = some c → c.name ≠ "" →
      (∃ d ∈ s.connectors.take i, d.name = c.name) →
      Fault s (.connector i) (.scenario ("duplicate connector " ++ c.name))

  | samePort {i : ℕ} {d : DigitalPortSpec} : s.digitalPorts[i]? = some d →
      (∃ d' ∈ s.digitalPorts.take i, d'.port = d.port) →
      Fault s (.port i) (.scenario ("duplicate digital port " ++ d.port.key))

  | plug {i : ℕ} {name : String} {connected : Bool} :
      s.steps[i]? = some (.plug name connected) → (∀ c ∈ s.connectors, c.name ≠ name) →
      Fault s (.step i) (.unknownConnector name)

  | threshold {i : ℕ} {value : String} {e : Failure} : s.steps[i]? = some (.threshold value) →
      ThresholdKnob.parse value = .error e →
      Fault s (.step i) (.scenario ("step " ++ toString i ++ ": " ++ e.message))

  | shortStorms {i : ℕ} {value : String} {e : Failure} :
      s.steps[i]? = some (.shortStorms value) → ShortStormKnob.parse value = .error e →
      Fault s (.step i) (.scenario ("step " ++ toString i ++ ": " ++ e.message))

/-- A scenario that names its hardware without ambiguity and has no step that could fail. -/
structure Valid (s : Scenario) : Prop where

  settings {x : Settings} : s.settings = some x → x.storm.detectPeriod ≠ 0 ∧
    x.storm.reenableDelay ≠ 0 ∧ x.storm.detectPeriod ≤ x.storm.reenableDelay

  named {c : ConnectorSpec} : c ∈ s.connectors → c.name ≠ ""

  names : (s.connectors.map (·.name)).Nodup

  ports : (s.digitalPorts.map (·.port)).Nodup

  plugs {name : String} {connected : Bool} : .plug name connected ∈ s.steps →
    ∃ c ∈ s.connectors, c.name = name

  thresholds {value : String} : .threshold value ∈ s.steps →
    ∃ k, ThresholdKnob.parse value = .ok k

  shortStorms {value : String} : .shortStorms value ∈ s.steps →
    ∃ k, ShortStormKnob.parse value = .ok k

section Parts

def connectorFault? (earlier : List ConnectorSpec) (c : ConnectorSpec) : Option Failure :=
  if c.name = "" then some (.scenario "connector with empty name")
  else if c.name ∈ earlier.map (·.name) then some (.scenario ("duplicate connector " ++ c.name))
  else none

def portFault? (earlier : List DigitalPortSpec) (d : DigitalPortSpec) : Option Failure :=
  if d.port ∈ earlier.map (·.port) then
    some (.scenario ("duplicate digital port " ++ d.port.key))
  else none

def stepFault? (names : List String) (earlier : List Step) (step : Step) : Option Failure :=
  match checkStep names earlier.length step with
  | .ok _ => none
  | .error e => some e

theorem checkConnectors_eq_scan (seen : List String) (earlier : List ConnectorSpec)
    (h : ∀ n, n ∈ seen ↔ n ∈ earlier.map (·.name)) (cs : List ConnectorSpec) :
    checkConnectors seen cs = scan connectorFault? earlier cs := by
  induction cs generalizing seen earlier with
  | nil => rfl
  | cons c cs ih =>
    have hnext : ∀ n, n ∈ c.name :: seen ↔ n ∈ (earlier ++ [c]).map (·.name) := by
      intro n
      rw [List.mem_cons, h, List.map_append, List.mem_append, List.map_singleton,
        List.mem_singleton, or_comm]
    rw [checkConnectors, scan, connectorFault?]
    by_cases hempty : c.name = ""
    · simp only [if_pos hempty]
    · by_cases hseen : c.name ∈ seen
      · simp only [if_neg hempty, if_pos hseen, if_pos ((h _).mp hseen)]
      · simp only [if_neg hempty, if_neg hseen, if_neg (mt (h _).mpr hseen)]
        exact ih _ _ hnext

theorem checkPorts_eq_scan (seen : List Port) (earlier : List DigitalPortSpec)
    (h : ∀ p, p ∈ seen ↔ p ∈ earlier.map (·.port)) (ds : List DigitalPortSpec) :
    checkPorts seen ds = scan portFault? earlier ds := by
  induction ds generalizing seen earlier with
  | nil => rfl
  | cons d ds ih =>
    have hnext : ∀ p, p ∈ d.port :: seen ↔ p ∈ (earlier ++ [d]).map (·.port) := by
      intro p
      rw [List.mem_cons, h, List.map_append, List.mem_append, List.map_singleton,
        List.mem_singleton, or_comm]
    rw [checkPorts, scan, portFault?]
    by_cases hseen : d.port ∈ seen
    · simp only [if_pos hseen, if_pos ((h _).mp hseen)]
    · simp only [if_neg hseen, if_neg (mt (h _).mpr hseen)]
      exact ih _ _ hnext

theorem checkSteps_eq_scan (names : List String) (earlier steps : List Step) :
    checkSteps names earlier.length steps = scan (stepFault? names) earlier steps := by
  induction steps generalizing earlier with
  | nil => rfl
  | cons step steps ih =>
    have hnext := ih (earlier ++ [step])
    rw [List.length_append, List.length_singleton] at hnext
    rw [checkSteps, scan, stepFault?, hnext]
    cases checkStep names earlier.length step <;> rfl

variable (s : Scenario) (i : ℕ) (e : Failure)

theorem fault_settings_iff :
    s.Fault .settings e ↔ ∃ settings, s.settings = some settings ∧ settings.Fault e := by
  constructor
  · rintro ⟨hs, he⟩
    exact ⟨_, hs, he⟩
  · rintro ⟨settings, hs, he⟩
    exact .settings hs he

theorem fault_connector_iff :
    s.Fault (.connector i) e ↔ FaultAt connectorFault? [] s.connectors i e := by
  constructor
  · intro h
    cases h with
    | @emptyName _ c hc hempty => exact ⟨c, hc, if_pos hempty⟩
    | @sameName _ c hc hne hsame =>
      have hearlier : c.name ∈ (s.connectors.take i).map (·.name) := List.mem_map.mpr hsame
      exact ⟨c, hc, (if_neg hne).trans (if_pos hearlier)⟩
  · rintro ⟨c, hc, h⟩
    unfold connectorFault? at h
    split at h
    · rename_i hempty
      cases h
      exact .emptyName hc hempty
    · rename_i hne
      split at h
      · rename_i hsame
        cases h
        exact .sameName hc hne (List.mem_map.mp hsame)
      · cases h

theorem fault_port_iff : s.Fault (.port i) e ↔ FaultAt portFault? [] s.digitalPorts i e := by
  constructor
  · intro h
    cases h with
    | @samePort _ d hd hsame => exact ⟨d, hd, if_pos (List.mem_map.mpr hsame)⟩
  · rintro ⟨d, hd, h⟩
    unfold portFault? at h
    split at h
    · rename_i hsame
      cases h
      exact .samePort hd (List.mem_map.mp hsame)
    · cases h

theorem checkKnob_eq_error_iff {α : Type} (index : ℕ) (r : Except Failure α) (e : Failure) :
    checkKnob index r = .error e ↔
      ∃ e', r = .error e' ∧ e = .scenario ("step " ++ toString index ++ ": " ++ e'.message) := by
  cases r with
  | ok k => simp [checkKnob]
  | error e' => simp [checkKnob, eq_comm]

theorem stepFault?_eq_some_iff (names : List String) (earlier : List Step) (step : Step)
    (e : Failure) :
    stepFault? names earlier step = some e ↔ checkStep names earlier.length step = .error e := by
  unfold stepFault?
  cases checkStep names earlier.length step <;> simp

theorem fault_step_iff : s.Fault (.step i) e ↔
    FaultAt (stepFault? (s.connectors.map (·.name))) [] s.steps i e := by
  have hlength {step : Step} (h : s.steps[i]? = some step) : (s.steps.take i).length = i :=
    List.length_take_of_le (List.getElem?_eq_some_iff.mp h).1.le
  constructor
  · intro h
    cases h with
    | @plug _ name connected hstep hunknown =>
      refine ⟨_, hstep, (stepFault?_eq_some_iff ..).mpr (if_neg fun hin => ?_)⟩
      obtain ⟨c, hc, hname⟩ := List.mem_map.mp hin
      exact hunknown c hc hname
    | threshold hstep hparse =>
      refine ⟨_, hstep, (stepFault?_eq_some_iff ..).mpr ?_⟩
      rw [List.nil_append, hlength hstep]
      exact (checkKnob_eq_error_iff ..).mpr ⟨_, hparse, rfl⟩
    | shortStorms hstep hparse =>
      refine ⟨_, hstep, (stepFault?_eq_some_iff ..).mpr ?_⟩
      rw [List.nil_append, hlength hstep]
      exact (checkKnob_eq_error_iff ..).mpr ⟨_, hparse, rfl⟩
  · rintro ⟨step, hstep, h⟩
    rw [stepFault?_eq_some_iff, List.nil_append, hlength hstep] at h
    cases step with
    | plug name connected =>
      rw [checkStep] at h
      split at h
      · cases h
      · rename_i hunknown
        cases h
        exact .plug hstep fun c hc hname => hunknown (List.mem_map.mpr ⟨c, hc, hname⟩)
    | threshold value =>
      obtain ⟨e', hparse, rfl⟩ := (checkKnob_eq_error_iff ..).mp h
      exact .threshold hstep hparse
    | shortStorms value =>
      obtain ⟨e', hparse, rfl⟩ := (checkKnob_eq_error_iff ..).mp h
      exact .shortStorms hstep hparse
    | _ => cases h

end Parts

section Whole

variable (s : Scenario)

def FaultIn (part : ℕ) (x : Site) (e : Failure) : Prop := x.position.1 = part ∧ s.Fault x e

theorem reports_settings : Reports Site.Before (s.FaultIn 0)
    (match s.settings with
      | some settings => settings.validate
      | none => .ok ()) := by
  have honly {x : Site} {e : Failure} (h : s.FaultIn 0 x e) :
      x = .settings ∧ ∃ settings, s.settings = some settings ∧ settings.Fault e := by
    obtain ⟨hx, h⟩ := h
    cases h with
    | settings hs he => exact ⟨rfl, _, hs, he⟩
    | _ => cases hx
  have hsame : ¬Site.settings.Before .settings := by
    rw [Site.Before, Prod.lex_def]
    omega
  cases hs : s.settings with
  | none =>
    intro x e h
    obtain ⟨-, settings, hsome, -⟩ := honly h
    rw [hs] at hsome
    cases hsome
  | some settings =>
    simp only
    rcases hv : settings.validate with e | u
    · have he := (settings.validate_eq_error_iff e).mp hv
      refine ⟨.settings, ⟨rfl, .settings hs he⟩, fun y e' hy => ?_⟩
      rw [(honly hy).1]
      exact hsame
    · intro x e h
      obtain ⟨-, settings', hsome, he⟩ := honly h
      obtain rfl : settings = settings' := Option.some.inj (hs.symm.trans hsome)
      rw [(settings.validate_eq_error_iff e).mpr he] at hv
      cases hv

theorem reports_part {part : ℕ} (place : ℕ → Site) (hplace : ∀ i, (place i).position = (part, i))
    {entry : ℕ → Failure → Prop} (hfault : ∀ i e, s.Fault (place i) e ↔ entry i e)
    {r : Except Failure Unit} (h : Reports (· < ·) entry r) :
    Reports Site.Before (s.FaultIn part) r := by
  refine h.entries place (fun {i j} hlt => ?_) fun x e => ⟨?_, ?_⟩
  · rw [Site.Before, hplace, hplace, Prod.lex_def] at hlt
    simpa using hlt
  · rintro ⟨hx, h⟩
    have hposition : x.position = (part, x.position.2) := Prod.ext hx rfl
    have hsite : x = place x.position.2 := Site.position_inj (hposition.trans (hplace _).symm)
    exact ⟨_, hsite, (hfault _ e).mp (hsite ▸ h)⟩
  · rintro ⟨i, rfl, h⟩
    exact ⟨congrArg Prod.fst (hplace i), (hfault i e).mpr h⟩

theorem reports_connectors :
    Reports Site.Before (s.FaultIn 1) (checkConnectors [] s.connectors) := by
  rw [checkConnectors_eq_scan [] [] fun _ => Iff.rfl]
  exact s.reports_part .connector (fun _ => rfl) s.fault_connector_iff
    (reports_scan connectorFault? [] s.connectors)

theorem reports_ports : Reports Site.Before (s.FaultIn 2) (checkPorts [] s.digitalPorts) := by
  rw [checkPorts_eq_scan [] [] fun _ => Iff.rfl]
  exact s.reports_part .port (fun _ => rfl) s.fault_port_iff
    (reports_scan portFault? [] s.digitalPorts)

theorem reports_steps : Reports Site.Before (s.FaultIn 3)
    (checkSteps (s.connectors.map (·.name)) 0 s.steps) := by
  have hscan := checkSteps_eq_scan (s.connectors.map (·.name)) [] s.steps
  rw [List.length_nil] at hscan
  rw [hscan]
  exact s.reports_part .step (fun _ => rfl) s.fault_step_iff (reports_scan _ [] s.steps)

def FaultFrom (part : ℕ) (x : Site) (e : Failure) : Prop := part ≤ x.position.1 ∧ s.Fault x e

theorem reports_andThen {part : ℕ} {r r' : Except Failure Unit}
    (h : Reports Site.Before (s.FaultIn part) r)
    (h' : Reports Site.Before (s.FaultFrom (part + 1)) r') :
    Reports Site.Before (s.FaultFrom part) (r >>= fun _ => r') := by
  refine h.andThen h' (fun {x y e e'} hx hy => ?_) fun x e => ?_
  · have hpart := hx.1
    have hlater := hy.1
    rw [Site.Before, Prod.lex_def]
    omega
  · rw [FaultIn, FaultFrom, FaultFrom, ← or_and_right]
    exact and_congr_left fun _ => by omega

/-- The parts are checked one after the other. -/
theorem reports_validate : Reports Site.Before s.Fault s.validate := by
  have hlast : s.FaultIn 3 = s.FaultFrom 3 := by
    funext x e
    have hparts : x.position.1 ≤ 3 := by cases x <;> simp [Site.position]
    exact propext (and_congr_left fun _ => by omega)
  have hall : s.Fault = s.FaultFrom 0 := by
    funext x e
    exact propext ⟨fun h => ⟨Nat.zero_le _, h⟩, And.right⟩
  have hparts := s.reports_andThen s.reports_settings <| s.reports_andThen s.reports_connectors <|
    s.reports_andThen s.reports_ports (hlast ▸ s.reports_steps)
  rw [hall]
  unfold validate
  cases hs : s.settings with
  | none => rwa [hs] at hparts
  | some settings => rwa [hs] at hparts

end Whole

section Verdicts

variable {s : Scenario}

/-- A place has one fault at most. -/
theorem Fault.unique {x : Site} {e e' : Failure} (h : s.Fault x e) (h' : s.Fault x e') :
    e = e' := by
  cases x with
  | settings =>
    obtain ⟨x, hx, he⟩ := (s.fault_settings_iff e).mp h
    obtain ⟨x', hx', he'⟩ := (s.fault_settings_iff e').mp h'
    obtain rfl : x = x' := Option.some.inj (hx.symm.trans hx')
    rw [← Settings.validate_eq_error_iff] at he he'
    exact Except.error.inj (he.symm.trans he')
  | connector i =>
    exact ((s.fault_connector_iff i e).mp h).unique _ ((s.fault_connector_iff i e').mp h')
  | port i => exact ((s.fault_port_iff i e).mp h).unique _ ((s.fault_port_iff i e').mp h')
  | step i => exact ((s.fault_step_iff i e).mp h).unique _ ((s.fault_step_iff i e').mp h')

theorem nodup_iff_take {α κ : Type} (key : α → κ) (xs : List α) :
    (xs.map key).Nodup ↔ ∀ i x, xs[i]? = some x → ¬∃ y ∈ xs.take i, key y = key x := by
  have htake {j : ℕ} {y : α} : y ∈ xs.take j ↔ ∃ i < j, xs[i]? = some y := by
    rw [List.mem_iff_getElem?]
    simp only [List.getElem?_take, Option.ite_none_right_eq_some]
  rw [List.nodup_iff_getElem?_ne_getElem?]
  simp only [List.length_map, List.getElem?_map]
  constructor
  · rintro h j x hx ⟨y, hy, hkey⟩
    obtain ⟨i, hij, hi⟩ := htake.mp hy
    exact h i j hij (List.getElem?_eq_some_iff.mp hx).1 (by rw [hi, hx, Option.map_some, hkey]; rfl)
  · intro h i j hij hj hsame
    rw [List.getElem?_eq_getElem (hij.trans hj), List.getElem?_eq_getElem hj] at hsame
    exact h j _ (List.getElem?_eq_getElem hj)
      ⟨_, htake.mpr ⟨i, hij, List.getElem?_eq_getElem _⟩, Option.some.inj hsame⟩

/-- A valid scenario is one without faults. -/
theorem valid_iff : s.Valid ↔ ∀ x e, ¬s.Fault x e := by
  constructor
  · intro hv x e h
    cases h with
    | settings hs he =>
      obtain ⟨hperiod, hdelay, hle⟩ := hv.settings hs
      cases he with
      | noPeriod h0 => exact hperiod h0
      | noDelay _ h0 => exact hdelay h0
      | shortDelay _ hshort => exact absurd hshort (UInt64.not_lt.mpr hle)
    | emptyName hc hempty => exact hv.named (List.mem_of_getElem? hc) hempty
    | sameName hc _ hsame => exact (nodup_iff_take _ _).mp hv.names _ _ hc hsame
    | samePort hd hsame => exact (nodup_iff_take _ _).mp hv.ports _ _ hd hsame
    | plug hstep hunknown =>
      obtain ⟨c, hc, hname⟩ := hv.plugs (List.mem_of_getElem? hstep)
      exact hunknown c hc hname
    | threshold hstep hparse =>
      obtain ⟨k, hk⟩ := hv.thresholds (List.mem_of_getElem? hstep)
      cases hparse.symm.trans hk
    | shortStorms hstep hparse =>
      obtain ⟨k, hk⟩ := hv.shortStorms (List.mem_of_getElem? hstep)
      cases hparse.symm.trans hk
  · intro hnone
    have hnamed (i : ℕ) {c : ConnectorSpec} (hc : s.connectors[i]? = some c) : c.name ≠ "" :=
      fun hempty => hnone _ _ (.emptyName hc hempty)
    have hparsed {α : Type} {r : Except Failure α} (h : ∀ e, r ≠ .error e) : ∃ k, r = .ok k := by
      cases r with
      | error e => exact absurd rfl (h e)
      | ok k => exact ⟨k, rfl⟩
    refine ⟨fun {x} hx => ?_, fun {c} hc => ?_, ?_, ?_, fun {name connected} hstep => ?_,
      fun {value} hstep => ?_, fun {value} hstep => ?_⟩
    · have hright (e : Failure) (he : x.Fault e) : False := hnone _ _ (.settings hx he)
      have hperiod : x.storm.detectPeriod ≠ 0 := fun h0 => hright _ (.noPeriod h0)
      have hdelay : x.storm.reenableDelay ≠ 0 := fun h0 => hright _ (.noDelay hperiod h0)
      exact ⟨hperiod, hdelay, UInt64.not_lt.mp fun hshort => hright _ (.shortDelay hdelay hshort)⟩
    · obtain ⟨i, hi⟩ := List.mem_iff_getElem?.mp hc
      exact hnamed i hi
    · exact (nodup_iff_take _ _).mpr fun i c hc hsame =>
        hnone _ _ (.sameName hc (hnamed i hc) hsame)
    · exact (nodup_iff_take _ _).mpr fun i d hd hsame => hnone _ _ (.samePort hd hsame)
    · obtain ⟨i, hi⟩ := List.mem_iff_getElem?.mp hstep
      by_contra hunknown
      exact hnone _ _ (.plug hi fun c hc hname => hunknown ⟨c, hc, hname⟩)
    · obtain ⟨i, hi⟩ := List.mem_iff_getElem?.mp hstep
      exact hparsed fun e he => hnone _ _ (.threshold hi he)
    · obtain ⟨i, hi⟩ := List.mem_iff_getElem?.mp hstep
      exact hparsed fun e he => hnone _ _ (.shortStorms hi he)

/-- Validation passes the valid scenarios, and of several faults it reports the first one. -/
theorem validate_reports_first_fault (s : Scenario) :
    (s.validate = .ok () ↔ s.Valid) ∧
      ∀ e, s.validate = .error e ↔
        ∃ x, s.Fault x e ∧ ∀ y e', s.Fault y e' → ¬y.Before x := by
  have hreports := s.reports_validate
  rw [valid_iff]
  cases hresult : s.validate with
  | ok u =>
    rw [hresult] at hreports
    exact ⟨iff_of_true rfl hreports, fun e => iff_of_false nofun fun ⟨x, hx, _⟩ => hreports x e hx⟩
  | error e₀ =>
    rw [hresult] at hreports
    obtain ⟨x₀, hx₀, hfirst₀⟩ := hreports
    refine ⟨iff_of_false nofun fun hnone => hnone x₀ e₀ hx₀, fun e => ⟨?_, ?_⟩⟩
    · rintro ⟨⟩
      exact ⟨x₀, hx₀, hfirst₀⟩
    · rintro ⟨x, hx, hfirst⟩
      obtain rfl : x = x₀ := Site.eq_of_not_before (hfirst₀ x e hx) (hfirst x₀ e₀ hx₀)
      rw [hx.unique hx₀]

end Verdicts

end Scenario

end HotplugDetect
