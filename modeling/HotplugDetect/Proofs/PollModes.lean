import HotplugDetect.Controller.Script
import HotplugDetect.Proofs.Lifecycle

/-! # Outputs on a pin that a storm disabled

A poll-init run reads the disabled pins before it waits for the lock on the display configuration,
and a storm may be handed over to polling meanwhile. Such a run sets an output to interrupts
although its pin delivers none, and nothing else does.
-/

namespace HotplugDetect

deriving instance DecidableEq for Connector

section Connectors

variable {σ : Type} {c : Connector σ} {p : Pin}

theorem Connector.isOn_of_pin (h : c.pin = some p) (pins : PinSet) :
    c.isOn pins = pins.contains p := by
  rw [isOn, h, Option.any_some]

theorem Connector.fixed_switched (c : Connector σ) (pins : PinSet) :
    (c.switched pins).name = c.name ∧ (c.switched pins).pin = c.pin ∧
      (c.switched pins).multiStream = c.multiStream ∧
        (c.switched pins).preference = c.preference := by
  unfold switched
  split <;> exact ⟨rfl, rfl, rfl, rfl⟩

theorem Connector.polled_switched (h : c.pin = some p) {pins : PinSet}
    (hp : pins.contains p = true) : (c.switched pins).polled ≠ .hpd := by
  unfold switched listensOn
  rw [isOn_of_pin h, hp, Bool.and_true]
  split
  · exact PollMode.noConfusion
  · rename_i hc
    simpa using hc

theorem Connector.switched_of_not_contains (h : c.pin = some p) {pins : PinSet}
    (hp : pins.contains p = false) : c.switched pins = c := by
  unfold switched listensOn
  rw [isOn_of_pin h, hp, Bool.and_false]
  rfl

theorem Connector.fixed_returned (c : Connector σ) (returns : Pin → Bool) :
    (c.returned returns).name = c.name ∧ (c.returned returns).pin = c.pin ∧
      (c.returned returns).multiStream = c.multiStream ∧
        (c.returned returns).preference = c.preference := by
  unfold returned
  split <;> exact ⟨rfl, rfl, rfl, rfl⟩

theorem Connector.returned_of_not (h : c.pin = some p) {returns : Pin → Bool}
    (hp : returns p = false) : c.returned returns = c := by
  unfold returned
  rw [h, Option.any_some, hp, Bool.and_false]
  rfl

/-- After an initialization, a connector listens if that is its choice and its pin was not
disabled. -/
theorem Connector.polled_reinitialized (h : c.pin = some p) (hc : c.multiStream = false)
    (hasHotplug forced : Bool) (disabled : PinSet) :
    (c.reinitialized hasHotplug forced disabled).polled = .hpd ↔
      disabled.contains p = false ∧ c.initialMode hasHotplug forced = .hpd := by
  unfold reinitialized staysPolling
  rw [isOn_of_pin h, hc]
  cases hp : disabled.contains p <;> by_cases hm : c.initialMode hasHotplug forced = .hpd <;>
    simp [hm]

end Connectors

namespace Controller

variable {ρ : Type}

/-- The poll-init run that ended last, since a storm on the pin was last handed over to polling: the
pins that were disabled when it read them, and whether polling was forced. -/
def lastReading [Probe ρ] (p : Pin) (s : Controller ρ) (as : List Action) :
    Option (PinSet × Bool) :=
  ((s.trail as).reverse.takeWhile fun x => !x.1.mitigates p x.2).findSome? fun x =>
    (x.1.endedReading x.2).map fun disabled => (disabled, x.1.pollForced)

theorem lastReading_concat [Probe ρ] (p : Pin) (s : Controller ρ) (as : List Action) (a : Action) :
    lastReading p s (as ++ [a]) =
      if (s.run as).mitigates p a then none
      else (((s.run as).endedReading a).map fun disabled => (disabled, (s.run as).pollForced)).or
        (lastReading p s as) := by
  unfold lastReading
  rw [trail_concat, List.reverse_concat, List.takeWhile_cons]
  cases hm : (s.run as).mitigates p a with
  | true => rfl
  | false =>
    simp only [Bool.not_false, if_true, List.findSome?_cons, Bool.false_eq_true, if_false]
    cases (s.run as).endedReading a <;> rfl

/-- As long as the mark of a storm is on the pin, its connectors listen to it only by the choice of
the poll-init run that ended last. -/
def Accounted (w : Watch) (p : Pin) (last : Option (PinSet × Bool)) : Prop :=
  (w.stats p).mitigated = true → ∀ c ∈ w.connectors, c.multiStream = false → c.pin = some p →
    (c.polled = .hpd ↔ ∃ disabled forced, last = some (disabled, forced) ∧
      disabled.contains p = false ∧ c.initialMode w.hasHotplug forced = .hpd)

theorem Accounted.kept {w w' : Watch} {p : Pin} {last : Option (PinSet × Bool)}
    (h : Accounted w p last)
    (hm : (w'.stats p).mitigated = true → (w.stats p).mitigated = true)
    (hc : w'.connectors = w.connectors) (hh : w'.hasHotplug = w.hasHotplug) :
    Accounted w' p last := by
  intro hmark
  rw [hc, hh]
  exact h (hm hmark)

theorem Accounted.recovered {w : Watch} {p : Pin} {last : Option (PinSet × Bool)}
    (h : Accounted w p last) : Accounted w.recovered p last := by
  intro hmark c hc hs hp
  have hstays : w.recovers p = false ∧ (w.stats p).mitigated = true := by
    rcases w.stats_recovered p with ⟨hr, hw⟩ | ⟨-, hw⟩
    · rw [hw] at hmark
      exact ⟨hr, hmark⟩
    · rw [hw] at hmark
      cases hmark
  obtain ⟨d, hd, rfl⟩ := List.mem_map.mp hc
  obtain ⟨-, hpin, hstream, -⟩ := d.fixed_returned w.recovers
  rw [hpin] at hp
  rw [hstream] at hs
  rw [Connector.returned_of_not hp hstays.1]
  exact h hstays.2 d hd hs hp

theorem Accounted.mitigated {w : Watch} {p : Pin} {last : Option (PinSet × Bool)}
    (h : Accounted w p last) :
    Accounted w.mitigated p (if (w.stats p).state = .autoDisabled then none else last) := by
  intro hmark c hc hs hp
  obtain ⟨d, hd, rfl⟩ := List.mem_map.mp hc
  obtain ⟨-, hpin, hstream, -⟩ := d.fixed_switched (w.pinsIn .autoDisabled)
  rw [hpin] at hp
  rw [hstream] at hs
  rcases (w.stats p).handedOver_cases with ⟨hstorm, hx⟩ | ⟨hstorm, -⟩
  · have hkept : w.mitigated.stats p = w.stats p := hx
    rw [hkept] at hmark
    rw [if_neg hstorm, Connector.switched_of_not_contains hp (by simp [hstorm])]
    exact h hmark d hd hs hp
  · have hin : (w.pinsIn .autoDisabled).contains p = true := by simp [hstorm]
    rw [if_pos hstorm]
    simp [Connector.polled_switched hp hin]

theorem accounted_reinitialized (w : Watch) (p : Pin) (disabled : PinSet) :
    Accounted (w.reinitialized disabled) p (some (disabled, w.forced)) := by
  intro _ c hc hs hp
  obtain ⟨d, hd, rfl⟩ := List.mem_map.mp hc
  rw [Connector.polled_reinitialized (c := d) hp hs]
  constructor
  · rintro ⟨hdisabled, hmode⟩
    exact ⟨disabled, w.forced, rfl, hdisabled, hmode⟩
  · rintro ⟨_, _, heq, hdisabled, hmode⟩
    cases heq
    exact ⟨hdisabled, hmode⟩

variable [Probe ρ]

omit [Probe ρ] in
theorem endedReading_eq_some {s : Controller ρ} {a : Action} {disabled : PinSet}
    (h : s.endedReading a = some disabled) :
    (∃ timerFirst, a = .move .pollInit timerFirst) ∧ s.watch.glimpse = some disabled := by
  unfold endedReading at h
  split at h
  · split at h
    · exact ⟨⟨_, rfl⟩, h⟩
    · cases h
  · cases h

theorem Accounted.act_of_mitigates {s : Controller ρ} {p : Pin} {last : Option (PinSet × Bool)}
    (h : Accounted s.watch p last) (hs : s.watch.Sound) {a : Action}
    (hm : s.mitigates p a = true) : Accounted (s.act a).watch p none := by
  unfold mitigates at hm
  split at hm
  · rename_i timerFirst
    obtain ⟨hstorm, hmark⟩ := (Bool.and_eq_true _ _).mp hm
    have hstate : (s.watch.stats p).state = .autoDisabled := of_decide_eq_true hstorm
    have he := s.effect_act (.move .generic timerFirst)
    have hnew : ((s.act (.move .generic timerFirst)).watch.stats p).mitigated = true := hmark
    generalize (s.act (.move .generic timerFirst)).watch = w at he hnew
    cases he with
    | interrupts _ =>
      rw [hs.mitigated_foldl_interrupted] at hnew
      have := hs p hnew
      rw [hstate] at this
      cases this
    | mitigation _ =>
      have hafter := h.mitigated
      rwa [if_pos hstate] at hafter
    | configuration hk => cases hk
    | knob hk _ => cases hk
    | cancellation _ _ hd => cases hd
  · cases hm

theorem Accounted.act_of_not_mitigates {s : Controller ρ} {p : Pin}
    {last : Option (PinSet × Bool)} (h : Accounted s.watch p last) (hs : s.watch.Sound)
    {a : Action} (hm : s.mitigates p a = false) (hr : s.endedReading a = none) :
    Accounted (s.act a).watch p last := by
  have he := s.effect_act a
  have hmarks : ((s.act a).watch.stats p).mitigated = true →
      (s.watch.stats p).mitigated = true := by
    intro hmark
    rcases he.mitigated hs hmark with hbefore | ⟨hstate, ⟨timerFirst, rfl⟩, -⟩
    · exact hbefore
    · rw [mitigates_move hstate hmark] at hm
      cases hm
  obtain ⟨hhotplug, -, -, -⟩ := he.fixed
  generalize hw : (s.act a).watch = w at he hmarks hhotplug ⊢
  cases he with
  | interrupts _ => exact h.kept hmarks (connectors_foldl_interrupted _ _) hhotplug
  | mitigation _ =>
    have hstate : (s.watch.stats p).state ≠ .autoDisabled := by
      intro hstate
      have hmark : ((s.watch.stats p).handedOver).mitigated = true := by
        rw [PinStats.handedOver, if_pos hstate]
      rw [mitigates_move hstate (by rw [hw]; exact hmark)] at hm
      cases hm
    have hafter := h.mitigated
    rwa [if_neg hstate] at hafter
  | reinitialization hd =>
    rw [hr] at hd
    cases hd
  | recovery _ _ _ =>
    exact Accounted.recovered (w := s.watch.dropping true false) (h.kept id rfl rfl)
  | @knob _ _ config _ _ =>
    exact Accounted.recovered (w := (s.watch.configured config).dropping true false)
      (h.kept id rfl rfl)
  | flush _ =>
    exact Accounted.recovered (w := s.watch.dropping true false) (h.kept id rfl rfl)
  | _ => exact h.kept hmarks rfl rfl

theorem Accounted.act {s : Controller ρ} {p : Pin} {last : Option (PinSet × Bool)}
    (h : Accounted s.watch p last) (hs : s.watch.Sound) (a : Action) :
    Accounted (s.act a).watch p
      (if s.mitigates p a then none
        else ((s.endedReading a).map fun disabled => (disabled, s.pollForced)).or last) := by
  cases hr : s.endedReading a with
  | some disabled =>
    obtain ⟨⟨timerFirst, rfl⟩, -⟩ := endedReading_eq_some hr
    have hw : (s.act (.move .pollInit timerFirst)).watch = s.watch.reinitialized disabled :=
      watch_movePollInit hr
    rw [hw]
    exact accounted_reinitialized s.watch p disabled
  | none =>
    cases hm : s.mitigates p a with
    | true => exact h.act_of_mitigates hs hm
    | false => exact h.act_of_not_mitigates hs hm hr

theorem accounted_run {s : Controller ρ} {p : Pin} (h : Accounted s.watch p none)
    (hs : s.watch.Sound) (as : List Action) :
    Accounted (s.run as).watch p (lastReading p s as) := by
  induction as using List.reverseRecOn with
  | nil => exact h
  | append_singleton as a ih =>
    rw [run_concat, lastReading_concat]
    exact ih.act (sound_run hs as) a

theorem accounted_run_ofSettings (settings : Settings) (connectors : ConnectorList ρ)
    (ports : Port → Option PulseHandler) (as : List Action) (p : Pin) :
    Accounted ((ofSettings settings connectors ports).run as).watch p
      (lastReading p (ofSettings settings connectors ports) as) := by
  refine accounted_run ?_ (sound_ofSettings settings connectors ports) as
  intro hmark
  rw [stats_ofSettings] at hmark
  cases hmark

/-- A connector on a pin that a storm disabled listens to it just if the poll-init run that ended
last, since the storm was handed over to polling, had read the pin as one that is not disabled. -/
theorem listens_on_disabled_pin_iff (settings : Settings) (connectors : ConnectorList ρ)
    (ports : Port → Option PulseHandler) (as : List Action) (p : Pin) (c : Connector ρ)
    (hc : c ∈ ((ofSettings settings connectors ports).run as).connectors)
    (hstream : c.multiStream = false) (hpin : c.pin = some p)
    (hmark : (((ofSettings settings connectors ports).run as).table.get p).mitigated = true) :
    c.polled = .hpd ↔ ∃ disabled forced,
      lastReading p (ofSettings settings connectors ports) as = some (disabled, forced) ∧
        disabled.contains p = false ∧
          c.initialMode settings.platform.hasHotplug forced = .hpd := by
  have h := accounted_run_ofSettings settings connectors ports as p
  obtain ⟨hhotplug, -, -, -⟩ := fixed_run (ofSettings settings connectors ports) as
  rw [Accounted, hhotplug] at h
  exact h hmark c.bare (List.mem_map_of_mem hc) hstream hpin

/-- A storm on the pin of a display is handed over to polling while an initialization waits for the
lock. -/
def overtaken : List Action :=
  let storm : Interrupt := ⟨.ofList [.portB], .ofList [.portB]⟩
  let serve (j : Job) : List Action := [.move j true, .move j true]
  [.start] ++ Job.all.flatMap serve ++ [.hold 0, .init] ++ serve .pollInit ++
    List.replicate 6 (.interrupt storm) ++ serve .generic ++
    [.release 0, .move .pollInit true, .move .generic true] ++ Job.all.flatMap serve

def display : Connector Script :=
  .make "HDMI-A-1" (some .portB) .unset false { answers := [], interrupt := ⟨∅, ∅⟩ }

theorem listens_on_disabled_pin_overtaken :
    ∃ disabled forced,
      lastReading .portB (ofSettings {} [display] fun _ => none) overtaken =
        some (disabled, forced) ∧ disabled.contains .portB = false ∧
          display.initialMode true forced = .hpd :=
  (listens_on_disabled_pin_iff {} [display] (fun _ => none) overtaken .portB
    { display with polled := .hpd } (by decide +kernel) rfl rfl (by decide +kernel)).mp rfl

/-- Nothing is pending but perhaps the recovery, and no run is in flight. -/
def Quiescent (s : Controller ρ) : Prop :=
  s.digital.pending = false ∧ s.generic.pending = false ∧ s.pollInit.pending = false ∧
    ∀ j ∈ Job.all, (s.lane j).run.holder = none

instance (s : Controller ρ) : Decidable s.Quiescent :=
  inferInstanceAs (Decidable (_ ∧ _ ∧ _ ∧ _))

/-- Such a display is not watched at all, although nothing is left to do. -/
theorem overtaken_unmonitored :
    let s := (ofSettings {} [display] fun _ => none).run overtaken
    s.Quiescent ∧ s.table.state .portB = .disabled ∧ (s.table.get .portB).mitigated = true ∧
      ∃ c ∈ s.connectors, c.multiStream = false ∧ c.pin = some .portB ∧ c.polled = .hpd := by
  decide +kernel

/-- A run in flight, and the one that ended last, know that the pin is disabled. -/
def Covered (w : Watch) (p : Pin) (last : Option (PinSet × Bool)) : Prop :=
  (w.stats p).mitigated = true →
    (∀ disabled, w.glimpse = some disabled → disabled.contains p = true) ∧
      ∀ disabled forced, last = some (disabled, forced) → disabled.contains p = true

theorem Effect.glimpse_eq_some {s : Controller ρ} {a : Action} {w : Watch} (he : s.Effect a w)
    {disabled : PinSet} (hg : w.glimpse = some disabled) :
    s.watch.glimpse = some disabled ∨
      (∃ timerFirst, a = .move .pollInit timerFirst) ∧ disabled = s.watch.pinsIn .disabled := by
  cases he with
  | interrupts _ =>
    obtain ⟨stats, h⟩ := fixed_foldl_interrupted (s.interruptsOf a) s.watch
    rw [h] at hg
    exact .inl hg
  | glimpse _ => exact .inr ⟨⟨_, rfl⟩, (Option.some_inj.mp hg).symm⟩
  | reinitialization _ => cases hg
  | cancellation recovery run _ =>
    cases run with
    | true => cases hg
    | false => exact .inl hg
  | _ => exact .inl hg

theorem Covered.act {s : Controller ρ} {p : Pin} {last : Option (PinSet × Bool)}
    (h : Covered s.watch p last) (hs : s.watch.Sound) {a : Action}
    (hfree : s.mitigates p a = true → s.watch.glimpse = none) :
    Covered (s.act a).watch p
      (if s.mitigates p a then none
        else ((s.endedReading a).map fun disabled => (disabled, s.pollForced)).or last) := by
  intro hmark
  have he := s.effect_act a
  rcases he.mitigated hs hmark with hbefore | ⟨hstate, ⟨timerFirst, rfl⟩, -⟩
  · obtain ⟨hglimpse, hlast⟩ := h hbefore
    have hstate : (s.watch.stats p).state = .disabled := hs p hbefore
    have hstorm : s.table.state p ≠ .autoDisabled := by
      rw [show s.table.state p = .disabled from hstate]
      decide
    have hn := not_mitigates hstorm a
    constructor
    · intro disabled hg
      rcases he.glimpse_eq_some hg with hg | ⟨-, rfl⟩
      · exact hglimpse disabled hg
      · simp [hstate]
    · intro disabled forced hl
      rw [hn] at hl
      cases hr : s.endedReading a with
      | some read =>
        obtain ⟨-, hg⟩ := endedReading_eq_some hr
        simp only [hr, Bool.false_eq_true, if_false, Option.map_some, Option.some_or,
          Option.some.injEq, Prod.mk.injEq] at hl
        rw [← hl.1]
        exact hglimpse read hg
      | none =>
        simp only [hr, Bool.false_eq_true, if_false, Option.map_none, Option.none_or] at hl
        exact hlast disabled forced hl
  · have hm := mitigates_move hstate hmark
    constructor
    · intro disabled hg
      rcases he.glimpse_eq_some hg with hg | ⟨⟨_, ha⟩, -⟩
      · rw [hfree hm] at hg
        cases hg
      · cases ha
    · intro disabled forced hl
      rw [hm] at hl
      cases hl

/-- No storm on the pin is handed over to polling while a poll-init run is in flight. -/
def Separate (s : Controller ρ) (p : Pin) (as : List Action) : Prop :=
  ∀ x ∈ s.trail as, x.1.mitigates p x.2 = true → x.1.pollInit.rest? = none

theorem covered_run {s : Controller ρ} {p : Pin} (h : Covered s.watch p none)
    (hs : s.watch.Sound) {as : List Action} (hsep : s.Separate p as) :
    Covered (s.run as).watch p (lastReading p s as) := by
  induction as using List.reverseRecOn with
  | nil => exact h
  | append_singleton as a ih =>
    unfold Separate at hsep ih
    rw [trail_concat] at hsep
    rw [run_concat, lastReading_concat]
    refine (ih fun x hx => hsep x (List.mem_append_left _ hx)).act (sound_run hs as) ?_
    intro hm
    have hidle := hsep (s.run as, a) (List.mem_append_right _ (List.mem_singleton_self _)) hm
    exact congrArg (Option.map (·.pins)) hidle

omit [Probe ρ] in
theorem Covered.polled {s : Controller ρ} {p : Pin} {last : Option (PinSet × Bool)}
    (h : Covered s.watch p last) (haccount : Accounted s.watch p last) {c : Connector ρ}
    (hc : c ∈ s.connectors) (hstream : c.multiStream = false) (hpin : c.pin = some p)
    (hmark : (s.table.get p).mitigated = true) : c.polled ≠ .hpd := by
  intro hpolled
  obtain ⟨disabled, forced, hlast, hread, -⟩ :=
    (haccount hmark c.bare (List.mem_map_of_mem hc) hstream hpin).mp hpolled
  have hin := (h hmark).2 disabled forced hlast
  rw [hread] at hin
  cases hin

/-- As long as the two are kept apart, every output on a pin that a storm disabled is polled. -/
theorem polls_on_disabled_pin (settings : Settings) (connectors : ConnectorList ρ)
    (ports : Port → Option PulseHandler) (as : List Action) (p : Pin) (c : Connector ρ)
    (hsep : (ofSettings settings connectors ports).Separate p as)
    (hc : c ∈ ((ofSettings settings connectors ports).run as).connectors)
    (hstream : c.multiStream = false) (hpin : c.pin = some p)
    (hmark : (((ofSettings settings connectors ports).run as).table.get p).mitigated = true) :
    c.polled ≠ .hpd := by
  have haccount := accounted_run_ofSettings settings connectors ports as p
  have hcovered : Covered ((ofSettings settings connectors ports).run as).watch p
      (lastReading p (ofSettings settings connectors ports) as) := by
    refine covered_run ?_ (sound_ofSettings settings connectors ports) hsep
    intro hm
    rw [stats_ofSettings] at hm
    cases hm
  exact hcovered.polled haccount hc hstream hpin hmark

end Controller

end HotplugDetect
