import HotplugDetect.Controller.Script
import HotplugDetect.Proofs.Lifecycle
import HotplugDetect.Proofs.Storm.Detector

/-! # Storm detection along a run

Whatever happens to a pin between its pulses, its window and its counter are those of the detector,
and only an initialization or a new setting clears the counter.
-/

namespace HotplugDetect.Controller

variable {ρ : Type}

section Pulses

/-- The pulse that an interrupt brings to a pin. Without a digital port it is a long one. -/
def pulse? (s : Controller ρ) (p : Pin) (i : Interrupt) : Option Pulse :=
  if i.fired.contains p then
    let long := (s.digitalPortForPin p).isNone || i.long.contains p
    some
      { instant := s.now
        long
        threshold := s.table.config.threshold.toNat
        counted := s.table.state p = .enabled && (long || s.table.config.shortStorms)
        storm := s.table.state p = .enabled && (s.interrupt i).table.state p = .autoDisabled }
  else none

def pulsesOf (s : Controller ρ) (p : Pin) (is : List Interrupt) : List Pulse :=
  (s.handling is).filterMap fun x => x.1.pulse? p x.2

def pulses [Probe ρ] (s : Controller ρ) (p : Pin) (as : List Action) : List Pulse :=
  (s.trail as).flatMap fun x => x.1.pulsesOf p (x.1.interruptsOf x.2)

theorem pulses_append [Probe ρ] (s : Controller ρ) (p : Pin) (as bs : List Action) :
    s.pulses p (as ++ bs) = s.pulses p as ++ (s.run as).pulses p bs := by
  rw [pulses, trail_append, List.flatMap_append]
  rfl

theorem pulses_concat [Probe ρ] (s : Controller ρ) (p : Pin) (as : List Action) (a : Action) :
    s.pulses p (as ++ [a]) =
      s.pulses p as ++ (s.run as).pulsesOf p ((s.run as).interruptsOf a) := by
  rw [pulses_append]
  exact congrArg _ (List.flatMap_singleton _ _)

theorem pulsesOf_cons (s : Controller ρ) (p : Pin) (i : Interrupt) (is : List Interrupt) :
    s.pulsesOf p (i :: is) = (s.pulse? p i).toList ++ (s.interrupt i).pulsesOf p is := by
  have h : s.handling (i :: is) = (s, i) :: (s.interrupt i).handling is := rfl
  rw [pulsesOf, h, List.filterMap_cons]
  cases s.pulse? p i <;> simp [pulsesOf]

theorem pulse?_eq (s : Controller ρ) (p : Pin) (i : Interrupt) :
    s.pulse? p i =
      if i.fired.contains p then
        some ((s.watch.stats p).shown s.watch.config (s.watch.longOn i p) s.watch.now)
      else none := by
  unfold pulse?
  split
  · rename_i hf
    have hlong : ((s.digitalPortForPin p).isNone || i.long.contains p) = s.watch.longOn i p := by
      rw [← Option.not_isSome]
      rfl
    have hafter : (s.interrupt i).table.state p =
        ((s.watch.stats p).pulsed s.watch.config (s.watch.longOn i p) s.watch.now).state := by
      have hw : (s.interrupt i).table.get p = ((s.watch.interrupted i).stats p) := by
        rw [← watch_interrupt]
        rfl
      rw [PinTable.state, hw, Watch.interrupted]
      simp only [hf, if_true]
    simp only [hlong, hafter]
    rfl
  · rfl

end Pulses

section Window

/-- What holds of the pulses on a pin and its statistics, if every pulse preserves it, is still so
after a series of interrupts. -/
theorem holds_foldl_interrupted {I : List Pulse → PinStats → Prop} (p : Pin) (is : List Interrupt)
    (s : Controller ρ)
    (hpulse : ∀ h x long, I h x →
      I (h ++ [x.shown s.watch.config long s.watch.now]) (x.pulsed s.watch.config long s.watch.now))
    {h : List Pulse} (hI : I h (s.watch.stats p)) :
    I (h ++ s.pulsesOf p is) ((is.foldl Watch.interrupted s.watch).stats p) := by
  induction is generalizing s h with
  | nil => simpa [pulsesOf, handling] using hI
  | cons i is ih =>
    have hw := s.watch_interrupt i
    have hconfig : (s.interrupt i).watch.config = s.watch.config := by rw [hw]; rfl
    have hnow : (s.interrupt i).watch.now = s.watch.now := by rw [hw]; rfl
    rw [pulsesOf_cons, ← List.append_assoc, List.foldl_cons, ← hw]
    refine ih (s.interrupt i) (by rwa [hconfig, hnow]) ?_
    rw [hw, pulse?_eq, Watch.interrupted]
    simp only
    split
    · exact hpulse h _ _ hI
    · simpa using hI

variable [Probe ρ]

omit [Probe ρ] in
theorem windowStart_recovered (w : Watch) (p : Pin) :
    (w.recovered.stats p).windowStart = (w.stats p).windowStart ∧
      (w.recovered.stats p).count = (w.stats p).count := by
  rcases w.stats_recovered p with ⟨-, hp⟩ | ⟨-, hp⟩ <;> rw [hp] <;> exact ⟨rfl, rfl⟩

theorem interruptsOf_knob {s : Controller ρ} {a : Action} {r : Nat × StormConfig}
    (h : s.knob? a = some r) : s.interruptsOf a = [] := by
  cases a with
  | setThreshold client k => rfl
  | setShortStorms client k => rfl
  | _ => cases h

theorem interruptsOf_claimed {s : Controller ρ} (h : s.generic.seek.2 = .claimed)
    (timerFirst : Bool) : s.interruptsOf (.move .generic timerFirst) = [] := by
  have hs : s.generic.seek = (s.generic.seek.1, .claimed) := Prod.ext rfl h
  obtain ⟨hw, -, -⟩ := Work.seek_claimed hs
  have hrest : s.generic.rest? = none := by rw [Lane.rest?, hw]
  rw [interruptsOf, hrest]

/-- Only interrupts move the window of a pin or let its counter grow. -/
theorem Effect.window {s : Controller ρ} {a : Action} {w : Watch} (he : s.Effect a w) (p : Pin) :
    w = (s.interruptsOf a).foldl Watch.interrupted s.watch ∨
      s.interruptsOf a = [] ∧ (w.stats p).windowStart = (s.watch.stats p).windowStart ∧
        ((w.stats p).count = (s.watch.stats p).count ∨
          (w.stats p).count = 0 ∧ (a = .init ∨ (s.knob? a).isSome = true)) := by
  cases he with
  | interrupts _ => exact .inl rfl
  | init => exact .inr ⟨rfl, rfl, .inr ⟨rfl, .inl rfl⟩⟩
  | forcePolling on => exact .inr ⟨rfl, rfl, .inl rfl⟩
  | disable q =>
    rcases s.watch.stats_disabled q p with hp | ⟨-, -, hp⟩ <;> rw [hp] <;>
      exact .inr ⟨rfl, rfl, .inl rfl⟩
  | enable q =>
    rcases s.watch.stats_enabled q p with hp | ⟨-, hp⟩ <;> rw [hp] <;>
      exact .inr ⟨rfl, rfl, .inl rfl⟩
  | advance instant => exact .inr ⟨rfl, rfl, .inl rfl⟩
  | mitigation hc =>
    have hno := interruptsOf_claimed hc
    have hstats : s.watch.mitigated.stats p = (s.watch.stats p).handedOver := rfl
    rw [hstats]
    rcases (s.watch.stats p).handedOver_cases with ⟨-, hx⟩ | ⟨-, hx⟩ <;> rw [hx] <;>
      exact .inr ⟨hno _, rfl, .inl rfl⟩
  | glimpse _ => exact .inr ⟨rfl, rfl, .inl rfl⟩
  | reinitialization _ => exact .inr ⟨rfl, rfl, .inl rfl⟩
  | recovery _ _ _ =>
    obtain ⟨hstart, hcount⟩ := windowStart_recovered (s.watch.dropping true false) p
    exact .inr ⟨rfl, hstart, .inl hcount⟩
  | configuration hk => exact .inr ⟨interruptsOf_knob hk, rfl, .inr ⟨rfl, .inr (by rw [hk]; rfl)⟩⟩
  | @knob _ _ config hk _ =>
    obtain ⟨hstart, hcount⟩ :=
      windowStart_recovered ((s.watch.configured config).dropping true false) p
    exact .inr ⟨interruptsOf_knob hk, hstart, .inr ⟨hcount, .inr (by rw [hk]; rfl)⟩⟩
  | flush _ =>
    obtain ⟨hstart, hcount⟩ := windowStart_recovered (s.watch.dropping true false) p
    exact .inr ⟨rfl, hstart, .inl hcount⟩
  | cancellation recovery run hd =>
    refine .inr ⟨?_, rfl, .inl rfl⟩
    cases a with
    | cancelAll client => rfl
    | shutdown client => rfl
    | resume client => rfl
    | _ => cases hd

omit [Probe ρ] in
theorem period_knob {s : Controller ρ} {a : Action} {client : Nat} {config : StormConfig}
    (h : s.knob? a = some (client, config)) : config.period = s.table.config.period := by
  cases a with
  | setThreshold client k =>
    simp only [knob?] at h
    split at h
    · cases h
    · cases h
      rfl
  | setShortStorms client k =>
    simp only [knob?] at h
    split at h
    · cases h
    · cases h
      rfl
  | _ => cases h

/-- The knobs alone change the settings, and never the period. -/
theorem Effect.config {s : Controller ρ} {a : Action} {w : Watch} (he : s.Effect a w) :
    w.config.period = s.watch.config.period ∧
      (w.config = s.watch.config ∨ (s.knob? a).isSome = true) := by
  cases he with
  | interrupts _ =>
    obtain ⟨stats, h⟩ := fixed_foldl_interrupted (s.interruptsOf a) s.watch
    rw [h]
    exact ⟨rfl, .inl rfl⟩
  | configuration hk => exact ⟨period_knob hk, .inr (by rw [hk]; rfl)⟩
  | knob hk _ => exact ⟨period_knob hk, .inr (by rw [hk]; rfl)⟩
  | _ => exact ⟨rfl, .inl rfl⟩

end Window

section Runs

variable [Probe ρ]

omit [Probe ρ] in
theorem now_foldl_interrupted (w : Watch) (is : List Interrupt) :
    (is.foldl Watch.interrupted w).now = w.now := by
  obtain ⟨stats, h⟩ := fixed_foldl_interrupted is w
  rw [h]

theorem period_run (s : Controller ρ) (as : List Action) :
    (s.run as).watch.config.period = s.watch.config.period := by
  induction as using List.reverseRecOn with
  | nil => rfl
  | append_singleton as a ih =>
    rw [run_concat]
    exact (effect_act _ a).config.1.trans ih

/-- Along a run, counters are backed by the pulses in their windows, and so are storms. -/
theorem explained_run {s : Controller ρ} {p : Pin}
    (hs : (s.watch.stats p).Explained [] s.watch.now) (as : List Action) :
    ((s.run as).watch.stats p).Explained (s.pulses p as) (s.run as).watch.now ∧
      Pulse.Justified s.watch.config.period (s.pulses p as) := by
  induction as using List.reverseRecOn with
  | nil => exact ⟨hs, Pulse.justified_nil _⟩
  | append_singleton as a ih =>
    have hperiod := period_run s as
    have he := effect_act (s.run as) a
    rw [run_concat, pulses_concat]
    rcases he.window p with hw | ⟨hno, hstart, hcount⟩
    · rw [hw, now_foldl_interrupted]
      refine holds_foldl_interrupted
        (I := fun h x => x.Explained h (s.run as).watch.now ∧ Pulse.Justified _ h) p _ _ ?_ ih
      rintro h x long ⟨hx, hj⟩
      refine ⟨hx.pulsed _ long, hj.concat fun hstorm => ?_⟩
      rw [← hperiod]
      exact hx.storm _ long hstorm
    · obtain ⟨hx, hj⟩ := ih
      rw [hno]
      simp only [pulsesOf, handling, List.filterMap_nil, List.append_nil]
      refine ⟨(hx.kept hstart ?_).later he.now_le, hj⟩
      rcases hcount with hcount | ⟨hcount, -⟩
      · rw [hcount]
      · rw [hcount]
        exact Nat.zero_le _

def Undisturbed (s : Controller ρ) (as : List Action) : Prop :=
  ∀ x ∈ s.trail as, x.2 ≠ .init ∧ x.1.knob? x.2 = none

theorem Undisturbed.of_concat {s : Controller ρ} {as : List Action} {a : Action}
    (h : s.Undisturbed (as ++ [a])) :
    s.Undisturbed as ∧ a ≠ .init ∧ (s.run as).knob? a = none := by
  unfold Undisturbed at h ⊢
  rw [trail_concat] at h
  constructor
  · intro x hx
    exact h x (List.mem_append_left _ hx)
  · exact h (s.run as, a) (List.mem_append_right _ (List.mem_singleton_self _))

theorem Undisturbed.config {s : Controller ρ} {as : List Action} (h : s.Undisturbed as) :
    (s.run as).watch.config = s.watch.config := by
  induction as using List.reverseRecOn with
  | nil => rfl
  | append_singleton as a ih =>
    obtain ⟨has, -, hk⟩ := h.of_concat
    rw [run_concat]
    rcases (effect_act (s.run as) a).config.2 with hc | hc
    · exact hc.trans (ih has)
    · rw [hk] at hc
      cases hc

theorem limited_run {s : Controller ρ} {p : Pin} {a : Nat}
    (hs : (s.watch.stats p).Limited s.watch.config.threshold.toNat s.watch.config.period a []
      s.watch.now)
    (hpos : 0 < s.watch.config.threshold.toNat)
    (hmax : s.watch.config.threshold.toNat < UInt32.size - 1) {as : List Action}
    (h : s.Undisturbed as) :
    ((s.run as).watch.stats p).Limited s.watch.config.threshold.toNat s.watch.config.period a
      (s.pulses p as) (s.run as).watch.now := by
  induction as using List.reverseRecOn with
  | nil => exact hs
  | append_singleton as b ih =>
    obtain ⟨has, hinit, hk⟩ := h.of_concat
    have hconfig := has.config
    have he := effect_act (s.run as) b
    rw [run_concat, pulses_concat]
    rcases he.window p with hw | ⟨hno, hstart, hcount⟩
    · rw [hw, now_foldl_interrupted]
      refine holds_foldl_interrupted
        (I := fun h x => x.Limited s.watch.config.threshold.toNat s.watch.config.period a h
          (s.run as).watch.now) p _ _ ?_ (ih has)
      intro h x long hx
      rw [hconfig]
      exact hx.pulsed hpos hmax long
    · rw [hno]
      simp only [pulsesOf, handling, List.filterMap_nil, List.append_nil]
      rcases hcount with hcount | ⟨-, hd | hd⟩
      · exact ((ih has).kept hstart hcount).later he.now_le
      · exact absurd hd hinit
      · rw [hk] at hd
        cases hd

/-- No storm is declared for less than the threshold within one window, and no more than twice the
threshold gets through within the length of a window. -/
theorem storm_detection (settings : Settings) (connectors : ConnectorList ρ)
    (ports : Port → Option PulseHandler) (p : Pin) :
    let s := ofSettings settings connectors ports
    let period := settings.storm.detectPeriod.toNat
    (∀ as, Pulse.Justified period (s.pulses p as)) ∧
      ∀ before during a,
        let t := s.run before
        let threshold := t.table.config.threshold.toNat
        0 < threshold → threshold < UInt32.size - 1 → t.Undisturbed during →
          Pulse.admitted (t.pulses p during) a (a + period) ≤ 2 * threshold := by
  intro s period
  have hexplained : (s.watch.stats p).Explained [] s.watch.now := by
    intro start h
    rw [stats_ofSettings] at h
    cases h
  have hperiod (as : List Action) : (s.run as).watch.config.period = period := period_run s as
  refine ⟨fun as => (explained_run hexplained as).2, ?_⟩
  intro before during a t threshold hpos hmax h
  have hopened : ∀ start, (t.watch.stats p).windowStart = some start → start ≤ t.watch.now :=
    fun start hs => ((explained_run hexplained before).1 start hs).1
  rw [← hperiod before]
  exact (limited_run (PinStats.limited_nil hopened _ _ _) hpos hmax h).total

end Runs

/-- A window without length holds no instant at all, and yet one pulse is a storm. -/
theorem storm_in_empty_window :
    let settings : Settings := { storm := { threshold := 5, detectPeriod := 0 } }
    let s : Controller Script := ofSettings settings [] fun _ => none
    let pulse : Interrupt := ⟨.ofList [.portB], .ofList [.portB]⟩
    ¬ ∀ before x after, s.pulses .portB [.interrupt pulse] = before ++ x :: after →
      x.storm = true → ∃ start, start ≤ x.instant ∧
        x.instant < start + settings.storm.detectPeriod.toNat ∧
          x.threshold < Pulse.load (before ++ [x]) start (x.instant + 1) := by
  intro settings s pulse h
  have hpulses : s.pulses .portB [.interrupt pulse] = [] ++ ⟨0, true, 5, true, true⟩ :: [] := by
    decide
  obtain ⟨start, hle, hlt, -⟩ := h [] _ [] hpulses rfl
  exact absurd hlt (Nat.not_lt.mpr hle)

end HotplugDetect.Controller
