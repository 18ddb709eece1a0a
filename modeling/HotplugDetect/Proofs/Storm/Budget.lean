import HotplugDetect.Controller.Script
import HotplugDetect.Proofs.Backlog.Kept
import HotplugDetect.Proofs.Recovery
import HotplugDetect.Proofs.Storm.Detection

/-! # The budget of a pin that comes back

No recovery clears a counter. A pin that the timer brings back has outlived its window, because the
window opened before the storm was handed over, the deadline is a full delay later than that, and
the delay is no shorter than a window. A knob clears the counters before it flushes, and so does an
initialization. In each case the next pulse that counts is alone in its window. But a flush may have
to wait for its turn, and what is counted on the pin meanwhile stays counted.
-/

namespace HotplugDetect

variable {ρ : Type}

/-- Accepted settings leave a mitigated pin to polling for the length of a window at least. -/
theorem Settings.detectPeriod_le_reenableDelay {s : Settings} (h : s.validate = .ok ()) :
    s.storm.detectPeriod.toNat ≤ s.storm.reenableDelay.toNat := by
  unfold validate at h
  split at h
  · cases h
  · split at h
    · cases h
    · split at h
      · cases h
      · rename_i hlt
        rwa [UInt64.lt_iff_toNat_lt, Nat.not_lt] at hlt

namespace PinStats

/-- Nothing that was counted so far adds to what is counted from an instant on. -/
def Fresh (x : PinStats) (period now : Nat) : Prop :=
  x.count = 0 ∨ ∀ start, x.windowStart = some start → start + period ≤ now

theorem Fresh.kept {x y : PinStats} {period now later : Nat} (h : x.Fresh period now)
    (hstart : y.windowStart = x.windowStart) (hcount : y.count = x.count ∨ y.count = 0)
    (hle : now ≤ later) : y.Fresh period later := by
  rcases h with h | h
  · left
    rcases hcount with hc | hc
    · rw [hc, h]
    · exact hc
  · right
    intro start hs
    exact (h start (hstart ▸ hs)).trans hle

theorem Fresh.count_observe {x : PinStats} {c : StormConfig} {long : Bool} {now : Nat}
    (h : x.Fresh c.period now) (hc : c.counts long = true) :
    (x.observe c long now).1.count.toNat = (x.shown c long now).weight := by
  have hsmall : (x.shown c long now).weight ≤ UInt32.size - 1 := by
    unfold Pulse.weight
    split <;> decide
  obtain ⟨start, before, -, hcount, -, hwindow⟩ := x.observe_counted hc now
  have hbefore : before = 0 := by
    rcases hwindow with ⟨hs, rfl, -, hlt⟩ | ⟨-, rfl, -⟩
    · rcases h with h | h
      · rw [h]
        rfl
      · exact absurd hlt (Nat.not_lt.mpr (h start hs))
    · rfl
  rw [hcount, hbefore, Nat.zero_add, Nat.min_eq_left hsmall]

end PinStats

namespace Watch

/-- Nothing that was counted on the pin so far adds to what is counted next. -/
def Fresh (w : Watch) (p : Pin) : Prop := (w.stats p).Fresh w.config.period w.now

/-- The recovery of a mitigated pin is due a full delay after its window opened, or later. -/
def Ripe (w : Watch) (p : Pin) : Prop :=
  (w.stats p).mitigated = true → ∀ start d, (w.stats p).windowStart = some start →
    w.deadline = some d → start + w.reenableDelay ≤ d

theorem stats_foldl_interrupted_of_ne {w : Watch} {p : Pin} (h : (w.stats p).state ≠ .enabled)
    (is : List Interrupt) : (is.foldl Watch.interrupted w).stats p = w.stats p := by
  induction is generalizing w with
  | nil => rfl
  | cons i is ih =>
    have hi : (w.interrupted i).stats p = w.stats p := by
      rcases w.stats_interrupted i p with hp | ⟨-, hp⟩
      · exact hp
      · exact hp.trans (if_neg h)
    rw [List.foldl_cons, ih (by rwa [hi]), hi]

end Watch

namespace Controller

section Pulses

/-- An interrupt brings a pulse to a pin that adds to its counter. While the threshold is zero
detection is off, and no pulse does. -/
def registers (s : Controller ρ) (p : Pin) (i : Interrupt) : Bool :=
  (s.pulse? p i).any fun q => q.counted && q.threshold ≠ 0

/-- The pulse that an interrupt brings to a pin is the only one in its counter, so that it is a
storm just if its own weight exceeds the threshold. -/
def CountsAlone (s : Controller ρ) (p : Pin) (i : Interrupt) : Prop :=
  ∃ q, s.pulse? p i = some q ∧ ((s.interrupt i).table.get p).count.toNat = q.weight ∧
    (q.storm = true ↔ q.threshold < q.weight)

/-- The first of a series of interrupts that adds to the counter of a pin. -/
def firstRegistered (p : Pin) (xs : List (Controller ρ × Interrupt)) :
    Option (Controller ρ × Interrupt) :=
  xs.find? fun x => x.1.registers p x.2

theorem firstRegistered_append (p : Pin) (xs ys : List (Controller ρ × Interrupt)) :
    firstRegistered p (xs ++ ys) = (firstRegistered p xs).or (firstRegistered p ys) :=
  List.find?_append

/-- The interrupts that are handled in the course of a run, each with the state that it finds. -/
def handled [Probe ρ] (s : Controller ρ) (as : List Action) : List (Controller ρ × Interrupt) :=
  (s.trail as).flatMap fun x => x.1.handling (x.1.interruptsOf x.2)

variable {s : Controller ρ} {p : Pin}

theorem stats_interrupt (s : Controller ρ) (i : Interrupt) (p : Pin) :
    (s.interrupt i).table.get p = (s.watch.interrupted i).stats p :=
  congrArg (fun w => w.stats p) (s.watch_interrupt i)

theorem countsAlone_of_fresh (h : s.watch.Fresh p) {i : Interrupt} (hi : s.registers p i = true) :
    s.CountsAlone p i := by
  unfold registers at hi
  rw [pulse?_eq] at hi
  split at hi
  · rename_i hf
    rcases (s.watch.stats p).pulsed_cases s.watch.config (s.watch.longOn i p) s.watch.now with
      ⟨hx, hc, hp⟩ | ⟨-, hnot⟩
    · have hcount := h.count_observe hc
      refine ⟨_, by rw [pulse?_eq, if_pos hf], ?_, ?_⟩
      · have hafter : (s.watch.interrupted i).stats p = _ := if_pos hf
        rw [stats_interrupt, hafter, hp, hcount]
      · rw [PinStats.storm_shown_counted hx hc, hcount]
        rfl
    · simp only [Option.any_some, Bool.and_eq_true, decide_eq_true_eq] at hi
      rcases hnot with hnot | hnot
      · rw [hnot] at hi
        cases hi.1
      · exact absurd hnot hi.2
  · cases hi

theorem fresh_interrupt (h : s.watch.Fresh p) {i : Interrupt} (hi : s.registers p i = false) :
    (s.interrupt i).watch.Fresh p := by
  rw [watch_interrupt]
  suffices hsame : (s.watch.interrupted i).stats p = s.watch.stats p by
    unfold Watch.Fresh
    rw [hsame]
    exact h
  rcases s.watch.stats_interrupted i p with hp | ⟨hf, hp⟩
  · exact hp
  · rw [hp]
    rcases (s.watch.stats p).pulsed_cases s.watch.config (s.watch.longOn i p) s.watch.now with
      ⟨hx, hc, -⟩ | ⟨hp, -⟩
    · have hcounted := PinStats.counted_shown hx hc s.watch.now
      have hthreshold : s.watch.config.threshold.toNat = 0 := by
        rw [registers, pulse?_eq, if_pos hf, Option.any_some, hcounted, Bool.true_and,
          decide_eq_false_iff_not, not_not] at hi
        exact hi
      have hzero : s.watch.config.threshold = 0 := UInt32.toNat_inj.mp hthreshold
      rw [StormConfig.counts, hzero] at hc
      cases hc
    · exact hp

/-- A series of interrupts leaves the pin fresh up to the first one that counts on it. -/
theorem fresh_handling (h : s.watch.Fresh p) (is : List Interrupt) :
    (∀ t i, firstRegistered p (s.handling is) = some (t, i) → t.CountsAlone p i) ∧
      (firstRegistered p (s.handling is) = none → (is.foldl interrupt s).watch.Fresh p) := by
  induction is generalizing s with
  | nil =>
    constructor
    · intro t i hfirst
      cases hfirst
    · exact fun _ => h
  | cons i is ih =>
    have hcons : s.handling (i :: is) = (s, i) :: (s.interrupt i).handling is := rfl
    rw [hcons, firstRegistered, List.find?_cons]
    cases hi : s.registers p i with
    | true =>
      constructor
      · intro t j hfirst
        obtain ⟨rfl, rfl⟩ := Prod.mk.inj (Option.some_inj.mp hfirst)
        exact countsAlone_of_fresh h hi
      · intro hfirst
        cases hfirst
    | false => exact ih (fresh_interrupt h hi)

end Pulses

section Runs

variable [Probe ρ] {s : Controller ρ} {p : Pin}

theorem fresh_act (h : s.watch.Fresh p) {a : Action}
    (ha : firstRegistered p (s.handling (s.interruptsOf a)) = none) :
    (s.act a).watch.Fresh p := by
  have he := s.effect_act a
  rcases he.window p with hw | ⟨-, hstart, hcount⟩
  · rw [hw, ← watch_foldl_interrupt]
    exact (fresh_handling h _).2 ha
  · unfold Watch.Fresh
    rw [he.config.1]
    exact h.kept hstart (hcount.imp_right And.left) he.now_le

/-- The first pulse that counts on a fresh pin counts alone, whatever happens before it. -/
theorem countsAlone_of_first (h : s.watch.Fresh p) {as : List Action} {t : Controller ρ}
    {i : Interrupt} (hfirst : firstRegistered p (s.handled as) = some (t, i)) :
    t.CountsAlone p i := by
  induction as generalizing s with
  | nil => cases hfirst
  | cons a as ih =>
    have hcons : s.handled (a :: as) =
        s.handling (s.interruptsOf a) ++ (s.act a).handled as := List.flatMap_cons
    rw [hcons, firstRegistered_append] at hfirst
    cases ha : firstRegistered p (s.handling (s.interruptsOf a)) with
    | some x =>
      rw [ha, Option.some_or] at hfirst
      exact (fresh_handling h _).1 t i (ha.trans hfirst)
    | none =>
      rw [ha, Option.none_or] at hfirst
      exact ih (fresh_act h ha) hfirst

theorem fresh_run (h : s.watch.Fresh p) {as : List Action}
    (has : firstRegistered p (s.handled as) = none) : (s.run as).watch.Fresh p := by
  induction as generalizing s with
  | nil => exact h
  | cons a as ih =>
    have hcons : s.handled (a :: as) =
        s.handling (s.interruptsOf a) ++ (s.act a).handled as := List.flatMap_cons
    rw [hcons, firstRegistered_append, Option.or_eq_none_iff] at has
    exact ih (fresh_act h has.1) has.2

theorem Effect.windowStart_of_ne {a : Action} {w : Watch} (he : s.Effect a w)
    (h : (s.watch.stats p).state ≠ .enabled) :
    (w.stats p).windowStart = (s.watch.stats p).windowStart := by
  rcases he.window p with rfl | ⟨-, hstart, -⟩
  · rw [Watch.stats_foldl_interrupted_of_ne h]
  · exact hstart

theorem ripe_act (h : s.watch.Ripe p) (hs : s.watch.Sound)
    (hopened : ∀ start, (s.watch.stats p).windowStart = some start → start ≤ s.watch.now)
    (a : Action) : (s.act a).watch.Ripe p := by
  intro hm start d hstart hd
  have he := s.effect_act a
  rw [he.fixed.2.1]
  -- in both cases the window stands still; only a deadline that was not moved is older than now
  rcases he.mitigated hs hm with hbefore | ⟨hstorm, -, hdeadline⟩
  · have hne : (s.watch.stats p).state ≠ .enabled := by
      rw [hs p hbefore]
      decide
    rw [he.windowStart_of_ne hne] at hstart
    rcases he.deadline hd with hd | rfl
    · exact h hbefore start d hstart hd
    · exact Nat.add_le_add_right (hopened start hstart) _
  · rw [he.windowStart_of_ne (by rw [hstorm]; decide)] at hstart
    rw [hdeadline] at hd
    obtain rfl := Option.some_inj.mp hd
    exact Nat.add_le_add_right (hopened start hstart) _

/-- A deadline left over from an earlier storm does not let the window of a later one run on. -/
theorem ripe_run (settings : Settings) (connectors : ConnectorList ρ)
    (ports : Port → Option PulseHandler) (as : List Action) (p : Pin) :
    ((ofSettings settings connectors ports).run as).watch.Ripe p := by
  have hclean := stats_ofSettings settings connectors ports p
  induction as using List.reverseRecOn with
  | nil =>
    intro hm
    rw [run, List.foldl_nil, hclean] at hm
    cases hm
  | append_singleton as a ih =>
    have hexplained : ((ofSettings settings connectors ports).watch.stats p).Explained []
        (ofSettings settings connectors ports).watch.now := by
      intro start hstart
      rw [hclean] at hstart
      cases hstart
    rw [run_concat]
    exact ripe_act ih (sound_run (sound_ofSettings settings connectors ports) as)
      (fun start hstart => ((explained_run hexplained as).1 start hstart).1) a

end Runs

section Recoveries

variable [Probe ρ]

/-- The timer frees no pin before its window is over. -/
theorem fresh_of_timer {settings : Settings} (hvalid : settings.validate = .ok ())
    (connectors : ConnectorList ρ) (ports : Port → Option PulseHandler) (as : List Action)
    {timerFirst : Bool} {p : Pin} :
    let s := (ofSettings settings connectors ports).run as
    s.table.state p ≠ .enabled →
      (s.act (.move .reenable timerFirst)).table.state p = .enabled →
        (s.act (.move .reenable timerFirst)).watch.Fresh p := by
  intro s hbefore hafter
  have he := s.effect_act (.move .reenable timerFirst)
  obtain ⟨hm, d, hd, hle⟩ := due_of_recovered hbefore hafter
  right
  intro start hstart
  rw [he.windowStart_of_ne hbefore] at hstart
  have hdelay : s.watch.reenableDelay = settings.storm.reenableDelay.toNat :=
    (fixed_run (ofSettings settings connectors ports) as).2.1
  have hperiod : s.watch.config.period = settings.storm.detectPeriod.toNat :=
    period_run (ofSettings settings connectors ports) as
  have hripe : start + s.watch.reenableDelay ≤ d :=
    ripe_run settings connectors ports as p hm start d hstart hd
  calc start + (s.act (.move .reenable timerFirst)).watch.config.period
      = start + settings.storm.detectPeriod.toNat := by rw [he.config.1, hperiod]
    _ ≤ start + settings.storm.reenableDelay.toNat :=
      Nat.add_le_add_left (Settings.detectPeriod_le_reenableDelay hvalid) _
    _ ≤ d := by rwa [hdelay] at hripe
    _ ≤ s.watch.now := hle
    _ ≤ _ := he.now_le

theorem fresh_of_knob {s : Controller ρ} {a : Action} {client : Nat} {config : StormConfig}
    (hk : s.knob? a = some (client, config)) (p : Pin) : (s.act a).watch.Fresh p := by
  obtain ⟨m, hact⟩ := act_knob hk
  left
  rw [hact, watch_configure]
  split
  · exact (windowStart_recovered _ p).2
  · rfl

theorem fresh_of_init (s : Controller ρ) (p : Pin) : (s.act .init).watch.Fresh p := by
  left
  show ((s.init.watch.stats p)).count = 0
  rw [watch_init]
  rfl

/-- On one thread no knob has to wait before it flushes. -/
theorem not_recoveryPass_resume (settings : Settings) (connectors : ConnectorList ρ)
    (ports : Port → Option PulseHandler) {as : List Action}
    (has : (ofSettings settings connectors ports).OneThreaded none as = true) (client : Nat) :
    ¬((ofSettings settings connectors ports).run as).RecoveryPass (.resume client) := by
  have hkept := oneThreaded_induction (P := fun busy s => s.backlog.Kept busy)
    (fun busy s a h ha => kept_act h ha) (kept_ofSettings settings connectors ports) has
  intro hr
  cases hr with
  | knob hk _ _ => cases hk
  | resume he _ _ =>
    obtain ⟨j, rest, stop, heq, -, -⟩ := hkept.errands (mem_of_lookup he)
    cases heq

/-- A knob was set in the course of a run, and no pulse has counted on the pin since. -/
def ClearSinceKnob (s : Controller ρ) (p : Pin) (as : List Action) : Prop :=
  ∃ bs b cs client config, as = bs ++ b :: cs ∧ (s.run bs).knob? b = some (client, config) ∧
    firstRegistered p (((s.run bs).act b).handled cs) = none

theorem ClearSinceKnob.fresh {s : Controller ρ} {p : Pin} {as : List Action}
    (h : s.ClearSinceKnob p as) : (s.run as).watch.Fresh p := by
  obtain ⟨bs, b, cs, client, config, rfl, hknob, hnone⟩ := h
  rw [run_append]
  exact fresh_run (fresh_of_knob hknob p) hnone

/-- After a pin has come back by the timer, by a knob or by an initialization, the first pulse that
counts on it is judged by its own weight alone. A knob clears the counters and only then waits for
its turn to flush, if it has to. Then nothing may have been counted on the pin in the meantime. On
one thread, where nobody lets the others go first, a knob never has to wait. -/
theorem recovery_grants_fresh_budget (settings : Settings) (hvalid : settings.validate = .ok ())
    (connectors : ConnectorList ρ) (ports : Port → Option PulseHandler) (before : List Action)
    (a : Action) (p : Pin) :
    let s₀ := ofSettings settings connectors ports
    let s := s₀.run before
    (∀ client, a = .resume client →
        s₀.OneThreaded none before = true ∨ s₀.ClearSinceKnob p before) →
      (a = .init ∨ s.RecoveryPass a ∧ s.table.state p ≠ .enabled) →
        (s.act a).table.state p = .enabled →
          ∀ after t i, firstRegistered p ((s.act a).handled after) = some (t, i) →
            t.CountsAlone p i := by
  intro s₀ s hthread hcause hafter after t i hfirst
  have hfresh : (s.act a).watch.Fresh p := by
    rcases hcause with rfl | ⟨hr, hbefore⟩
    · exact s.fresh_of_init p
    · cases hr with
      | timer _ => exact fresh_of_timer hvalid connectors ports before hbefore hafter
      | knob hk _ _ => exact fresh_of_knob hk p
      | @resume client he hh ha =>
        rcases hthread client rfl with has | hclear
        · exact absurd (.resume he hh ha)
            (not_recoveryPass_resume settings connectors ports has client)
        · exact fresh_act hclear.fresh rfl
  exact countsAlone_of_first hfresh hfirst

end Recoveries

/-- A storm on another pin puts the recovery off, and then the timer frees both pins. -/
theorem recovery_grants_fresh_budget_after_storms :
    let pulse (p : Pin) : Interrupt := ⟨.ofList [p], .ofList [p]⟩
    let s₀ : Controller Script := ofSettings {} [] fun _ => none
    let before : List Action := Action.boot ++ Action.storm .portB ++ Action.serve .generic ++
      Action.serve .reenable ++ [.advance 60000] ++ Action.storm .portC ++ Action.serve .generic ++
      Action.serve .reenable ++ [.advance 180000, .move .reenable true]
    let s := (s₀.run before).act (.move .reenable true)
    let t := s.run [.interrupt (pulse .portC), .advance 180500]
    s.table.state .portB = .enabled ∧ t.CountsAlone .portB (pulse .portB) := by
  intro pulse s₀ before s t
  have hpass : (s₀.run before).RecoveryPass (.move .reenable true) := .timer (by decide +kernel)
  have hbefore : (s₀.run before).table.state .portB ≠ .enabled := by decide +kernel
  have hafter : s.table.state .portB = .enabled := by decide +kernel
  let after : List Action :=
    [.interrupt (pulse .portC), .advance 180500, .interrupt (pulse .portB)]
  have hhandled : s.handled after = [(s, pulse .portC), (t, pulse .portB)] := rfl
  have hother : s.registers .portB (pulse .portC) = false := by decide +kernel
  have hcounts : t.registers .portB (pulse .portB) = true := by decide +kernel
  have hfirst : firstRegistered .portB (s.handled after) = some (t, pulse .portB) := by
    rw [hhandled, firstRegistered, List.find?_cons, hother, List.find?_cons, hcounts]
  exact ⟨hafter, recovery_grants_fresh_budget {} rfl [] _ before (.move .reenable true) .portB
    (fun _ => nofun) (.inr ⟨hpass, hbefore⟩) hafter after t _ hfirst⟩

/-- A knob is set when the worker has the run lock already, and clears the counters. The worker
brings the pin back, the pin storms again, and only then comes the flush of the knob: the pin is
back with a full counter, and a single pulse is a storm. -/
theorem recovery_after_late_flush_counts_on :
    let pulse : Interrupt := ⟨.ofList [.crt], .ofList [.crt]⟩
    let before : List Action := Action.boot ++ Action.storm .crt ++ Action.serve .generic ++
      Action.serve .reenable ++ [.advance 120000, .move .reenable true, .setThreshold 0 .reset,
      .move .reenable true] ++ Action.storm .crt ++ Action.serve .generic
    let s := (ofSettings {} [] fun _ => none : Controller Script).run before
    let t := s.act (.resume 0)
    ({} : Settings).validate = .ok () ∧ s.RecoveryPass (.resume 0) ∧
      s.table.state .crt ≠ .enabled ∧ t.table.state .crt = .enabled ∧
      t.registers .crt pulse = true ∧ ((t.interrupt pulse).table.get .crt).count = 70 ∧
      ¬t.CountsAlone .crt pulse := by
  intro pulse before s t
  have hcount : ((t.interrupt pulse).table.get .crt).count = 70 := by decide +kernel
  refine ⟨rfl, .resume (by decide +kernel) (by decide +kernel) (by decide +kernel),
    by decide +kernel, by decide +kernel, by decide +kernel, hcount, ?_⟩
  rintro ⟨q, -, hweight, -⟩
  rw [hcount, Pulse.weight] at hweight
  split at hweight <;> cases hweight

end Controller

end HotplugDetect
