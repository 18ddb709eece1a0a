import Mathlib.Data.List.Infix
import HotplugDetect.Proofs.Disabling
import HotplugDetect.Proofs.Dispatch.Burst

/-! # The programming of the interrupt enables

The hardware is told which pins are enabled after every interrupt in which a pin storms, after every
recovery that frees a pin, and at the initialization. Every other change of the enabled pins is made
by hand. The programming is the view of the controller that has these calls.
-/

namespace HotplugDetect

variable {ρ : Type}

def Event.shown : Event → Option PinSet
  | .call (.irqSetup enabled _ _) => some enabled
  | _ => none

structure Programming where
  /-- Display interrupts are on. -/
  on : Bool
  /-- The enabled pins that the calls have shown, last call first. -/
  shown : List PinSet

namespace Programming

def made (g : Programming) (calls : List PinSet) : Programming :=
  { g with shown := (if g.on then calls else []) ++ g.shown }

@[simp] theorem made_nil (g : Programming) : g.made [] = g := by
  simp [made]

theorem made_made (g : Programming) (xs ys : List PinSet) :
    (g.made xs).made ys = g.made (ys ++ xs) := by
  unfold made
  split <;> simp

theorem shown_made {g : Programming} (h : g.on = true) (calls : List PinSet) :
    (g.made calls).shown = calls ++ g.shown := by
  rw [made, if_pos h]

end Programming

namespace Controller

/-- The enabled pins that the programming calls have shown, last call first. -/
def programmed (s : Controller ρ) : List PinSet := s.trace.filterMap Event.shown

def programming (s : Controller ρ) : Programming := ⟨s.irqsEnabled, s.programmed⟩

section Bookkeeping

variable (s : Controller ρ)

theorem outward_programming : Outward (programming (ρ := ρ)) :=
  ⟨⟨fun _ _ => rfl, fun _ _ _ => rfl⟩, fun _ _ _ _ _ _ _ _ _ _ _ _ => rfl, fun _ _ _ => rfl⟩

theorem silent_table : Silent (table (ρ := ρ)) := ⟨fun _ _ => rfl, fun _ _ => rfl⟩

theorem programming_call {c : Call} (h : Event.shown (.call c) = none) :
    (s.call c).programming = s.programming := by
  simp only [programming, programmed, call, emit, List.filterMap_cons, h]

theorem programming_setupIrqs :
    s.setupIrqs.programming = s.programming.made [s.table.pinsIn .enabled] := by
  unfold setupIrqs Programming.made
  split
  · rename_i h
    rw [if_pos (show s.programming.on = true from h)]
    rfl
  · rename_i h
    rw [if_neg (show ¬s.programming.on = true from h)]
    rfl

end Bookkeeping

section Interrupts

def bringsStorm (s : Controller ρ) (i : Interrupt) : Bool :=
  Pin.all.any fun p => i.fired.contains p && s.table.state p = .enabled &&
    (s.interrupt i).table.state p = .autoDisabled

theorem bringsStorm_iff (s : Controller ρ) (i : Interrupt) :
    s.bringsStorm i = true ↔ ∃ p, i.fired.contains p = true ∧ s.table.state p = .enabled ∧
      (s.interrupt i).table.state p = .autoDisabled := by
  simp [bringsStorm, Pin.mem_all, and_assoc]

/-- A storm is demanded just if the pulse takes its pin out of the enabled ones. -/
theorem storm_detectStorm {s : Controller ρ} {p : Pin} (h : s.table.state p = .enabled)
    (long : Bool) (d : Demand) :
    (s.detectStorm p long d).2.storm =
      (d.storm || (s.detectStorm p long d).1.table.state p = .autoDisabled) := by
  have hstorm := PinTable.state_observe h long s.now
  unfold detectStorm
  split
  · rename_i table ho
    rw [ho] at hstorm
    show true = (d.storm || decide (table.state p = _))
    rw [decide_eq_true (hstorm.mp rfl), Bool.or_true]
  · rename_i table count ho
    rw [ho] at hstorm
    have hcalm : table.state p ≠ .autoDisabled := fun hs => nomatch hstorm.mpr hs
    show d.storm = (d.storm || decide (table.state p = _))
    rw [decide_eq_false hcalm, Bool.or_false]
  · rename_i table ho
    rw [ho] at hstorm
    have hcalm : table.state p ≠ .autoDisabled := fun hs => nomatch hstorm.mpr hs
    show d.storm = (d.storm || decide (table.state p = _))
    rw [decide_eq_false hcalm, Bool.or_false]

theorem storm_receive (s : Controller ρ) (long : PinSet) (p : Pin) (d : Demand) :
    (s.receive long p d).2.storm =
      (d.storm || (s.table.state p = .enabled &&
        (s.receive long p d).1.table.state p = .autoDisabled)) := by
  have hjudge (s : Controller ρ) (digital isLong : Bool) (d : Demand) :
      (s.judge p digital isLong d).2.storm = (d.storm || (s.table.state p = .enabled &&
        (s.judge p digital isLong d).1.table.state p = .autoDisabled)) := by
    unfold judge
    split
    · rename_i h
      simp [h]
    · rename_i h
      simp [h]
    · rename_i h
      rw [decide_eq_true h, Bool.true_and]
      split
      · exact storm_detectStorm h isLong d
      · exact storm_detectStorm (s := { s with eventPins := s.eventPins.insert p }) h isLong
          { d with generic := true }
  unfold receive
  split
  · refine (hjudge _ _ _ _).trans ?_
    unfold keepPulse
    split <;> rfl
  · exact hjudge s false true d

theorem storm_receiveAll (i : Interrupt) {ps : List Pin} (hn : ps.Nodup) (s : Controller ρ)
    (d : Demand) :
    (s.receiveAll i.long d ps).2.storm =
      (d.storm || ps.any fun p => s.table.state p = .enabled &&
        (s.receiveAll i.long d ps).1.table.state p = .autoDisabled) := by
  induction ps generalizing s d with
  | nil => simp [receiveAll]
  | cons p ps ih =>
    obtain ⟨hp, hps⟩ := List.nodup_cons.mp hn
    have hlater := state_receiveAll_of_not_mem i hps (s.receive i.long p d).1
      (s.receive i.long p d).2 hp
    have hbefore : ∀ q ∈ ps, (s.receive i.long p d).1.table.state q = s.table.state q :=
      fun q hq => s.state_receive_of_ne i (ne_of_mem_of_not_mem hq hp) d
    unfold receiveAll
    simp only
    rw [ih hps, storm_receive, List.any_cons, hlater, Bool.or_assoc]
    congr 2
    rw [Bool.eq_iff_iff, List.any_eq_true, List.any_eq_true]
    exact exists_congr fun q => and_congr_right fun hq => by rw [hbefore q hq]

theorem programming_answer (s : Controller ρ) (d : Demand) :
    (s.answer d).programming =
      s.programming.made (if d.storm then [s.table.pinsIn .enabled] else []) := by
  rw [outward_programming.answer]
  split
  · exact s.programming_setupIrqs
  · exact s.programming.made_nil.symm

theorem programming_interrupt (s : Controller ρ) (i : Interrupt) :
    (s.interrupt i).programming =
      s.programming.made
        (if s.bringsStorm i then [(s.interrupt i).table.pinsIn .enabled] else []) := by
  have hreceived := outward_programming.receiveAll s i.long {} i.fired.toList
  have hstorm := s.storm_receiveAll i (Mask.nodup_toList i.fired) {}
  have htable : (s.interrupt i).table = (s.receiveAll i.long {} i.fired.toList).1.table :=
    silent_table.answer _ _
  have hbrings : s.bringsStorm i = (s.receiveAll i.long {} i.fired.toList).2.storm := by
    rw [hstorm, Bool.false_or, Bool.eq_iff_iff, bringsStorm_iff, List.any_eq_true, htable]
    refine exists_congr fun p => ?_
    rw [Mask.mem_toList, Bool.and_eq_true, decide_eq_true_eq, decide_eq_true_eq]
  rw [hbrings, htable, ← hreceived]
  exact programming_answer _ _

end Interrupts

section Bursts

variable (s : Controller ρ)

/-- The enabled pins shown in the course of a series of interrupts, last call first. -/
def announced (s : Controller ρ) : List Interrupt → List PinSet
  | [] => []
  | i :: is => (s.interrupt i).announced is ++
      if s.bringsStorm i then [(s.interrupt i).table.pinsIn .enabled] else []

theorem programming_burst (is : List Interrupt) :
    (is.foldl interrupt s).programming = s.programming.made (s.announced is) := by
  induction is generalizing s with
  | nil => exact s.programming.made_nil.symm
  | cons i is ih =>
    rw [List.foldl_cons, ih, programming_interrupt, Programming.made_made, announced]

theorem announced_append (is js : List Interrupt) :
    s.announced (is ++ js) = (is.foldl interrupt s).announced js ++ s.announced is := by
  induction is generalizing s with
  | nil => exact (List.append_nil _).symm
  | cons i is ih =>
    rw [List.cons_append, announced, ih, List.append_assoc, announced, List.foldl_cons]

theorem length_announced (is : List Interrupt) :
    (s.announced is).length = (s.handling is).countP fun x => x.1.bringsStorm x.2 := by
  induction is generalizing s with
  | nil => rfl
  | cons i is ih =>
    rw [announced, List.length_append, ih, handling, List.countP_cons]
    split <;> rfl

theorem announced_of_watch {s t : Controller ρ} (h : s.watch = t.watch) (is : List Interrupt) :
    s.announced is = t.announced is := by
  induction is generalizing s t with
  | nil => rfl
  | cons i is ih =>
    have hnext : (s.interrupt i).watch = (t.interrupt i).watch := by
      rw [watch_interrupt, watch_interrupt, h]
    have hbrings : s.bringsStorm i = t.bringsStorm i := by
      unfold bringsStorm
      congr 1
      funext p
      rw [state_of_watch h p, state_of_watch hnext p]
      rfl
    have hpins : (s.interrupt i).table.pinsIn .enabled = (t.interrupt i).table.pinsIn .enabled :=
      congrArg (fun w => w.pinsIn .enabled) hnext
    rw [announced, announced, ih hnext, hbrings, hpins]

/-- The last call shows the pins that are enabled in the end. Without a call they are the same as
before. -/
theorem announced_spec (is : List Interrupt) :
    s.announced is = [] ∧ (is.foldl interrupt s).table.state = s.table.state ∨
      ∃ earlier, s.announced is = (is.foldl interrupt s).table.pinsIn .enabled :: earlier := by
  induction is generalizing s with
  | nil => exact .inl ⟨rfl, rfl⟩
  | cons i is ih =>
    rw [announced, List.foldl_cons]
    rcases ih (s.interrupt i) with ⟨hnone, hstate⟩ | ⟨earlier, hlast⟩
    · cases hbrings : s.bringsStorm i with
      | true =>
        right
        refine ⟨[], ?_⟩
        rw [hnone, PinTable.pinsIn, PinTable.pinsIn, hstate]
        rfl
      | false =>
        left
        refine ⟨by rw [hnone]; rfl, hstate.trans (funext fun p => ?_)⟩
        rcases s.state_interrupt i p with hsame | hstorm
        · exact hsame
        · rw [(s.bringsStorm_iff i).mpr ⟨p, hstorm⟩] at hbrings
          cases hbrings
    · exact .inr ⟨_, by rw [hlast]; rfl⟩

end Bursts

section Passes

theorem programming_deliver (s : Controller ρ) (long short : PortSet) (refused : PinSet) :
    (s.deliver long short refused Port.all).1.programming =
      s.programming.made (s.announced (raisedBy (s.pulsesFor long short Port.all))) := by
  have hpulses {xs : List (Port × PulseHandler × Bool)} (t : Controller ρ) (hxs : t.Addressed xs) :
      (xs.foldl handOver t).programming = t.programming.made (t.announced (raisedBy xs)) := by
    induction xs generalizing t with
    | nil => exact t.programming.made_nil.symm
    | cons x xs ih =>
      have hwatch : (t.handOver x).watch =
          ((x.2.1.answer x.2.2).raised.foldl interrupt t).watch := by
        rw [handOver, watch_pulse x.2.2 hxs.isSome_head, watch_foldl_interrupt]
      have hasked : (((t.call (.pulse x.1 x.2.2)).withHandler x.1 x.2.1.next).watch) = t.watch :=
        watch_withHandler (s := t.call _) _ hxs.isSome_head
      have hfirst : (t.handOver x).programming =
          t.programming.made (t.announced (x.2.1.answer x.2.2).raised) := by
        rw [← announced_of_watch hasked]
        exact (programming_burst _ _).trans
          (congrArg (Programming.made · _) (t.programming_call rfl))
      rw [List.foldl_cons, ih _ hxs.tail, hfirst, Programming.made_made, raisedBy_cons,
        announced_append, announced_of_watch hwatch]
  rw [deliver_eq s long short refused (by decide)]
  exact hpulses s (s.addressed_pulsesFor long short (by decide))

theorem programming_takeEvents (s : Controller ρ) :
    s.takeEvents.1.programming = s.programming := by
  unfold takeEvents
  simp only
  split
  · rfl
  · rw [outward_programming.scheduleReenable, programming_call _ rfl, outward_programming.mitigate]
    rfl

theorem programming_pollInitPass (s : Controller ρ) (disabled : PinSet) :
    (s.pollInitPass disabled).programming = s.programming := by
  have hset (cs : ConnectorList ρ) (ms : List Message) (hms : .encoders ∉ ms) :
      ({ s.noteAll ms with connectors := cs } : Controller ρ).programming = s.programming :=
    outward_programming.noteAll s hms
  rw [pollInitPass_closed]
  simp only
  split <;> split <;>
    simp only [programming_call _ (show Event.shown (.call .pollEnable) = none from rfl),
      programming_call _ (show Event.shown (.call .irqEvent) = none from rfl),
      outward_programming.releaseMode] <;>
    exact hset _ _ (by simp)

theorem programming_reenablePass (s : Controller ρ) :
    s.reenablePass.programming = s.programming.made
      (if s.recoverable.isEmpty then [] else [s.reenablePass.table.pinsIn .enabled]) := by
  unfold reenablePass
  simp only
  split
  · exact s.programming.made_nil.symm
  · rw [programming_setupIrqs, silent_table.setupIrqs, outward_programming.note _ (by nofun),
      outward_programming.recoverPins]

variable [Probe ρ]

theorem programming_probeAll (pins : PinSet) (cs : List (Connector ρ)) (s : Controller ρ) :
    (s.probeAll pins cs).1.programming = s.programming.made (s.announced (raisedOn pins cs)) := by
  induction cs generalizing s with
  | nil => exact s.programming.made_nil.symm
  | cons c cs ih =>
    rw [raisedOn_cons]
    unfold probeAll
    split
    · have hasked : ((s.note (.connectorEvent c.name)).call (.detect c.name)).programming =
          s.programming := programming_call _ rfl
      have hasked' : ((s.note (.connectorEvent c.name)).call (.detect c.name)).watch = s.watch :=
        rfl
      have hwatch : (s.probe c).1.watch =
          ((Probe.detect c.probe).raised.foldl interrupt s).watch := by
        rw [watch_probe, watch_foldl_interrupt]
      have hprobe : (s.probe c).1.programming =
          s.programming.made (s.announced (Probe.detect c.probe).raised) := by
        have h := programming_burst ((s.note (.connectorEvent c.name)).call (.detect c.name))
          (Probe.detect c.probe).raised
        rw [hasked, announced_of_watch hasked'] at h
        exact h
      simp only
      rw [ih, hprobe, Programming.made_made, announced_append, announced_of_watch hwatch]
    · exact ih s

theorem programming_probePass (s : Controller ρ) (pins : PinSet) :
    (s.probePass pins).programming =
      s.programming.made (s.announced (raisedOn pins s.connectors)) := by
  have h := programming_probeAll pins s.connectors s
  unfold probePass
  generalize s.probeAll pins s.connectors = r at h ⊢
  simp only
  split
  · rw [programming_call _ rfl, outward_programming.releaseMode]
    exact h
  · rw [outward_programming.releaseMode]
    exact h

end Passes

section Actions

theorem programming_recoverNow (s : Controller ρ) :
    s.recoverNow.programming =
      if s.reenable.armed then (s.disarm .reenable).reenablePass.programming
      else s.programming := by
  unfold recoverNow
  simp only
  rw [outward_programming.releaseRun]
  split
  · rfl
  · exact outward_programming.disarm s .reenable

theorem table_recoverNow {s : Controller ρ} (h : s.reenable.armed = true) :
    s.recoverNow.table = (s.disarm .reenable).reenablePass.table := by
  unfold recoverNow
  simp only
  rw [silent_table.plain.releaseRun, if_pos h]
  rfl

theorem programming_flush (s : Controller ρ) (client : Nat) :
    (s.flush client).programming =
      if (s.requestRun .reenable client).holdsRun .reenable client = true ∧
          s.reenable.armed = true then
        ((s.requestRun .reenable client).disarm .reenable).reenablePass.programming
      else s.programming := by
  unfold flush
  simp only
  split
  · rename_i hr
    rw [programming_recoverNow, outward_programming.requestRun]
    exact if_congr ⟨fun ha => ⟨hr, ha⟩, And.right⟩ rfl rfl
  · rename_i hr
    rw [if_neg fun h => hr h.1]
    exact outward_programming.requestRun s .reenable client

variable [Probe ρ] {s : Controller ρ} {a : Action}

def reenables (s : Controller ρ) (a : Action) : Bool :=
  Pin.all.any fun p => s.table.state p ≠ .enabled && (s.act a).table.state p = .enabled

theorem reenables_iff (s : Controller ρ) (a : Action) :
    s.reenables a = true ↔
      ∃ p, s.table.state p ≠ .enabled ∧ (s.act a).table.state p = .enabled := by
  simp [reenables, Pin.mem_all]

theorem RecoveryPass.pass (h : s.RecoveryPass a) :
    ∃ t : Controller ρ, t.programming = s.programming ∧ t.table.state = s.table.state ∧
      (s.act a).programming = t.reenablePass.programming ∧
      (s.act a).table = t.reenablePass.table := by
  cases h with
  | @timer timerFirst hs =>
    cases hseek : s.reenable.seek s.now timerFirst with
    | mk w found =>
    obtain rfl : found = .claimed := by rw [hseek] at hs; exact hs
    refine ⟨({ s with reenable := w } : Controller ρ).beginRun .reenable {}, rfl, rfl, ?_, ?_⟩
    · show (s.moveReenable timerFirst).programming = _
      unfold moveReenable
      rw [hseek]
      exact outward_programming.finishRun _ .reenable
    · show (s.moveReenable timerFirst).table = _
      unfold moveReenable
      rw [hseek]
      rfl
  | @knob _ client config hk hr ha =>
    obtain ⟨m, hact⟩ := act_knob hk
    let u : Controller ρ :=
      { s.note m with table := { (s.note m).table with config }.clearCounts }
    have hflush : s.act a = (u.requestRun .reenable client).recoverNow := by
      rw [hact]
      exact if_pos hr
    refine ⟨(u.requestRun .reenable client).disarm .reenable, ?_, ?_, ?_, ?_⟩
    · rw [outward_programming.disarm, outward_programming.requestRun]
      rfl
    · funext p
      rw [state_of_watch (watch_disarm _ _) p, watch_requestRun]
      show (({ s.table with config } : PinTable).clearCounts.get p).state = s.table.state p
      rw [PinTable.get_clearCounts]
      rfl
    · rw [hflush, programming_recoverNow]
      exact if_pos ha
    · rw [hflush]
      exact table_recoverNow ha
  | @resume client he hr ha =>
    have hflush : s.act (.resume client) = (s.withoutErrand client).recoverNow := by
      simp only [act, Controller.resume]
      rw [he]
      exact if_pos hr
    refine ⟨(s.withoutErrand client).disarm .reenable, ?_, ?_, ?_, ?_⟩
    · rw [outward_programming.disarm]
      rfl
    · funext p
      rw [state_of_watch (watch_disarm _ _) p]
      rfl
    · rw [hflush, programming_recoverNow]
      exact if_pos ha
    · rw [hflush]
      exact table_recoverNow ha

theorem RecoveryPass.programming (h : s.RecoveryPass a) :
    (s.act a).programming = s.programming.made
      (if s.reenables a then [(s.act a).table.pinsIn .enabled] else []) := by
  obtain ⟨t, hprogramming, hstate, hafter, htable⟩ := h.pass
  have hfrees : s.reenables a = !t.recoverable.isEmpty := by
    rw [Bool.eq_iff_iff, reenables_iff, Bool.not_eq_true', List.isEmpty_eq_false_iff_exists_mem,
      htable, ← hstate]
    refine exists_congr fun p => ?_
    rw [mem_recoverable, state_of_watch t.watch_reenablePass p]
    rcases t.watch.stats_recovered p with ⟨hnot, hsame⟩ | ⟨hrecovers, hfreed⟩
    · rw [hnot, hsame]
      exact iff_of_false (fun h => h.1 h.2) nofun
    · rw [hrecovers, hfreed]
      refine iff_of_true ⟨fun he => ?_, rfl⟩ rfl
      have hdisabled := ((t.watch.recovers_iff p).mp hrecovers).1
      rw [show (t.watch.stats p).state = .enabled from he] at hdisabled
      cases hdisabled
  rw [hafter, programming_reenablePass, hprogramming, hfrees, htable]
  cases t.recoverable.isEmpty <;> rfl

theorem programming_move (s : Controller ρ) (j : Job) (timerFirst : Bool)
    (hrecovery : ¬s.RecoveryPass (.move j timerFirst)) :
    (s.move j timerFirst).programming =
      s.programming.made (s.announced (s.interruptsOf (.move j timerFirst))) := by
  cases j with
  | digital =>
    show s.moveDigital.programming = _
    unfold moveDigital
    split
    · rename_i rest hw
      rw [interruptsOf, Lane.rest?_eq_some_iff.mpr hw, Option.bind_some]
      cases rest.pulses with
      | some pulses =>
        dsimp only
        rw [outward_programming.beginRun, programming_deliver]
      | none =>
        dsimp only
        rw [outward_programming.finishRun, outward_programming.fallBack]
        exact s.programming.made_nil.symm
    · rename_i hw
      rw [interruptsOf, Lane.rest?_of_not_running hw]
      refine Eq.trans ?_ s.programming.made_nil.symm
      split
      · rfl
      · exact outward_programming.beginRun _ .digital _
  | generic =>
    show s.moveGeneric.programming = _
    unfold moveGeneric
    split
    · rename_i pins hw
      rw [interruptsOf, Lane.rest?_eq_some_iff.mpr hw]
      simp only
      split
      · rw [outward_programming.finishRun, programming_probePass]
      · exact s.programming.made_nil.symm
    · rename_i hw
      rw [interruptsOf, Lane.rest?_of_not_running hw]
      refine Eq.trans ?_ s.programming.made_nil.symm
      split
      · rfl
      · simp only
        rw [outward_programming.requestMode, outward_programming.beginRun, programming_takeEvents]
        rfl
  | pollInit =>
    refine Eq.trans ?_ s.programming.made_nil.symm
    show s.movePollInit.programming = s.programming
    unfold movePollInit
    split
    · split
      · rw [outward_programming.finishRun, programming_pollInitPass]
      · rfl
    · split
      · rfl
      · rw [outward_programming.requestMode, outward_programming.beginRun]
        rfl
  | reenable =>
    refine Eq.trans ?_ s.programming.made_nil.symm
    show (s.moveReenable timerFirst).programming = s.programming
    unfold moveReenable
    split
    · rfl
    · rename_i w hs
      exact absurd (.timer (by rw [hs])) hrecovery

/-- Without an initialization and without a recovery the hardware is told only what the interrupts
of the action bring about. -/
theorem programming_act_of_not (hinit : a ≠ .init) (hirqs : ∀ on, a ≠ .setIrqs on)
    (hrecovery : ¬s.RecoveryPass a) :
    (s.act a).programming = s.programming.made (s.announced (s.interruptsOf a)) := by
  have hquiet (hi : s.interruptsOf a = []) (h : (s.act a).programming = s.programming) :
      (s.act a).programming = s.programming.made (s.announced (s.interruptsOf a)) := by
    rw [hi, h]
    exact s.programming.made_nil.symm
  have hconfigure {client : Nat} {config : StormConfig} (hk : s.knob? a = some (client, config)) :
      (s.act a).programming = s.programming := by
    obtain ⟨m, hact⟩ := act_knob hk
    rw [hact, configure, programming_flush, if_neg fun h => hrecovery (.knob hk h.1 h.2)]
    rfl
  cases a with
  | interrupt i => exact s.programming_burst [i]
  | raw pinMask longMask =>
    show (s.raw pinMask longMask).programming = _
    unfold raw
    simp only
    split
    · exact s.programming_burst [⟨.ofBits pinMask, .ofBits longMask⟩]
    · rename_i hunknown
      have hnoted : (s.note (.unknownBits (Mask.unknownBits Pin (pinMask ||| longMask)))).watch =
          s.watch := rfl
      rw [interruptsOf, ← announced_of_watch hnoted]
      exact programming_burst _ [⟨.ofBits pinMask, .ofBits longMask⟩]
  | init => exact absurd rfl hinit
  | forcePolling on => exact hquiet rfl (outward_programming.queuePollInit _)
  | setIrqs on => exact absurd rfl (hirqs on)
  | setThreshold client k =>
    refine hquiet rfl ?_
    by_cases hbusy : (s.errand? client).isSome = true
    · exact congrArg Controller.programming (show s.setThreshold client k = s from if_pos hbusy)
    · exact hconfigure (if_neg hbusy)
  | setShortStorms client k =>
    refine hquiet rfl ?_
    by_cases hbusy : (s.errand? client).isSome = true
    · exact congrArg Controller.programming (show s.setShortStorms client k = s from if_pos hbusy)
    · exact hconfigure (if_neg hbusy)
  | cancelAll client =>
    refine hquiet rfl ?_
    show (s.cancelAll client).programming = _
    unfold cancelAll
    split
    · rfl
    · exact outward_programming.cancelJobs _ client false Job.all
  | shutdown client =>
    refine hquiet rfl ?_
    show (s.shutdown client).programming = _
    unfold shutdown
    split
    · rfl
    · exact outward_programming.cancelJobs _ client true Job.all
  | resume client =>
    refine hquiet rfl ?_
    show (s.resume client).programming = _
    unfold resume
    split
    · split
      · rw [outward_programming.cancelJobs, outward_programming.releaseRun]
        rfl
      · rfl
    · rename_i he
      split
      · rename_i hr
        rw [programming_recoverNow]
        exact if_neg fun ha => hrecovery (.resume he hr ha)
      · rfl
    · rfl
  | abandon client => exact hquiet rfl (outward_programming.abandon s client)
  | start => exact hquiet rfl (outward_programming.start s)
  | hold party => exact hquiet rfl (outward_programming.hold s party)
  | release party => exact hquiet rfl (outward_programming.release s party)
  | move j timerFirst => exact s.programming_move j timerFirst hrecovery
  | advance instant => exact hquiet rfl (outward_programming.advance s instant)
  | _ => exact hquiet rfl rfl

theorem programming_init (s : Controller ρ) :
    (s.act .init).programming =
      s.programming.made [(s.act .init).table.pinsIn .enabled] := by
  show s.init.programming = s.programming.made [s.init.table.pinsIn .enabled]
  unfold init
  rw [programming_setupIrqs, silent_table.setupIrqs, outward_programming.queuePollInit]
  rfl

theorem watch_of_interruptsOf (h : s.interruptsOf a ≠ []) :
    (s.act a).watch = ((s.interruptsOf a).foldl interrupt s).watch := by
  cases a with
  | interrupt i => rfl
  | raw pinMask longMask =>
    show (s.raw pinMask longMask).watch = (s.interrupt _).watch
    rw [watch_raw, watch_interrupt]
  | move j timerFirst =>
    cases j with
    | digital =>
      have he := s.effect_moveDigital timerFirst
      generalize hw : s.moveDigital.watch = w at he
      rw [show s.act (.move .digital timerFirst) = s.move .digital timerFirst from rfl]
      cases he with
      | interrupts _ => exact hw.trans (s.watch_foldl_interrupt _).symm
      | configuration hk => cases hk
      | knob hk _ => cases hk
      | cancellation _ _ hd => cases hd
    | generic =>
      have he := s.effect_act (.move .generic timerFirst)
      generalize (s.act (.move .generic timerFirst)).watch = w at he
      cases he with
      | interrupts _ => exact (s.watch_foldl_interrupt _).symm
      | mitigation hs =>
        have hseek : s.generic.seek = (s.generic.seek.1, .claimed) := Prod.ext rfl hs
        have hw := (Work.seek_claimed hseek).1
        rw [interruptsOf, Lane.rest?, hw] at h
        exact absurd rfl h
      | configuration hk => cases hk
      | knob hk _ => cases hk
      | cancellation _ _ hd => cases hd
    | _ => exact absurd rfl h
  | _ => exact absurd rfl h

theorem RecoveryPass.interruptsOf (h : s.RecoveryPass a) : s.interruptsOf a = [] := by
  cases h with
  | timer => rfl
  | @knob _ _ _ hk => cases a <;> first | rfl | cases hk
  | resume => rfl

theorem state_act_of_quiet (hsound : s.watch.Sound) (hinit : a ≠ .init)
    (hcalm : ∀ x ∈ s.handling (s.interruptsOf a), x.1.bringsStorm x.2 = false)
    (hkept : s.RecoveryPass a → s.reenables a = false) {p : Pin} (henable : a ≠ .enable p)
    (hdisable : a ≠ .disable p) :
    (s.act a).table.state p = .enabled ↔ s.table.state p = .enabled := by
  show ((s.act a).phase p).1 = .enabled ↔ (s.phase p).1 = .enabled
  rcases pinChange_act hsound a p with hsame | hchange
  · rw [hsame]
  · have hreenables : (s.phase p).1 ≠ .enabled → ((s.act a).phase p).1 = .enabled →
        s.reenables a = true := fun hb ha => (s.reenables_iff a).mpr ⟨p, hb, ha⟩
    generalize s.phase p = before at hchange hreenables
    generalize (s.act a).phase p = after at hchange hreenables
    cases hchange with
    | storm hmem hfired hbefore hafter =>
      have hbrings := (bringsStorm_iff _ _).mpr
        ⟨p, hfired, congrArg Prod.fst hbefore, congrArg Prod.fst hafter⟩
      rw [hcalm _ hmem] at hbrings
      cases hbrings
    | mitigation => exact iff_of_false nofun nofun
    | disable => exact absurd rfl hdisable
    | recovery hr =>
      have hfrees := hreenables nofun rfl
      rw [hkept hr] at hfrees
      cases hfrees
    | enable => exact absurd rfl henable
    | init => exact absurd rfl hinit

theorem programmed_act (hsound : s.watch.Sound) (hon : s.irqsEnabled = true) (a : Action) :
    (∃ earlier, (s.act a).programmed =
        (s.act a).table.pinsIn .enabled :: earlier ++ s.programmed) ∨
      (s.act a).programmed = s.programmed ∧ ∀ p, a ≠ .enable p → a ≠ .disable p →
        ((s.act a).table.state p = .enabled ↔ s.table.state p = .enabled) := by
  have hshown {calls : List PinSet} (h : (s.act a).programming = s.programming.made calls) :
      (s.act a).programmed = calls ++ s.programmed :=
    (congrArg Programming.shown h).trans (Programming.shown_made hon calls)
  by_cases hinit : a = .init
  · subst hinit
    exact .inl ⟨[], hshown s.programming_init⟩
  by_cases hirqs : ∃ on, a = .setIrqs on
  · obtain ⟨on, rfl⟩ := hirqs
    exact .inr ⟨rfl, fun _ _ _ => Iff.rfl⟩
  by_cases hrecovery : s.RecoveryPass a
  · have hcalls := hshown hrecovery.programming
    cases hfrees : s.reenables a with
    | true =>
      rw [hfrees, if_pos rfl] at hcalls
      exact .inl ⟨[], hcalls⟩
    | false =>
      rw [hfrees, if_neg Bool.false_ne_true, List.nil_append] at hcalls
      refine .inr ⟨hcalls, fun p => state_act_of_quiet hsound hinit ?_ fun _ => hfrees⟩
      rw [hrecovery.interruptsOf]
      exact fun x hx => absurd hx List.not_mem_nil
  · have hcalls := hshown
      (programming_act_of_not hinit (fun on ha => hirqs ⟨on, ha⟩) hrecovery)
    cases hannounced : s.announced (s.interruptsOf a) with
    | nil =>
      rw [hannounced, List.nil_append] at hcalls
      refine .inr ⟨hcalls, fun p => state_act_of_quiet hsound hinit (fun x hx => ?_)
        fun hr => absurd hr hrecovery⟩
      have hnone := s.length_announced (s.interruptsOf a)
      rw [hannounced, List.length_nil, eq_comm, List.countP_eq_zero] at hnone
      exact Bool.not_eq_true _ ▸ hnone x hx
    | cons last earlier =>
      left
      have hinterrupts : s.interruptsOf a ≠ [] := by
        intro hi
        rw [hi] at hannounced
        cases hannounced
      rcases s.announced_spec (s.interruptsOf a) with ⟨hnone, -⟩ | ⟨before, hlast⟩
      · rw [hannounced] at hnone
        cases hnone
      · refine ⟨before, ?_⟩
        have hpins : ((s.interruptsOf a).foldl interrupt s).table.pinsIn .enabled =
            (s.act a).table.pinsIn .enabled :=
          congrArg (fun w => w.pinsIn .enabled) (watch_of_interruptsOf hinterrupts).symm
        rw [hcalls, hlast, hpins]

end Actions

variable [Probe ρ]

/-- The pins that are enabled were shown by the last call, up to those that were enabled or
disabled by hand since. -/
def UpToDate (s : Controller ρ) (as : List Action) : Prop :=
  ∃ bs a cs shown, as = bs ++ a :: cs ∧
    (s.run bs).programmed.length < (s.run (bs ++ [a])).programmed.length ∧
    (s.run as).programmed = (s.run (bs ++ [a])).programmed ∧
    (s.run as).programmed.head? = some shown ∧
    ∀ p, shown.contains p ≠ decide ((s.run as).table.state p = .enabled) →
      ∃ c ∈ cs, c = .enable p ∨ c = .disable p

theorem upToDate_of_call {s : Controller ρ} {as : List Action} {a : Action} {earlier : List PinSet}
    (h : ((s.run as).act a).programmed =
      ((s.run as).act a).table.pinsIn .enabled :: earlier ++ (s.run as).programmed) :
    s.UpToDate (as ++ [a]) := by
  refine ⟨as, a, [], ((s.run as).act a).table.pinsIn .enabled, rfl, ?_, rfl, ?_, fun p hp => ?_⟩
  · rw [run_concat, h, List.length_append, List.length_cons]
    omega
  · rw [run_concat, h]
    rfl
  · rw [run_concat, PinTable.contains_pinsIn] at hp
    exact absurd rfl hp

theorem UpToDate.act {s : Controller ρ} {as : List Action} (h : s.UpToDate as)
    (hsound : (s.run as).watch.Sound) (hon : (s.run as).irqsEnabled = true) (a : Action) :
    s.UpToDate (as ++ [a]) := by
  rcases programmed_act hsound hon a with ⟨earlier, hcall⟩ | ⟨hnone, hstate⟩
  · exact upToDate_of_call hcall
  · obtain ⟨bs, b, cs, shown, rfl, hmade, hsame, hhead, hp⟩ := h
    refine ⟨bs, b, cs ++ [a], shown, List.append_assoc _ _ _, hmade, ?_, ?_, fun p hdiffers => ?_⟩
    · rw [run_concat, hnone, hsame]
    · rw [run_concat, hnone, hhead]
    · by_cases hhand : a = .enable p ∨ a = .disable p
      · exact ⟨a, List.mem_append_right _ (List.mem_singleton_self a), hhand⟩
      · rw [run_concat, decide_eq_decide.mpr (hstate p (fun h => hhand (.inl h)) fun h =>
          hhand (.inr h))] at hdiffers
        obtain ⟨c, hc, hc'⟩ := hp p hdiffers
        exact ⟨c, List.mem_append_left _ hc, hc'⟩

theorem upToDate_run {s : Controller ρ} (hsound : s.watch.Sound) (hstart : s.irqsEnabled = true)
    {as : List Action} (hon : ∀ bs, bs <+: as → (s.run (.init :: bs)).irqsEnabled = true) :
    s.UpToDate (.init :: as) := by
  induction as using List.reverseRecOn with
  | nil =>
    have hcall := (congrArg Programming.shown s.programming_init).trans
      (Programming.shown_made hstart _)
    show s.UpToDate ([] ++ [.init])
    exact upToDate_of_call hcall
  | append_singleton as a ih =>
    have hbefore := ih fun bs hbs => hon bs (hbs.trans (List.prefix_append as [a]))
    exact hbefore.act (sound_run hsound _) (hon as (List.prefix_append as [a])) a

/-- An interrupt makes one call if a pin storms in it, a re-enable pass makes one if it enables a
pin, and an initialization makes one. Nothing else makes a call, and the last call has shown the
pins that are enabled, up to those that were enabled or disabled by hand since. -/
theorem programming_follows_table (settings : Settings) (connectors : ConnectorList ρ)
    (ports : Port → Option PulseHandler) :
    let s := ofSettings settings connectors ports
    (∀ (t : Controller ρ) (i : Interrupt), t.irqsEnabled = true →
      (t.interrupt i).programmed =
        (if t.bringsStorm i then [(t.interrupt i).table.pinsIn .enabled] else []) ++
          t.programmed) ∧
    (∀ (t : Controller ρ) (a : Action), t.irqsEnabled = true →
      (a = .init →
        (t.act a).programmed = (t.act a).table.pinsIn .enabled :: t.programmed) ∧
      (t.RecoveryPass a → (t.act a).programmed =
        (if t.reenables a then [(t.act a).table.pinsIn .enabled] else []) ++ t.programmed) ∧
      (a ≠ .init → ¬t.RecoveryPass a → (t.act a).programmed.length =
        (t.handling (t.interruptsOf a)).countP (fun x => x.1.bringsStorm x.2) +
          t.programmed.length)) ∧
    ∀ as, (∀ bs, bs <+: as → (s.run (.init :: bs)).irqsEnabled = true) →
      s.UpToDate (.init :: as) := by
  intro s
  have hshown {t u : Controller ρ} {calls : List PinSet} (hon : t.irqsEnabled = true)
      (h : u.programming = t.programming.made calls) : u.programmed = calls ++ t.programmed :=
    (congrArg Programming.shown h).trans (Programming.shown_made hon calls)
  refine ⟨fun t i hon => hshown hon (t.programming_interrupt i), fun t a hon => ⟨?_, ?_, ?_⟩,
    fun as hon => upToDate_run (sound_ofSettings settings connectors ports) rfl hon⟩
  · rintro rfl
    exact hshown hon t.programming_init
  · exact fun hr => hshown hon hr.programming
  · intro hinit hrecovery
    rw [← length_announced, ← List.length_append]
    by_cases hirqs : ∃ on, a = .setIrqs on
    · obtain ⟨on, rfl⟩ := hirqs
      rfl
    · have hcalls := programming_act_of_not hinit (fun on ha => hirqs ⟨on, ha⟩) hrecovery
      rw [hshown hon hcalls]

/-- The recovery from a storm makes a call. -/
theorem programming_follows_table_awaiting :
    let s : Controller Script := ofSettings {} [] fun _ => none
    let t := s.run (.init :: (storming ++ mitigating ++ awaiting.dropLast))
    (t.act (.move .reenable true)).programmed =
        (t.act (.move .reenable true)).table.pinsIn .enabled :: t.programmed ∧
      s.UpToDate (.init :: (storming ++ mitigating ++ awaiting)) := by
  intro s t
  have hon : ∀ bs ∈ (storming ++ mitigating ++ awaiting).inits,
      (s.run (.init :: bs)).irqsEnabled = true := by decide +kernel
  have hpass : t.RecoveryPass (.move .reenable true) := .timer (by decide +kernel)
  have hfrees : t.reenables (.move .reenable true) = true := by decide +kernel
  obtain ⟨-, hact, hrun⟩ :=
    programming_follows_table {} ([] : ConnectorList Script) fun _ => none
  have hcalls := (hact t (.move .reenable true) (by decide +kernel)).2.1 hpass
  rw [hfrees, if_pos rfl, List.singleton_append] at hcalls
  have hupToDate := hrun (storming ++ mitigating ++ awaiting)
    fun bs hbs => hon bs ((List.mem_inits _ _).mpr hbs)
  exact ⟨hcalls, hupToDate⟩

end Controller

end HotplugDetect
