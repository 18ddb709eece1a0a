import Mathlib.Data.List.Basic
import HotplugDetect.Controller.Action

/-! # What the operations leave alone

Most operations write messages and let workers join the line, beside what they are for. What an
operation is for is said here once; a view that shows neither the messages nor the line sees nothing
else of it. The passes over the connectors are given in closed form.
-/

namespace HotplugDetect

variable {ρ : Type}

namespace Connector

/-- The poll mode after an initialization, as long as no pin is disabled. -/
def initialMode (c : Connector ρ) (hasHotplug forced : Bool) : PollMode :=
  if !c.multiStream && c.preference = .unset && hasHotplug && c.pin.isSome then
    if forced then .connectDisconnect else .hpd
  else c.preference

/-- Interrupts would be the choice, but the pin delivers none. -/
def staysPolling (c : Connector ρ) (hasHotplug forced : Bool) (disabled : PinSet) : Bool :=
  !c.multiStream && c.initialMode hasHotplug forced = .hpd && c.isOn disabled

def reinitialized (c : Connector ρ) (hasHotplug forced : Bool) (disabled : PinSet) :
    Connector ρ :=
  { c with
    polled :=
      if c.staysPolling hasHotplug forced disabled then .connectDisconnect
      else c.initialMode hasHotplug forced }

theorem initPoll_eq (c : Connector ρ) (hasHotplug forced : Bool) (disabled : PinSet) :
    c.initPoll hasHotplug forced disabled =
      (c.reinitialized hasHotplug forced disabled, c.staysPolling hasHotplug forced disabled) := by
  obtain ⟨name, pin, stream, preference, polled, probe⟩ := c
  cases stream with
  | true => rfl
  | false =>
    cases pin with
    | none => cases preference <;> simp [initPoll, reinitialized, staysPolling, initialMode, isOn]
    | some p =>
      cases hp : disabled.contains p <;> cases preference <;> cases hasHotplug <;> cases forced <;>
        simp [initPoll, reinitialized, staysPolling, initialMode, isOn, hp]

def unpolled (c : Connector ρ) : Connector ρ := { c with polled := .unset }

@[simp] theorem unpolled_switched (c : Connector ρ) (pins : PinSet) :
    (c.switched pins).unpolled = c.unpolled := by
  unfold switched
  split <;> rfl

@[simp] theorem unpolled_recovered (c : Connector ρ) (pin : Pin) :
    (c.recovered pin).unpolled = c.unpolled := by
  unfold recovered
  split <;> rfl

end Connector

namespace Controller

section Messages

theorem noteAll_eq (s : Controller ρ) (ms : List Message) :
    s.noteAll ms = { s with trace := ms.reverse.map Event.note ++ s.trace } := by
  unfold noteAll
  induction ms generalizing s with
  | nil => rfl
  | cons m ms ih => simp [ih, note, emit]

/-- The connectors that stay on polling are reported in their order. -/
theorem reinitializeAll_eq (s : Controller ρ) (forced : Bool) (disabled : PinSet) (polling : Bool)
    (cs : List (Connector ρ)) :
    s.reinitializeAll forced disabled polling cs =
      (s.noteAll ((cs.filter (·.staysPolling s.caps.hasHotplug forced disabled)).map
          (.staysPolling ·.name)),
        cs.map (·.reinitialized s.caps.hasHotplug forced disabled),
        polling || cs.any (·.staysPolling s.caps.hasHotplug forced disabled)) := by
  induction cs generalizing s polling with
  | nil => simp [reinitializeAll, noteAll]
  | cons c cs ih =>
    cases hc : c.staysPolling s.caps.hasHotplug forced disabled with
    | false => simp [reinitializeAll, Connector.initPoll_eq, hc, ih]
    | true =>
      simp only [reinitializeAll, Connector.initPoll_eq, hc, ih, List.filter_cons_of_pos,
        List.map_cons, List.any_cons, Bool.true_or, Bool.or_true, if_true]
      rfl

theorem releaseMode_eq (s : Controller ρ) :
    ∃ line, s.releaseMode = { s with mode := s.mode.release, ready := line } := by
  obtain ⟨first, hfirst⟩ := { s with mode := s.mode.release }.rouse_eq .generic
  obtain ⟨line, hline⟩ := { s with mode := s.mode.release, ready := first }.rouse_eq .pollInit
  refine ⟨line, ?_⟩
  rw [releaseMode, hfirst, hline]

theorem setupIrqs_eq (s : Controller ρ) : ∃ trace, s.setupIrqs = { s with trace } := by
  unfold setupIrqs
  split
  · exact ⟨_, rfl⟩
  · exact ⟨s.trace, rfl⟩

theorem answer_eq (s : Controller ρ) (d : Demand) :
    ∃ line trace, s.answer d = { s with
      digital := if d.digital then s.digital.queue.1 else s.digital
      generic := if d.generic then s.generic.queue.1 else s.generic
      ready := line
      trace } := by
  have hdigital (s : Controller ρ) : ∃ line,
      (if d.digital then s.queueDigital else s) = { s with
        digital := if d.digital then s.digital.queue.1 else s.digital
        ready := line } := by
    split
    · exact rouse_eq _ _
    · exact ⟨s.ready, rfl⟩
  have hgeneric (s : Controller ρ) : ∃ line,
      (if d.generic then s.queueGeneric else s) = { s with
        generic := if d.generic then s.generic.queue.1 else s.generic
        ready := line } := by
    split
    · exact rouse_eq _ _
    · exact ⟨s.ready, rfl⟩
  have hstorm : ∃ trace, (if d.storm then s.setupIrqs else s) = { s with trace } := by
    split
    · exact s.setupIrqs_eq
    · exact ⟨s.trace, rfl⟩
  obtain ⟨trace, hstorm⟩ := hstorm
  unfold answer
  simp only [hstorm]
  obtain ⟨first, hfirst⟩ := hdigital { s with trace }
  rw [hfirst]
  obtain ⟨line, hline⟩ := hgeneric { s with
    digital := if d.digital then s.digital.queue.1 else s.digital
    ready := first
    trace }
  exact ⟨line, trace, hline⟩

/-- The connectors that stay on polling are reported in their order, and polling is enabled once. -/
theorem pollInitPass_closed (s : Controller ρ) (disabled : PinSet) :
    s.pollInitPass disabled =
      let staying := s.connectors.filter
        (·.staysPolling s.caps.hasHotplug s.pollForced disabled)
      let t : Controller ρ := { s.noteAll (staying.map (.staysPolling ·.name)) with
        connectors :=
          s.connectors.map (·.reinitialized s.caps.hasHotplug s.pollForced disabled) }
      let t := if s.pollForced || s.connectors.any
        (·.staysPolling s.caps.hasHotplug s.pollForced disabled) then t.call .pollEnable else t
      if s.pollForced then t.releaseMode else t.releaseMode.call .irqEvent := by
  rw [pollInitPass, reinitializeAll_eq]

theorem pollInitPass_eq_with (s : Controller ρ) (disabled : PinSet) :
    ∃ line trace, s.pollInitPass disabled = { s with
      connectors := s.connectors.map (·.reinitialized s.caps.hasHotplug s.pollForced disabled)
      mode := s.mode.release
      ready := line
      trace } := by
  simp only [pollInitPass_closed, noteAll_eq]
  split <;> split <;> (obtain ⟨line, hline⟩ := releaseMode_eq _; rw [hline]; exact ⟨line, _, rfl⟩)

end Messages

section Passes

theorem mitigate_eq (s : Controller ρ) :
    ∃ trace, s.mitigate = { s with
      connectors := s.connectors.map (·.switched (s.table.pinsIn .autoDisabled))
      table := (s.table.pinsIn .autoDisabled).toList.foldl (fun t pin => (t.mitigate pin).1) s.table
      trace } := by
  unfold mitigate
  simp only [noteAll_eq]
  exact ⟨_, rfl⟩

theorem scheduleReenable_eq (s : Controller ρ) :
    ∃ line, s.scheduleReenable =
      { s with reenable := s.reenable.schedule (s.now + s.reenableDelay), ready := line } :=
  rouse_eq _ _

theorem takeEvents_eq (s : Controller ρ) :
    ∃ connectors table line trace, s.takeEvents.1 = { s with
      eventPins := ∅
      reenable :=
        if (s.table.pinsIn .autoDisabled).isEmpty then s.reenable
        else s.reenable.schedule (s.now + s.reenableDelay)
      connectors
      table
      ready := line
      trace } := by
  have hstorm : (s.note .encoders).table.pinsIn .autoDisabled = s.table.pinsIn .autoDisabled := rfl
  unfold takeEvents
  simp only [hstorm]
  split
  · exact ⟨_, _, _, _, rfl⟩
  · obtain ⟨trace, hmitigate⟩ := mitigate_eq { s.note .encoders with eventPins := ∅ }
    obtain ⟨line, hschedule⟩ := scheduleReenable_eq
      (({ s.note .encoders with eventPins := ∅ } : Controller ρ).mitigate.call .pollEnable)
    rw [hschedule, hmitigate]
    exact ⟨_, _, line, _, rfl⟩

theorem recoverPin_eq (s : Controller ρ) (pin : Pin) :
    ∃ trace, s.recoverPin pin = { s with
      table := s.table.enable pin
      connectors := s.connectors.map (·.recovered pin)
      trace } := by
  unfold recoverPin
  simp only [noteAll_eq]
  exact ⟨_, rfl⟩

theorem reenablePass_eq (s : Controller ρ) :
    ∃ connectors table trace, s.reenablePass = { s with connectors, table, trace } := by
  have hpins (pins : List Pin) : ∃ connectors table trace,
      pins.foldl recoverPin s = { s with connectors, table, trace } := by
    induction pins generalizing s with
    | nil => exact ⟨_, _, _, rfl⟩
    | cons pin pins ih =>
      obtain ⟨trace, hpin⟩ := s.recoverPin_eq pin
      obtain ⟨connectors, table, trace, hpins⟩ := ih (s.recoverPin pin)
      refine ⟨connectors, table, trace, ?_⟩
      rw [List.foldl_cons, hpins, hpin]
  unfold reenablePass
  simp only
  split
  · exact ⟨_, _, _, rfl⟩
  · obtain ⟨connectors, table, trace, hpins⟩ := hpins s.recoverable
    obtain ⟨trace, hsetup⟩ :=
      setupIrqs_eq ((s.recoverable.foldl recoverPin s).note (.reenabled (.ofList s.recoverable)))
    refine ⟨connectors, table, trace, ?_⟩
    rw [hsetup, hpins]
    rfl

end Passes

theorem stopAll_of_idle {s : Controller ρ} (h : s.digital.rest? = none) (client : Nat) :
    s.stopAll client = s.stopWorkers := by
  simp [stopAll, h]

section Interrupts

/-- What an interrupt may change: the recorded events, the pins, the work queued for them, and what
is written. -/
def Struck (s t : Controller ρ) : Prop :=
  t = { s with
    table := t.table
    longPorts := t.longPorts
    shortPorts := t.shortPorts
    eventPins := t.eventPins
    warned := t.warned
    digital := t.digital
    generic := t.generic
    ready := t.ready
    trace := t.trace }

theorem Struck.eq {s t : Controller ρ} (h : s.Struck t) :
    t = { s with
      table := t.table
      longPorts := t.longPorts
      shortPorts := t.shortPorts
      eventPins := t.eventPins
      warned := t.warned
      digital := t.digital
      generic := t.generic
      ready := t.ready
      trace := t.trace } := h

theorem Struck.trans {s t u : Controller ρ} (h : s.Struck t) (h' : t.Struck u) : s.Struck u := by
  unfold Struck at *
  rw [h] at h'
  exact h'

theorem struck_detectStorm (s : Controller ρ) (pin : Pin) (long : Bool) (d : Demand) :
    s.Struck (s.detectStorm pin long d).1 := by
  unfold detectStorm
  split <;> exact rfl

theorem struck_judge (s : Controller ρ) (pin : Pin) (digital long : Bool) (d : Demand) :
    s.Struck (s.judge pin digital long d).1 := by
  unfold judge
  split
  · exact rfl
  · exact rfl
  · split
    · exact s.struck_detectStorm pin long d
    · exact struck_detectStorm { s with eventPins := s.eventPins.insert pin } pin long _

theorem struck_receive (s : Controller ρ) (long : PinSet) (pin : Pin) (d : Demand) :
    s.Struck (s.receive long pin d).1 := by
  unfold receive
  split
  · rename_i port _
    have hkept : s.Struck
        ((s.note (.digitalPulse port (long.contains pin))).keepPulse port (long.contains pin)) := by
      unfold keepPulse
      split <;> exact rfl
    exact hkept.trans (struck_judge _ _ _ _ _)
  · exact s.struck_judge pin false true d

theorem struck_receiveAll (s : Controller ρ) (long : PinSet) (d : Demand) (pins : List Pin) :
    s.Struck (s.receiveAll long d pins).1 := by
  induction pins generalizing s d with
  | nil => exact rfl
  | cons pin pins ih => exact (s.struck_receive long pin d).trans (ih _ _)

theorem struck_interrupt (s : Controller ρ) (i : Interrupt) : s.Struck (s.interrupt i) := by
  have hjudged := s.struck_receiveAll i.long {} i.fired.toList
  unfold interrupt
  obtain ⟨line, trace, hanswer⟩ := answer_eq (s.receiveAll i.long {} i.fired.toList).1
    (s.receiveAll i.long {} i.fired.toList).2
  refine hjudged.trans ?_
  simp only [hanswer]
  exact rfl

theorem struck_interrupts (s : Controller ρ) (is : List Interrupt) :
    s.Struck (is.foldl interrupt s) := by
  induction is generalizing s with
  | nil => exact rfl
  | cons i is ih => exact (s.struck_interrupt i).trans (ih _)

end Interrupts

section Pulses

theorem digitalPortForPin_congr {s t : Controller ρ} (hcaps : t.caps = s.caps)
    (h : ∀ port, (t.digitalPorts port).isSome = (s.digitalPorts port).isSome) :
    t.digitalPortForPin = s.digitalPortForPin := by
  funext pin
  simp only [digitalPortForPin, portForPin, hcaps, h]

theorem digitalPortForPin_withHandler (s : Controller ρ) {port : Port} (h : PulseHandler)
    (hport : (s.digitalPorts port).isSome) :
    (s.withHandler port h).digitalPortForPin = s.digitalPortForPin := by
  refine digitalPortForPin_congr rfl fun p => ?_
  by_cases hp : p = port
  · simp [withHandler, hp, hport]
  · simp [withHandler, hp]

/-- A pulse that is handed over: its port, what the port answers, and whether it is a long one. -/
def handOver (s : Controller ρ) (x : Port × PulseHandler × Bool) : Controller ρ :=
  s.pulse x.1 x.2.1 x.2.2

/-- The pulses that are handed over to some ports, in their order. -/
def pulsesFor (s : Controller ρ) (long short : PortSet) (ports : List Port) :
    List (Port × PulseHandler × Bool) :=
  ports.filterMap fun port => (s.pulseFor long short port).map (port, ·)

def raisedBy (xs : List (Port × PulseHandler × Bool)) : List Interrupt :=
  xs.flatMap fun x => (x.2.1.answer x.2.2).raised

theorem raisedBy_cons (x : Port × PulseHandler × Bool) (xs : List (Port × PulseHandler × Bool)) :
    raisedBy (x :: xs) = (x.2.1.answer x.2.2).raised ++ raisedBy xs := rfl

def refusedBy (s : Controller ρ) (xs : List (Port × PulseHandler × Bool)) : List Pin :=
  xs.filterMap fun x => if (x.2.1.answer x.2.2).handled then none else s.pinForPort x.1

theorem digitalPorts_pulse (s : Controller ρ) (port : Port) (h : PulseHandler) (long : Bool) :
    (s.pulse port h long).digitalPorts =
      fun p => if p = port then some h.next else s.digitalPorts p := by
  rw [pulse, (struck_interrupts _ _).eq]
  rfl

theorem caps_pulse (s : Controller ρ) (port : Port) (h : PulseHandler) (long : Bool) :
    (s.pulse port h long).caps = s.caps := by
  rw [pulse, (struck_interrupts _ _).eq]
  rfl

theorem pulsesFor_pulse (s : Controller ρ) {port : Port} (h : PulseHandler) (isLong : Bool)
    (long short : PortSet) {ports : List Port} (hport : port ∉ ports) :
    (s.pulse port h isLong).pulsesFor long short ports = s.pulsesFor long short ports := by
  refine List.filterMap_congr fun port' hport' => ?_
  have hne : port' ≠ port := fun heq => hport (heq ▸ hport')
  simp only [pulseFor, digitalPorts_pulse, if_neg hne]

theorem digitalPorts_of_pulseFor {s : Controller ρ} {long short : PortSet} {port : Port}
    {y : PulseHandler × Bool} (h : s.pulseFor long short port = some y) :
    s.digitalPorts port = some y.1 := by
  unfold pulseFor at h
  split at h
  · obtain ⟨handler, hh, rfl⟩ := Option.map_eq_some_iff.mp h
    exact hh
  · cases h

theorem digitalPorts_of_mem {s : Controller ρ} {long short : PortSet} {ports : List Port}
    {x : Port × PulseHandler × Bool} (hx : x ∈ s.pulsesFor long short ports) :
    s.digitalPorts x.1 = some x.2.1 := by
  obtain ⟨port, -, hport⟩ := List.mem_filterMap.mp hx
  obtain ⟨y, hy, rfl⟩ := Option.map_eq_some_iff.mp hport
  exact digitalPorts_of_pulseFor hy

theorem nodup_pulsesFor (s : Controller ρ) (long short : PortSet) {ports : List Port}
    (h : ports.Nodup) : ((s.pulsesFor long short ports).map (·.1)).Nodup := by
  refine h.sublist ?_
  unfold pulsesFor
  induction ports with
  | nil => exact .slnil
  | cons port ports ih =>
    have hports := ih (List.nodup_cons.mp h).2
    rw [List.filterMap_cons]
    cases s.pulseFor long short port with
    | none => exact hports.cons _
    | some x => exact hports.cons_cons _

/-- Every pulse goes to a port of its own, which is going to answer it. -/
structure Addressed (s : Controller ρ) (xs : List (Port × PulseHandler × Bool)) : Prop where

  once : (xs.map (·.1)).Nodup

  registered {x : Port × PulseHandler × Bool} : x ∈ xs → s.digitalPorts x.1 = some x.2.1

theorem addressed_pulsesFor (s : Controller ρ) (long short : PortSet) {ports : List Port}
    (h : ports.Nodup) : s.Addressed (s.pulsesFor long short ports) :=
  ⟨s.nodup_pulsesFor long short h, digitalPorts_of_mem⟩

theorem Addressed.head {s : Controller ρ} {x : Port × PulseHandler × Bool}
    {xs : List (Port × PulseHandler × Bool)} (h : s.Addressed (x :: xs)) :
    s.digitalPorts x.1 = some x.2.1 := h.registered List.mem_cons_self

theorem Addressed.isSome_head {s : Controller ρ} {x : Port × PulseHandler × Bool}
    {xs : List (Port × PulseHandler × Bool)} (h : s.Addressed (x :: xs)) :
    (s.digitalPorts x.1).isSome = true := by
  rw [h.head]
  rfl

theorem Addressed.tail {s : Controller ρ} {x : Port × PulseHandler × Bool}
    {xs : List (Port × PulseHandler × Bool)} (h : s.Addressed (x :: xs)) :
    (s.handOver x).Addressed xs := by
  obtain ⟨hx, hxs⟩ := List.nodup_cons.mp h.once
  refine ⟨hxs, fun {y} hy => ?_⟩
  have hne : y.1 ≠ x.1 := fun heq => hx (List.mem_map.mpr ⟨y, hy, heq⟩)
  rw [handOver, digitalPorts_pulse]
  exact (if_neg hne).trans (h.registered (List.mem_cons_of_mem x hy))

theorem deliver_eq (s : Controller ρ) (long short : PortSet) (refused : PinSet) {ports : List Port}
    (hports : ports.Nodup) :
    s.deliver long short refused ports =
      ((s.pulsesFor long short ports).foldl handOver s,
        (s.refusedBy (s.pulsesFor long short ports)).foldl Mask.insert refused) := by
  induction ports generalizing s refused with
  | nil => rfl
  | cons port ports ih =>
    obtain ⟨hport, hports⟩ := List.nodup_cons.mp hports
    unfold deliver
    split
    · rename_i hnone
      have hpulses : s.pulsesFor long short (port :: ports) = s.pulsesFor long short ports := by
        rw [pulsesFor, List.filterMap_cons, hnone]
        rfl
      rw [ih _ _ hports, hpulses]
    · rename_i h isLong hsome
      have hpulses : s.pulsesFor long short (port :: ports) =
          (port, h, isLong) :: (s.pulse port h isLong).pulsesFor long short ports := by
        rw [pulsesFor_pulse s h isLong long short hport, pulsesFor, List.filterMap_cons, hsome]
        rfl
      have hpin (port' : Port) : (s.pulse port h isLong).pinForPort port' = s.pinForPort port' := by
        rw [pinForPort, caps_pulse, pinForPort]
      rw [hpulses, List.foldl_cons]
      simp only [ih _ _ hports, refusedBy, List.filterMap_cons, hpin]
      cases hhandled : (h.answer isLong).handled with
      | true => rfl
      | false =>
        cases s.pinForPort port with
        | none => rfl
        | some pin => rfl

/-- What calls, answers and interrupts keep, a digital run keeps when it hands its pulses over. -/
theorem deliver_induction {P : Controller ρ → Prop} (hemit : ∀ s e, P s → P (s.emit e))
    (hports : ∀ s port h, s.digitalPorts port = some h → P s → P (s.withHandler port h.next))
    (hinterrupt : ∀ s i, P s → P (s.interrupt i)) (long short : PortSet) (refused : PinSet)
    (ports : List Port) (s : Controller ρ) (h : P s) :
    P (s.deliver long short refused ports).1 := by
  induction ports generalizing s refused with
  | nil => exact h
  | cons port ports ih =>
    unfold deliver
    split
    · exact ih _ s h
    · rename_i handler isLong hport
      have hasked : P ((s.call (.pulse port isLong)).withHandler port handler.next) :=
        hports _ _ _ (digitalPorts_of_pulseFor hport) (hemit _ _ h)
      have hpulse : P (s.pulse port handler isLong) :=
        List.foldlRecOn _ _ hasked fun t ht i _ => hinterrupt t i ht
      simp only
      split
      · exact ih _ _ hpulse
      · exact ih _ _ hpulse

end Pulses

section Probes

variable [Probe ρ]

/-- What interrupts and messages keep, probing keeps. -/
theorem probeAll_induction {P : Controller ρ → Prop} (hemit : ∀ s e, P s → P (s.emit e))
    (hinterrupt : ∀ s i, P s → P (s.interrupt i)) (pins : PinSet) (cs : List (Connector ρ))
    (s : Controller ρ) (h : P s) : P (s.probeAll pins cs).1 := by
  induction cs generalizing s with
  | nil => exact h
  | cons c cs ih =>
    unfold probeAll
    split
    · exact ih _ (List.foldlRecOn _ _ (hemit _ _ (hemit _ _ h)) fun t ht i _ => hinterrupt t i ht)
    · exact ih s h

end Probes

section Views

variable {α : Type} {view : Controller ρ → α}

/-- The view shows neither the line of the workers nor the messages, except for the one that tells
of a run of the generic job. -/
structure Plain (view : Controller ρ → α) : Prop where
  line (s : Controller ρ) (line : List Job) : view { s with ready := line } = view s
  note (s : Controller ρ) {m : Message} (hm : m ≠ .encoders) : view (s.note m) = view s

/-- The view does not show the calls either. -/
structure Silent (view : Controller ρ → α) : Prop where
  line (s : Controller ρ) (line : List Job) : view { s with ready := line } = view s
  trace (s : Controller ρ) (trace : List Event) : view { s with trace } = view s

theorem Silent.plain (h : Silent view) : Plain view where
  line := h.line
  note s _ _ := h.trace s _

namespace Plain

variable (h : Plain view) (s : Controller ρ)

include h

theorem rouse (j : Job) : view (s.rouse j) = view s := by
  obtain ⟨line, hs⟩ := s.rouse_eq j
  rw [hs, h.line]

theorem noteAll {ms : List Message} (hms : .encoders ∉ ms) : view (s.noteAll ms) = view s := by
  induction ms generalizing s with
  | nil => rfl
  | cons m ms ih =>
    obtain ⟨hm, hms⟩ := List.ne_and_not_mem_of_not_mem_cons hms
    exact (ih (s.note m) hms).trans (h.note s hm.symm)

theorem queueDigital : view s.queueDigital = view { s with digital := s.digital.queue.1 } :=
  h.rouse _ _

theorem queueGeneric : view s.queueGeneric = view { s with generic := s.generic.queue.1 } :=
  h.rouse _ _

theorem queuePollInit : view s.queuePollInit = view { s with pollInit := s.pollInit.queue.1 } :=
  h.rouse _ _

theorem releaseMode : view s.releaseMode = view { s with mode := s.mode.release } :=
  (h.rouse _ _).trans (h.rouse _ _)

theorem releaseRun (j : Job) :
    view (s.releaseRun j) = view (s.withLane j fun l => { l with run := l.run.release }) :=
  h.rouse _ _

theorem scheduleReenable :
    view s.scheduleReenable =
      view { s with reenable := s.reenable.schedule (s.now + s.reenableDelay) } :=
  h.rouse _ _

theorem disarmReenable :
    view (s.disarm .reenable) = view { s with reenable := s.reenable.disarm } :=
  h.rouse _ _

theorem advance (instant : Nat) :
    view (s.advance instant) = view { s with now := max s.now instant } :=
  h.rouse _ _

theorem stopWorkers :
    view s.stopWorkers =
      view { Job.all.foldl (fun s j => s.withLane j Lane.stop) s with
        mode := (s.mode.leave .generic).leave .pollInit } :=
  (h.note _ (by nofun)).trans (h.line { Job.all.foldl (fun s j => s.withLane j Lane.stop) s with
    mode := (s.mode.leave .generic).leave .pollInit } [])

theorem noteAll_with {f : Controller ρ → Controller ρ} {ms : List Message} (hms : .encoders ∉ ms)
    (hf : ∀ t trace, f { t with trace } = { f t with trace })
    (htrace : (f s).trace = s.trace) : view (f (s.noteAll ms)) = view (f s) := by
  have hlate : f (s.noteAll ms) = (f s).noteAll ms := by
    rw [noteAll_eq, noteAll_eq, hf, htrace]
  rw [hlate, h.noteAll _ hms]

theorem mitigate :
    view s.mitigate =
      view { s with
        connectors := s.connectors.map (·.switched (s.table.pinsIn .autoDisabled))
        table := (s.table.pinsIn .autoDisabled).toList.foldl (fun t pin => (t.mitigate pin).1)
          s.table } :=
  h.noteAll_with s (f := fun t => { t with
    connectors := t.connectors.map (·.switched (s.table.pinsIn .autoDisabled))
    table := (s.table.pinsIn .autoDisabled).toList.foldl (fun t pin => (t.mitigate pin).1)
      t.table }) (by simp) (fun _ _ => rfl) rfl

theorem recoverPin (pin : Pin) :
    view (s.recoverPin pin) =
      view { s with
        table := s.table.enable pin
        connectors := s.connectors.map (·.recovered pin) } :=
  h.noteAll_with s (f := fun t => { t with
    table := s.table.enable pin
    connectors := s.connectors.map (·.recovered pin) }) (by simp) (fun _ _ => rfl) rfl

end Plain

namespace Silent

variable (h : Silent view) (s : Controller ρ)

include h

theorem of_eq {s t : Controller ρ} (hst : t = { s with ready := t.ready, trace := t.trace }) :
    view t = view s := by
  rw [hst]
  exact (h.line { s with trace := t.trace } t.ready).trans (h.trace s t.trace)

theorem note (m : Message) : view (s.note m) = view s := h.trace s _

theorem call (c : Call) : view (s.call c) = view s := h.trace s _

theorem setupIrqs : view s.setupIrqs = view s := by
  obtain ⟨trace, hs⟩ := s.setupIrqs_eq
  rw [hs, h.trace]

theorem answer (d : Demand) :
    view (s.answer d) =
      view { s with
        digital := if d.digital then s.digital.queue.1 else s.digital
        generic := if d.generic then s.generic.queue.1 else s.generic } := by
  obtain ⟨line, trace, hs⟩ := s.answer_eq d
  rw [hs]
  exact h.of_eq rfl

theorem fallBack (refused : PinSet) :
    view (s.fallBack refused) =
      view (if refused.isEmpty then s
        else { s with eventPins := s.eventPins ∪ refused, generic := s.generic.queue.1 }) := by
  unfold Controller.fallBack
  split
  · rfl
  · exact h.plain.queueGeneric _

theorem pollInitPass (disabled : PinSet) :
    view (s.pollInitPass disabled) =
      view { s with
        connectors :=
          s.connectors.map (·.reinitialized s.caps.hasHotplug s.pollForced disabled)
        mode := s.mode.release } := by
  obtain ⟨line, trace, hs⟩ := s.pollInitPass_eq_with disabled
  rw [hs]
  exact h.of_eq rfl

theorem probePass [Probe ρ] (pins : PinSet) :
    view (s.probePass pins) =
      view { (s.probeAll pins s.connectors).1 with
        connectors := (s.probeAll pins s.connectors).2.1
        mode := (s.probeAll pins s.connectors).1.mode.release } := by
  unfold Controller.probePass
  simp only
  split
  · exact (h.call _ _).trans (h.plain.releaseMode _)
  · exact h.plain.releaseMode _

end Silent

/-- The view shows what passes between the controller and the devices, and neither the pins nor the
deferred work behind it. -/
structure Outward (view : Controller ρ → α) : Prop extends Plain view where
  inner (s : Controller ρ) (table : PinTable) (longPorts shortPorts : PortSet) (eventPins : PinSet)
    (warned : Bool) (digital generic pollInit : Work Rest) (reenable : DelayedWork Rest)
    (mode : Lock ModeParty) (errands : List (Nat × Errand)) :
    view { s with
      table, longPorts, shortPorts, eventPins, warned, digital, generic, pollInit, reenable, mode
      errands } = view s
  modes (s : Controller ρ) {cs : ConnectorList ρ}
    (h : cs.map Connector.unpolled = s.connectors.map Connector.unpolled) :
    view { s with connectors := cs } = view s

namespace Outward

variable (h : Outward view) (s : Controller ρ)

include h

theorem of_eq {s t : Controller ρ} (hst : t = { s with
      table := t.table
      longPorts := t.longPorts
      shortPorts := t.shortPorts
      eventPins := t.eventPins
      warned := t.warned
      digital := t.digital
      generic := t.generic
      pollInit := t.pollInit
      reenable := t.reenable
      mode := t.mode
      errands := t.errands
      ready := t.ready }) : view t = view s := by
  rw [hst]
  exact (h.line { s with
      table := t.table
      longPorts := t.longPorts
      shortPorts := t.shortPorts
      eventPins := t.eventPins
      warned := t.warned
      digital := t.digital
      generic := t.generic
      pollInit := t.pollInit
      reenable := t.reenable
      mode := t.mode
      errands := t.errands } t.ready).trans (h.inner s _ _ _ _ _ _ _ _ _ _ _)

theorem queueDigital : view s.queueDigital = view s :=
  (h.toPlain.queueDigital s).trans (h.of_eq rfl)

theorem queueGeneric : view s.queueGeneric = view s :=
  (h.toPlain.queueGeneric s).trans (h.of_eq rfl)

theorem queuePollInit : view s.queuePollInit = view s :=
  (h.toPlain.queuePollInit s).trans (h.of_eq rfl)

theorem withLane (j : Job) (f : Lane Rest → Lane Rest) : view (s.withLane j f) = view s := by
  cases j <;> exact h.of_eq rfl

theorem beginRun (j : Job) (rest : Rest) : view (s.beginRun j rest) = view s := h.withLane s j _

theorem finishRun (j : Job) : view (s.finishRun j) = view s := h.withLane s j _

theorem requestMode (p : ModeParty) : view (s.requestMode p) = view s := h.of_eq rfl

theorem releaseMode : view s.releaseMode = view s :=
  (h.toPlain.releaseMode s).trans (h.of_eq rfl)

theorem requestRun (j : Job) (client : Nat) : view (s.requestRun j client) = view s :=
  h.withLane s j _

theorem releaseRun (j : Job) : view (s.releaseRun j) = view s :=
  (h.toPlain.releaseRun s j).trans (h.withLane s j _)

theorem disarm (j : Job) : view (s.disarm j) = view s := by
  cases j with
  | reenable => exact (h.toPlain.disarmReenable s).trans (h.of_eq rfl)
  | _ => exact h.of_eq rfl

theorem startWorkers (js : List Job) :
    view (js.foldl (fun s j => (s.withLane j Lane.start).rouse j) s) = view s := by
  induction js generalizing s with
  | nil => rfl
  | cons j js ih => exact (ih _).trans ((h.rouse _ j).trans (h.withLane s j _))

theorem start : view ((s.start true).toOption.getD s) = view s := by
  unfold Controller.start
  simp only [Bool.not_true, Bool.false_eq_true, if_false]
  split
  · rfl
  · exact (h.note _ (by nofun)).trans (h.startWorkers s Job.all)

theorem stopWorkers : view s.stopWorkers = view s := by
  have hlanes (js : List Job) (s : Controller ρ) :
      view (js.foldl (fun s j => s.withLane j Lane.stop) s) = view s := by
    induction js generalizing s with
    | nil => rfl
    | cons j js ih => exact (ih _).trans (h.withLane s j _)
  rw [h.toPlain.stopWorkers, ← hlanes Job.all s]
  exact h.of_eq rfl

theorem stopAll (client : Nat) : view (s.stopAll client) = view s := by
  unfold Controller.stopAll
  simp only
  split
  · exact Eq.trans (h.of_eq rfl) (h.withLane s .digital _)
  · exact h.stopWorkers s

theorem cancelJobs (client : Nat) (stop : Bool) (js : List Job) :
    view (s.cancelJobs client stop js) = view s := by
  induction js generalizing s with
  | nil =>
    unfold Controller.cancelJobs
    split
    · exact h.stopAll s client
    · rfl
  | cons j js ih =>
    have hasked : view ((s.disarm j).requestRun j client) = view s :=
      (h.requestRun _ j client).trans (h.disarm s j)
    unfold Controller.cancelJobs
    simp only
    split
    · exact (ih _).trans ((h.releaseRun _ j).trans hasked)
    · exact Eq.trans (h.of_eq rfl) hasked

theorem abandon (client : Nat) : view (s.abandon client) = view s := by
  unfold Controller.abandon
  split
  · exact (h.rouse _ _).trans ((h.withLane _ _ _).trans (h.of_eq rfl))
  · rfl

theorem hold (party : Nat) : view (s.hold party) = view s := by
  unfold Controller.hold
  split
  · rfl
  · exact h.of_eq rfl

theorem release (party : Nat) : view (s.release party) = view s := by
  unfold Controller.release
  split
  · exact h.releaseMode s
  · exact h.of_eq rfl

theorem receive (long : PinSet) (pin : Pin) (d : Demand) :
    view (s.receive long pin d).1 = view s := by
  have hstorm (s : Controller ρ) (long : Bool) (d : Demand) :
      view (s.detectStorm pin long d).1 = view s := by
    unfold detectStorm
    split
    · exact (h.note _ (by nofun)).trans (h.of_eq rfl)
    · exact (h.note _ (by nofun)).trans (h.of_eq rfl)
    · exact h.of_eq rfl
  have hjudge (s : Controller ρ) (digital long : Bool) (d : Demand) :
      view (s.judge pin digital long d).1 = view s := by
    unfold judge
    split
    · exact Eq.trans (h.of_eq rfl) (h.note s (by nofun))
    · rfl
    · split
      · exact hstorm s long d
      · exact (hstorm _ long _).trans (h.of_eq rfl)
  unfold Controller.receive
  split
  · rename_i port _
    have hnoted : view (s.note (.digitalPulse port (long.contains pin))) = view s :=
      h.note s (by nofun)
    refine (hjudge _ _ _ _).trans (Eq.trans ?_ hnoted)
    unfold keepPulse
    split <;> exact h.of_eq rfl
  · exact hjudge s false true d

theorem receiveAll (long : PinSet) (d : Demand) (pins : List Pin) :
    view (s.receiveAll long d pins).1 = view s := by
  induction pins generalizing s d with
  | nil => rfl
  | cons pin pins ih => exact (ih _ _).trans (h.receive s long pin d)

theorem answer (d : Demand) :
    view (s.answer d) = view (if d.storm then s.setupIrqs else s) := by
  unfold Controller.answer
  generalize (if d.storm then s.setupIrqs else s) = t
  have hdigital : view (if d.digital then t.queueDigital else t) = view t := by
    split
    · exact h.queueDigital t
    · rfl
  simp only
  split
  · exact (h.queueGeneric _).trans hdigital
  · exact hdigital

theorem fallBack (refused : PinSet) : view (s.fallBack refused) = view s := by
  unfold Controller.fallBack
  split
  · rfl
  · exact (h.queueGeneric _).trans (h.of_eq rfl)

theorem withModes (table : PinTable) {cs : ConnectorList ρ}
    (hcs : cs.map Connector.unpolled = s.connectors.map Connector.unpolled) :
    view { s with table, connectors := cs } = view s :=
  Eq.trans (h.modes { s with table } hcs) (h.of_eq rfl)

theorem mitigate : view s.mitigate = view s := by
  refine (h.toPlain.mitigate s).trans (h.withModes s _ ?_)
  rw [List.map_map]
  exact List.map_congr_left fun c _ => c.unpolled_switched _

theorem scheduleReenable : view s.scheduleReenable = view s :=
  (h.toPlain.scheduleReenable s).trans (h.of_eq rfl)

theorem recoverPin (pin : Pin) : view (s.recoverPin pin) = view s := by
  refine (h.toPlain.recoverPin s pin).trans (h.withModes s _ ?_)
  rw [List.map_map]
  exact List.map_congr_left fun c _ => c.unpolled_recovered pin

theorem recoverPins (pins : List Pin) : view (pins.foldl Controller.recoverPin s) = view s := by
  induction pins generalizing s with
  | nil => rfl
  | cons pin pins ih => exact (ih _).trans (h.recoverPin s pin)

end Outward

end Views

end Controller

end HotplugDetect
