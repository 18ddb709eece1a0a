import HotplugDetect.Proofs.Backlog.Basic

/-! # The ledger

How a burst of interrupts is dealt with shows in the calls of the digital ports, the runs of the
generic job, the calls of the probes and the probes themselves. The ledger is the view of the
controller that has these; poll modes, the pin table and other messages do not belong to it.
-/

namespace HotplugDetect

variable {ρ : Type}

def Event.entered : Event → Bool
  | .call (.pulse _ _) => true
  | .call (.detect _) => true
  | .call .hotplugEvent => true
  | .note .encoders => true
  | _ => false

namespace Connector

variable [Probe ρ]

/-- A connector on one of the pins, after its probe was called. -/
def asked (c : Connector ρ) (on : Bool) : Connector ρ :=
  if on then { c with probe := (Probe.detect c.probe).next } else c

def changes (c : Connector ρ) : Bool := (Probe.detect c.probe).changed

def Silent (c : Connector ρ) : Prop := (Probe.detect c.probe).raised = []

end Connector

def PulseHandler.Silent (h : PulseHandler) : Prop := ∀ long, (h.answer long).raised = []

structure Ledger (ρ : Type) where
  handlers : Port → Option PulseHandler
  /-- The registered port that a pin serves. -/
  portOf : Pin → Option Port
  pinOf : Port → Option Pin
  connectors : List (Connector ρ)
  /-- The events, last one first. -/
  log : List Event

namespace Ledger

variable (g : Ledger ρ) (long short : PortSet)

/-- The handler that a kept pulse of the port goes to, and whether the pulse is a long one. -/
def pulse (port : Port) : Option (PulseHandler × Bool) :=
  if long.contains port || short.contains port then
    (g.handlers port).map fun h => (h, long.contains port)
  else none

def pulses : List Event :=
  Port.all.filterMap fun port => (g.pulse long short port).map fun x => .call (.pulse port x.2)

/-- The pin that is probed because the port does not handle its pulse. -/
def refusal (port : Port) : Option Pin :=
  (g.pulse long short port).bind fun x =>
    if (x.1.answer x.2).handled then none else g.pinOf port

variable [Probe ρ]

def detections (pins : PinSet) : List Event :=
  (g.connectors.filter (·.isOn pins)).map fun c => .call (.detect c.name)

def changed (pins : PinSet) : Bool := g.connectors.any fun c => c.isOn pins && c.changes

def probed (pins : PinSet) : Ledger ρ :=
  { g with
    connectors := g.connectors.map fun c => c.asked (c.isOn pins)
    log := (if g.changed pins then [.call .hotplugEvent] else []) ++
      (g.detections pins).reverse ++ g.log }

end Ledger

namespace Controller

def ledger (s : Controller ρ) : Ledger ρ where
  handlers := s.digitalPorts
  portOf := s.digitalPortForPin
  pinOf := s.pinForPort
  connectors := s.connectors.map Connector.unpolled
  log := s.trace.filter Event.entered

section Bookkeeping

variable (s : Controller ρ)

theorem ledger_emit (e : Event) :
    (s.emit e).ledger =
      { s.ledger with log := if e.entered then e :: s.ledger.log else s.ledger.log } := by
  simp only [ledger, emit, List.filter_cons]
  rfl

theorem ledger_call {c : Call} (h : Event.entered (.call c) = false) :
    (s.call c).ledger = s.ledger := by
  rw [call, ledger_emit, h]
  rfl

theorem outward_ledger : Outward (ledger (ρ := ρ)) where
  line _ _ := rfl
  note s m hm := by
    rw [note, ledger_emit]
    cases m with
    | encoders => exact absurd rfl hm
    | _ => rfl
  inner _ _ _ _ _ _ _ _ _ _ _ _ := rfl
  modes s cs h := by
    simp only [ledger, h]
    rfl

@[simp] theorem ledger_setupIrqs : s.setupIrqs.ledger = s.ledger := by
  unfold setupIrqs
  split
  · exact s.ledger_call rfl
  · rfl

theorem ledger_receive (long : PinSet) (p : Pin) (d : Demand) :
    (s.receive long p d).1.ledger = s.ledger :=
  outward_ledger.receive s long p d

theorem ledger_interrupt (i : Interrupt) : (s.interrupt i).ledger = s.ledger := by
  have hreceived := outward_ledger.receiveAll s i.long {} i.fired.toList
  have hanswered := outward_ledger.answer (s.receiveAll i.long {} i.fired.toList).1
    (s.receiveAll i.long {} i.fired.toList).2
  refine hanswered.trans (Eq.trans ?_ hreceived)
  split
  · exact ledger_setupIrqs _
  · rfl

end Bookkeeping

section Passes

theorem ledger_pulse (s : Controller ρ) {port : Port} {h : PulseHandler}
    (hport : s.digitalPorts port = some h) {long : Bool} (hquiet : (h.answer long).raised = []) :
    ∃ handlers, (s.pulse port h long).ledger =
      { s.ledger with handlers, log := .call (.pulse port long) :: s.ledger.log } := by
  have hserved := (s.call (.pulse port long)).digitalPortForPin_withHandler h.next
    (Option.isSome_iff_exists.mpr ⟨h, hport⟩)
  refine ⟨(s.pulse port h long).digitalPorts, ?_⟩
  unfold pulse
  rw [hquiet, List.foldl_nil, ledger, hserved]
  rfl

theorem ledger_pulses {xs : List (Port × PulseHandler × Bool)} (s : Controller ρ)
    (hxs : s.Addressed xs) (hquiet : raisedBy xs = []) :
    ∃ handlers, (xs.foldl handOver s).ledger = { s.ledger with
      handlers
      log := (xs.map fun x => Event.call (.pulse x.1 x.2.2)).reverse ++ s.ledger.log } := by
  induction xs generalizing s with
  | nil => exact ⟨_, rfl⟩
  | cons x xs ih =>
    rw [raisedBy_cons, List.append_eq_nil_iff] at hquiet
    obtain ⟨hquietx, hquiet⟩ := hquiet
    obtain ⟨_, hfirst⟩ := s.ledger_pulse hxs.head hquietx
    obtain ⟨handlers, hrest⟩ := ih (s.handOver x) hxs.tail hquiet
    refine ⟨handlers, ?_⟩
    rw [List.foldl_cons, hrest, handOver, hfirst, List.map_cons, List.reverse_cons,
      List.append_assoc]
    rfl

theorem pulsesFor_all (s : Controller ρ) (long short : PortSet) :
    (s.pulsesFor long short Port.all).map (fun x => Event.call (.pulse x.1 x.2.2)) =
      s.ledger.pulses long short := by
  unfold pulsesFor Ledger.pulses
  rw [List.map_filterMap]
  refine List.filterMap_congr fun port _ => ?_
  rw [Option.map_map]
  rfl

/-- The pulses go to the ports, as long as no port raises an interrupt. -/
theorem ledger_deliver (s : Controller ρ) {long short : PortSet} (refused : PinSet)
    (hquiet : raisedBy (s.pulsesFor long short Port.all) = []) :
    ∃ handlers, (s.deliver long short refused Port.all).1.ledger = { s.ledger with
      handlers
      log := (s.ledger.pulses long short).reverse ++ s.ledger.log } := by
  rw [deliver_eq s long short refused (by decide), ← pulsesFor_all]
  exact ledger_pulses s (s.addressed_pulsesFor long short (by decide)) hquiet

theorem contains_refused (s : Controller ρ) (long short : PortSet) (p : Pin) :
    (s.deliver long short ∅ Port.all).2.contains p = true ↔
      ∃ port, s.ledger.refusal long short port = some p := by
  rw [deliver_eq s long short ∅ (by decide), Mask.contains_foldl_insert, Mask.contains_empty,
    Bool.false_or, decide_eq_true_eq, refusedBy, List.mem_filterMap]
  constructor
  · rintro ⟨x, hx, hp⟩
    obtain ⟨port, -, hport⟩ := List.mem_filterMap.mp hx
    obtain ⟨y, hy, rfl⟩ := Option.map_eq_some_iff.mp hport
    refine ⟨port, ?_⟩
    rw [Ledger.refusal, show s.ledger.pulse long short port = some y from hy]
    exact hp
  · rintro ⟨port, hp⟩
    obtain ⟨y, hy, hpin⟩ := Option.bind_eq_some_iff.mp hp
    refine ⟨(port, y), List.mem_filterMap.mpr ⟨port, Port.mem_all port, ?_⟩, hpin⟩
    rw [show s.pulseFor long short port = some y from hy]
    rfl

theorem ledger_takeEvents (s : Controller ρ) :
    s.takeEvents.1.ledger = { s.ledger with log := .note .encoders :: s.ledger.log } := by
  have hnoted : (s.note .encoders).ledger =
      { s.ledger with log := .note .encoders :: s.ledger.log } := s.ledger_emit _
  unfold takeEvents
  simp only
  split
  · exact hnoted
  · rw [outward_ledger.scheduleReenable, ledger_call _ rfl, outward_ledger.mitigate]
    exact hnoted

theorem ledger_reenablePass (s : Controller ρ) : s.reenablePass.ledger = s.ledger := by
  unfold reenablePass
  simp only
  split
  · rfl
  · rw [ledger_setupIrqs, outward_ledger.note _ (by nofun), outward_ledger.recoverPins]

end Passes

section Probes

variable [Probe ρ]

theorem probeAll_silent {pins : PinSet} {cs : List (Connector ρ)} (s : Controller ρ)
    (h : ∀ c ∈ cs, c.isOn pins = true → c.Silent) :
    ∃ trace, s.probeAll pins cs = ({ s with trace }, cs.map fun c => c.asked (c.isOn pins),
        cs.any fun c => c.isOn pins && c.changes) ∧
      trace.filter Event.entered =
        ((cs.filter (·.isOn pins)).map fun c => Event.call (.detect c.name)).reverse ++
          s.trace.filter Event.entered := by
  induction cs generalizing s with
  | nil => exact ⟨s.trace, rfl, rfl⟩
  | cons c cs ih =>
    have hrest : ∀ c ∈ cs, c.isOn pins = true → c.Silent :=
      fun d hd => h d (List.mem_cons_of_mem c hd)
    unfold probeAll
    split
    · rename_i hon
      have hprobe : s.probe c = ((s.note (.connectorEvent c.name)).call (.detect c.name),
          c.asked true, c.changes) := by
        unfold probe
        simp only
        rw [h c List.mem_cons_self hon]
        rfl
      obtain ⟨trace, hall, hlog⟩ :=
        ih ((s.note (.connectorEvent c.name)).call (.detect c.name)) hrest
      refine ⟨trace, ?_, ?_⟩
      · rw [hprobe]
        simp only
        rw [hall, List.map_cons, List.any_cons, hon, Bool.true_and]
        rfl
      · rw [hlog, List.filter_cons, if_pos hon, List.map_cons, List.reverse_cons, List.append_assoc]
        rfl
    · rename_i hoff
      obtain ⟨trace, hall, hlog⟩ := ih s hrest
      refine ⟨trace, ?_, ?_⟩
      · have hoff : c.isOn pins = false := Bool.not_eq_true _ ▸ hoff
        rw [hall, List.map_cons, List.any_cons, hoff, Bool.false_and, Bool.false_or]
        rfl
      · rw [hlog, List.filter_cons, if_neg hoff]

theorem connectors_asked (cs : List (Connector ρ)) (pins : PinSet) :
    (cs.map fun c => c.asked (c.isOn pins)).map Connector.unpolled =
      (cs.map Connector.unpolled).map fun c => c.asked (c.isOn pins) := by
  have hasked (c : Connector ρ) (on : Bool) : (c.asked on).unpolled = c.unpolled.asked on := by
    cases on <;> rfl
  rw [List.map_map, List.map_map]
  exact List.map_congr_left fun c _ => hasked c _

/-- A run of the generic job under the lock, with probes that raise nothing. -/
theorem probePass_silent {s : Controller ρ} {pins : PinSet}
    (h : ∀ c ∈ s.ledger.connectors, c.isOn pins = true → c.Silent) :
    (s.probePass pins).ledger = s.ledger.probed pins ∧
      (s.probePass pins).backlog = { s.backlog with mode := s.backlog.mode.release } := by
  have hsilent : ∀ c ∈ s.connectors, c.isOn pins = true → c.Silent :=
    fun c hc => h c.unpolled (List.mem_map_of_mem hc)
  obtain ⟨trace, hall, hlog⟩ := s.probeAll_silent hsilent
  have hdetections : s.ledger.detections pins =
      (s.connectors.filter (·.isOn pins)).map fun c => .call (.detect c.name) := by
    unfold Ledger.detections
    show List.map _ (List.filter _ (s.connectors.map Connector.unpolled)) = _
    rw [List.filter_map, List.map_map]
    rfl
  have hchanged : s.ledger.changed pins = s.connectors.any fun c => c.isOn pins && c.changes :=
    List.any_map
  have hreleased : ({ s with
      trace, connectors := s.connectors.map fun c => c.asked (c.isOn pins) } :
      Controller ρ).releaseMode.ledger =
      { s.ledger with
        connectors := s.ledger.connectors.map fun c => c.asked (c.isOn pins)
        log := (s.ledger.detections pins).reverse ++ s.ledger.log } := by
    rw [outward_ledger.releaseMode, hdetections]
    simp only [ledger, connectors_asked, hlog]
    rfl
  unfold probePass Ledger.probed
  rw [hall, hchanged]
  simp only
  split
  · exact ⟨by rw [call, ledger_emit, hreleased]; rfl, backlog_releaseMode _⟩
  · exact ⟨hreleased, backlog_releaseMode _⟩

end Probes

end Controller

end HotplugDetect
