import HotplugDetect.Proofs.Watch.Basic

/-! # Interrupts and passes, as seen in the view

An interrupt shows each fired pin once to the storm detector. The passes of the workers hand
storming pins over to polling, set the poll modes anew, and let the pins of a past storm recover.
-/

namespace HotplugDetect

variable {ρ : Type}

namespace Connector

/-- A connector on one of the pins goes back to its own way, unless it is one stream of a link. -/
def returned (c : Connector ρ) (returns : Pin → Bool) : Connector ρ :=
  if !c.multiStream && c.pin.any returns then { c with polled := .restored c.preference } else c

theorem returned_returned (c : Connector ρ) (f g : Pin → Bool) :
    (c.returned f).returned g = c.returned fun p => f p || g p := by
  rcases c with ⟨name, _ | p, _ | _, preference, polled, probe⟩
  · rfl
  · rfl
  · cases hf : f p <;> cases hg : g p <;> simp [returned, hf, hg]
  · rfl

theorem recovered_eq_returned (c : Connector ρ) (p : Pin) :
    c.recovered p = c.returned (· = p) := by
  rcases c with ⟨name, _ | q, _ | _, preference, polled, probe⟩ <;>
    simp [recovered, recoversWith, returned]

theorem bare_returned (c : Connector ρ) (returns : Pin → Bool) :
    (c.returned returns).bare = c.bare.returned returns := by
  unfold returned
  exact apply_ite bare _ _ _

theorem bare_switched (c : Connector ρ) (pins : PinSet) :
    (c.switched pins).bare = c.bare.switched pins := by
  unfold switched
  exact apply_ite bare _ _ _

end Connector

namespace Watch

def longOn (w : Watch) (i : Interrupt) (p : Pin) : Bool := !w.digital p || i.long.contains p

def pulse (w : Watch) (p : Pin) (long : Bool) : Watch :=
  { w with stats := Function.update w.stats p ((w.stats p).pulsed w.config long w.now) }

def interrupted (w : Watch) (i : Interrupt) : Watch :=
  { w with
    stats := fun p =>
      if i.fired.contains p then (w.stats p).pulsed w.config (w.longOn i p) w.now else w.stats p }

theorem stats_interrupted (w : Watch) (i : Interrupt) (p : Pin) :
    (w.interrupted i).stats p = w.stats p ∨
      i.fired.contains p = true ∧
        (w.interrupted i).stats p = (w.stats p).pulsed w.config (w.longOn i p) w.now := by
  by_cases h : i.fired.contains p = true
  · exact .inr ⟨h, if_pos h⟩
  · exact .inl (if_neg h)

def pinsIn (w : Watch) (state : PinState) : PinSet :=
  Mask.ofList (Pin.all.filter fun p => (w.stats p).state = state)

@[simp] theorem contains_pinsIn (w : Watch) (state : PinState) (p : Pin) :
    (w.pinsIn state).contains p = decide ((w.stats p).state = state) := by
  simp [pinsIn, Pin.mem_all]

def mitigated (w : Watch) : Watch :=
  { w with
    stats := fun p => (w.stats p).handedOver
    connectors := w.connectors.map (·.switched (w.pinsIn .autoDisabled))
    deadline := some (w.now + w.reenableDelay) }

def reinitialized (w : Watch) (disabled : PinSet) : Watch :=
  { w with
    connectors := w.connectors.map (·.reinitialized w.hasHotplug w.forced disabled)
    glimpse := none }

def recovers (w : Watch) (p : Pin) : Bool :=
  (w.stats p).state = .disabled && (w.stats p).mitigated && w.eligible p

def freed (w : Watch) (returns : Pin → Bool) : Watch :=
  { w with
    stats := fun p => if returns p then (w.stats p).freed else w.stats p
    connectors := w.connectors.map (·.returned returns) }

theorem freed_of_none (w : Watch) : (w.freed fun _ => false) = w := by
  simp [freed, Connector.returned]

theorem freed_freed (w : Watch) (f g : Pin → Bool) :
    (w.freed f).freed g = w.freed fun p => f p || g p := by
  unfold freed
  simp only [List.map_map]
  congr 1
  · exact List.map_congr_left fun c _ => c.returned_returned f g
  · funext p
    by_cases hf : f p = true <;> by_cases hg : g p = true <;> simp [hf, hg, PinStats.freed]

theorem recovers_iff (w : Watch) (p : Pin) :
    w.recovers p = true ↔
      (w.stats p).state = .disabled ∧ (w.stats p).mitigated = true ∧ w.eligible p = true := by
  simp [recovers, and_assoc]

def recovered (w : Watch) : Watch := w.freed w.recovers

theorem stats_recovered (w : Watch) (p : Pin) :
    w.recovers p = false ∧ w.recovered.stats p = w.stats p ∨
      w.recovers p = true ∧ w.recovered.stats p = (w.stats p).freed := by
  cases h : w.recovers p with
  | false => exact .inl ⟨rfl, if_neg (by simp [h])⟩
  | true => exact .inr ⟨rfl, if_pos h⟩

end Watch

namespace Controller

section Interrupts

theorem watch_detectStorm (s : Controller ρ) (p : Pin) (long : Bool) (d : Demand) :
    (s.detectStorm p long d).1.watch =
      { s.watch with
        stats := Function.update s.watch.stats p
          ((s.table.get p).observe s.table.config long s.now).1 } := by
  have hstats : (s.table.observe p long s.now).1.get = Function.update s.watch.stats p
      ((s.table.get p).observe s.table.config long s.now).1 := by
    funext q
    rw [PinTable.get_observe, Function.update_apply]
    rfl
  have h : (s.detectStorm p long d).1.watch =
      ({ s with table := (s.table.observe p long s.now).1 } : Controller ρ).watch := by
    unfold detectStorm
    split <;> rename_i ho <;> rw [ho] <;> rfl
  rw [h, watch_withTable, hstats, PinTable.config_observe]
  rfl

theorem watch_judge (s : Controller ρ) (p : Pin) (digital long : Bool) (d : Demand) :
    (s.judge p digital long d).1.watch = s.watch.pulse p long := by
  have hmasked : s.table.state p ≠ .enabled → s.watch = s.watch.pulse p long := by
    intro h
    have hp : (s.table.get p).pulsed s.table.config long s.now = s.table.get p := if_neg h
    simp only [Watch.pulse, watch, hp, Function.update_eq_self]
  unfold judge
  split
  · rename_i h
    exact hmasked (by rw [h]; decide)
  · rename_i h
    exact hmasked (by rw [h]; decide)
  · rename_i h
    have hp : (s.table.get p).pulsed s.table.config long s.now =
        ((s.table.get p).observe s.table.config long s.now).1 := if_pos h
    split
    · rw [watch_detectStorm]
      simp only [Watch.pulse, watch, hp]
    · rw [watch_detectStorm]
      simp only [Watch.pulse, watch, hp]
      rfl

theorem watch_receive (s : Controller ρ) (i : Interrupt) (p : Pin) (d : Demand) :
    (s.receive i.long p d).1.watch = s.watch.pulse p (s.watch.longOn i p) := by
  unfold receive
  split
  · rename_i port h
    have hl : s.watch.longOn i p = i.long.contains p := by simp [Watch.longOn, watch, h]
    rw [watch_judge, hl]
    congr 1
    unfold keepPulse
    split <;> rfl
  · rename_i h
    rw [watch_judge]
    simp [Watch.longOn, watch, h]

theorem watch_receiveAll (i : Interrupt) (ps : List Pin) (hn : ps.Nodup) (s : Controller ρ)
    (d : Demand) :
    (s.receiveAll i.long d ps).1.watch =
      { s.watch with
        stats := fun p =>
          if p ∈ ps then (s.watch.stats p).pulsed s.watch.config (s.watch.longOn i p) s.watch.now
          else s.watch.stats p } := by
  induction ps generalizing s d with
  | nil => simp [receiveAll]
  | cons q ps ih =>
    obtain ⟨hq, hn⟩ := List.nodup_cons.mp hn
    rw [receiveAll, ih hn, watch_receive]
    simp only [Watch.pulse, Watch.longOn]
    congr 1
    funext p
    by_cases h : p = q
    · subst h
      simp [hq]
    · simp [h]

theorem watch_answer (s : Controller ρ) (d : Demand) : (s.answer d).watch = s.watch :=
  silent_watch.answer s d

theorem watch_interrupt (s : Controller ρ) (i : Interrupt) :
    (s.interrupt i).watch = s.watch.interrupted i := by
  unfold interrupt
  rw [watch_answer, watch_receiveAll i _ (Mask.nodup_toList _)]
  simp only [Mask.mem_toList]
  rfl

theorem watch_raw (s : Controller ρ) (pinMask longMask : UInt32) :
    (s.raw pinMask longMask).watch = s.watch.interrupted ⟨.ofBits pinMask, .ofBits longMask⟩ := by
  unfold raw
  rw [watch_interrupt]
  congr 1
  split <;> rfl

theorem watch_foldl_interrupt (s : Controller ρ) (is : List Interrupt) :
    (is.foldl interrupt s).watch = is.foldl Watch.interrupted s.watch := by
  induction is generalizing s with
  | nil => rfl
  | cons i is ih => rw [List.foldl_cons, ih, watch_interrupt, List.foldl_cons]

end Interrupts

section Pulses

variable {s : Controller ρ}

theorem watch_withHandler {port : Port} (h : PulseHandler) (hport : (s.digitalPorts port).isSome) :
    (s.withHandler port h).watch = s.watch := by
  have hserved := s.digitalPortForPin_withHandler h hport
  have heligible : (s.withHandler port h).eligible = s.eligible := by
    funext p
    rw [eligible, eligible, hserved]
    rfl
  simp only [watch, hserved, heligible]
  rfl

theorem watch_pulse {port : Port} {h : PulseHandler} (long : Bool)
    (hport : (s.digitalPorts port).isSome) :
    (s.pulse port h long).watch = (h.answer long).raised.foldl Watch.interrupted s.watch := by
  rw [pulse, watch_foldl_interrupt, watch_withHandler (s := s.call _) _ hport,
    silent_watch.call]

theorem watch_foldl_handOver {xs : List (Port × PulseHandler × Bool)} (hxs : s.Addressed xs) :
    (xs.foldl handOver s).watch = (raisedBy xs).foldl Watch.interrupted s.watch := by
  induction xs generalizing s with
  | nil => rfl
  | cons x xs ih =>
    rw [List.foldl_cons, ih hxs.tail, handOver, watch_pulse x.2.2 hxs.isSome_head, raisedBy_cons,
      List.foldl_append]

theorem watch_deliver (s : Controller ρ) (long short : PortSet) (refused : PinSet) :
    (s.deliver long short refused Port.all).1.watch =
      (raisedBy (s.pulsesFor long short Port.all)).foldl Watch.interrupted s.watch := by
  rw [s.deliver_eq long short refused (by decide)]
  exact watch_foldl_handOver (s.addressed_pulsesFor long short (by decide))

end Pulses

section Probes

variable [Probe ρ]

/-- The interrupts that the probes of the connectors on the pins raise, in their order. -/
def raisedOn (pins : PinSet) (cs : List (Connector ρ)) : List Interrupt :=
  cs.flatMap fun c => if c.isOn pins then (Probe.detect c.probe).raised else []

theorem raisedOn_cons (pins : PinSet) (c : Connector ρ) (cs : List (Connector ρ)) :
    raisedOn pins (c :: cs) =
      (if c.isOn pins then (Probe.detect c.probe).raised else []) ++ raisedOn pins cs :=
  List.flatMap_cons

theorem watch_probe (s : Controller ρ) (c : Connector ρ) :
    (s.probe c).1.watch = (Probe.detect c.probe).raised.foldl Watch.interrupted s.watch :=
  watch_foldl_interrupt _ _

theorem watch_probeAll (pins : PinSet) (cs : List (Connector ρ)) (s : Controller ρ) :
    (s.probeAll pins cs).1.watch = (raisedOn pins cs).foldl Watch.interrupted s.watch ∧
      (s.probeAll pins cs).2.1.map Connector.bare = cs.map Connector.bare := by
  induction cs generalizing s with
  | nil => exact ⟨rfl, rfl⟩
  | cons c cs ih =>
    unfold probeAll
    by_cases h : c.isOn pins = true
    · obtain ⟨hw, hc⟩ := ih (s.probe c).1
      simp only [h, if_true]
      constructor
      · rw [hw, watch_probe, raisedOn_cons, if_pos h, List.foldl_append]
      · rw [List.map_cons, List.map_cons, hc]
        rfl
    · obtain ⟨hw, hc⟩ := ih s
      simp only [h, Bool.false_eq_true, if_false]
      constructor
      · rw [hw, raisedOn_cons, if_neg h, List.nil_append]
      · rw [List.map_cons, List.map_cons, hc]

theorem connectors_foldl_interrupted (is : List Interrupt) (w : Watch) :
    (is.foldl Watch.interrupted w).connectors = w.connectors := by
  induction is generalizing w with
  | nil => rfl
  | cons i is ih => exact ih _

theorem watch_probePass (s : Controller ρ) (pins : PinSet) :
    (s.probePass pins).watch = (raisedOn pins s.connectors).foldl Watch.interrupted s.watch := by
  obtain ⟨hw, hc⟩ := s.watch_probeAll pins s.connectors
  unfold probePass
  generalize s.probeAll pins s.connectors = r at hw hc ⊢
  have hk : r.1.watch.connectors = s.watch.connectors := by
    rw [hw, connectors_foldl_interrupted]
  have h : ({ r.1 with connectors := r.2.1 } : Controller ρ).watch = r.1.watch := by
    rw [watch_withConnectors, hc]
    exact congrArg (fun cs => { r.1.watch with connectors := cs }) hk.symm
  have hreleased : ({ r.1 with connectors := r.2.1 } : Controller ρ).releaseMode.watch =
      (raisedOn pins s.connectors).foldl Watch.interrupted s.watch := by
    rw [plain_watch.releaseMode]
    exact h.trans hw
  simp only
  split
  · rw [silent_watch.call, hreleased]
  · exact hreleased

end Probes

section Passes

theorem config_foldl_mitigate (ps : List Pin) (t : PinTable) :
    (ps.foldl (fun t p => (t.mitigate p).1) t).config = t.config := by
  induction ps generalizing t with
  | nil => rfl
  | cons p ps ih => rw [List.foldl_cons, ih, PinTable.config_mitigate]

theorem get_foldl_mitigate (ps : List Pin) (t : PinTable) (q : Pin) :
    (ps.foldl (fun t p => (t.mitigate p).1) t).get q =
      if q ∈ ps then (t.get q).handedOver else t.get q := by
  induction ps generalizing t with
  | nil => simp
  | cons p ps ih =>
    rw [List.foldl_cons, ih, PinTable.get_mitigate]
    by_cases hq : q = p
    · subst hq
      simp [PinStats.handedOver_handedOver]
    · simp [hq]

theorem watch_mitigate (s : Controller ρ) :
    s.mitigate.watch =
      { s.watch with
        stats := fun p => (s.watch.stats p).handedOver
        connectors := s.watch.connectors.map (·.switched (s.watch.pinsIn .autoDisabled)) } := by
  have hstats : ((s.table.pinsIn .autoDisabled).toList.foldl
      (fun t p => (t.mitigate p).1) s.table).get = fun p => (s.table.get p).handedOver := by
    funext p
    rw [get_foldl_mitigate]
    split
    · rfl
    · rename_i h
      simp only [Mask.mem_toList, PinTable.contains_pinsIn, decide_eq_true_eq] at h
      exact (if_neg h).symm
  rw [plain_watch.mitigate]
  simp only [watch, hstats, config_foldl_mitigate, List.map_map]
  congr 1
  exact List.map_congr_left fun c _ => c.bare_switched _

theorem watch_scheduleReenable (s : Controller ρ) :
    s.scheduleReenable.watch =
      { s.watch with deadline := some (s.watch.now + s.watch.reenableDelay) } :=
  plain_watch.scheduleReenable s

theorem watch_takeEvents (s : Controller ρ) :
    s.takeEvents.1.watch =
      if (s.watch.pinsIn .autoDisabled).isEmpty then s.watch else s.watch.mitigated := by
  have hstorm : (s.note .encoders).table.pinsIn .autoDisabled = s.watch.pinsIn .autoDisabled := rfl
  unfold takeEvents
  simp only [hstorm]
  split
  · rfl
  · simp only [watch_scheduleReenable, silent_watch.call, watch_mitigate]
    rfl

theorem watch_pollInitPass (s : Controller ρ) (disabled : PinSet) :
    (s.pollInitPass disabled).watch =
      { s.watch with
        connectors := s.watch.connectors.map
          (·.reinitialized s.watch.hasHotplug s.watch.forced disabled) } := by
  rw [silent_watch.pollInitPass]
  simp only [watch, List.map_map]
  rfl

theorem mem_recoverable (s : Controller ρ) (p : Pin) :
    p ∈ s.recoverable ↔ s.watch.recovers p = true := by
  simp only [recoverable, List.mem_filter, Mask.mem_toList, PinTable.contains_pinsIn,
    decide_eq_true_eq, Watch.recovers, Bool.and_eq_true, and_assoc]
  rfl

theorem watch_recoverPin (s : Controller ρ) (p : Pin) :
    (s.recoverPin p).watch = s.watch.freed (· = p) := by
  have hstats : (s.table.enable p).get = fun q =>
      if decide (q = p) then (s.table.get q).freed else s.table.get q := by
    funext q
    rw [PinTable.get_enable]
    by_cases h : q = p
    · subst h
      simp [PinStats.freed]
    · simp [h]
  rw [plain_watch.recoverPin]
  simp only [watch, hstats, List.map_map, Watch.freed]
  congr 1
  refine List.map_congr_left fun c _ => ?_
  simp only [Function.comp_apply, Connector.recovered_eq_returned, Connector.bare_returned]

theorem watch_foldl_recoverPin (ps : List Pin) (s : Controller ρ) :
    (ps.foldl recoverPin s).watch = s.watch.freed (· ∈ ps) := by
  induction ps generalizing s with
  | nil => simpa using s.watch.freed_of_none.symm
  | cons p ps ih =>
    rw [List.foldl_cons, ih, watch_recoverPin, Watch.freed_freed]
    simp only [List.mem_cons, Bool.decide_or]

theorem watch_reenablePass (s : Controller ρ) : s.reenablePass.watch = s.watch.recovered := by
  have hpass : (s.recoverable.foldl recoverPin s).watch = s.watch.recovered := by
    rw [watch_foldl_recoverPin, Watch.recovered]
    congr 1
    funext p
    rw [Bool.eq_iff_iff, decide_eq_true_eq, mem_recoverable]
  unfold reenablePass
  simp only
  split
  · rename_i h
    rwa [List.isEmpty_iff.mp h] at hpass
  · rw [silent_watch.setupIrqs, silent_watch.note, hpass]

end Passes

end Controller

end HotplugDetect
