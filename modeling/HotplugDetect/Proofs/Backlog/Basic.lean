import HotplugDetect.Proofs.Watch.Passes

/-! # The backlog

The recorded events, the work items with their workers, the lock on the display configuration and
the errands make up another view of the controller. The pin table, the poll modes, the place in line
and the messages do not belong to it.
-/

namespace HotplugDetect

variable {ρ : Type}

structure Backlog where
  longPorts : PortSet
  shortPorts : PortSet
  eventPins : PinSet
  digital : Work Rest
  generic : Work Rest
  pollInit : Work Rest
  reenable : DelayedWork Rest
  mode : Lock ModeParty
  errands : List (Nat × Errand)

def Backlog.lane (b : Backlog) : Job → Lane Rest
  | .digital => b.digital.toLane
  | .generic => b.generic.toLane
  | .pollInit => b.pollInit.toLane
  | .reenable => b.reenable.toLane

def Backlog.withLane (b : Backlog) (j : Job) (f : Lane Rest → Lane Rest) : Backlog :=
  match j with
  | .digital => { b with digital := { b.digital with toLane := f b.digital.toLane } }
  | .generic => { b with generic := { b.generic with toLane := f b.generic.toLane } }
  | .pollInit => { b with pollInit := { b.pollInit with toLane := f b.pollInit.toLane } }
  | .reenable => { b with reenable := { b.reenable with toLane := f b.reenable.toLane } }

theorem mem_of_lookup {es : List (Nat × Errand)} {client : Nat} {e : Errand}
    (h : es.lookup client = some e) : (client, e) ∈ es := by
  obtain ⟨before, after, rfl, -⟩ := List.lookup_eq_some_iff.mp h
  simp

namespace Backlog

theorem withLane_withLane (b : Backlog) (j : Job) (f g : Lane Rest → Lane Rest) :
    (b.withLane j f).withLane j g = b.withLane j fun l => g (f l) := by
  cases j <;> rfl

theorem withLane_of_eq {b : Backlog} {j : Job} {f : Lane Rest → Lane Rest}
    (h : f (b.lane j) = b.lane j) : b.withLane j f = b := by
  cases j <;> simp only [withLane, lane] at h ⊢ <;> rw [h]

end Backlog

/-- Events are recorded, and the demand for deferred work says so. -/
structure Backlog.Recorded (b : Backlog) (d : Demand) (b' : Backlog) (d' : Demand) : Prop where

  rest : b' = { b with
    longPorts := b'.longPorts, shortPorts := b'.shortPorts, eventPins := b'.eventPins }

  ports : d'.digital = false →
    b'.longPorts = b.longPorts ∧ b'.shortPorts = b.shortPorts ∧ d.digital = false

  pins : d'.generic = false → b'.eventPins = b.eventPins ∧ d.generic = false

namespace Backlog.Recorded

theorem refl (b : Backlog) (d : Demand) : b.Recorded d b d :=
  ⟨rfl, fun h => ⟨rfl, rfl, h⟩, fun h => ⟨rfl, h⟩⟩

theorem trans {b b' b'' : Backlog} {d d' d'' : Demand} (h : b.Recorded d b' d')
    (h' : b'.Recorded d' b'' d'') : b.Recorded d b'' d'' where
  rest := by
    rw [h'.rest, h.rest]
  ports hd := by
    obtain ⟨hlong, hshort, hd'⟩ := h'.ports hd
    obtain ⟨hlong', hshort', hd⟩ := h.ports hd'
    exact ⟨hlong.trans hlong', hshort.trans hshort', hd⟩
  pins hd := by
    obtain ⟨hpins, hd'⟩ := h'.pins hd
    obtain ⟨hpins', hd⟩ := h.pins hd'
    exact ⟨hpins.trans hpins', hd⟩

end Backlog.Recorded

/-- An interrupt records events and queues the work for them. -/
structure Backlog.Interrupted (b b' : Backlog) : Prop where

  rest : b' = { b with
    longPorts := b'.longPorts, shortPorts := b'.shortPorts, eventPins := b'.eventPins,
    digital := b'.digital, generic := b'.generic }

  digital : b'.digital = b.digital.queue.1 ∨
    b'.digital = b.digital ∧ b'.longPorts = b.longPorts ∧ b'.shortPorts = b.shortPorts

  generic : b'.generic = b.generic.queue.1 ∨
    b'.generic = b.generic ∧ b'.eventPins = b.eventPins

theorem Backlog.Interrupted.rest?_lane {b b' : Backlog} (hi : b.Interrupted b') (k : Job) :
    (b'.lane k).rest? = (b.lane k).rest? := by
  cases k with
  | digital =>
    rcases hi.digital with hd | ⟨hd, -, -⟩
    · exact (congrArg (fun w : Work Rest => w.rest?) hd).trans (Work.rest?_queue _)
    · exact congrArg (fun w : Work Rest => w.rest?) hd
  | generic =>
    rcases hi.generic with hg | ⟨hg, -⟩
    · exact (congrArg (fun w : Work Rest => w.rest?) hg).trans (Work.rest?_queue _)
    · exact congrArg (fun w : Work Rest => w.rest?) hg
  | pollInit =>
    rw [hi.rest]
    rfl
  | reenable =>
    rw [hi.rest]
    rfl

namespace Controller

def backlog (s : Controller ρ) : Backlog where
  longPorts := s.longPorts
  shortPorts := s.shortPorts
  eventPins := s.eventPins
  digital := s.digital
  generic := s.generic
  pollInit := s.pollInit
  reenable := s.reenable
  mode := s.mode
  errands := s.errands

section Bookkeeping

variable (s : Controller ρ)

theorem silent_backlog : Silent (backlog (ρ := ρ)) := ⟨fun _ _ => rfl, fun _ _ => rfl⟩

theorem plain_backlog : Plain (backlog (ρ := ρ)) := silent_backlog.plain

@[simp] theorem lane_backlog (j : Job) : s.backlog.lane j = s.lane j := by
  cases j <;> rfl

@[simp] theorem backlog_withLane (j : Job) (f : Lane Rest → Lane Rest) :
    (s.withLane j f).backlog = s.backlog.withLane j f := by
  cases j <;> rfl

@[simp] theorem backlog_beginRun (j : Job) (rest : Rest) :
    (s.beginRun j rest).backlog = s.backlog.withLane j (·.begin rest) :=
  s.backlog_withLane j _

@[simp] theorem backlog_finishRun (j : Job) :
    (s.finishRun j).backlog = s.backlog.withLane j Lane.finish :=
  s.backlog_withLane j _

@[simp] theorem backlog_requestMode (p : ModeParty) :
    (s.requestMode p).backlog = { s.backlog with mode := s.backlog.mode.request p } := rfl

theorem backlog_releaseMode :
    s.releaseMode.backlog = { s.backlog with mode := s.backlog.mode.release } :=
  plain_backlog.releaseMode s

@[simp] theorem backlog_requestRun (j : Job) (client : Nat) :
    (s.requestRun j client).backlog =
      s.backlog.withLane j fun l => { l with run := l.run.request (.client client) } :=
  s.backlog_withLane j _

@[simp] theorem backlog_releaseRun (j : Job) :
    (s.releaseRun j).backlog = s.backlog.withLane j fun l => { l with run := l.run.release } := by
  rw [plain_backlog.releaseRun, backlog_withLane]

theorem backlog_startWorkers :
    (Job.all.foldl (fun s j => (s.withLane j Lane.start).rouse j) s).backlog =
      { s.backlog with
        digital := { s.digital with toLane := s.digital.toLane.start }
        generic := { s.generic with toLane := s.generic.toLane.start }
        pollInit := { s.pollInit with toLane := s.pollInit.toLane.start }
        reenable := { s.reenable with toLane := s.reenable.toLane.start } } := by
  simp only [Job.all, List.foldl_cons, List.foldl_nil, plain_backlog.rouse, backlog_withLane]
  rfl

theorem backlog_stopWorkers :
    s.stopWorkers.backlog = { s.backlog with
      digital := { s.digital with toLane := s.digital.toLane.stop }
      generic := { s.generic with toLane := s.generic.toLane.stop }
      pollInit := { s.pollInit with toLane := s.pollInit.toLane.stop }
      reenable := { s.reenable with toLane := s.reenable.toLane.stop }
      mode := (s.mode.leave .generic).leave .pollInit } :=
  plain_backlog.stopWorkers s

theorem backlog_init : s.init.backlog = { s.backlog with pollInit := s.pollInit.queue.1 } := by
  rw [init, silent_backlog.setupIrqs, plain_backlog.queuePollInit]
  rfl

theorem backlog_forcePolling (on : Bool) :
    (s.forcePolling on).backlog = { s.backlog with pollInit := s.pollInit.queue.1 } :=
  plain_backlog.queuePollInit _

theorem backlog_hold (party : Nat) : (s.hold party).backlog =
    { s.backlog with mode :=
        if ModeParty.outside party ∈ s.mode.line then s.mode
        else s.mode.request (.outside party) } := by
  unfold hold
  split <;> rfl

theorem backlog_release (party : Nat) :
    (s.release party).backlog = { s.backlog with mode := s.mode.leave (.outside party) } := by
  unfold release
  split
  · rename_i hheld
    rw [backlog_releaseMode, Lock.leave, if_pos hheld]
    rfl
  · rfl

theorem backlog_advance (instant : Nat) : (s.advance instant).backlog = s.backlog :=
  plain_backlog.advance s instant

end Bookkeeping

section Interrupts

theorem recorded_detectStorm (s : Controller ρ) (p : Pin) (long : Bool) (d : Demand) :
    s.backlog.Recorded d (s.detectStorm p long d).1.backlog (s.detectStorm p long d).2 := by
  unfold detectStorm
  split
  · exact ⟨rfl, fun h => ⟨rfl, rfl, h⟩, fun h => nomatch h⟩
  · exact .refl _ _
  · exact .refl _ _

theorem recorded_judge (s : Controller ρ) (p : Pin) (digital long : Bool) (d : Demand) :
    s.backlog.Recorded d (s.judge p digital long d).1.backlog (s.judge p digital long d).2 := by
  unfold judge
  split
  · exact .refl _ _
  · exact .refl _ _
  · split
    · exact s.recorded_detectStorm p long d
    · have hnew : s.backlog.Recorded d
          ({ s with eventPins := s.eventPins.insert p } : Controller ρ).backlog
          { d with generic := true } :=
        ⟨rfl, fun h => ⟨rfl, rfl, h⟩, fun h => nomatch h⟩
      exact hnew.trans (recorded_detectStorm _ p long _)

theorem recorded_keepPulse (s : Controller ρ) (port : Port) (long : Bool) (d : Demand) :
    s.backlog.Recorded d (s.keepPulse port long).backlog { d with digital := true } := by
  unfold keepPulse
  split
  · exact ⟨rfl, (fun h => nomatch h), fun h => ⟨rfl, h⟩⟩
  · exact ⟨rfl, (fun h => nomatch h), fun h => ⟨rfl, h⟩⟩

theorem recorded_receive (s : Controller ρ) (long : PinSet) (p : Pin) (d : Demand) :
    s.backlog.Recorded d (s.receive long p d).1.backlog (s.receive long p d).2 := by
  unfold receive
  split
  · rename_i port _
    exact (recorded_keepPulse (s.note _) port _ d).trans (recorded_judge _ p true _ _)
  · exact s.recorded_judge p false true d

theorem recorded_receiveAll (long : PinSet) (ps : List Pin) (s : Controller ρ) (d : Demand) :
    s.backlog.Recorded d (s.receiveAll long d ps).1.backlog (s.receiveAll long d ps).2 := by
  induction ps generalizing s d with
  | nil => exact .refl _ _
  | cons p ps ih => exact (s.recorded_receive long p d).trans (ih _ _)

/-- An interrupt leaves no event behind without queueing the work for it. -/
theorem interrupted_interrupt (s : Controller ρ) (i : Interrupt) :
    s.backlog.Interrupted (s.interrupt i).backlog := by
  have hrec := s.recorded_receiveAll i.long i.fired.toList {}
  unfold interrupt
  generalize s.receiveAll i.long {} i.fired.toList = r at hrec
  obtain ⟨t, d⟩ := r
  simp only at hrec ⊢
  have hanswer : (t.answer d).backlog = { t.backlog with
      digital := if d.digital then t.digital.queue.1 else t.digital
      generic := if d.generic then t.generic.queue.1 else t.generic } :=
    silent_backlog.answer t d
  rw [hanswer]
  have hdigital : t.digital = s.digital := congrArg Backlog.digital hrec.rest
  have hgeneric : t.generic = s.generic := congrArg Backlog.generic hrec.rest
  constructor
  · rw [hrec.rest]
  · cases hd : d.digital with
    | true => exact .inl (by rw [hdigital]; rfl)
    | false =>
      obtain ⟨hlong, hshort, -⟩ := hrec.ports hd
      exact .inr ⟨hdigital, hlong, hshort⟩
  · cases hd : d.generic with
    | true => exact .inl (by rw [hgeneric]; rfl)
    | false =>
      obtain ⟨hpins, -⟩ := hrec.pins hd
      exact .inr ⟨hgeneric, hpins⟩

theorem interrupted_raw (s : Controller ρ) (pinMask longMask : UInt32) :
    s.backlog.Interrupted (s.raw pinMask longMask).backlog := by
  unfold raw
  simp only
  split
  · exact s.interrupted_interrupt _
  · exact interrupted_interrupt (s.note _) _

end Interrupts

section Passes

theorem running_deliver (s : Controller ρ) (long short : PortSet) (refused : PinSet)
    (ports : List Port) :
    (s.deliver long short refused ports).1.digital.rest? = s.digital.rest? :=
  deliver_induction (P := fun t => t.digital.rest? = s.digital.rest?) (fun _ _ ht => ht)
    (fun _ _ _ _ ht => ht)
    (fun t i ht => ((t.interrupted_interrupt i).rest?_lane .digital).trans ht)
    long short refused ports s rfl

theorem backlog_deliver_quiet (s : Controller ρ) {long short : PortSet} (refused : PinSet)
    (h : raisedBy (s.pulsesFor long short Port.all) = []) :
    (s.deliver long short refused Port.all).1.backlog = s.backlog := by
  have hpulses (xs : List (Port × PulseHandler × Bool)) (hxs : raisedBy xs = [])
      (t : Controller ρ) : (xs.foldl handOver t).backlog = t.backlog := by
    induction xs generalizing t with
    | nil => rfl
    | cons x xs ih =>
      rw [raisedBy_cons, List.append_eq_nil_iff] at hxs
      obtain ⟨hx, hxs⟩ := hxs
      rw [List.foldl_cons, ih hxs, handOver, pulse, hx]
      rfl
  rw [deliver_eq s long short refused (by decide)]
  exact hpulses _ h s

theorem backlog_fallBack (s : Controller ρ) (refused : PinSet) :
    (s.fallBack refused).backlog =
      if refused.isEmpty then s.backlog
      else { s.backlog with
        eventPins := s.eventPins ∪ refused
        generic := s.generic.queue.1 } := by
  rw [silent_backlog.fallBack]
  split <;> rfl

theorem backlog_takeEvents (s : Controller ρ) :
    s.takeEvents.1.backlog = { s.backlog with
      eventPins := ∅
      reenable :=
        if (s.table.pinsIn .autoDisabled).isEmpty then s.reenable
        else s.reenable.schedule (s.now + s.reenableDelay) } := by
  obtain ⟨connectors, table, line, trace, h⟩ := s.takeEvents_eq
  rw [h]
  rfl

theorem backlog_probePass [Probe ρ] (s : Controller ρ) (pins : PinSet) :
    (s.probePass pins).backlog = { (s.probeAll pins s.connectors).1.backlog with
      mode := (s.probeAll pins s.connectors).1.mode.release } :=
  silent_backlog.probePass s pins

theorem backlog_pollInitPass (s : Controller ρ) (disabled : PinSet) :
    (s.pollInitPass disabled).backlog = { s.backlog with mode := s.mode.release } :=
  silent_backlog.pollInitPass s disabled

@[simp] theorem backlog_reenablePass (s : Controller ρ) : s.reenablePass.backlog = s.backlog := by
  obtain ⟨connectors, table, trace, h⟩ := s.reenablePass_eq
  rw [h]
  rfl

theorem backlog_recoverNow (s : Controller ρ) :
    s.recoverNow.backlog =
      ({ s.backlog with reenable := s.backlog.reenable.disarm } : Backlog).withLane .reenable
        fun l => { l with run := l.run.release } := by
  unfold recoverNow
  simp only
  rw [backlog_releaseRun]
  split
  · rw [backlog_reenablePass, plain_backlog.disarmReenable]
    rfl
  · rw [plain_backlog.disarmReenable]
    rfl

end Passes

end Controller

end HotplugDetect
