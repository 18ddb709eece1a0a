import HotplugDetect.Proofs.Backlog.Turns
import HotplugDetect.Proofs.Dispatch.Ledger
import HotplugDetect.Proofs.Work.Wakeup

/-! # Strides

One move of a worker during which no interrupt arrives, as the backlog and the ledger show it. A
worker looks for its work, takes the pulses, delivers them, leaves the refused ones to the generic
run, takes the events, calls the probes, or lets the pins recover. Poll-init runs are left out.
-/

namespace HotplugDetect

variable {ρ : Type} [Probe ρ]

/-- A run that was made at once is over. -/
def Lane.past {β : Type} (l : Lane β) (rest : β) : Lane β := (l.begin rest).finish

inductive Stride (now : Nat) (b : Backlog) (g : Ledger ρ) : Job → Backlog → Ledger ρ → Prop
  | digitalLooks {w : Work Rest} (seek : b.digital.seek = (w, .looking))
      (idle : b.digital.rest? = none) :
    Stride now b g .digital { b with digital := w } g
  | drains {w : Work Rest} (seek : b.digital.seek = (w, .claimed)) :
    Stride now b g .digital
      { b with
        longPorts := ∅
        shortPorts := ∅
        digital := { w with
          toLane := w.toLane.begin { pulses := some (b.longPorts, b.shortPorts) } } } g
  | delivers {rest : Rest} {long short : PortSet} {refused : PinSet}
      {handlers : Port → Option PulseHandler}
      (running : b.digital.worker = some (.running rest)) (taken : rest.pulses = some (long, short))
      (refused_iff : ∀ p, refused.contains p = true ↔
        ∃ port, g.refusal long short port = some p) :
    Stride now b g .digital
      { b with digital := { b.digital with toLane := b.digital.toLane.begin { pins := refused } } }
      { g with handlers, log := (g.pulses long short).reverse ++ g.log }
  | fallsBack {rest : Rest} (running : b.digital.worker = some (.running rest))
      (done : rest.pulses = none) :
    Stride now b g .digital
      { b with
        eventPins := b.eventPins ∪ rest.pins
        digital := { b.digital with toLane := b.digital.toLane.finish }
        generic := if rest.pins.isEmpty then b.generic else b.generic.queue.1 } g
  | genericLooks {w : Work Rest} (seek : b.generic.seek = (w, .looking))
      (idle : b.generic.rest? = none) :
    Stride now b g .generic { b with generic := w } g
  | takes {w : Work Rest} {r : DelayedWork Rest} (seek : b.generic.seek = (w, .claimed))
      (armed : r = b.reenable ∨ ∃ u, r = b.reenable.schedule u) :
    Stride now b g .generic
      { b with
        eventPins := ∅
        generic := { w with toLane := w.toLane.begin { pins := b.eventPins } }
        reenable := r
        mode := b.mode.request .generic }
      { g with log := .note .encoders :: g.log }
  | waits {rest : Rest} (running : b.generic.worker = some (.running rest))
      (held : b.mode.heldBy .generic = false) : Stride now b g .generic b g
  | probes {rest : Rest} (running : b.generic.worker = some (.running rest))
      (held : b.mode.heldBy .generic = true) :
    Stride now b g .generic
      { b with
        generic := { b.generic with toLane := b.generic.toLane.finish }
        mode := b.mode.release }
      (g.probed rest.pins)
  | pollInitLooks {w : Work Rest} (seek : b.pollInit.seek = (w, .looking)) :
    Stride now b g .pollInit { b with pollInit := w } g
  | reenableLooks {w : DelayedWork Rest} {timerFirst : Bool}
      (seek : b.reenable.seek now timerFirst = (w, .looking)) :
    Stride now b g .reenable { b with reenable := w } g
  | recovers {w : DelayedWork Rest} {timerFirst : Bool}
      (seek : b.reenable.seek now timerFirst = (w, .claimed)) :
    Stride now b g .reenable { b with reenable := { w with toLane := w.toLane.past {} } } g

namespace Controller

variable (s : Controller ρ)

theorem stride_moveDigital {timerFirst : Bool}
    (h : s.interruptsOf (.move .digital timerFirst) = []) :
    Stride s.now s.backlog s.ledger .digital s.moveDigital.backlog s.moveDigital.ledger := by
  unfold moveDigital
  split
  · rename_i rest hw
    split
    · rename_i long short htaken
      have hquiet : raisedBy (s.pulsesFor long short Port.all) = [] := by
        rwa [interruptsOf, Lane.rest?_eq_some_iff.mpr hw, Option.bind_some, htaken] at h
      obtain ⟨handlers, hledger⟩ := s.ledger_deliver ∅ hquiet
      have hbacklog : (s.deliver long short ∅ Port.all).1.backlog = s.backlog :=
        s.backlog_deliver_quiet ∅ hquiet
      simp only [backlog_beginRun, outward_ledger.beginRun, hledger, hbacklog]
      exact .delivers hw htaken (s.contains_refused long short)
    · rename_i hdone
      have hstride : Stride s.now s.backlog s.ledger .digital _ _ := .fallsBack hw hdone
      rw [backlog_finishRun, backlog_fallBack, outward_ledger.finishRun, outward_ledger.fallBack]
      split
      · rename_i he
        rw [if_pos he, Mask.union_of_isEmpty he] at hstride
        exact hstride
      · rename_i he
        rw [if_neg he] at hstride
        exact hstride
  · rename_i hidle
    split
    · rename_i w hs
      exact .digitalLooks hs (Lane.rest?_of_not_running hidle)
    · rename_i w hs
      exact .drains hs

theorem stride_moveGeneric {timerFirst : Bool}
    (h : s.interruptsOf (.move .generic timerFirst) = []) :
    Stride s.now s.backlog s.ledger .generic s.moveGeneric.backlog s.moveGeneric.ledger := by
  unfold moveGeneric
  split
  · rename_i rest hw
    split
    · rename_i hm
      have hsilent : ∀ c ∈ s.ledger.connectors, c.isOn rest.pins = true → c.Silent := by
        intro c hc hon
        rw [interruptsOf, Lane.rest?_eq_some_iff.mpr hw] at h
        simp only [hm, if_true] at h
        obtain ⟨c', hc', rfl⟩ := List.mem_map.mp hc
        have hraised := List.flatMap_eq_nil_iff.mp h c' hc'
        rwa [if_pos (show c'.isOn rest.pins = true from hon)] at hraised
      obtain ⟨hledger, hbacklog⟩ := s.probePass_silent hsilent
      rw [backlog_finishRun, outward_ledger.finishRun, hledger, hbacklog]
      exact .probes hw hm
    · rename_i hm
      exact .waits hw (Bool.not_eq_true _ ▸ hm)
  · rename_i hidle
    split
    · rename_i w hs
      exact .genericLooks hs (Lane.rest?_of_not_running hidle)
    · rename_i w hs
      have hbacklog := backlog_takeEvents ({ s with generic := w } : Controller ρ)
      have hledger := ledger_takeEvents ({ s with generic := w } : Controller ρ)
      have htaken : ({ s with generic := w } : Controller ρ).takeEvents.2 = s.eventPins := by
        unfold takeEvents
        simp only
        split <;> rfl
      simp only [backlog_requestMode, backlog_beginRun, outward_ledger.requestMode,
        outward_ledger.beginRun, hbacklog, hledger, htaken]
      refine .takes (b := s.backlog) (g := s.ledger) hs ?_
      show ite _ _ _ = _ ∨ _
      split
      · exact .inl rfl
      · exact .inr ⟨_, rfl⟩

theorem stride_movePollInit (hp : s.pollInit.pending = false) (hr : s.pollInit.rest? = none) :
    Stride s.now s.backlog s.ledger .pollInit s.movePollInit.backlog s.movePollInit.ledger := by
  unfold movePollInit
  split
  · rename_i disabled hw
    rw [Lane.rest?_eq_some_iff.mpr hw] at hr
    cases hr
  · split
    · rename_i w hs
      exact .pollInitLooks hs
    · rename_i w hs
      rw [(Work.seek_claimed hs).2.1] at hp
      cases hp

theorem stride_moveReenable (timerFirst : Bool) :
    Stride s.now s.backlog s.ledger .reenable (s.moveReenable timerFirst).backlog
      (s.moveReenable timerFirst).ledger := by
  unfold moveReenable
  split
  · rename_i w hs
    exact .reenableLooks hs
  · rename_i w hs
    rw [backlog_finishRun, backlog_reenablePass, outward_ledger.finishRun, ledger_reenablePass]
    exact .recovers hs

theorem stride_move (hp : s.pollInit.pending = false) (hr : s.pollInit.rest? = none) {j : Job}
    {timerFirst : Bool} (h : s.interruptsOf (.move j timerFirst) = []) :
    Stride s.now s.backlog s.ledger j (s.move j timerFirst).backlog
      (s.move j timerFirst).ledger := by
  cases j with
  | digital => exact s.stride_moveDigital h
  | generic => exact s.stride_moveGeneric h
  | pollInit => exact s.stride_movePollInit hp hr
  | reenable => exact s.stride_moveReenable timerFirst

end Controller

end HotplugDetect
