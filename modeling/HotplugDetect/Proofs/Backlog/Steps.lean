import Mathlib.Logic.Relation
import HotplugDetect.Proofs.Backlog.Basic
import HotplugDetect.Proofs.Watch.Effect
import HotplugDetect.Proofs.Work.Wakeup

/-! # What an action does to the backlog

Every action takes a few steps on the work items, the locks and the errands, whatever the pin table
and the poll modes are. Invariants of the backlog are proved by cases on one step, also for a
cancellation that takes many of them.
-/

namespace HotplugDetect

variable {ρ : Type}

namespace Backlog

/-- The item of a job and its lane. The recovery is never pending, but armed with a deadline. -/
def work (b : Backlog) : Job → Work Rest
  | .digital => b.digital
  | .generic => b.generic
  | .pollInit => b.pollInit
  | .reenable => { toLane := b.reenable.toLane }

def disarm (b : Backlog) : Job → Backlog
  | .digital => { b with digital := b.digital.disarm }
  | .generic => { b with generic := b.generic.disarm }
  | .pollInit => { b with pollInit := b.pollInit.disarm }
  | .reenable => { b with reenable := b.reenable.disarm }

/-- The steps in the course of an action. -/
inductive Step (a : Action) (b : Backlog) : Backlog → Prop

  | interrupted {b' : Backlog} (drops : a.drops = false) (events : b.Interrupted b') : Step a b b'

  | queuesPollInit (request : a = .init ∨ ∃ on, a = .forcePolling on) :
      Step a b { b with pollInit := b.pollInit.queue.1 }

  | digitalLooks {w : Work Rest} (move : ∃ timerFirst, a = .move .digital timerFirst)
      (seek : b.digital.seek = (w, .looking)) : Step a b { b with digital := w }

  | genericLooks {w : Work Rest} (move : ∃ timerFirst, a = .move .generic timerFirst)
      (seek : b.generic.seek = (w, .looking)) : Step a b { b with generic := w }

  | pollInitLooks {w : Work Rest} (move : ∃ timerFirst, a = .move .pollInit timerFirst)
      (seek : b.pollInit.seek = (w, .looking)) : Step a b { b with pollInit := w }

  | reenableLooks {w : DelayedWork Rest} {now : Nat} {timerFirst : Bool}
      (move : a = .move .reenable timerFirst)
      (seek : b.reenable.seek now timerFirst = (w, .looking)) : Step a b { b with reenable := w }

  | drains {w : Work Rest} (move : ∃ timerFirst, a = .move .digital timerFirst)
      (seek : b.digital.seek = (w, .claimed)) :
      Step a b { b with
        longPorts := ∅
        shortPorts := ∅
        digital := { w with
          toLane := w.toLane.begin { pulses := some (b.longPorts, b.shortPorts) } } }

  | delivers {rest : Rest} {pulses : PortSet × PortSet} {refused : PinSet}
      (move : ∃ timerFirst, a = .move .digital timerFirst)
      (running : b.digital.worker = some (.running rest)) (taken : rest.pulses = some pulses) :
      Step a b { b with
        digital := { b.digital with toLane := b.digital.toLane.begin { pins := refused } } }

  /-- Refused pulses are left to the generic run. -/
  | fallsBack {rest : Rest} {generic : Work Rest} {pins : PinSet}
      (move : ∃ timerFirst, a = .move .digital timerFirst)
      (running : b.digital.worker = some (.running rest)) (done : rest.pulses = none)
      (refused : generic = b.generic ∧ pins = b.eventPins ∧ rest.pins.isEmpty = true ∨
        generic = b.generic.queue.1 ∧ pins = b.eventPins ∪ rest.pins) :
      Step a b { b with
        eventPins := pins
        digital := { b.digital with toLane := b.digital.toLane.finish }
        generic }

  | takes {w : Work Rest} {reenable : DelayedWork Rest} {pins : PinSet}
      (move : ∃ timerFirst, a = .move .generic timerFirst)
      (seek : b.generic.seek = (w, .claimed))
      (armed : reenable = b.reenable ∨ ∃ instant, reenable = b.reenable.schedule instant) :
      Step a b { b with
        eventPins := ∅
        generic := { w with toLane := w.toLane.begin { pins } }
        reenable
        mode := b.mode.request .generic }

  | probed {rest : Rest} (move : ∃ timerFirst, a = .move .generic timerFirst)
      (running : b.generic.worker = some (.running rest)) (held : b.mode.heldBy .generic = true) :
      Step a b { b with
        generic := { b.generic with toLane := b.generic.toLane.finish }
        mode := b.mode.release }

  | reads {w : Work Rest} {disabled : PinSet}
      (move : ∃ timerFirst, a = .move .pollInit timerFirst)
      (seek : b.pollInit.seek = (w, .claimed)) :
      Step a b { b with
        pollInit := { w with toLane := w.toLane.begin { pins := disabled } }
        mode := b.mode.request .pollInit }

  | reinitialized {rest : Rest} (move : ∃ timerFirst, a = .move .pollInit timerFirst)
      (running : b.pollInit.worker = some (.running rest))
      (held : b.mode.heldBy .pollInit = true) :
      Step a b { b with
        pollInit := { b.pollInit with toLane := b.pollInit.toLane.finish }
        mode := b.mode.release }

  | recovers {w : DelayedWork Rest} {now : Nat} {timerFirst : Bool}
      (move : a = .move .reenable timerFirst)
      (seek : b.reenable.seek now timerFirst = (w, .claimed)) :
      Step a b { b with reenable := { w with toLane := (w.toLane.begin {}).finish } }

  | forgets (drops : a.drops = true) :
      Step a b { b with longPorts := ∅, shortPorts := ∅, eventPins := ∅ }

  | disarms (j : Job) (drops : a.drops = true ∨ j = .reenable) : Step a b (b.disarm j)

  /-- A client finds the run lock of a job free. -/
  | passes {j : Job} {client : Nat} (fresh : b.errands.lookup client = none)
      (granted : ((b.lane j).run.request (.client client)).heldBy (.client client) = true) :
      Step a b (b.withLane j fun l =>
        { l with run := (l.run.request (.client client)).release })

  | waits {client : Nat} {e : Errand} (fresh : b.errands.lookup client = none)
      (refused : ((b.lane e.job).run.request (.client client)).heldBy (.client client) = false) :
      Step a b { (b.withLane e.job fun l => { l with run := l.run.request (.client client) }) with
        errands := b.errands ++ [(client, e)] }

  | resumes {client : Nat} {e : Errand} (errand : b.errands.lookup client = some e)
      (held : (b.lane e.job).run.heldBy (.client client) = true) :
      Step a b { (b.withLane e.job fun l => { l with run := l.run.release }) with
        errands := b.errands.filter (·.1 != client) }

  | leaves {client : Nat} {e : Errand} (errand : b.errands.lookup client = some e) :
      Step a b { (b.withLane e.job fun l => { l with run := l.run.leave (.client client) }) with
        errands := b.errands.filter (·.1 != client) }

  | starts (start : a = .start) :
      Step a b { b with
        digital := { b.digital with toLane := b.digital.toLane.start }
        generic := { b.generic with toLane := b.generic.toLane.start }
        pollInit := { b.pollInit with toLane := b.pollInit.toLane.start }
        reenable := { b.reenable with toLane := b.reenable.toLane.start } }

  /-- A run of the digital-port job that is in flight has its run lock, and is not stopped. -/
  | stops (client : Nat) (drops : a.drops = true)
      (ended : b.digital.rest?.isSome = true →
        (b.digital.run.request (.client client)).heldBy (.client client) = true) :
      Step a b { b with
        digital := { b.digital with toLane := b.digital.toLane.stop }
        generic := { b.generic with toLane := b.generic.toLane.stop }
        pollInit := { b.pollInit with toLane := b.pollInit.toLane.stop }
        reenable := { b.reenable with toLane := b.reenable.toLane.stop }
        mode := (b.mode.leave .generic).leave .pollInit }

  | holds {party : Nat} (hold : a = .hold party) (fresh : .outside party ∉ b.mode.line) :
      Step a b { b with mode := b.mode.request (.outside party) }

  | releases (party : Nat) : Step a b { b with mode := b.mode.leave (.outside party) }

/-- What a step does to the item of a job. -/
inductive Serves (a : Action) (j : Job) (w : Work Rest) : Work Rest → Prop

  | keeps {w' : Work Rest} (pending : w'.pending = w.pending) (roused : w'.roused = w.roused)
      (claiming : w'.worker = some .claiming → w.worker = some .claiming)
      (gone : w.worker = none → w'.worker = none ∨ a = .start) : Serves a j w w'

  | queues (drops : a.drops = false) : Serves a j w w.queue.1

  | disarms (drops : a.drops = true) : Serves a j w w.disarm

  | looks {w' : Work Rest} (move : ∃ timerFirst, a = .move j timerFirst)
      (seek : w.seek = (w', .looking)) : Serves a j w w'

  | claims {w' : Work Rest} (move : ∃ timerFirst, a = .move j timerFirst)
      (claimed : w.seek.2 = .claimed) (taken : w'.pending = false) : Serves a j w w'

  | stops (drops : a.drops = true) : Serves a j w { w with toLane := w.toLane.stop }

theorem Serves.same (a : Action) (j : Job) (w : Work Rest) : Serves a j w w :=
  .keeps rfl rfl id .inl

section Serving

variable {a : Action} {j : Job} {w : Work Rest} {rest : Rest}

theorem Serves.goesOn (hw : w.worker = some (.running rest)) (rest' : Rest) :
    Serves a j w { w with toLane := w.toLane.begin rest' } := by
  refine .keeps rfl ?_ nofun fun hn => ?_
  · have hroused : w.roused = w.permit := by rw [Lane.roused, hw]
    exact hroused.symm
  · rw [hw] at hn
    cases hn

theorem Serves.finishes (hw : w.worker = some (.running rest)) :
    Serves a j w { w with toLane := w.toLane.finish } := by
  refine .keeps rfl ?_ nofun fun hn => ?_
  · have hroused : w.roused = w.permit := by rw [Lane.roused, hw]
    exact hroused.symm
  · rw [hw] at hn
    cases hn

end Serving

theorem Serves.starts (j : Job) (w : Work Rest) :
    Serves .start j w { w with toLane := w.toLane.start } := by
  refine .keeps rfl w.toLane.roused_start (fun hc => ?_) fun _ => .inr rfl
  rcases w with ⟨⟨permit, run, _ | station⟩, pending⟩
  · cases hc
  · exact hc

theorem serves_withLane (b : Backlog) (a : Action) (j k : Job) {f : Lane Rest → Lane Rest}
    (hf : ∀ l, ∃ run, f l = { l with run }) (errands : List (Nat × Errand)) :
    Serves a j (b.work j) (({ b.withLane k f with errands } : Backlog).work j) := by
  have hlane {w : Work Rest} {l : Lane Rest} (hl : ∃ run, l = { w.toLane with run }) :
      Serves a j w { w with toLane := l } := by
    obtain ⟨run, rfl⟩ := hl
    exact .keeps rfl rfl id .inl
  cases k with
  | digital =>
    cases j with
    | digital => exact hlane (hf _)
    | _ => exact .same a _ _
  | generic =>
    cases j with
    | generic => exact hlane (hf _)
    | _ => exact .same a _ _
  | pollInit =>
    cases j with
    | pollInit => exact hlane (hf _)
    | _ => exact .same a _ _
  | reenable =>
    cases j with
    | reenable =>
      exact hlane (w := b.work .reenable) (hf _)
    | _ => exact .same a _ _

/-- Every step does one thing to the item of a job at most. -/
theorem Step.serves {a : Action} {b b' : Backlog} (hs : Step a b b') {j : Job}
    (hj : j ≠ .reenable) : Serves a j (b.work j) (b'.work j) := by
  cases hs with
  | interrupted hdrops hi =>
    have hpollInit : b'.pollInit = b.pollInit := by rw [hi.rest]
    cases j with
    | digital =>
      show Serves a .digital b.digital b'.digital
      rcases hi.digital with hd | ⟨hd, -, -⟩
      · exact hd ▸ .queues hdrops
      · exact hd ▸ .same a _ _
    | generic =>
      show Serves a .generic b.generic b'.generic
      rcases hi.generic with hg | ⟨hg, -⟩
      · exact hg ▸ .queues hdrops
      · exact hg ▸ .same a _ _
    | pollInit =>
      show Serves a .pollInit b.pollInit b'.pollInit
      exact hpollInit ▸ .same a _ _
    | reenable => exact absurd rfl hj
  | queuesPollInit hrequest =>
    have hdrops : a.drops = false := by
      rcases hrequest with rfl | ⟨on, rfl⟩ <;> rfl
    cases j with
    | pollInit => exact .queues hdrops
    | _ => exact .same a _ _
  | digitalLooks hmove hseek =>
    cases j with
    | digital => exact .looks hmove hseek
    | _ => exact .same a _ _
  | genericLooks hmove hseek =>
    cases j with
    | generic => exact .looks hmove hseek
    | _ => exact .same a _ _
  | pollInitLooks hmove hseek =>
    cases j with
    | pollInit => exact .looks hmove hseek
    | _ => exact .same a _ _
  | reenableLooks =>
    cases j with
    | reenable => exact absurd rfl hj
    | _ => exact .same a _ _
  | drains hmove hseek =>
    cases j with
    | digital => exact .claims hmove (by rw [work, hseek]) (Work.holder_of_claimed hseek).2
    | _ => exact .same a _ _
  | delivers _ hw =>
    cases j with
    | digital => exact .goesOn hw _
    | _ => exact .same a _ _
  | fallsBack hmove hw _ hrefused =>
    cases j with
    | digital => exact .finishes hw
    | generic =>
      obtain ⟨timerFirst, rfl⟩ := hmove
      rcases hrefused with ⟨rfl, -⟩ | ⟨rfl, -⟩
      · exact .same _ _ _
      · exact .queues rfl
    | pollInit => exact .same a _ _
    | reenable => exact absurd rfl hj
  | takes hmove hseek =>
    cases j with
    | generic => exact .claims hmove (by rw [work, hseek]) (Work.holder_of_claimed hseek).2
    | reenable => exact absurd rfl hj
    | _ => exact .same a _ _
  | probed _ hw =>
    cases j with
    | generic => exact .finishes hw
    | _ => exact .same a _ _
  | reads hmove hseek =>
    cases j with
    | pollInit => exact .claims hmove (by rw [work, hseek]) (Work.holder_of_claimed hseek).2
    | _ => exact .same a _ _
  | reinitialized _ hw =>
    cases j with
    | pollInit => exact .finishes hw
    | _ => exact .same a _ _
  | recovers =>
    cases j with
    | reenable => exact absurd rfl hj
    | _ => exact .same a _ _
  | forgets => cases j <;> exact .same a _ _
  | disarms k hdrops =>
    cases k with
    | reenable =>
      cases j with
      | reenable => exact absurd rfl hj
      | _ => exact .same a _ _
    | digital =>
      have hdrops : a.drops = true := hdrops.resolve_right (by decide)
      cases j with
      | digital => exact .disarms hdrops
      | _ => exact .same a _ _
    | generic =>
      have hdrops : a.drops = true := hdrops.resolve_right (by decide)
      cases j with
      | generic => exact .disarms hdrops
      | _ => exact .same a _ _
    | pollInit =>
      have hdrops : a.drops = true := hdrops.resolve_right (by decide)
      cases j with
      | pollInit => exact .disarms hdrops
      | _ => exact .same a _ _
  | passes =>
    exact b.serves_withLane a j _ (fun l => ⟨(l.run.request _).release, rfl⟩) b.errands
  | waits => exact b.serves_withLane a j _ (fun l => ⟨l.run.request _, rfl⟩) _
  | resumes => exact b.serves_withLane a j _ (fun l => ⟨l.run.release, rfl⟩) _
  | leaves => exact b.serves_withLane a j _ (fun l => ⟨l.run.leave _, rfl⟩) _
  | starts hstart =>
    subst hstart
    cases j with
    | reenable => exact absurd rfl hj
    | _ => exact .starts _ _
  | stops _ hdrops =>
    cases j with
    | reenable => exact absurd rfl hj
    | _ => exact .stops hdrops
  | holds => cases j <;> exact .same a _ _
  | releases => cases j <;> exact .same a _ _

/-- The steps of an action, one after the other. -/
def Steps (a : Action) : Backlog → Backlog → Prop := Relation.ReflTransGen (Step a)

namespace Steps

variable {a : Action} {b b' : Backlog}

theorem refl (a : Action) (b : Backlog) : Steps a b b := Relation.ReflTransGen.refl

theorem one (h : Step a b b') : Steps a b b' := .single h

theorem trans {b'' : Backlog} (h : Steps a b b') (h' : Steps a b' b'') : Steps a b b'' :=
  Relation.ReflTransGen.trans h h'

/-- What every step of an action keeps, the action keeps. -/
theorem induction {P : Backlog → Prop} (hstep : ∀ b b', Step a b b' → P b → P b')
    (h : Steps a b b') (hb : P b) : P b' := by
  induction h with
  | refl => exact hb
  | tail _ step ih => exact hstep _ _ step ih

end Steps

end Backlog

namespace Controller

def queued (s : Controller ρ) : Job → Bool
  | .digital => s.digital.pending
  | .generic => s.generic.pending
  | .pollInit => s.pollInit.pending
  | .reenable => false

theorem queued_eq (s : Controller ρ) (j : Job) : s.queued j = (s.backlog.work j).pending := by
  cases j <;> rfl

/-- Nothing goes on by itself: every worker waits, and so does every errand. -/
def AtRest (s : Controller ρ) : Prop :=
  (∀ j ∈ Job.all, s.canMove j = false) ∧ ∀ x ∈ s.errands, s.holdsRun x.2.job x.1 = false

instance (s : Controller ρ) : Decidable s.AtRest := inferInstanceAs (Decidable (_ ∧ _))

theorem AtRest.not_canMove {s : Controller ρ} (h : s.AtRest) (j : Job) : s.canMove j = false :=
  h.1 j (by cases j <;> decide)

open Backlog

variable {s : Controller ρ} {a : Action}

section Moves

theorem steps_deliver (ha : a.drops = false) (long short : PortSet) (refused : PinSet)
    (ports : List Port) :
    Steps a s.backlog (s.deliver long short refused ports).1.backlog :=
  deliver_induction (P := fun t => Steps a s.backlog t.backlog) (fun _ _ ht => ht)
    (fun _ _ _ _ ht => ht)
    (fun t i ht => ht.trans (.one (.interrupted ha (t.interrupted_interrupt i))))
    long short refused ports s (.refl a _)

theorem steps_moveDigital (ha : ∃ timerFirst, a = .move .digital timerFirst) :
    Steps a s.backlog s.moveDigital.backlog := by
  have hdrops : a.drops = false := by
    obtain ⟨timerFirst, rfl⟩ := ha
    rfl
  unfold moveDigital
  split
  · rename_i rest hw
    split
    · rename_i long short hpulses
      have hdelivered := steps_deliver (s := s) hdrops long short ∅ Port.all
      have hrest := running_deliver s long short ∅ Port.all
      rw [Lane.rest?_eq_some_iff.mpr hw, Lane.rest?_eq_some_iff] at hrest
      simp only
      rw [backlog_beginRun]
      exact hdelivered.trans (.one (.delivers ha hrest hpulses))
    · rename_i hpulses
      rw [backlog_finishRun, backlog_fallBack]
      split
      · rename_i hempty
        exact .one (.fallsBack ha hw hpulses (.inl ⟨rfl, rfl, hempty⟩))
      · exact .one (.fallsBack ha hw hpulses (.inr ⟨rfl, rfl⟩))
  · split
    · rename_i w hs
      exact .one (.digitalLooks ha hs)
    · rename_i w hs
      exact .one (.drains ha hs)

theorem steps_probeAll [Probe ρ] (ha : a.drops = false) (pins : PinSet)
    (cs : List (Connector ρ)) :
    Steps a s.backlog (s.probeAll pins cs).1.backlog :=
  probeAll_induction (P := fun t => Steps a s.backlog t.backlog) (fun _ _ ht => ht)
    (fun t i ht => ht.trans (.one (.interrupted ha (t.interrupted_interrupt i)))) pins cs s
    (.refl a _)

theorem running_probeAll [Probe ρ] (pins : PinSet) (cs : List (Connector ρ)) :
    (s.probeAll pins cs).1.generic.rest? = s.generic.rest? ∧
      (s.probeAll pins cs).1.mode = s.mode := by
  refine probeAll_induction (P := fun t => t.generic.rest? = s.generic.rest? ∧ t.mode = s.mode)
    (fun _ _ ht => ht) (fun t i ht => ?_) pins cs s ⟨rfl, rfl⟩
  have hi := t.interrupted_interrupt i
  refine ⟨?_, (congrArg Backlog.mode hi.rest).trans ht.2⟩
  rcases hi.generic with hg | ⟨hg, -⟩
  · exact (congrArg (fun w : Work Rest => w.rest?) hg).trans ((Work.rest?_queue _).trans ht.1)
  · exact (congrArg (fun w : Work Rest => w.rest?) hg).trans ht.1

theorem steps_moveGeneric [Probe ρ] (ha : ∃ timerFirst, a = .move .generic timerFirst) :
    Steps a s.backlog s.moveGeneric.backlog := by
  have hdrops : a.drops = false := by
    obtain ⟨timerFirst, rfl⟩ := ha
    rfl
  unfold moveGeneric
  split
  · rename_i rest hw
    split
    · rename_i hm
      have hprobed := steps_probeAll (s := s) hdrops rest.pins s.connectors
      obtain ⟨hrest, hmode⟩ := running_probeAll (s := s) rest.pins s.connectors
      rw [Lane.rest?_eq_some_iff.mpr hw, Lane.rest?_eq_some_iff] at hrest
      have hheld : (s.probeAll rest.pins s.connectors).1.mode.heldBy .generic = true := by
        rw [hmode]
        exact hm
      rw [backlog_finishRun, backlog_probePass]
      exact hprobed.trans (.one (.probed ha hrest hheld))
    · exact .refl a _
  · split
    · rename_i w hs
      exact .one (.genericLooks ha hs)
    · rename_i w hs
      have htake := backlog_takeEvents ({ s with generic := w } : Controller ρ)
      simp only [backlog_requestMode, backlog_beginRun, htake]
      refine .one (.takes ha hs ?_)
      split
      · exact .inl rfl
      · exact .inr ⟨_, rfl⟩

theorem steps_movePollInit (ha : ∃ timerFirst, a = .move .pollInit timerFirst) :
    Steps a s.backlog s.movePollInit.backlog := by
  unfold movePollInit
  split
  · rename_i disabled hw
    split
    · rename_i hm
      rw [backlog_finishRun, backlog_pollInitPass]
      exact .one (.reinitialized ha hw hm)
    · exact .refl a _
  · split
    · rename_i w hs
      exact .one (.pollInitLooks ha hs)
    · rename_i w hs
      exact .one (.reads ha hs)

theorem steps_moveReenable {timerFirst : Bool} (ha : a = .move .reenable timerFirst) :
    Steps a s.backlog (s.moveReenable timerFirst).backlog := by
  unfold moveReenable
  split
  · rename_i w hs
    exact .one (.reenableLooks ha hs)
  · rename_i w hs
    rw [backlog_finishRun, backlog_reenablePass]
    exact .one (.recovers ha hs)

theorem steps_move [Probe ρ] (j : Job) (timerFirst : Bool) :
    Steps (.move j timerFirst) s.backlog (s.move j timerFirst).backlog := by
  cases j with
  | digital => exact steps_moveDigital ⟨timerFirst, rfl⟩
  | generic => exact steps_moveGeneric ⟨timerFirst, rfl⟩
  | pollInit => exact steps_movePollInit ⟨timerFirst, rfl⟩
  | reenable => exact steps_moveReenable rfl

end Moves

section Errands

theorem backlog_disarm (s : Controller ρ) (j : Job) :
    (s.disarm j).backlog = s.backlog.disarm j := by
  cases j with
  | reenable => exact plain_backlog.disarmReenable s
  | _ => rfl

@[simp] theorem backlog_withErrand (s : Controller ρ) (client : Nat) (e : Errand) :
    (s.withErrand client e).backlog =
      { s.backlog with errands := s.backlog.errands ++ [(client, e)] } := rfl

@[simp] theorem backlog_withoutErrand (s : Controller ρ) (client : Nat) :
    (s.withoutErrand client).backlog =
      { s.backlog with errands := s.backlog.errands.filter (·.1 != client) } := rfl

theorem errands_disarm (b : Backlog) (j : Job) : (b.disarm j).errands = b.errands := by
  cases j <;> rfl

theorem errands_withLane (b : Backlog) (j : Job) (f : Lane Rest → Lane Rest) :
    (b.withLane j f).errands = b.errands := by
  cases j <;> rfl

theorem withErrands_withLane (b : Backlog) (j : Job) (f : Lane Rest → Lane Rest)
    (errands : List (Nat × Errand)) :
    ({ b with errands } : Backlog).withLane j f = { b.withLane j f with errands } := by
  cases j <;> rfl

theorem lookup_filter_self (es : List (Nat × Errand)) (client : Nat) :
    (es.filter (·.1 != client)).lookup client = none := by
  rw [List.lookup_eq_none_iff]
  intro x hx
  have hne := bne_iff_ne.mp (List.mem_filter.mp hx).2
  exact bne_iff_ne.mpr hne.symm

theorem lane_withLane (b : Backlog) (j : Job) (f : Lane Rest → Lane Rest) :
    (b.withLane j f).lane j = f (b.lane j) := by
  cases j <;> rfl

theorem holdsRun_requestRun (s : Controller ρ) (j : Job) (client : Nat) :
    (s.requestRun j client).holdsRun j client =
      ((s.backlog.lane j).run.request (.client client)).heldBy (.client client) := by
  cases j <;> rfl

theorem steps_stopAll (ha : a.drops = true) (client : Nat)
    (hfresh : s.backlog.errands.lookup client = none) :
    Steps a s.backlog (s.stopAll client).backlog := by
  unfold stopAll
  simp only [holdsRun_requestRun]
  split
  · rename_i hwaits
    rw [Bool.and_eq_true_iff, Bool.not_eq_true'] at hwaits
    rw [backlog_withErrand, backlog_requestRun, errands_withLane]
    exact .one (.waits (e := .cancel .digital [] true) hfresh hwaits.2)
  · rename_i hends
    rw [backlog_stopWorkers]
    refine .one (.stops client ha fun hflight => ?_)
    rw [Bool.and_eq_true_iff, not_and, Bool.not_eq_true', Bool.not_eq_false] at hends
    exact hends hflight

theorem steps_cancelJobs (ha : a.drops = true) (client : Nat) (stop : Bool) (js : List Job)
    (hfresh : s.backlog.errands.lookup client = none) :
    Steps a s.backlog (s.cancelJobs client stop js).backlog := by
  induction js generalizing s with
  | nil =>
    unfold cancelJobs
    split
    · exact steps_stopAll ha client hfresh
    · exact .refl a _
  | cons j js ih =>
    have hdisarmed : Steps a s.backlog (s.disarm j).backlog := by
      rw [backlog_disarm]
      exact .one (.disarms j (.inl ha))
    have hfresh' : (s.disarm j).backlog.errands.lookup client = none := by
      rw [backlog_disarm, errands_disarm]
      exact hfresh
    unfold cancelJobs
    simp only [holdsRun_requestRun]
    split
    · rename_i hh
      have hpassed : (((s.disarm j).requestRun j client).releaseRun j).backlog =
          (s.disarm j).backlog.withLane j fun l =>
            { l with run := (l.run.request (.client client)).release } := by
        rw [backlog_releaseRun, backlog_requestRun, withLane_withLane]
      refine hdisarmed.trans (.trans ?_ (ih ?_))
      · rw [hpassed]
        exact .one (.passes hfresh' hh)
      · rw [hpassed, errands_withLane]
        exact hfresh'
    · rename_i hh
      rw [backlog_withErrand, backlog_requestRun, errands_withLane]
      exact hdisarmed.trans (.one (.waits (e := .cancel j js stop) hfresh'
        (Bool.not_eq_true _ ▸ hh)))

theorem steps_cancel (ha : a.drops = true) (client : Nat) (stop : Bool)
    (hfresh : s.backlog.errands.lookup client = none) :
    Steps a s.backlog (({ s with longPorts := ∅, shortPorts := ∅, eventPins := ∅ } :
      Controller ρ).cancelJobs client stop Job.all).backlog := by
  have hforgot : Steps a s.backlog ({ s with longPorts := ∅, shortPorts := ∅, eventPins := ∅ } :
      Controller ρ).backlog := .one (.forgets ha)
  exact hforgot.trans (steps_cancelJobs ha client stop Job.all hfresh)

theorem backlog_recoverNow_eq (s : Controller ρ) :
    s.recoverNow.backlog = (s.backlog.disarm .reenable).withLane .reenable fun l =>
      { l with run := l.run.release } :=
  s.backlog_recoverNow

theorem steps_flush (client : Nat) (hfresh : s.backlog.errands.lookup client = none) :
    Steps a s.backlog (s.flush client).backlog := by
  unfold flush
  simp only [holdsRun_requestRun]
  split
  · rename_i hh
    have hdisarmed : Steps a s.backlog (s.backlog.disarm .reenable) :=
      .one (.disarms .reenable (.inr rfl))
    -- Whether the lock is asked for before or after the notification makes no difference.
    have hswap : (s.requestRun .reenable client).recoverNow.backlog =
        (s.backlog.disarm .reenable).withLane .reenable fun l =>
          { l with run := (l.run.request (.client client)).release } := by
      rw [backlog_recoverNow_eq, backlog_requestRun]
      simp only [Backlog.withLane, Backlog.disarm, DelayedWork.disarm, Lane.notify_withRun,
        Lane.run_notify]
    rw [hswap]
    refine hdisarmed.trans (.one (.passes hfresh ?_))
    simp only [Backlog.lane, Backlog.disarm, DelayedWork.disarm, Lane.run_notify]
    exact hh
  · rename_i hh
    rw [backlog_withErrand, backlog_requestRun, errands_withLane]
    exact .one (.waits (e := .flush) hfresh (Bool.not_eq_true _ ▸ hh))

theorem steps_configure (client : Nat) (config : StormConfig)
    (hfresh : s.backlog.errands.lookup client = none) :
    Steps a s.backlog (s.configure client config).backlog := by
  have hcleared : ({ s with table := { s.table with config }.clearCounts } :
      Controller ρ).backlog.errands.lookup client = none := hfresh
  unfold configure
  exact steps_flush client hcleared

theorem steps_resume (client : Nat) :
    Steps (.resume client) s.backlog (s.resume client).backlog := by
  unfold resume
  split
  · rename_i j rest stop he
    split
    · rename_i hh
      have hresumed : Steps (.resume client) s.backlog
          ((s.withoutErrand client).releaseRun j).backlog := by
        rw [backlog_releaseRun, backlog_withoutErrand, withErrands_withLane]
        exact .one (.resumes (e := .cancel j rest stop) he (lane_backlog s j ▸ hh))
      refine hresumed.trans (steps_cancelJobs rfl client stop rest ?_)
      rw [backlog_releaseRun, errands_withLane]
      exact lookup_filter_self s.errands client
    · exact .refl _ _
  · rename_i he
    split
    · rename_i hh
      have hdisarmed : Steps (.resume client) s.backlog (s.backlog.disarm .reenable) :=
        .one (.disarms .reenable (.inl rfl))
      rw [backlog_recoverNow_eq]
      refine hdisarmed.trans (.one (.resumes (e := .flush) he ?_))
      simp only [Backlog.lane, Backlog.disarm, DelayedWork.disarm, Errand.job, Lane.run_notify]
      exact hh
    · exact .refl _ _
  · exact .refl _ _

theorem steps_abandon (client : Nat) : Steps a s.backlog (s.abandon client).backlog := by
  unfold abandon
  split
  · rename_i e he
    rw [plain_backlog.rouse, backlog_withLane, backlog_withoutErrand, withErrands_withLane]
    exact .one (.leaves he)
  · exact .refl _ _

theorem steps_start : Steps .start s.backlog ((s.start true).toOption.getD s).backlog := by
  unfold start
  split
  · exact .refl _ _
  · split
    · exact .refl _ _
    · show Steps _ _ (Controller.backlog (List.foldl _ s Job.all))
      rw [backlog_startWorkers]
      exact .one (.starts rfl)

end Errands

theorem steps_act [Probe ρ] (s : Controller ρ) (a : Action) :
    Steps a s.backlog (s.act a).backlog := by
  have hfresh {client : Nat} (h : ¬(s.errand? client).isSome) :
      s.backlog.errands.lookup client = none := Option.not_isSome_iff_eq_none.mp h
  cases a with
  | interrupt i => exact .one (.interrupted rfl (s.interrupted_interrupt i))
  | raw pinMask longMask => exact .one (.interrupted rfl (s.interrupted_raw pinMask longMask))
  | init =>
    rw [act, backlog_init]
    exact .one (.queuesPollInit (.inl rfl))
  | forcePolling on =>
    rw [act, backlog_forcePolling]
    exact .one (.queuesPollInit (.inr ⟨on, rfl⟩))
  | setThreshold client k =>
    simp only [act]
    unfold setThreshold
    split
    · exact .refl _ _
    · rename_i h
      exact steps_configure (s := s.note _) client _ (hfresh h)
  | setShortStorms client k =>
    simp only [act]
    unfold setShortStorms
    split
    · exact .refl _ _
    · rename_i h
      exact steps_configure (s := s.note _) client _ (hfresh h)
  | cancelAll client =>
    simp only [act]
    unfold cancelAll
    split
    · exact .refl _ _
    · rename_i h
      exact steps_cancel rfl client false (hfresh h)
  | shutdown client =>
    simp only [act]
    unfold shutdown
    split
    · exact .refl _ _
    · rename_i h
      exact steps_cancel rfl client true (hfresh h)
  | resume client => exact steps_resume client
  | abandon client => exact steps_abandon client
  | start => exact steps_start
  | hold party =>
    rw [act, backlog_hold]
    split
    · exact .refl _ _
    · rename_i hfresh
      exact .one (.holds rfl hfresh)
  | release party =>
    rw [act, backlog_release]
    exact .one (.releases party)
  | move j timerFirst => exact steps_move j timerFirst
  | advance instant =>
    rw [act, backlog_advance]
    exact .refl _ _
  | _ => exact .refl _ _

section Queued

variable [Probe ρ] {j : Job}

/-- Between two moves of its worker a pending run stays pending. -/
theorem queued_act (ha : a.drops = false) (hm : ∀ timerFirst, a ≠ .move j timerFirst)
    (h : s.queued j = true) : (s.act a).queued j = true := by
  have hj : j ≠ .reenable := by
    rintro rfl
    cases h
  rw [queued_eq] at h ⊢
  refine Steps.induction (P := fun b => (b.work j).pending = true) ?_ (s.steps_act a) h
  intro b b' hs hb
  have hserves := hs.serves hj
  generalize b'.work j = w' at hserves
  cases hserves with
  | keeps hp => exact hp.trans hb
  | queues => exact Work.pending_queue _
  | disarms hdrops =>
    rw [ha] at hdrops
    cases hdrops
  | looks hmove =>
    obtain ⟨timerFirst, rfl⟩ := hmove
    exact absurd rfl (hm timerFirst)
  | claims hmove =>
    obtain ⟨timerFirst, rfl⟩ := hmove
    exact absurd rfl (hm timerFirst)
  | stops => exact hb

theorem queued_pollInit (h : (s.act a).queued .pollInit = true) :
    s.queued .pollInit = true ∨ a = .init ∨ ∃ on, a = .forcePolling on := by
  by_cases hrequest : a = .init ∨ ∃ on, a = .forcePolling on
  · exact .inr hrequest
  left
  rw [← Bool.not_eq_false]
  intro hidle
  refine absurd (Steps.induction (P := fun b => b.pollInit.pending = false) ?_ (s.steps_act a)
    hidle) (Bool.not_eq_false _ ▸ h)
  intro b b' hs hb
  cases hs with
  | interrupted _ hi =>
    rw [hi.rest]
    exact hb
  | queuesPollInit hasked => exact absurd hasked hrequest
  | pollInitLooks _ hseek => exact (Work.pending_looking hseek).trans hb
  | reads _ hseek => exact (Work.holder_of_claimed hseek).2
  | disarms j => cases j <;> first | exact hb | rfl
  | @passes j => cases j <;> exact hb
  | @waits _ e =>
    generalize e.job = j
    cases j <;> exact hb
  | @resumes _ e =>
    generalize e.job = j
    cases j <;> exact hb
  | @leaves _ e =>
    generalize e.job = j
    cases j <;> exact hb
  | _ => exact hb

end Queued

end Controller

end HotplugDetect
