import Mathlib.Logic.Function.Basic
import HotplugDetect.Proofs.Frames
import HotplugDetect.Proofs.Membership
import HotplugDetect.Proofs.Work.Line

/-! # How the outputs are watched

The poll modes, the statistics of the pins and the deferred work that acts on both later make up a
view of the controller. Locks, places in line, notifications and messages do not belong to it, and
the operations on them leave the view as it is.
-/

namespace HotplugDetect

variable {ρ : Type}

namespace PinStats

def pulsed (x : PinStats) (c : StormConfig) (long : Bool) (now : Nat) : PinStats :=
  if x.state = .enabled then (x.observe c long now).1 else x

def handedOver (x : PinStats) : PinStats :=
  if x.state = .autoDisabled then { x with state := .disabled, mitigated := true } else x

def freed (x : PinStats) : PinStats := { x with state := .enabled, mitigated := false }

theorem handedOver_cases (x : PinStats) :
    x.state ≠ .autoDisabled ∧ x.handedOver = x ∨
      x.state = .autoDisabled ∧
        x.handedOver = { x with state := .disabled, mitigated := true } := by
  by_cases h : x.state = .autoDisabled
  · exact .inr ⟨h, if_pos h⟩
  · exact .inl ⟨h, if_neg h⟩

@[simp] theorem handedOver_handedOver (x : PinStats) : x.handedOver.handedOver = x.handedOver := by
  unfold handedOver
  split <;> simp_all

end PinStats

namespace PinTable

theorem get_mitigate (t : PinTable) (p q : Pin) :
    (t.mitigate p).1.get q = if q = p then (t.get p).handedOver else t.get q := by
  unfold mitigate PinStats.handedOver state
  split
  · exact get_put t p q _
  · split <;> simp_all

theorem get_disable (t : PinTable) (p q : Pin) :
    (t.disable p).1.get q =
      if q = p ∧ t.state p = .enabled then { t.get p with state := .disabled } else t.get q := by
  unfold disable
  split
  · rename_i h
    simp only [get_put, h, and_true]
  · simp_all

@[simp] theorem config_observe (t : PinTable) (p : Pin) (long : Bool) (now : Nat) :
    (t.observe p long now).1.config = t.config := rfl

@[simp] theorem config_mitigate (t : PinTable) (p : Pin) : (t.mitigate p).1.config = t.config := by
  unfold mitigate
  split <;> rfl

@[simp] theorem config_disable (t : PinTable) (p : Pin) : (t.disable p).1.config = t.config := by
  unfold disable
  split <;> rfl

end PinTable

def Connector.bare (c : Connector ρ) : Connector Unit :=
  ⟨c.name, c.pin, c.multiStream, c.preference, c.polled, ()⟩

structure Watch where
  hasHotplug : Bool
  reenableDelay : Nat
  /-- The pins that a digital port serves. -/
  digital : Pin → Bool
  /-- The pins that the recovery covers. -/
  eligible : Pin → Bool
  connectors : List (Connector Unit)
  stats : Pin → PinStats
  config : StormConfig
  forced : Bool
  /-- The disabled pins that a poll-init run in flight has read. -/
  glimpse : Option PinSet
  /-- The instant of the recovery, when it is armed. -/
  deadline : Option Nat
  now : Nat

namespace Controller

def watch (s : Controller ρ) : Watch where
  hasHotplug := s.caps.hasHotplug
  reenableDelay := s.reenableDelay
  digital pin := (s.digitalPortForPin pin).isSome
  eligible := s.eligible
  connectors := s.connectors.map Connector.bare
  stats := s.table.get
  config := s.table.config
  forced := s.pollForced
  glimpse := s.pollInit.rest?.map (·.pins)
  deadline := s.reenable.deadline
  now := s.now

@[simp] theorem stats_ofSettings (settings : Settings) (connectors : ConnectorList ρ)
    (ports : Port → Option PulseHandler) (p : Pin) :
    (ofSettings settings connectors ports).watch.stats p = {} :=
  PinTable.get_ofConfig _ p

theorem isSome_glimpse (s : Controller ρ) :
    s.watch.glimpse.isSome = s.pollInit.rest?.isSome :=
  Option.isSome_map

section Updates

variable (s : Controller ρ)

theorem watch_withTable (t : PinTable) :
    ({ s with table := t } : Controller ρ).watch =
      { s.watch with stats := t.get, config := t.config } := rfl

theorem watch_withConnectors (cs : ConnectorList ρ) :
    ({ s with connectors := cs } : Controller ρ).watch =
      { s.watch with connectors := cs.map Connector.bare } := rfl

end Updates

section Bookkeeping

variable (s : Controller ρ)

theorem silent_watch : Silent (watch (ρ := ρ)) := ⟨fun _ _ => rfl, fun _ _ => rfl⟩

theorem plain_watch : Plain (watch (ρ := ρ)) := silent_watch.plain

theorem watch_withLane (j : Job) (f : Lane Rest → Lane Rest) :
    (s.withLane j f).watch =
      { s.watch with glimpse := if j = .pollInit then (f s.pollInit.toLane).rest?.map (·.pins)
                                else s.watch.glimpse } := by
  cases j <;> rfl

theorem watch_withLane_of_rest? (j : Job) {f : Lane Rest → Lane Rest}
    (h : ∀ l, (f l).rest? = l.rest?) : (s.withLane j f).watch = s.watch := by
  rw [watch_withLane, h]
  split <;> rfl

@[simp] theorem watch_queuePollInit : s.queuePollInit.watch = s.watch := by
  rw [plain_watch.queuePollInit]
  simp only [watch, Work.rest?_queue]
  rfl

theorem watch_requestMode (p : ModeParty) : (s.requestMode p).watch = s.watch := rfl

theorem watch_withErrand (client : Nat) (e : Errand) :
    (s.withErrand client e).watch = s.watch := rfl

theorem watch_withoutErrand (client : Nat) : (s.withoutErrand client).watch = s.watch := rfl

@[simp] theorem watch_requestRun (j : Job) (client : Nat) :
    (s.requestRun j client).watch = s.watch :=
  s.watch_withLane_of_rest? j fun _ => rfl

@[simp] theorem watch_releaseRun (j : Job) : (s.releaseRun j).watch = s.watch := by
  rw [plain_watch.releaseRun]
  exact s.watch_withLane_of_rest? j fun _ => rfl

end Bookkeeping

end Controller

end HotplugDetect
