import HotplugDetect.Controller.Script
import HotplugDetect.Proofs.Dispatch.Accounts
import HotplugDetect.Proofs.Dispatch.Burst

/-! # From a burst to its probes

The workers are idle when a burst of interrupts arrives, and act until all of them wait, in any
order. Every port with a pulse is called once by then, and every connector whose pin asks for it is
probed once.
-/

namespace HotplugDetect

variable {ρ : Type}

section Wiring

theorem portForPin_of_pinForPort {alternate : Bool} {p q : Pin} {port : Port}
    (hq : portForPin q alternate = some port) (hp : pinForPort port alternate = some p) :
    portForPin p alternate = some port := by
  cases alternate <;> cases q <;> cases hq <;> cases hp <;> rfl

end Wiring

namespace Ledger

variable (g : Ledger ρ) (long short : PortSet)

theorem count_pulses (port : Port) (l : Bool) :
    (g.pulses long short).count (.call (.pulse port l)) =
      ((g.pulse long short port).any (·.2 = l)).toNat := by
  have hcount (ports : List Port) (hn : ports.Nodup) :
      (ports.filterMap fun q => (g.pulse long short q).map fun x =>
        Event.call (.pulse q x.2)).count (.call (.pulse port l)) =
        (decide (port ∈ ports) && (g.pulse long short port).any (·.2 = l)).toNat := by
    induction ports with
    | nil => rfl
    | cons q ports ih =>
      obtain ⟨hq, hports⟩ := List.nodup_cons.mp hn
      have hrest := ih hports
      rw [List.filterMap_cons]
      by_cases he : q = port
      · subst he
        rw [decide_eq_false hq, Bool.false_and, Bool.toNat_false] at hrest
        rw [decide_eq_true List.mem_cons_self, Bool.true_and]
        cases g.pulse long short q with
        | none => exact hrest
        | some x =>
          rw [Option.map_some, List.count_cons, hrest]
          by_cases hl : x.2 = l <;> simp [hl]
      · have hmem : port ∈ q :: ports ↔ port ∈ ports := by simp [Ne.symm he]
        rw [decide_eq_decide.mpr hmem, ← hrest]
        cases g.pulse long short q with
        | none => rfl
        | some x => exact List.count_cons_of_ne (by simp [he])
  rw [pulses, hcount _ (by decide), decide_eq_true (Port.mem_all port), Bool.true_and]

end Ledger

/-- Nothing is pending, and the worker waits for a notification or is about to look for one. -/
structure Work.Resting {β : Type} (w : Work β) : Prop where

  pending : w.pending = false

  run : w.run = {}

  worker : w.worker = some .idle ∨ ∃ notified, w.worker = some (.parked none notified)

namespace Work.Resting

variable {β : Type} {w : Work β} (h : w.Resting)

include h

theorem patient : w.Patient := by
  rw [Lane.Patient]
  rcases h.worker with hw | ⟨notified, hw⟩ <;> simp [hw]

theorem rest? : w.rest? = none := by
  rw [Lane.rest?]
  rcases h.worker with hw | ⟨notified, hw⟩ <;> simp [hw]

theorem tended : w.Tended where
  lined := by
    have hrun := h.run
    refine ⟨?_, ?_, ?_⟩
    · rw [hrun]
      exact Lock.orderly_empty
    · rw [Lane.Placed, hrun]
      rcases h.worker with hw | ⟨notified, hw⟩ <;> rw [hw] <;> exact List.not_mem_nil
    · rw [Lane.clients, hrun]
      rfl
  attended := attended_of_not_pending h.pending
  present := by
    rcases h.worker with hw | ⟨notified, hw⟩ <;> rw [hw] <;> exact Option.some_ne_none _
  patient := h.patient

end Work.Resting

theorem Backlog.Tended.interrupted {b b' : Backlog} (h : b.Tended) (hi : b.Interrupted b') :
    b'.Tended where
  digital := by
    rcases hi.digital with hd | ⟨hd, -, -⟩ <;> rw [hd]
    · exact h.digital.queue
    · exact h.digital
  generic := by
    rcases hi.generic with hg | ⟨hg, -⟩ <;> rw [hg]
    · exact h.generic.queue
    · exact h.generic
  pollInit := by
    rw [hi.rest]
    exact h.pollInit
  pollInit_pending := by
    rw [hi.rest]
    exact h.pollInit_pending
  pollInit_rest := by
    rw [hi.rest]
    exact h.pollInit_rest
  reenable_rest := by
    rw [hi.rest]
    exact h.reenable_rest
  pulses := by
    rcases hi.digital with hd | ⟨hd, hlong, hshort⟩ <;> rw [hd]
    · exact fun hp => nomatch b.digital.pending_queue.symm.trans hp
    · rw [hlong, hshort]
      exact h.pulses
  events := by
    rcases hi.generic with hg | ⟨hg, hpins⟩ <;> rw [hg]
    · exact fun hp => nomatch b.generic.pending_queue.symm.trans hp
    · rw [hpins]
      exact h.events
  mode := by
    have hmode : b'.mode = b.mode := by rw [hi.rest]
    have hrest : b'.generic.rest? = b.generic.rest? := hi.rest?_lane .generic
    rw [hmode, hrest]
    exact h.mode

namespace Controller

/-- The workers are there and wait, and nothing is recorded. -/
structure Calm (s : Controller ρ) : Prop where

  digital : s.digital.Resting

  generic : s.generic.Resting

  pollInit : s.pollInit.Resting

  /-- No recovery is in the middle of its run. Whether one is due does not matter. -/
  reenable : s.reenable.rest? = none

  ports : s.longPorts = ∅ ∧ s.shortPorts = ∅

  pins : s.eventPins = ∅

  mode : s.mode = {}

theorem Calm.tended {s : Controller ρ} (h : s.Calm) : s.backlog.Tended where
  digital := h.digital.tended
  generic := h.generic.tended
  pollInit := h.pollInit.patient
  pollInit_pending := h.pollInit.pending
  pollInit_rest := h.pollInit.rest?
  reenable_rest := h.reenable
  pulses _ := h.ports
  events _ := h.pins
  mode := by
    show s.mode = if s.generic.rest?.isSome then _ else _
    rw [h.generic.rest?, h.mode]
    rfl

/-- Whether a connector on the pin is probed after a burst: the pin has no port, fires enabled and
does not storm, or it reports for a port that does not handle its pulse. -/
def asks (s : Controller ρ) (is : List Interrupt) (p : Pin) : Bool :=
  (s.digitalPortForPin p).isNone && s.firesEnabled is p && !s.storms is p ||
    Port.all.any fun port => s.pulsed is port && s.pinForPort port = some p &&
      (s.digitalPorts port).any fun h => !(h.answer (s.pulsedLong is port)).handled

section Burst

variable {s : Controller ρ} (h : s.Calm) (is : List Interrupt)

include h

theorem Calm.tended_burst : (is.foldl interrupt s).backlog.Tended :=
  s.burst_induction (fun _ _ hb hi => hb.interrupted hi) h.tended is

theorem Calm.rest?_burst : (is.foldl interrupt s).backlog.digital.rest? = none ∧
    (is.foldl interrupt s).backlog.generic.rest? = none :=
  s.burst_induction (P := fun b => b.digital.rest? = none ∧ b.generic.rest? = none)
    (fun _ _ hb hi => ⟨(hi.rest?_lane .digital).trans hb.1, (hi.rest?_lane .generic).trans hb.2⟩)
    ⟨h.digital.rest?, h.generic.rest?⟩ is

theorem Calm.pulse_burst (port : Port) :
    s.ledger.pulse (is.foldl interrupt s).backlog.longPorts
      (is.foldl interrupt s).backlog.shortPorts port =
      if s.pulsed is port then (s.digitalPorts port).map fun x => (x, s.pulsedLong is port)
      else none := by
  show (if (is.foldl interrupt s).longPorts.contains port ||
    (is.foldl interrupt s).shortPorts.contains port then
      (s.digitalPorts port).map fun x => (x, (is.foldl interrupt s).longPorts.contains port)
    else none) = _
  rw [s.ports_burst, s.longPorts_burst, h.ports.1, h.ports.2]
  simp only [Mask.contains_empty, Bool.false_or]

theorem Calm.eventPins_burst (p : Pin) : (is.foldl interrupt s).backlog.eventPins.contains p =
    ((s.digitalPortForPin p).isNone && s.firesEnabled is p && !s.storms is p) := by
  have hnone : s.eventPins.contains p = false := by
    rw [h.pins]
    exact Mask.contains_empty p
  show (is.foldl interrupt s).eventPins.contains p = _
  cases hp : s.digitalPortForPin p with
  | none =>
    rw [s.eventPins_burst is hp, hnone]
    cases s.firesEnabled is p <;> simp
  | some port =>
    rw [s.eventPins_burst_digital is (by rw [hp]; exact Option.some_ne_none _) hnone]
    rfl

theorem Calm.refuses_burst (p : Pin) :
    s.ledger.refuses (is.foldl interrupt s).backlog.longPorts
      (is.foldl interrupt s).backlog.shortPorts p =
      Port.all.any fun port => s.pulsed is port && s.pinForPort port = some p &&
        (s.digitalPorts port).any fun x => !(x.answer (s.pulsedLong is port)).handled := by
  unfold Ledger.refuses
  congr 1
  funext port
  rw [Ledger.refusal, h.pulse_burst is port]
  have hpin : s.ledger.pinOf port = s.pinForPort port := rfl
  rw [hpin]
  cases s.pulsed is port with
  | false => rfl
  | true =>
    cases s.digitalPorts port with
    | none => simp
    | some x => cases hx : (x.answer (s.pulsedLong is port)).handled <;> simp [hx]

omit h in
theorem exists_of_pulsed {port : Port} (hport : s.pulsed is port = true) :
    ∃ q, s.portForPin q = some port ∧ (s.digitalPorts port).isSome = true := by
  obtain ⟨i, -, hi⟩ := List.any_eq_true.mp hport
  obtain ⟨q, -, hq⟩ := List.any_eq_true.mp hi
  exact ⟨q, Option.filter_eq_some_iff.mp (of_decide_eq_true hq)⟩

omit h in
theorem digitalPortForPin_of_pulsed {port : Port} (hport : s.pulsed is port = true) {p : Pin}
    (hp : s.pinForPort port = some p) : s.digitalPortForPin p = some port := by
  obtain ⟨q, hserves, hregistered⟩ := exists_of_pulsed is hport
  exact Option.filter_eq_some_iff.mpr ⟨portForPin_of_pinForPort hserves hp, hregistered⟩

theorem Calm.disjoint_burst (p : Pin)
    (hp : (is.foldl interrupt s).backlog.eventPins.contains p = true) :
    s.ledger.refuses (is.foldl interrupt s).backlog.longPorts
      (is.foldl interrupt s).backlog.shortPorts p = false := by
  rw [h.eventPins_burst is] at hp
  rw [h.refuses_burst is, ← Bool.not_eq_true, List.any_eq_true]
  rintro ⟨port, -, hport⟩
  simp only [Bool.and_eq_true, decide_eq_true_eq] at hp hport
  rw [digitalPortForPin_of_pulsed is hport.1.1 hport.1.2] at hp
  cases hp.1.1

end Burst

section Moves

variable [Probe ρ]

def moves (s : Controller ρ) (ms : List (Job × Bool)) : Controller ρ :=
  ms.foldl (fun s m => s.move m.1 m.2) s

def Effective (s : Controller ρ) : List (Job × Bool) → Bool
  | [] => true
  | m :: ms => s.canMove m.1 && (s.move m.1 m.2).Effective ms

def Settled (s : Controller ρ) : Prop := ∀ j, s.canMove j = false

/-- The workers are on the way from a backlog and a ledger. -/
structure Underway (b₀ : Backlog) (g₀ : Ledger ρ) (s : Controller ρ) : Prop where

  tended : s.backlog.Tended

  balanced : ∃ done, Balanced b₀ g₀ done s.backlog s.ledger

variable {s : Controller ρ} {b₀ : Backlog} {g₀ : Ledger ρ}

section Silent

variable (hd : ∀ p, b₀.eventPins.contains p = true →
    g₀.refuses b₀.longPorts b₀.shortPorts p = false)
  (hp : ∀ port h, g₀.handlers port = some h → h.Silent) (hs : ∀ c ∈ g₀.connectors, c.Silent)

include hp hs

/-- Neither the ports nor the probes that are called raise anything. -/
theorem Underway.interruptsOf (h : Underway b₀ g₀ s) (j : Job) (timerFirst : Bool) :
    s.interruptsOf (.move j timerFirst) = [] := by
  obtain ⟨done, hdone⟩ := h.balanced
  cases j with
  | digital =>
    cases ht : s.digital.rest?.bind (·.pulses) with
    | none => rw [Controller.interruptsOf, ht]
    | some taken =>
      have hhandlers : s.digitalPorts = g₀.handlers := by
        refine hdone.handlers ?_
        rw [Backlog.delivered, Backlog.taken,
          show s.backlog.digital.rest?.bind (·.pulses) = _ from ht]
        simp
      rw [Controller.interruptsOf, ht]
      refine List.flatMap_eq_nil_iff.mpr fun x hx => ?_
      exact hp x.1 x.2.1 (hhandlers ▸ digitalPorts_of_mem hx) x.2.2
  | generic =>
    cases hr : s.generic.rest? with
    | none => rw [Controller.interruptsOf, hr]
    | some rest =>
      rw [Controller.interruptsOf, hr]
      simp only
      split
      · refine List.flatMap_eq_nil_iff.mpr fun c hc => ?_
        split
        · rename_i hon
          exact hdone.silent hs hr c.unpolled (List.mem_map_of_mem hc) hon
        · rfl
      · rfl
  | pollInit => rfl
  | reenable => rfl

theorem Underway.stride (h : Underway b₀ g₀ s) (j : Job) (timerFirst : Bool) :
    Stride s.now s.backlog s.ledger j (s.move j timerFirst).backlog
      (s.move j timerFirst).ledger := by
  exact s.stride_move h.tended.pollInit_pending h.tended.pollInit_rest
    (h.interruptsOf hp hs j timerFirst)

include hd

theorem Underway.move (h : Underway b₀ g₀ s) (j : Job) (timerFirst : Bool) :
    Underway b₀ g₀ (s.move j timerFirst) := by
  have hstride := h.stride hp hs j timerFirst
  obtain ⟨done, hdone⟩ := h.balanced
  exact ⟨hstride.tended h.tended, hdone.stride hd hstride⟩

theorem Underway.moves (h : Underway b₀ g₀ s) (ms : List (Job × Bool)) :
    Underway b₀ g₀ (s.moves ms) := by
  induction ms generalizing s with
  | nil => exact h
  | cons m ms ih => exact ih (h.move hd hp hs m.1 m.2)

/-- Workers that are left alone do not act for ever. -/
theorem Underway.length_le (h : Underway b₀ g₀ s) {ms : List (Job × Bool)}
    (hms : s.Effective ms = true) : ms.length ≤ s.backlog.unrest s.now := by
  induction ms generalizing s with
  | nil => exact Nat.zero_le _
  | cons m ms ih =>
    obtain ⟨hm, hms⟩ := Bool.and_eq_true_iff.mp hms
    have hlt := (h.stride hp hs m.1 m.2).unrest_lt h.tended ((s.canMove_backlog m.1).trans hm)
    have hle := ih (h.move hd hp hs m.1 m.2) hms
    rw [now_move] at hle
    rw [List.length_cons]
    omega

theorem Underway.exists_settled (h : Underway b₀ g₀ s) :
    ∃ ms, s.Effective ms = true ∧ (s.moves ms).Settled := by
  induction hn : s.backlog.unrest s.now using Nat.strong_induction_on generalizing s with
  | _ n ih =>
    by_cases hsettled : s.Settled
    · exact ⟨[], rfl, hsettled⟩
    · obtain ⟨j, hj⟩ := not_forall.mp hsettled
      have hm : s.canMove j = true := Bool.not_eq_false _ ▸ hj
      have hlt := (h.stride hp hs j true).unrest_lt h.tended ((s.canMove_backlog j).trans hm)
      rw [hn, ← now_move j true] at hlt
      obtain ⟨ms, hms, hdone⟩ := ih _ hlt (h.move hd hp hs j true) rfl
      exact ⟨(j, true) :: ms, Bool.and_eq_true_iff.mpr ⟨hm, hms⟩, hdone⟩

end Silent

end Moves

/-- What a burst has come to when the workers have settled. -/
structure Dispatched [Probe ρ] (s : Controller ρ) (is : List Interrupt) (t : Controller ρ) :
    Prop where

  /-- A port with a pulse is called once, with a long pulse if one of its pulses was long. -/
  pulses (port : Port) (long : Bool) :
    t.trace.count (.call (.pulse port long)) = s.trace.count (.call (.pulse port long)) +
      (s.pulsed is port && s.pulsedLong is port == long).toNat

  /-- The probe of a connector whose pin asks for it is called once. -/
  detections (name : String) :
    t.trace.count (.call (.detect name)) = s.trace.count (.call (.detect name)) +
      s.connectors.countP fun c => c.name = name && c.pin.any (s.asks is)

  probes : t.connectors.map Connector.unpolled =
    s.connectors.map fun c => c.unpolled.asked (c.pin.any (s.asks is))

  runs : t.trace.count (.note .encoders) ≤ s.trace.count (.note .encoders) + 2

  /-- A run tells of changes once at most. -/
  notices : t.trace.count (.call .hotplugEvent) + s.trace.count (.note .encoders) ≤
    s.trace.count (.call .hotplugEvent) + t.trace.count (.note .encoders)

  notified : s.trace.count (.call .hotplugEvent) < t.trace.count (.call .hotplugEvent) ↔
    ∃ c ∈ s.connectors, c.pin.any (s.asks is) = true ∧ c.changes = true

section Settling

theorem count_log (t : Controller ρ) {e : Event} (he : e.entered = true) :
    t.ledger.log.count e = t.trace.count e :=
  List.count_filter he

variable [Probe ρ] {s : Controller ρ}

theorem Calm.underway_burst (h : s.Calm) (is : List Interrupt) :
    Underway (is.foldl interrupt s).backlog s.ledger (is.foldl interrupt s) where
  tended := h.tended_burst is
  balanced := by
    rw [s.ledger_burst is]
    exact ⟨∅, .start (h.tended_burst is) (h.rest?_burst is).1 (h.rest?_burst is).2 s.ledger⟩

theorem Calm.contains_done (h : s.Calm) (is : List Interrupt) {done : PinSet} {b : Backlog}
    {g : Ledger ρ} (hdone : Balanced (is.foldl interrupt s).backlog s.ledger done b g)
    (hb : b.Tended) (hdigital : b.digital.pending = false) (hflight : b.digital.rest? = none)
    (hgeneric : b.generic.pending = false) (hrest : b.generic.rest? = none) (p : Pin) :
    done.contains p = s.asks is p := by
  have hpins := hdone.pins p
  have hasks : s.asks is p = ((is.foldl interrupt s).backlog.eventPins.contains p ||
      s.ledger.refuses (is.foldl interrupt s).backlog.longPorts
        (is.foldl interrupt s).backlog.shortPorts p) := by
    rw [h.eventPins_burst is, h.refuses_burst is]
    rfl
  rw [hb.events hgeneric, Backlog.inHand, hrest, Backlog.refused, hflight, Option.elim_none,
    Backlog.delivered_of_idle hdigital hflight, Mask.contains_empty, Bool.true_and, ← hasks,
    Bool.toNat_false, Nat.zero_add] at hpins
  generalize done.contains p = x, s.asks is p = y at hpins
  revert x y
  decide

/-- When nothing is left to do, the accounts tell what the burst has come to. -/
theorem Calm.dispatched (h : s.Calm) (is : List Interrupt) {t : Controller ρ}
    (ht : Underway (is.foldl interrupt s).backlog s.ledger t)
    (hsettled : t.Settled) : s.Dispatched is t := by
  obtain ⟨htended, done, hdone⟩ := ht
  obtain ⟨hdigital, hflight, hgeneric, hrest⟩ :=
    htended.settled fun j => (t.canMove_backlog j).trans (hsettled j)
  have hon (c : Connector ρ) : c.isOn done = c.pin.any (s.asks is) := by
    unfold Connector.isOn
    congr 1
    funext p
    exact h.contains_done is hdone htended hdigital hflight hgeneric hrest p
  refine ⟨fun port long => ?pulses, fun name => ?detections, ?probes, ?runs, ?notices, ?notified⟩
  case pulses =>
    have hpulses := hdone.pulses port long
    rw [Backlog.delivered_of_idle hdigital hflight, if_pos rfl, count_log t rfl, count_log s rfl,
      Ledger.count_pulses, h.pulse_burst is] at hpulses
    refine hpulses.trans (congrArg (s.trace.count _ + Bool.toNat ·) ?_)
    cases hport : s.pulsed is port with
    | false => rfl
    | true =>
      obtain ⟨-, -, hregistered⟩ := exists_of_pulsed is hport
      obtain ⟨x, hx⟩ := Option.isSome_iff_exists.mp hregistered
      rw [hx]
      cases long <;> cases s.pulsedLong is port <;> rfl
  case detections =>
    have hdetections := hdone.detections name
    rw [count_log t rfl, count_log s rfl] at hdetections
    rw [hdetections]
    show _ + List.countP _ (s.connectors.map Connector.unpolled) = _
    rw [List.countP_map]
    congr 2
    funext c
    rw [← hon]
    rfl
  case probes =>
    have hconnectors : t.ledger.connectors = _ := congrArg Ledger.connectors hdone.rest
    refine hconnectors.trans ?_
    show (s.connectors.map Connector.unpolled).map _ = _
    rw [List.map_map]
    refine List.map_congr_left fun c _ => ?_
    rw [← hon]
    rfl
  case runs =>
    have hruns := hdone.runs
    rw [count_log t rfl, count_log s rfl] at hruns
    omega
  case notices =>
    have hnotices := hdone.notices
    rw [hrest, Option.isSome_none, Bool.toNat_false, Nat.add_zero] at hnotices
    rwa [count_log t (e := .call .hotplugEvent) rfl, count_log t (e := .note .encoders) rfl,
      count_log s (e := .call .hotplugEvent) rfl, count_log s (e := .note .encoders) rfl]
      at hnotices
  case notified =>
    have hnotified := hdone.notified.2
    rw [count_log t rfl, count_log s rfl] at hnotified
    rw [hnotified]
    show (s.connectors.map Connector.unpolled).any _ = true ↔ _
    rw [List.any_map, List.any_eq_true]
    refine exists_congr fun c => and_congr_right fun _ => ?_
    rw [← hon]
    exact Bool.and_eq_true_iff

/-- From a calm state, the workers settle after a burst, in whatever order they act. -/
theorem burst_dispatched_once (h : s.Calm)
    (hp : ∀ port h, s.digitalPorts port = some h → h.Silent) (hs : ∀ c ∈ s.connectors, c.Silent)
    (is : List Interrupt) :
    let b := is.foldl interrupt s
    (∃ ms, b.Effective ms = true ∧ (b.moves ms).Settled) ∧
      ∀ ms, (b.Effective ms = true → ms.length ≤ 47) ∧
        ((b.moves ms).Settled → s.Dispatched is (b.moves ms)) := by
  intro b
  have hsilent : ∀ c ∈ s.ledger.connectors, c.Silent := by
    intro c hc
    obtain ⟨d, hd, rfl⟩ := List.mem_map.mp hc
    exact hs d hd
  have hdisjoint : ∀ p, b.backlog.eventPins.contains p = true →
      s.ledger.refuses b.backlog.longPorts b.backlog.shortPorts p = false :=
    h.disjoint_burst is
  have hunderway : Underway b.backlog s.ledger b := h.underway_burst is
  refine ⟨hunderway.exists_settled hdisjoint hp hsilent, fun ms => ⟨fun hms => ?_, ?_⟩⟩
  · exact (hunderway.length_le hdisjoint hp hsilent hms).trans
      (Backlog.unrest_le (h.rest?_burst is).1 _)
  · exact h.dispatched is (hunderway.moves hdisjoint hp hsilent ms)

/-- The generic job runs before the digital one and once more after it, for a refused short pulse.
The connector on the storming pin is not probed. -/
theorem burst_dispatched_once_in_two_runs :
    let ports : Port → Option PulseHandler :=
      fun port => if port = .B then some ⟨[], id⟩ else none
    let connectors : ConnectorList Script :=
      [.make "HDMI-A-1" (some .portB) .unset false ⟨[true], ⟨∅, ∅⟩, 0⟩,
        .make "DP-1" (some .portC) .unset false ⟨[false], ⟨∅, ∅⟩, 0⟩,
        .make "VGA-1" (some .crt) .unset false ⟨[true], ⟨∅, ∅⟩, 0⟩]
    let is : List Interrupt :=
      ⟨.ofList [.portB, .portC], ∅⟩ :: List.replicate 6 ⟨.ofList [.crt], ∅⟩
    let b := is.foldl interrupt ((ofSettings {} connectors ports).run [.start])
    let jobs : List Job := [.generic, .generic, .generic, .generic, .digital, .digital, .digital,
      .digital, .generic, .generic, .generic, .generic, .digital, .pollInit, .reenable, .reenable]
    let t := b.moves (jobs.map fun j => (j, true))
    t.trace.count (.call (.pulse .B false)) = 1 ∧ t.trace.count (.call (.detect "HDMI-A-1")) = 1 ∧
      t.trace.count (.call (.detect "DP-1")) = 1 ∧ t.trace.count (.call (.detect "VGA-1")) = 0 ∧
      t.trace.count (.note .encoders) ≤ 2 := by
  intro ports connectors is b jobs t
  have hcalm : ((ofSettings {} connectors ports).run [.start]).Calm :=
    ⟨⟨rfl, rfl, .inl rfl⟩, ⟨rfl, rfl, .inl rfl⟩, ⟨rfl, rfl, .inl rfl⟩, rfl, ⟨rfl, rfl⟩, rfl, rfl⟩
  have hsilent : ∀ c ∈ ((ofSettings {} connectors ports).run [.start]).connectors, c.Silent := by
    show ∀ c ∈ connectors, (Probe.detect c.probe).raised = []
    decide
  have hports : ∀ port h, ports port = some h → h.Silent := by
    intro port h hport long
    obtain ⟨-, hh⟩ := Option.ite_none_right_eq_some.mp hport
    obtain rfl := Option.some_inj.mp hh
    rfl
  obtain ⟨-, h⟩ := burst_dispatched_once hcalm hports hsilent is
  have hsettled : t.Settled := by
    intro j
    cases j <;> decide +kernel
  have hdone := (h (jobs.map fun j => (j, true))).2 hsettled
  refine ⟨(hdone.pulses .B false).trans ?_, (hdone.detections "HDMI-A-1").trans ?_,
    (hdone.detections "DP-1").trans ?_, (hdone.detections "VGA-1").trans ?_,
    hdone.runs.trans ?_⟩ <;> decide +kernel

end Settling

end Controller

end HotplugDetect
