import HotplugDetect.Proofs.Dispatch.Settling
import HotplugDetect.Proofs.Membership

/-! # Accounts

While the workers settle, every recorded pulse is on its way to its port or was delivered, and every
pin that asks for probes is recorded, in the hands of a run, or was probed. No stride drops one of
them, and none serves one twice.
-/

namespace HotplugDetect

variable {ρ : Type}

namespace Connector

theorem isOn_union (c : Connector ρ) (m n : PinSet) :
    c.isOn (m ∪ n) = (c.isOn m || c.isOn n) := by
  unfold isOn
  cases c.pin with
  | none => rfl
  | some p => exact Mask.contains_union m n p

theorem isOn_empty (c : Connector ρ) : c.isOn ∅ = false := by
  unfold isOn
  cases c.pin with
  | none => rfl
  | some p => exact Mask.contains_empty p

theorem not_isOn_of_disjoint {c : Connector ρ} {m n : PinSet}
    (h : ∀ p, n.contains p = true → m.contains p = false) (hn : c.isOn n = true) :
    c.isOn m = false := by
  unfold isOn at hn ⊢
  cases hp : c.pin with
  | none => rfl
  | some p =>
    rw [hp] at hn
    exact h p hn

variable [Probe ρ]

@[simp] theorem name_asked (c : Connector ρ) (on : Bool) : (c.asked on).name = c.name := by
  cases on <;> rfl

@[simp] theorem isOn_asked (c : Connector ρ) (on : Bool) (pins : PinSet) :
    (c.asked on).isOn pins = c.isOn pins := by
  cases on <;> rfl

end Connector

namespace Ledger

variable (g : Ledger ρ) (long short : PortSet)

/-- The pins that are probed because their ports do not handle their pulses. -/
def refuses (p : Pin) : Bool := Port.all.any fun port => g.refusal long short port = some p

theorem refuses_iff (p : Pin) :
    g.refuses long short p = true ↔ ∃ port, g.refusal long short port = some p := by
  simp [refuses, Port.mem_all]

theorem pulse_empty (port : Port) : g.pulse ∅ ∅ port = none := by
  simp [pulse]

theorem refuses_empty (p : Pin) : g.refuses ∅ ∅ p = false := by
  rw [← Bool.not_eq_true, refuses_iff]
  rintro ⟨port, h⟩
  rw [refusal, pulse_empty] at h
  cases h

theorem pulses_empty : g.pulses ∅ ∅ = [] := by
  simp [pulses, pulse_empty]

theorem count_pulses_of_ne {e : Event} (h : ∀ port l, e ≠ .call (.pulse port l)) :
    (g.pulses long short).count e = 0 := by
  refine List.count_eq_zero.mpr fun hm => ?_
  obtain ⟨port, -, heq⟩ := List.mem_filterMap.mp hm
  obtain ⟨x, -, rfl⟩ := Option.map_eq_some_iff.mp heq
  exact h _ _ rfl

theorem count_pulses_append {e : Event} (h : ∀ port l, e ≠ .call (.pulse port l))
    (log : List Event) : ((g.pulses long short).reverse ++ log).count e = log.count e := by
  rw [List.count_append, List.count_reverse, g.count_pulses_of_ne long short h, Nat.zero_add]

variable (pins : PinSet)

theorem count_detections (name : String) :
    (g.detections pins).count (.call (.detect name)) =
      g.connectors.countP fun c => c.name = name && c.isOn pins := by
  unfold detections
  rw [List.count, List.countP_map, List.countP_filter]
  refine List.countP_congr fun c _ => ?_
  simp

theorem count_detections_of_ne {e : Event} (h : ∀ name, e ≠ .call (.detect name)) :
    (g.detections pins).count e = 0 := by
  refine List.count_eq_zero.mpr fun hm => ?_
  obtain ⟨c, -, rfl⟩ := List.mem_map.mp hm
  exact h _ rfl

variable [Probe ρ]

theorem count_log_probed (e : Event) :
    (g.probed pins).log.count e =
      (g.changed pins && e = .call .hotplugEvent).toNat + (g.detections pins).count e +
        g.log.count e := by
  unfold probed
  rw [List.count_append, List.count_append, List.count_reverse]
  congr 2
  cases g.changed pins with
  | false => rfl
  | true => by_cases he : e = .call .hotplugEvent <;> simp [he, eq_comm]

def answered (done : PinSet) (log : List Event) (handlers : Port → Option PulseHandler) :
    Ledger ρ :=
  { g with connectors := g.connectors.map fun c => c.asked (c.isOn done), log, handlers }

theorem answered_empty : g.answered ∅ g.log g.handlers = g := by
  have hasked : (g.connectors.map fun c => c.asked (c.isOn ∅)) = g.connectors := by
    refine (List.map_congr_left fun c _ => ?_).trans g.connectors.map_id
    rw [c.isOn_empty]
    rfl
  unfold answered
  rw [hasked]

variable (log : List Event) (handlers : Port → Option PulseHandler)

theorem detections_answered (done : PinSet) :
    (g.answered done log handlers).detections pins = g.detections pins := by
  unfold detections answered
  rw [List.filter_map, List.map_map]
  congr 1
  · funext c
    simp
  · congr 1
    funext c
    simp

section Disjoint

variable {pins} {done : PinSet} (h : ∀ p, pins.contains p = true → done.contains p = false)

include h

theorem changed_answered :
    (g.answered done log handlers).changed pins = g.changed pins := by
  unfold changed answered
  rw [List.any_map]
  congr 1
  funext c
  rw [Function.comp_apply, Connector.isOn_asked]
  cases hon : c.isOn pins with
  | false => rfl
  | true => rw [Connector.not_isOn_of_disjoint h hon]; rfl

theorem probed_answered :
    (g.answered done log handlers).probed pins =
      g.answered (done ∪ pins) ((g.answered done log handlers).probed pins).log handlers := by
  have hasked : ((g.connectors.map fun c => c.asked (c.isOn done)).map
      fun c => c.asked (c.isOn pins)) =
      g.connectors.map fun c => c.asked (c.isOn (done ∪ pins)) := by
    rw [List.map_map]
    refine List.map_congr_left fun c _ => ?_
    rw [Function.comp_apply, Connector.isOn_asked, Connector.isOn_union]
    cases hon : c.isOn pins with
    | false => rw [Bool.or_false]; rfl
    | true => rw [Connector.not_isOn_of_disjoint h hon]; rfl
  unfold probed answered
  simp only [hasked]

omit [Probe ρ] in
theorem countP_isOn_union (P : Connector ρ → Bool) :
    (g.connectors.countP fun c => P c && c.isOn (done ∪ pins)) =
      (g.connectors.countP fun c => P c && c.isOn done) +
        g.connectors.countP fun c => P c && c.isOn pins := by
  induction g.connectors with
  | nil => rfl
  | cons c cs ih =>
    rw [List.countP_cons, List.countP_cons, List.countP_cons, ih, Connector.isOn_union]
    cases hon : c.isOn pins with
    | false => simp; omega
    | true => simp [Connector.not_isOn_of_disjoint h hon]; omega

end Disjoint

theorem changed_union (done : PinSet) :
    g.changed (done ∪ pins) = (g.changed done || g.changed pins) := by
  unfold changed
  induction g.connectors with
  | nil => rfl
  | cons c cs ih =>
    rw [List.any_cons, List.any_cons, List.any_cons, ih, Connector.isOn_union]
    cases c.isOn done <;> cases c.isOn pins <;> cases c.changes <;> simp

theorem changed_empty : g.changed ∅ = false := by
  simp [changed, Connector.isOn_empty]

end Ledger

namespace Backlog

variable (b : Backlog)

/-- The pins that a run of the generic job has taken and not yet probed. -/
def inHand : PinSet := b.generic.rest?.elim ∅ (·.pins)

/-- The pulses that a run of the digital-port job has taken and not yet delivered. -/
def taken : Option (PortSet × PortSet) := b.digital.rest?.bind (·.pulses)

/-- The pins of refused pulses that the run in flight has not yet left to the generic job. -/
def refused : PinSet := b.digital.rest?.elim ∅ (·.pins)

/-- No recorded pulse waits for its delivery. -/
def delivered : Bool := !b.digital.pending && b.taken.isNone

variable {b} in
theorem delivered_of_taken (hp : b.digital.pending = false) (ht : b.taken = none) :
    b.delivered = true := by
  rw [delivered, hp, ht]
  rfl

variable {b} in
theorem delivered_of_idle (hp : b.digital.pending = false) (hr : b.digital.rest? = none) :
    b.delivered = true :=
  delivered_of_taken hp (by rw [taken, hr]; rfl)

end Backlog

/-- What became of a burst that was recorded in the backlog `b₀`, when the probes on the pins `done`
were called. -/
structure Balanced [Probe ρ] (b₀ : Backlog) (g₀ : Ledger ρ) (done : PinSet) (b : Backlog)
    (g : Ledger ρ) : Prop where

  rest : g = g₀.answered done g.log g.handlers

  handlers : b.delivered = false → g.handlers = g₀.handlers

  ports : b.longPorts = (if b.digital.pending then b₀.longPorts else ∅) ∧
    b.shortPorts = if b.digital.pending then b₀.shortPorts else ∅

  alone : b.digital.pending = true → b.digital.rest? = none

  taken {pulses : PortSet × PortSet} : b.taken = some pulses →
    pulses = (b₀.longPorts, b₀.shortPorts) ∧ b.refused = ∅

  pins (p : Pin) : (b.eventPins.contains p).toNat + (b.inHand.contains p).toNat +
    (b.refused.contains p).toNat + (done.contains p).toNat = (b₀.eventPins.contains p ||
      b.delivered && g₀.refuses b₀.longPorts b₀.shortPorts p).toNat

  pulses (port : Port) (long : Bool) :
    g.log.count (.call (.pulse port long)) = g₀.log.count (.call (.pulse port long)) +
      if b.delivered then (g₀.pulses b₀.longPorts b₀.shortPorts).count (.call (.pulse port long))
      else 0

  detections (name : String) :
    g.log.count (.call (.detect name)) = g₀.log.count (.call (.detect name)) +
      g₀.connectors.countP fun c => c.name = name && c.isOn done

  /-- At most two runs of the generic job, one of them for refused pulses. -/
  runs : g.log.count (.note .encoders) + b.generic.pending.toNat + b.digital.pending.toNat +
    b.digital.rest?.isSome.toNat ≤ g₀.log.count (.note .encoders) + 2

  /-- At most one event for each run that is over. -/
  notices : g.log.count (.call .hotplugEvent) + b.generic.rest?.isSome.toNat +
    g₀.log.count (.note .encoders) ≤
      g₀.log.count (.call .hotplugEvent) + g.log.count (.note .encoders)

  notified : g₀.log.count (.call .hotplugEvent) ≤ g.log.count (.call .hotplugEvent) ∧
    (g₀.log.count (.call .hotplugEvent) < g.log.count (.call .hotplugEvent) ↔
      g₀.changed done = true)

namespace Balanced

variable [Probe ρ] {b₀ b b' : Backlog} {g₀ g g' : Ledger ρ} {done : PinSet}

theorem start (hb : b.Tended) (hd : b.digital.rest? = none) (hr : b.generic.rest? = none)
    (g : Ledger ρ) : Balanced b g ∅ b g where
  rest := g.answered_empty.symm
  handlers _ := rfl
  ports := by
    split
    · exact ⟨rfl, rfl⟩
    · rename_i hp
      exact hb.pulses (Bool.not_eq_true _ ▸ hp)
  alone _ := hd
  taken ht := by
    rw [Backlog.taken, hd] at ht
    cases ht
  pins p := by
    rw [Backlog.inHand, Backlog.refused, Backlog.delivered, Backlog.taken, hd, hr, Option.elim_none,
      Mask.contains_empty]
    cases hp : b.digital.pending with
    | true => simp
    | false =>
      obtain ⟨hlong, hshort⟩ := hb.pulses hp
      rw [hlong, hshort, g.refuses_empty]
      simp
  pulses port long := by
    split
    · rename_i hdelivered
      obtain ⟨hp, -⟩ := Bool.and_eq_true_iff.mp hdelivered
      obtain ⟨hlong, hshort⟩ := hb.pulses (Bool.not_eq_true' _ ▸ hp)
      rw [hlong, hshort, g.pulses_empty]
      rfl
    · rfl
  detections name := by simp [Connector.isOn_empty]
  runs := by
    have hp := b.digital.pending.toNat_le
    have hg := b.generic.pending.toNat_le
    rw [hd, Option.isSome_none, Bool.toNat_false]
    omega
  notices := by
    rw [hr]
    exact le_rfl
  notified := by
    rw [g.changed_empty]
    simp

/-- Where the workers stand, apart from their runs, does not count. -/
theorem of_same (h : Balanced b₀ g₀ done b g) (hlong : b'.longPorts = b.longPorts)
    (hshort : b'.shortPorts = b.shortPorts) (hpins : b'.eventPins = b.eventPins)
    (hdigital : b'.digital.pending = b.digital.pending)
    (hflight : b'.digital.rest? = b.digital.rest?)
    (hgeneric : b'.generic.pending = b.generic.pending)
    (hrest : b'.generic.rest? = b.generic.rest?) : Balanced b₀ g₀ done b' g := by
  have htaken : b'.taken = b.taken := by rw [Backlog.taken, hflight, Backlog.taken]
  have hrefused : b'.refused = b.refused := by rw [Backlog.refused, hflight, Backlog.refused]
  have hdelivered : b'.delivered = b.delivered := by
    rw [Backlog.delivered, hdigital, htaken, Backlog.delivered]
  exact {
    rest := h.rest
    handlers := by
      rw [hdelivered]
      exact h.handlers
    ports := by
      rw [hlong, hshort, hdigital]
      exact h.ports
    alone := by
      rw [hdigital, hflight]
      exact h.alone
    taken := by
      rw [htaken, hrefused]
      exact h.taken
    pins := fun p => by
      rw [hpins, hdelivered, hrefused, Backlog.inHand, hrest]
      exact h.pins p
    pulses := fun port long => by
      rw [hdelivered]
      exact h.pulses port long
    detections := h.detections
    runs := by
      rw [hdigital, hgeneric, hflight]
      exact h.runs
    notices := by
      rw [hrest]
      exact h.notices
    notified := h.notified }

/-- Pulses arrive before the digital run only. -/
theorem not_pending (h : Balanced b₀ g₀ done b g) (hr : b.digital.rest? ≠ none) :
    b.digital.pending = false :=
  Bool.eq_false_iff.mpr fun hp => hr (h.alone hp)

theorem withLog (h : Balanced b₀ g₀ done b g) (log : List Event)
    (handlers : Port → Option PulseHandler) :
    ({ g with log, handlers } : Ledger ρ) = g₀.answered done log handlers := by
  rw [h.rest]
  rfl

/-- No pin in the hands of a run was probed before. -/
theorem disjoint (h : Balanced b₀ g₀ done b g) {rest : Rest} (hr : b.generic.rest? = some rest)
    (p : Pin) (hp : rest.pins.contains p = true) : done.contains p = false := by
  have hpins := h.pins p
  rw [Backlog.inHand, hr, Option.elim_some, hp] at hpins
  have hone := Bool.toNat_le (b₀.eventPins.contains p ||
    b.delivered && g₀.refuses b₀.longPorts b₀.shortPorts p)
  rw [← Bool.not_eq_true]
  intro hdone
  rw [hdone, Bool.toNat_true] at hpins
  omega

/-- The probes on the pins in the hands of a run were not called before. -/
theorem silent (h : Balanced b₀ g₀ done b g) (hs : ∀ c ∈ g₀.connectors, c.Silent) {rest : Rest}
    (hr : b.generic.rest? = some rest) :
    ∀ c ∈ g.connectors, c.isOn rest.pins = true → c.Silent := by
  intro c hc hon
  rw [h.rest] at hc
  obtain ⟨d, hd, rfl⟩ := List.mem_map.mp hc
  rw [Connector.isOn_asked] at hon
  rw [Connector.not_isOn_of_disjoint (h.disjoint hr) hon]
  exact hs d hd

theorem drain (h : Balanced b₀ g₀ done b g) (hp : b.digital.pending = true) {digital : Work Rest}
    (hdigital : digital.pending = false)
    (hrest : digital.rest? = some { pulses := some (b.longPorts, b.shortPorts) }) :
    Balanced b₀ g₀ done { b with longPorts := ∅, shortPorts := ∅, digital } g := by
  obtain ⟨hlong, hshort⟩ := h.ports
  rw [if_pos hp] at hlong hshort
  have htaken : ({ b with longPorts := ∅, shortPorts := ∅, digital } : Backlog).taken =
      some (b₀.longPorts, b₀.shortPorts) := by
    show digital.rest?.bind _ = _
    rw [hrest, hlong, hshort]
    rfl
  have hrefused : ({ b with longPorts := ∅, shortPorts := ∅, digital } : Backlog).refused = ∅ := by
    show digital.rest?.elim _ _ = _
    rw [hrest]
    rfl
  have hdelivered : ({ b with longPorts := ∅, shortPorts := ∅, digital } : Backlog).delivered =
      b.delivered := by
    rw [Backlog.delivered, htaken, Backlog.delivered, hp]
    simp
  have hbefore : b.refused = ∅ := by
    rw [Backlog.refused, h.alone hp]
    rfl
  exact {
    rest := h.rest
    handlers := by
      rw [hdelivered]
      exact h.handlers
    ports := by
      simp only [hdigital, Bool.false_eq_true, if_false]
      exact ⟨trivial, trivial⟩
    alone := fun hpending => by
      rw [hdigital] at hpending
      cases hpending
    taken := fun hpulses => by
      rw [htaken] at hpulses
      exact ⟨(Option.some_inj.mp hpulses).symm, hrefused⟩
    pins := fun p => by
      have hpins := h.pins p
      rw [hdelivered, hrefused]
      rwa [hbefore] at hpins
    pulses := fun port long => by
      rw [hdelivered]
      exact h.pulses port long
    detections := h.detections
    runs := by
      have hruns := h.runs
      rw [hp, h.alone hp, Bool.toNat_true, Option.isSome_none, Bool.toNat_false] at hruns
      show _ + _ + digital.pending.toNat + digital.rest?.isSome.toNat ≤ _
      rw [hdigital, hrest, Bool.toNat_false, Option.isSome_some, Bool.toNat_true]
      omega
    notices := h.notices
    notified := h.notified }

/-- The pulses go to their ports. -/
theorem deliver (h : Balanced b₀ g₀ done b g) {pulses : PortSet × PortSet}
    (ht : b.taken = some pulses) (hd : ∀ p, b₀.eventPins.contains p = true →
      g₀.refuses b₀.longPorts b₀.shortPorts p = false) {refused : PinSet}
    (href : ∀ p, refused.contains p = g₀.refuses b₀.longPorts b₀.shortPorts p)
    {digital : Work Rest} (hdigital : digital.pending = b.digital.pending)
    (hrest : digital.rest? = some { pins := refused }) (handlers : Port → Option PulseHandler) :
    Balanced b₀ g₀ done { b with digital }
      { g with handlers, log := (g₀.pulses b₀.longPorts b₀.shortPorts).reverse ++ g.log } := by
  have hflight : b.digital.rest? ≠ none := by
    intro hnone
    rw [Backlog.taken, hnone] at ht
    cases ht
  have hp : digital.pending = false := hdigital.trans (h.not_pending hflight)
  have hnone : ({ b with digital } : Backlog).taken = none := by
    rw [Backlog.taken, show digital.rest? = _ from hrest]
    rfl
  have hover : ({ b with digital } : Backlog).delivered = true :=
    Backlog.delivered_of_taken hp hnone
  have hbefore : b.delivered = false := by
    rw [Backlog.delivered, ht]
    simp
  exact {
    rest := h.withLog _ _
    handlers := fun hnot => absurd hover (Bool.not_eq_true _ ▸ hnot)
    ports := by
      show _ = (if digital.pending then _ else _) ∧ _ = if digital.pending then _ else _
      rw [hdigital]
      exact h.ports
    alone := fun hpending => by
      rw [show digital.pending = _ from hp] at hpending
      cases hpending
    taken := fun hpulses => by
      rw [hnone] at hpulses
      cases hpulses
    pins := fun p => by
      have hpins := h.pins p
      rw [(h.taken ht).2, hbefore, Mask.contains_empty, Bool.false_and, Bool.or_false] at hpins
      rw [hover, Backlog.refused, show digital.rest? = _ from hrest, Option.elim_some, href,
        Bool.true_and]
      show (b.eventPins.contains p).toNat + (b.inHand.contains p).toNat + _ + _ = _
      cases hr : g₀.refuses b₀.longPorts b₀.shortPorts p with
      | false => rw [Bool.or_false, ← hpins]
      | true =>
        have hout : b₀.eventPins.contains p = false := by
          rw [← Bool.not_eq_true]
          intro he
          rw [hd p he] at hr
          cases hr
        rw [hout, Bool.toNat_false] at hpins
        rw [Bool.or_true, Bool.toNat_true]
        omega
    pulses := fun port long => by
      have hpulses := h.pulses port long
      rw [hbefore, if_neg Bool.false_ne_true] at hpulses
      rw [hover, if_pos rfl, List.count_append, List.count_reverse, hpulses]
      omega
    detections := fun name => by
      rw [g₀.count_pulses_append (e := .call (.detect name)) _ _ nofun]
      exact h.detections name
    runs := by
      have hruns := h.runs
      rw [g₀.count_pulses_append (e := .note .encoders) _ _ nofun]
      show _ + _ + digital.pending.toNat + digital.rest?.isSome.toNat ≤ _
      rw [Option.isSome_iff_ne_none.mpr hflight] at hruns
      rw [hdigital, hrest]
      exact hruns
    notices := by
      rw [g₀.count_pulses_append (e := .call .hotplugEvent) _ _ nofun,
        g₀.count_pulses_append (e := .note .encoders) _ _ nofun]
      exact h.notices
    notified := by
      rw [g₀.count_pulses_append (e := .call .hotplugEvent) _ _ nofun]
      exact h.notified }

theorem fallBack (h : Balanced b₀ g₀ done b g) {rest : Rest} (hr : b.digital.rest? = some rest)
    (ht : rest.pulses = none) {digital generic : Work Rest}
    (hdigital : digital.pending = b.digital.pending) (hrest : digital.rest? = none)
    (hgeneric : generic.rest? = b.generic.rest?) :
    Balanced b₀ g₀ done { b with eventPins := b.eventPins ∪ rest.pins, digital, generic } g := by
  have hp : b.digital.pending = false := h.not_pending (by rw [hr]; exact Option.some_ne_none rest)
  have hbefore : b.delivered = true :=
    Backlog.delivered_of_taken hp (by rw [Backlog.taken, hr, Option.bind_some, ht])
  have hnone : ({ b with eventPins := b.eventPins ∪ rest.pins, digital, generic } :
      Backlog).taken = none := by
    rw [Backlog.taken, show digital.rest? = _ from hrest]
    rfl
  have hover : ({ b with eventPins := b.eventPins ∪ rest.pins, digital, generic } :
      Backlog).delivered = true := Backlog.delivered_of_taken (hdigital.trans hp) hnone
  exact {
    rest := h.rest
    handlers := fun hnot => absurd hover (Bool.not_eq_true _ ▸ hnot)
    ports := by
      show _ = (if digital.pending then _ else _) ∧ _ = if digital.pending then _ else _
      rw [hdigital]
      exact h.ports
    alone := fun _ => hrest
    taken := fun hpulses => by
      rw [hnone] at hpulses
      cases hpulses
    pins := fun p => by
      have hpins := h.pins p
      have hone := Bool.toNat_le (b₀.eventPins.contains p ||
        b.delivered && g₀.refuses b₀.longPorts b₀.shortPorts p)
      rw [Backlog.refused, hr, Option.elim_some] at hpins
      rw [hover, Backlog.refused, show digital.rest? = _ from hrest, Option.elim_none,
        Mask.contains_empty, Backlog.inHand, show generic.rest? = _ from hgeneric,
        Mask.contains_union, ← hbefore, ← hpins]
      show _ + (b.inHand.contains p).toNat + _ + _ = _
      cases he : b.eventPins.contains p with
      | false =>
        rw [Bool.false_or, Bool.toNat_false]
        omega
      | true =>
        rw [he, Bool.toNat_true] at hpins
        rw [Bool.true_or, Bool.toNat_true, Bool.toNat_false]
        omega
    pulses := fun port long => by
      have hpulses := h.pulses port long
      rw [hbefore] at hpulses
      rw [hover]
      exact hpulses
    detections := h.detections
    runs := by
      have hruns := h.runs
      have hpending := generic.pending.toNat_le
      rw [hr, hp, Option.isSome_some, Bool.toNat_true, Bool.toNat_false] at hruns
      show _ + generic.pending.toNat + digital.pending.toNat + digital.rest?.isSome.toNat ≤ _
      rw [hdigital, hp, hrest, Option.isSome_none, Bool.toNat_false]
      omega
    notices := by
      rw [show generic.rest? = _ from hgeneric]
      exact h.notices
    notified := h.notified }

theorem take (h : Balanced b₀ g₀ done b g) (hp : b.generic.pending = true)
    (hr : b.generic.rest? = none) {generic : Work Rest} (hgeneric : generic.pending = false)
    (hrest : generic.rest? = some { pins := b.eventPins }) (reenable : DelayedWork Rest)
    (mode : Lock ModeParty) :
    Balanced b₀ g₀ done { b with eventPins := ∅, generic, reenable, mode }
      { g with log := .note .encoders :: g.log } where
  rest := h.withLog _ _
  handlers := h.handlers
  ports := h.ports
  alone := h.alone
  taken := h.taken
  pins p := by
    have hpins := h.pins p
    rw [Backlog.inHand, hr, Option.elim_none, Mask.contains_empty] at hpins
    rw [Backlog.inHand, hrest, Option.elim_some, Mask.contains_empty]
    show _ + _ + (b.refused.contains p).toNat + _ = (_ || b.delivered && _).toNat
    rw [← hpins]
    simp
  pulses port long := h.pulses port long
  detections name := h.detections name
  runs := by
    have hruns := h.runs
    rw [hp, Bool.toNat_true] at hruns
    rw [List.count_cons_self]
    show _ + generic.pending.toNat + _ + _ ≤ _
    rw [hgeneric, Bool.toNat_false]
    omega
  notices := by
    have hnotices := h.notices
    rw [hr, Option.isSome_none, Bool.toNat_false] at hnotices
    rw [List.count_cons_self, hrest, Option.isSome_some, Bool.toNat_true]
    show g.log.count (.call .hotplugEvent) + 1 + _ ≤ _
    omega
  notified := h.notified

section Probes

variable (h : Balanced b₀ g₀ done b g) {taken : Rest} (hr : b.generic.rest? = some taken)

include h hr

theorem count_log (e : Event) :
    (g.probed taken.pins).log.count e = (g₀.changed taken.pins && e = .call .hotplugEvent).toNat +
      (g₀.detections taken.pins).count e + g.log.count e := by
  have hchanged : g.changed taken.pins = g₀.changed taken.pins := by
    rw [h.rest, Ledger.changed_answered _ _ _ (h.disjoint hr)]
  rw [Ledger.count_log_probed, hchanged]
  congr 3
  rw [h.rest, Ledger.detections_answered]

theorem count_log_of_ne {e : Event} (he : ∀ name, e ≠ .call (.detect name))
    (hn : e ≠ .call .hotplugEvent) : (g.probed taken.pins).log.count e = g.log.count e := by
  rw [h.count_log hr, g₀.count_detections_of_ne taken.pins he, decide_eq_false hn, Bool.and_false,
    Bool.toNat_false, Nat.zero_add]

theorem count_notices : (g.probed taken.pins).log.count (.call .hotplugEvent) =
    (g₀.changed taken.pins).toNat + g.log.count (.call .hotplugEvent) := by
  rw [h.count_log hr, g₀.count_detections_of_ne (e := .call .hotplugEvent) taken.pins nofun,
    decide_eq_true rfl, Bool.and_true, Nat.add_zero]

theorem probe (generic : Work Rest) (hgeneric : generic.pending = b.generic.pending)
    (hrest : generic.rest? = none) (mode : Lock ModeParty) :
    Balanced b₀ g₀ (done ∪ taken.pins) { b with generic, mode } (g.probed taken.pins) where
  rest := by
    have hprobed := g₀.probed_answered g.log g.handlers (h.disjoint hr)
    rwa [← h.rest] at hprobed
  handlers := h.handlers
  ports := h.ports
  alone := h.alone
  taken := h.taken
  pins p := by
    have hpins := h.pins p
    rw [Backlog.inHand, hr, Option.elim_some] at hpins
    rw [Backlog.inHand, hrest, Option.elim_none, Mask.contains_empty, Mask.contains_union]
    show _ + _ + (b.refused.contains p).toNat + _ = (_ || b.delivered && _).toNat
    rw [← hpins]
    cases hp : taken.pins.contains p with
    | false => simp
    | true =>
      simp only [h.disjoint hr p hp, Bool.toNat_true, Bool.toNat_false, Bool.false_or]
      omega
  pulses port long := by
    rw [h.count_log_of_ne hr (e := .call (.pulse port long)) nofun nofun]
    exact h.pulses port long
  detections name := by
    rw [h.count_log hr, h.detections, Ledger.count_detections,
      g₀.countP_isOn_union (h.disjoint hr)]
    simp only [Event.call.injEq, reduceCtorEq, decide_false, Bool.and_false, Bool.toNat_false]
    omega
  runs := by
    rw [h.count_log_of_ne hr (e := .note .encoders) nofun nofun]
    show _ + generic.pending.toNat + _ + _ ≤ _
    rw [hgeneric]
    exact h.runs
  notices := by
    have hnotices := h.notices
    have hone := (g₀.changed taken.pins).toNat_le
    rw [hr, Option.isSome_some, Bool.toNat_true] at hnotices
    rw [h.count_log_of_ne hr (e := .note .encoders) nofun nofun, h.count_notices hr, hrest,
      Option.isSome_none, Bool.toNat_false]
    omega
  notified := by
    obtain ⟨hle, hlt⟩ := h.notified
    rw [h.count_notices hr, g₀.changed_union, Bool.or_eq_true, ← hlt]
    cases g₀.changed taken.pins with
    | false => simp [hle]
    | true =>
      rw [Bool.toNat_true]
      exact ⟨by omega, fun _ => .inr rfl, fun _ => by omega⟩

end Probes

section Strides

variable {now : Nat} {j : Job}
  (hd : ∀ p, b₀.eventPins.contains p = true → g₀.refuses b₀.longPorts b₀.shortPorts p = false)

include hd

/-- No stride loses a pulse or a pin, or serves it twice. -/
theorem stride (h : Balanced b₀ g₀ done b g) (hs : Stride now b g j b' g') :
    ∃ done', Balanced b₀ g₀ done' b' g' := by
  cases hs with
  | digitalLooks seek idle =>
    exact ⟨done,
      h.of_same rfl rfl rfl (Work.pending_looking seek) (Work.rest?_of_seek seek) rfl rfl⟩
  | drains seek =>
    obtain ⟨hw, hp, rfl⟩ := Work.seek_claimed seek
    exact ⟨done, h.drain hp rfl rfl⟩
  | @delivers rest long short refused handlers running taken refused_iff =>
    have ht : b.taken = some (long, short) := by
      rw [Backlog.taken, Lane.rest?_eq_some_iff.mpr running, Option.bind_some, taken]
    have hbefore : b.delivered = false := by
      rw [Backlog.delivered, ht]
      simp
    have hsame := h.rest
    rw [h.handlers hbefore] at hsame
    have hrefuses : g.refuses long short = g₀.refuses long short := by
      rw [hsame]
      rfl
    have hpulses : g.pulses long short = g₀.pulses long short := by
      rw [hsame]
      rfl
    obtain ⟨rfl, rfl⟩ := Prod.ext_iff.mp (h.taken ht).1
    refine ⟨done, ?_⟩
    rw [hpulses]
    refine h.deliver ht hd (fun p => ?_)
      (show { b.digital with toLane := b.digital.toLane.begin { pins := refused } }.pending = _
        from rfl) rfl handlers
    rw [Bool.eq_iff_iff, refused_iff, ← Ledger.refuses_iff, hrefuses]
  | @fallsBack rest running settled =>
    refine ⟨done, h.fallBack (Lane.rest?_eq_some_iff.mpr running) settled rfl rfl ?_⟩
    split
    · rfl
    · exact b.generic.rest?_queue
  | genericLooks seek idle =>
    exact ⟨done,
      h.of_same rfl rfl rfl rfl rfl (Work.pending_looking seek) (Work.rest?_of_seek seek)⟩
  | takes seek armed =>
    obtain ⟨hw, hp, rfl⟩ := Work.seek_claimed seek
    have hr : b.generic.rest? = none := by
      rw [Lane.rest?, hw]
    exact ⟨done, h.take hp hr rfl rfl _ _⟩
  | waits running held => exact ⟨done, h⟩
  | @probes rest running held =>
    have hr : b.generic.rest? = some rest := Lane.rest?_eq_some_iff.mpr running
    exact ⟨done ∪ rest.pins,
      h.probe hr { b.generic with toLane := b.generic.toLane.finish } rfl rfl _⟩
  | pollInitLooks seek => exact ⟨done, h.of_same rfl rfl rfl rfl rfl rfl rfl⟩
  | reenableLooks seek => exact ⟨done, h.of_same rfl rfl rfl rfl rfl rfl rfl⟩
  | recovers seek => exact ⟨done, h.of_same rfl rfl rfl rfl rfl rfl rfl⟩

end Strides

end Balanced

end HotplugDetect
