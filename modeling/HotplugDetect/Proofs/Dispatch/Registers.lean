import HotplugDetect.Controller.Script
import HotplugDetect.Proofs.Dispatch.Independence

/-! # What raw register values tell

Of the register of fired pins only the bits of pins are read, and of the register of long pulses
only the bits of fired pins with a digital port. Two interrupts that agree there cannot be told
apart, up to the message about unknown bits. Nothing that an interrupt does depends on earlier
messages.
-/

namespace HotplugDetect

variable {ρ : Type}

namespace Controller

section Retelling

/-- The same controller with another past of calls and messages. -/
def retold (s : Controller ρ) (ts : List Event) : Controller ρ := { s with trace := ts }

/-- Whatever happened before, what comes out is the same, and what happens is put in front. -/
def Forgets {β : Type} (s : Controller ρ) (f : Controller ρ → Controller ρ × β) : Prop :=
  ∃ t b es, ∀ ts, f (s.retold ts) = (retold t (es ++ ts), b)

variable (s : Controller ρ)

theorem detectStorm_forgets (p : Pin) (long : Bool) (d : Demand) :
    s.Forgets (·.detectStorm p long d) := by
  rcases ho : s.table.observe p long s.now with ⟨table, _ | count | _⟩
  · refine ⟨{ s with table }, d, [], fun ts => ?_⟩
    simp [detectStorm, retold, ho]
  · refine ⟨{ s with table }, d, [.note (.counted p count)], fun ts => ?_⟩
    simp [detectStorm, retold, ho, note, emit]
  · refine ⟨{ s with table, eventPins := s.eventPins.erase p },
      { d with storm := true, generic := true }, [.note (.storm p)], fun ts => ?_⟩
    simp [detectStorm, retold, ho, note, emit]

theorem judge_forgets (p : Pin) (digital long : Bool) (d : Demand) :
    s.Forgets (·.judge p digital long d) := by
  cases hstate : s.table.state p with
  | disabled =>
    refine ⟨{ s with warned := s.warned || !s.caps.gmchDisplay }, d,
      [.note (.disabledPin p (s.caps.gmchDisplay || s.warned))], fun ts => ?_⟩
    simp [judge, retold, hstate, reportDisabled, note, emit]
  | autoDisabled =>
    refine ⟨s, d, [], fun ts => ?_⟩
    simp [judge, retold, hstate]
  | enabled =>
    cases digital with
    | true =>
      obtain ⟨t, d', es, hdetect⟩ := s.detectStorm_forgets p long d
      refine ⟨t, d', es, fun ts => ?_⟩
      rw [← hdetect ts]
      simp [judge, retold, hstate]
    | false =>
      obtain ⟨t, d', es, hdetect⟩ := detectStorm_forgets
        { s with eventPins := s.eventPins.insert p } p long { d with generic := true }
      refine ⟨t, d', es, fun ts => ?_⟩
      rw [← hdetect ts]
      simp [judge, retold, hstate]

theorem receive_forgets (long : PinSet) (p : Pin) (d : Demand) :
    s.Forgets (·.receive long p d) := by
  cases hport : s.digitalPortForPin p with
  | none =>
    obtain ⟨t, d', es, hjudge⟩ := s.judge_forgets p false true d
    refine ⟨t, d', es, fun ts => ?_⟩
    rw [← hjudge ts]
    have hport' : (s.retold ts).digitalPortForPin p = none := hport
    simp [receive, hport']
  | some port =>
    obtain ⟨t, d', es, hjudge⟩ := (s.keepPulse port (long.contains p)).judge_forgets p true
      (long.contains p) { d with digital := true }
    refine ⟨t, d', es ++ [.note (.digitalPulse port (long.contains p))], fun ts => ?_⟩
    rw [List.append_assoc, ← hjudge]
    have hport' : (s.retold ts).digitalPortForPin p = some port := hport
    simp only [receive, hport']
    cases long.contains p <;> rfl

theorem receiveAll_forgets (long : PinSet) (d : Demand) (ps : List Pin) :
    s.Forgets (·.receiveAll long d ps) := by
  induction ps generalizing s d with
  | nil => exact ⟨s, d, [], fun ts => rfl⟩
  | cons p ps ih =>
    obtain ⟨t, d', es, hfirst⟩ := s.receive_forgets long p d
    obtain ⟨t', d'', es', hrest⟩ := ih t d'
    refine ⟨t', d'', es' ++ es, fun ts => ?_⟩
    rw [List.append_assoc, ← hrest]
    simp only [receiveAll, hfirst ts]

theorem rouse_retold (j : Job) (ts : List Event) :
    (s.retold ts).rouse j = (s.rouse j).retold ts := by
  have hcan : (s.retold ts).canMove j = s.canMove j := by cases j <;> rfl
  have hready : (s.retold ts).ready = s.ready := rfl
  simp only [rouse, hcan, hready]
  split <;> rfl

theorem setupIrqs_retold : ∃ es, ∀ ts, (s.retold ts).setupIrqs = s.retold (es ++ ts) := by
  by_cases h : s.irqsEnabled = true
  · exact ⟨[.call (.irqSetup (s.table.pinsIn .enabled) (s.table.pinsIn .disabled)
      (s.table.pinsIn .autoDisabled))], fun ts => if_pos h⟩
  · exact ⟨[], fun ts => if_neg h⟩

theorem answer_retold (d : Demand) :
    ∃ t es, ∀ ts, (s.retold ts).answer d = retold t (es ++ ts) := by
  obtain ⟨es, hsetup⟩ := s.setupIrqs_retold
  have hdigital (s : Controller ρ) (ts : List Event) :
      (s.retold ts).queueDigital = s.queueDigital.retold ts :=
    rouse_retold { s with digital := s.digital.queue.1 } .digital ts
  have hgeneric (s : Controller ρ) (ts : List Event) :
      (s.retold ts).queueGeneric = s.queueGeneric.retold ts :=
    rouse_retold { s with generic := s.generic.queue.1 } .generic ts
  refine ⟨s.answer { d with storm := false }, if d.storm then es else [], fun ts => ?_⟩
  obtain ⟨storm, digital, generic⟩ := d
  cases storm <;> cases digital <;> cases generic <;>
    simp [answer, hsetup, hdigital, hgeneric]

/-- An interrupt does not look back. -/
theorem interrupt_retold (i : Interrupt) :
    ∃ t es, ∀ ts, (s.retold ts).interrupt i = retold t (es ++ ts) := by
  obtain ⟨t, d, es, hreceive⟩ := s.receiveAll_forgets i.long {} i.fired.toList
  obtain ⟨t', es', hanswer⟩ := t.answer_retold d
  refine ⟨t', es' ++ es, fun ts => ?_⟩
  rw [List.append_assoc, ← hanswer]
  simp only [interrupt, hreceive ts]

end Retelling

section Registers

variable (s : Controller ρ)

/-- What an interrupt reads of the long mask. -/
theorem receiveAll_congr {long long' : PinSet} {ps : List Pin} (d : Demand)
    (h : ∀ p ∈ ps, (s.digitalPortForPin p).isSome → long.contains p = long'.contains p) :
    s.receiveAll long d ps = s.receiveAll long' d ps := by
  induction ps generalizing s d with
  | nil => rfl
  | cons p ps ih =>
    have hfirst : s.receive long p d = s.receive long' p d := by
      unfold receive
      split
      · rename_i port hport
        rw [h p List.mem_cons_self (by rw [hport]; rfl)]
      · rfl
    simp only [receiveAll, hfirst]
    refine ih _ _ fun q hq hport => h q (List.mem_cons_of_mem p hq) ?_
    obtain ⟨ts, hp⟩ := s.receive_eq long' p d
    rwa [hp] at hport

/-- The message about the bits that stand for no pin. -/
def strayNotes (pinMask longMask : UInt32) : List Event :=
  if Mask.unknownBits Pin (pinMask ||| longMask) = 0 then []
  else [.note (.unknownBits (Mask.unknownBits Pin (pinMask ||| longMask)))]

theorem raw_eq (pinMask longMask : UInt32) :
    s.raw pinMask longMask = (s.retold (strayNotes pinMask longMask ++ s.trace)).interrupt
      ⟨.ofBits pinMask, .ofBits longMask⟩ := by
  simp only [raw, strayNotes]
  split <;> rfl

theorem calls_stray (pinMask longMask : UInt32) (es ts : List Event) (t : Controller ρ) :
    (t.retold (es ++ (strayNotes pinMask longMask ++ ts))).calls = (t.retold (es ++ ts)).calls := by
  simp only [calls, retold, strayNotes, List.filterMap_append]
  split <;> rfl

theorem toList_ofBits_congr {pins pins' : UInt32}
    (h : ∀ p : Pin, pins.toNat.testBit p.index = pins'.toNat.testBit p.index) :
    (Mask.ofBits pins : PinSet).toList = (Mask.ofBits pins' : PinSet).toList := by
  refine List.filter_congr fun p _ => ?_
  rw [Mask.contains_ofBits, Mask.contains_ofBits]
  exact h p

theorem interrupt_congr {pins pins' long long' : UInt32}
    (hpins : ∀ p : Pin, pins.toNat.testBit p.index = pins'.toNat.testBit p.index)
    (hlong : ∀ p : Pin, pins.toNat.testBit p.index → (s.digitalPortForPin p).isSome →
      long.toNat.testBit p.index = long'.toNat.testBit p.index) :
    s.interrupt ⟨.ofBits pins, .ofBits long⟩ = s.interrupt ⟨.ofBits pins', .ofBits long'⟩ := by
  unfold interrupt
  simp only
  have hagree : ∀ p ∈ (Mask.ofBits pins : PinSet).toList, (s.digitalPortForPin p).isSome →
      (Mask.ofBits long : PinSet).contains p = (Mask.ofBits long' : PinSet).contains p := by
    intro p hp hport
    rw [Mask.mem_toList, Mask.contains_ofBits] at hp
    rw [Mask.contains_ofBits, Mask.contains_ofBits]
    exact hlong p hp hport
  rw [← toList_ofBits_congr hpins, s.receiveAll_congr _ hagree]

end Registers

/-- Two raw interrupts at one instant cannot be told apart when their registers agree on the bits of
pins, and on the long bits of fired pins with a digital port: only the message about unknown bits
may differ. Without a known bit there is no effect at all. -/
theorem raw_agrees_on_known_bits (s : Controller ρ) {pins pins' long long' : UInt32}
    (hpins : ∀ p : Pin, pins.toNat.testBit p.index = pins'.toNat.testBit p.index)
    (hlong : ∀ p : Pin, pins.toNat.testBit p.index → (s.digitalPortForPin p).isSome →
      long.toNat.testBit p.index = long'.toNat.testBit p.index) :
    (∃ (t : Controller ρ) (es : List Event),
      s.raw pins long = { t with trace := es ++ (strayNotes pins long ++ s.trace) } ∧
      s.raw pins' long' = { t with trace := es ++ (strayNotes pins' long' ++ s.trace) }) ∧
    (s.raw pins' long').calls = (s.raw pins long).calls ∧
    ((∀ p : Pin, pins.toNat.testBit p.index = false) →
      s.raw pins long = { s with trace := strayNotes pins long ++ s.trace } ∧
      (s.raw pins long).calls = s.calls) := by
  obtain ⟨t, es, hinterrupt⟩ := s.interrupt_retold ⟨.ofBits pins, .ofBits long⟩
  have hagree (ts : List Event) := interrupt_congr (s.retold ts) hpins hlong
  have hone : s.raw pins long = t.retold (es ++ (strayNotes pins long ++ s.trace)) := by
    rw [raw_eq, hinterrupt]
  have hother : s.raw pins' long' = t.retold (es ++ (strayNotes pins' long' ++ s.trace)) := by
    rw [raw_eq, ← hagree, hinterrupt]
  refine ⟨⟨t, es, hone, hother⟩, ?_, fun hnone => ?_⟩
  · rw [hone, hother, calls_stray, calls_stray]
  · have hempty : (Mask.ofBits pins : PinSet).toList = [] := by
      refine List.filter_eq_nil_iff.mpr fun p _ => ?_
      rw [Mask.contains_ofBits]
      exact Bool.eq_false_iff.mp (hnone p)
    have hquiet : s.raw pins long = s.retold (strayNotes pins long ++ s.trace) := by
      rw [raw_eq]
      simp only [interrupt, hempty]
      rfl
    refine ⟨hquiet, ?_⟩
    rw [hquiet]
    exact calls_stray pins long [] s.trace s

/-- A long pulse of a digital port comes with a pulse of another pin. Unknown bits, and long bits of
the other pin and of a pin that did not fire, make no difference but in the messages. -/
theorem raw_agrees_on_known_bits_despite_strays :
    let s : Controller Script := ofSettings { storm := { threshold := 5 } } []
      fun port => if port = .B then some ⟨[], fun _ => true⟩ else none
    let one := s.raw 0x22 0x20
    let other := s.raw 0x80000022 0x40000062
    (∃ (t : Controller Script) (es : List Event),
      one = { t with trace := es ++ (strayNotes 0x22 0x20 ++ s.trace) } ∧
      other = { t with trace := es ++ (strayNotes 0x80000022 0x40000062 ++ s.trace) }) ∧
    other.calls = one.calls ∧ one.calls.length = 1 ∧ one.longPorts.toList = [.B] ∧
    strayNotes 0x22 0x20 = [] ∧
    strayNotes 0x80000022 0x40000062 = [.note (.unknownBits 0xC0000000)] := by
  intro s one other
  obtain ⟨hsame, hcalls, -⟩ := @raw_agrees_on_known_bits _ s 0x22 0x80000022 0x20 0x40000062
    (by intro p; cases p <;> decide) (by intro p; cases p <;> decide)
  exact ⟨hsame, hcalls, by decide +kernel, by decide +kernel, by decide, by decide⟩

end Controller

end HotplugDetect
