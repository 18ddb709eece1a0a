import HotplugDetect.Proofs.Dispatch.Ledger
import HotplugDetect.Proofs.Lifecycle

/-! # What a burst records

Every pulse of a registered port is recorded for its port, and a pin without a port is recorded if
it fired while it was enabled, unless it stormed.
-/

namespace HotplugDetect

variable {ρ : Type}

namespace PinTable

theorem state_observe {t : PinTable} {p : Pin} (h : t.state p = .enabled) (long : Bool)
    (now : Nat) : (t.observe p long now).2 = .storm ↔
      (t.observe p long now).1.state p = .autoDisabled := by
  have hget : (t.observe p long now).1.state p =
      ((t.get p).observe t.config long now).1.state := by
    rw [state, get_observe, if_pos rfl]
  have hwindow : ((t.get p).openWindow t.config.period now).state = .enabled := by
    unfold PinStats.openWindow
    split <;> exact h
  rw [hget]
  show ((t.get p).observe t.config long now).2 = _ ↔ _
  unfold PinStats.observe
  split
  · simp only
    split
    · exact ⟨fun _ => rfl, fun _ => rfl⟩
    · exact ⟨nofun, fun hs => absurd (hwindow.symm.trans hs) (by decide)⟩
  · exact ⟨nofun, fun hs => absurd (h.symm.trans hs) (by decide)⟩

end PinTable

namespace Controller

section Judging

theorem state_of_watch {s : Controller ρ} {w : Watch} (h : s.watch = w) (p : Pin) :
    s.table.state p = (w.stats p).state :=
  congrArg (fun w => (w.stats p).state) h

theorem eventPins_judge_of_ne (s : Controller ρ) {p q : Pin} (h : q ≠ p) (digital long : Bool)
    (d : Demand) :
    (s.judge p digital long d).1.eventPins.contains q = s.eventPins.contains q := by
  have hdetect (s : Controller ρ) (d : Demand) :
      (s.detectStorm p long d).1.eventPins.contains q = s.eventPins.contains q := by
    unfold detectStorm
    split
    · show (s.eventPins.erase p).contains q = _
      rw [Mask.contains_erase, decide_eq_true h.symm, Bool.and_true]
    · rfl
    · rfl
  unfold judge
  split
  · rfl
  · rfl
  · split
    · exact hdetect s d
    · rw [hdetect, Mask.contains_insert, decide_eq_false h.symm, Bool.or_false]

theorem eventPins_detectStorm (s : Controller ρ) {p : Pin} (h : s.table.state p = .enabled)
    (long : Bool) (d : Demand) :
    (s.detectStorm p long d).1.eventPins.contains p =
      (s.eventPins.contains p &&
        decide ((s.detectStorm p long d).1.table.state p ≠ .autoDisabled)) := by
  have hstorm := PinTable.state_observe h long s.now
  unfold detectStorm
  split
  · rename_i table ho
    rw [ho] at hstorm
    show (s.eventPins.erase p).contains p = (_ && decide (table.state p ≠ _))
    rw [Mask.contains_erase, hstorm.mp rfl]
    simp
  · rename_i table count ho
    rw [ho] at hstorm
    have hcalm : table.state p ≠ .autoDisabled := fun hs => nomatch hstorm.mpr hs
    show _ = (_ && decide (table.state p ≠ _))
    rw [decide_eq_true hcalm, Bool.and_true]
    rfl
  · rename_i table ho
    rw [ho] at hstorm
    have hcalm : table.state p ≠ .autoDisabled := fun hs => nomatch hstorm.mpr hs
    show _ = (_ && decide (table.state p ≠ _))
    rw [decide_eq_true hcalm, Bool.and_true]

theorem eventPins_judge (s : Controller ρ) (p : Pin) (long : Bool) (d : Demand) :
    (s.judge p false long d).1.eventPins.contains p =
      if s.table.state p = .enabled then
        decide ((s.judge p false long d).1.table.state p ≠ .autoDisabled)
      else s.eventPins.contains p := by
  unfold judge
  split
  · rename_i h
    rw [h]
    rfl
  · rename_i h
    rw [h]
    rfl
  · rename_i h
    rw [if_pos h]
    simp only [Bool.false_eq_true, if_false]
    have hrecorded :=
      eventPins_detectStorm ({ s with eventPins := s.eventPins.insert p } : Controller ρ) h long
        { d with generic := true }
    refine hrecorded.trans ?_
    show ((s.eventPins.insert p).contains p && _) = _
    rw [Mask.contains_insert, decide_eq_true rfl, Bool.or_true, Bool.true_and]

theorem eventPins_judge_digital (s : Controller ρ) (p : Pin) (long : Bool) (d : Demand)
    (h : s.eventPins.contains p = false) :
    (s.judge p true long d).1.eventPins.contains p = false := by
  unfold judge
  split
  · exact h
  · exact h
  · rename_i hs
    simp only [if_true]
    rw [s.eventPins_detectStorm hs, h, Bool.false_and]

end Judging

section Receiving

theorem eventPins_keepPulse (s : Controller ρ) (port : Port) (long : Bool) :
    (s.keepPulse port long).eventPins = s.eventPins := by
  unfold keepPulse
  split <;> rfl

theorem digitalPortForPin_receive (s : Controller ρ) (long : PinSet) (p : Pin) (d : Demand) :
    (s.receive long p d).1.digitalPortForPin = s.digitalPortForPin :=
  congrArg Ledger.portOf (s.ledger_receive long p d)

theorem eventPins_receive_of_ne (s : Controller ρ) (long : PinSet) {p q : Pin} (h : q ≠ p)
    (d : Demand) : (s.receive long p d).1.eventPins.contains q = s.eventPins.contains q := by
  unfold receive
  split
  · rw [eventPins_judge_of_ne _ h, eventPins_keepPulse]
    rfl
  · exact s.eventPins_judge_of_ne h false true d

theorem eventPins_receive (s : Controller ρ) (long : PinSet) {p : Pin}
    (hp : s.digitalPortForPin p = none) (d : Demand) :
    (s.receive long p d).1.eventPins.contains p =
      if s.table.state p = .enabled then
        decide ((s.receive long p d).1.table.state p ≠ .autoDisabled)
      else s.eventPins.contains p := by
  unfold receive
  rw [hp]
  exact s.eventPins_judge p true d

theorem eventPins_receive_digital (s : Controller ρ) (long : PinSet) {p : Pin}
    (hp : s.digitalPortForPin p ≠ none) (d : Demand) (h : s.eventPins.contains p = false) :
    (s.receive long p d).1.eventPins.contains p = false := by
  unfold receive
  split
  · refine eventPins_judge_digital _ p _ _ ?_
    rw [eventPins_keepPulse]
    exact h
  · rename_i hnone
    exact absurd hnone hp

theorem state_receive_of_ne (s : Controller ρ) (i : Interrupt) {p q : Pin} (h : q ≠ p)
    (d : Demand) : (s.receive i.long p d).1.table.state q = s.table.state q := by
  rw [state_of_watch (s.watch_receive i p d) q]
  show (Function.update s.watch.stats p _ q).state = _
  rw [Function.update_of_ne h]
  rfl

theorem state_receiveAll_of_not_mem (i : Interrupt) {ps : List Pin} (hn : ps.Nodup)
    (s : Controller ρ) (d : Demand) {q : Pin} (h : q ∉ ps) :
    (s.receiveAll i.long d ps).1.table.state q = s.table.state q := by
  rw [state_of_watch (watch_receiveAll i ps hn s d) q]
  show (if q ∈ ps then _ else s.watch.stats q).state = _
  rw [if_neg h]
  rfl

theorem eventPins_receiveAll (i : Interrupt) {ps : List Pin} (hn : ps.Nodup) (s : Controller ρ)
    (d : Demand) {q : Pin} (hq : s.digitalPortForPin q = none) :
    (s.receiveAll i.long d ps).1.eventPins.contains q =
      if q ∈ ps ∧ s.table.state q = .enabled then
        decide ((s.receiveAll i.long d ps).1.table.state q ≠ .autoDisabled)
      else s.eventPins.contains q := by
  induction ps generalizing s d with
  | nil => simp [receiveAll]
  | cons p ps ih =>
    obtain ⟨hp, hps⟩ := List.nodup_cons.mp hn
    have hnext : (s.receive i.long p d).1.digitalPortForPin q = none := by
      rw [digitalPortForPin_receive, hq]
    unfold receiveAll
    simp only
    rw [ih hps _ _ hnext]
    by_cases h : q = p
    · subst h
      rw [if_neg fun hmem => hp hmem.1, state_receiveAll_of_not_mem i hps _ _ hp,
        s.eventPins_receive i.long hq d]
      simp
    · rw [s.state_receive_of_ne i h d, s.eventPins_receive_of_ne i.long h d]
      simp [h]

theorem eventPins_receiveAll_digital (long : PinSet) (ps : List Pin) (s : Controller ρ)
    (d : Demand) {q : Pin} (hq : s.digitalPortForPin q ≠ none)
    (h : s.eventPins.contains q = false) :
    (s.receiveAll long d ps).1.eventPins.contains q = false := by
  induction ps generalizing s d with
  | nil => exact h
  | cons p ps ih =>
    have hnext : (s.receive long p d).1.digitalPortForPin q ≠ none := by
      rwa [digitalPortForPin_receive]
    have hleft : (s.receive long p d).1.eventPins.contains q = false := by
      by_cases hqp : q = p
      · subst hqp
        exact s.eventPins_receive_digital long hq d h
      · rw [s.eventPins_receive_of_ne long hqp d, h]
    exact ih _ _ hnext hleft

end Receiving

section Ports

variable (s : Controller ρ)

theorem ports_judge (p : Pin) (digital long : Bool) (d : Demand) :
    (s.judge p digital long d).1.longPorts = s.longPorts ∧
      (s.judge p digital long d).1.shortPorts = s.shortPorts := by
  have hdetect (s : Controller ρ) (d : Demand) :
      (s.detectStorm p long d).1.longPorts = s.longPorts ∧
        (s.detectStorm p long d).1.shortPorts = s.shortPorts := by
    unfold detectStorm
    split <;> exact ⟨rfl, rfl⟩
  unfold judge
  split
  · exact ⟨rfl, rfl⟩
  · exact ⟨rfl, rfl⟩
  · split
    · exact hdetect s d
    · exact hdetect _ _

theorem ports_receive (long : PinSet) (p : Pin) (d : Demand) (port : Port) :
    (s.receive long p d).1.longPorts.contains port =
        (s.longPorts.contains port || (s.digitalPortForPin p = some port && long.contains p)) ∧
      (s.receive long p d).1.shortPorts.contains port = (s.shortPorts.contains port ||
        (s.digitalPortForPin p = some port && !long.contains p)) := by
  unfold receive
  split
  · rename_i q hq
    obtain ⟨hlong, hshort⟩ := ports_judge
      ((s.note (.digitalPulse q (long.contains p))).keepPulse q (long.contains p)) p true
      (long.contains p) { d with digital := true }
    rw [hlong, hshort, hq]
    unfold keepPulse
    cases long.contains p
    · simp [Mask.contains_insert, note, emit]
    · simp [Mask.contains_insert, note, emit]
  · rename_i hq
    obtain ⟨hlong, hshort⟩ := s.ports_judge p false true d
    rw [hlong, hshort, hq]
    simp

theorem ports_receiveAll (long : PinSet) (ps : List Pin) (d : Demand) (port : Port) :
    (s.receiveAll long d ps).1.longPorts.contains port =
        (s.longPorts.contains port ||
          ps.any fun p => s.digitalPortForPin p = some port && long.contains p) ∧
      (s.receiveAll long d ps).1.shortPorts.contains port =
        (s.shortPorts.contains port ||
          ps.any fun p => s.digitalPortForPin p = some port && !long.contains p) := by
  induction ps generalizing s d with
  | nil => simp [receiveAll]
  | cons p ps ih =>
    obtain ⟨hlong, hshort⟩ := s.ports_receive long p d port
    obtain ⟨ihlong, ihshort⟩ := ih (s.receive long p d).1 (s.receive long p d).2
    rw [digitalPortForPin_receive] at ihlong ihshort
    unfold receiveAll
    simp only
    rw [ihlong, ihshort, hlong, hshort, List.any_cons, List.any_cons, Bool.or_assoc, Bool.or_assoc]
    exact ⟨rfl, rfl⟩

end Ports

section Interrupts

variable (s : Controller ρ)

def pulsed (is : List Interrupt) (port : Port) : Bool :=
  is.any fun i => i.fired.toList.any fun p => s.digitalPortForPin p = some port

def pulsedLong (is : List Interrupt) (port : Port) : Bool :=
  is.any fun i => i.fired.toList.any fun p =>
    s.digitalPortForPin p = some port && i.long.contains p

def firesEnabled (is : List Interrupt) (p : Pin) : Bool :=
  (s.handling is).any fun x => x.2.fired.contains p && x.1.table.state p = .enabled

def storms (is : List Interrupt) (p : Pin) : Bool :=
  (s.handling is).any fun x =>
    x.1.table.state p = .enabled && (x.1.interrupt x.2).table.state p = .autoDisabled

theorem digitalPortForPin_interrupt (i : Interrupt) :
    (s.interrupt i).digitalPortForPin = s.digitalPortForPin :=
  congrArg Ledger.portOf (s.ledger_interrupt i)

theorem eventPins_interrupt (i : Interrupt) {q : Pin} (hq : s.digitalPortForPin q = none) :
    (s.interrupt i).eventPins.contains q =
      if i.fired.contains q = true ∧ s.table.state q = .enabled then
        decide ((s.interrupt i).table.state q ≠ .autoDisabled)
      else s.eventPins.contains q := by
  have hpins (t : Controller ρ) (d : Demand) : (t.answer d).eventPins = t.eventPins :=
    congrArg Backlog.eventPins (silent_backlog.answer t d)
  have hstate (t : Controller ρ) (d : Demand) : (t.answer d).table.state q = t.table.state q :=
    state_of_watch (t.watch_answer d) q
  unfold interrupt
  simp only
  rw [hpins, hstate, s.eventPins_receiveAll i (Mask.nodup_toList _) _ hq]
  simp only [Mask.mem_toList]

theorem eventPins_interrupt_digital (i : Interrupt) {q : Pin} (hq : s.digitalPortForPin q ≠ none)
    (h : s.eventPins.contains q = false) : (s.interrupt i).eventPins.contains q = false := by
  have hpins (t : Controller ρ) (d : Demand) : (t.answer d).eventPins = t.eventPins :=
    congrArg Backlog.eventPins (silent_backlog.answer t d)
  unfold interrupt
  simp only
  rw [hpins]
  exact s.eventPins_receiveAll_digital i.long _ _ hq h

theorem ports_interrupt (i : Interrupt) (port : Port) :
    (s.interrupt i).longPorts.contains port = (s.longPorts.contains port ||
        i.fired.toList.any fun p => s.digitalPortForPin p = some port && i.long.contains p) ∧
      (s.interrupt i).shortPorts.contains port = (s.shortPorts.contains port ||
        i.fired.toList.any fun p => s.digitalPortForPin p = some port && !i.long.contains p) := by
  have hlong (t : Controller ρ) (d : Demand) : (t.answer d).longPorts = t.longPorts :=
    congrArg Backlog.longPorts (silent_backlog.answer t d)
  have hshort (t : Controller ρ) (d : Demand) : (t.answer d).shortPorts = t.shortPorts :=
    congrArg Backlog.shortPorts (silent_backlog.answer t d)
  unfold interrupt
  simp only
  rw [hlong, hshort]
  exact s.ports_receiveAll i.long _ _ port

end Interrupts

section Bursts

variable (s : Controller ρ)

theorem ledger_burst (is : List Interrupt) : (is.foldl interrupt s).ledger = s.ledger := by
  induction is generalizing s with
  | nil => rfl
  | cons i is ih => exact (ih _).trans (s.ledger_interrupt i)

/-- What every interrupt keeps, a burst keeps. -/
theorem burst_induction {P : Backlog → Prop}
    (hstep : ∀ b b', P b → b.Interrupted b' → P b') (h : P s.backlog) (is : List Interrupt) :
    P (is.foldl interrupt s).backlog := by
  induction is generalizing s with
  | nil => exact h
  | cons i is ih => exact ih _ (hstep _ _ h (s.interrupted_interrupt i))

theorem state_interrupt (i : Interrupt) (p : Pin) :
    (s.interrupt i).table.state p = s.table.state p ∨
      i.fired.contains p = true ∧ s.table.state p = .enabled ∧
        (s.interrupt i).table.state p = .autoDisabled := by
  have hstate := state_of_watch (s.watch_interrupt i) p
  rw [hstate]
  rcases s.watch.stats_interrupted i p with hx | ⟨hfired, hx⟩
  · exact .inl (congrArg PinStats.state hx)
  · rw [hx, PinStats.pulsed]
    split
    · rename_i he
      rcases (s.watch.stats p).phase_observe s.watch.config (s.watch.longOn i p) s.watch.now with
        ho | ho
      · exact .inl (congrArg Prod.fst ho)
      · exact .inr ⟨hfired, he, congrArg Prod.fst ho⟩
    · exact .inl rfl

theorem firesEnabled_cons (i : Interrupt) (is : List Interrupt) (p : Pin) :
    s.firesEnabled (i :: is) p =
      (i.fired.contains p && s.table.state p = .enabled || (s.interrupt i).firesEnabled is p) :=
  List.any_cons

theorem storms_cons (i : Interrupt) (is : List Interrupt) (p : Pin) :
    s.storms (i :: is) p =
      (s.table.state p = .enabled && (s.interrupt i).table.state p = .autoDisabled ||
        (s.interrupt i).storms is p) :=
  List.any_cons

theorem firesEnabled_of_not_enabled {p : Pin} (h : s.table.state p ≠ .enabled)
    (is : List Interrupt) : s.firesEnabled is p = false := by
  induction is generalizing s with
  | nil => rfl
  | cons i is ih =>
    have hnext : (s.interrupt i).table.state p ≠ .enabled := by
      rcases s.state_interrupt i p with hs | ⟨-, -, hs⟩ <;> rw [hs]
      · exact h
      · decide
    rw [firesEnabled_cons, ih _ hnext, decide_eq_false h]
    simp

theorem firesEnabled_of_storms {is : List Interrupt} {p : Pin} (h : s.storms is p = true) :
    s.firesEnabled is p = true := by
  induction is generalizing s with
  | nil => cases h
  | cons i is ih =>
    rw [storms_cons, Bool.or_eq_true, Bool.and_eq_true, decide_eq_true_eq, decide_eq_true_eq] at h
    rw [firesEnabled_cons, Bool.or_eq_true, Bool.and_eq_true, decide_eq_true_eq]
    rcases h with ⟨he, hstorm⟩ | h
    · rcases s.state_interrupt i p with hs | ⟨hfired, -, -⟩
      · rw [hs, he] at hstorm
        cases hstorm
      · exact .inl ⟨hfired, he⟩
    · exact .inr (ih _ h)

/-- A pin without a port is recorded in a burst if it fires enabled, unless it storms. -/
theorem eventPins_burst (is : List Interrupt) {p : Pin} (hp : s.digitalPortForPin p = none) :
    (is.foldl interrupt s).eventPins.contains p =
      if s.firesEnabled is p then !s.storms is p else s.eventPins.contains p := by
  induction is generalizing s with
  | nil => rfl
  | cons i is ih =>
    have hnext : (s.interrupt i).digitalPortForPin p = none := by
      rw [digitalPortForPin_interrupt, hp]
    rw [List.foldl_cons, ih _ hnext, firesEnabled_cons, storms_cons, s.eventPins_interrupt i hp]
    by_cases he : s.table.state p = .enabled
    · rcases s.state_interrupt i p with hs | ⟨hfired, -, hs⟩
      · have hcalm : (s.interrupt i).table.state p ≠ .autoDisabled := by
          rw [hs, he]
          decide
        by_cases hlater : (s.interrupt i).firesEnabled is p = true
        · simp [hlater, hcalm]
        · have hquiet : (s.interrupt i).storms is p = false := by
            rw [← Bool.not_eq_true]
            exact fun h => hlater (firesEnabled_of_storms _ h)
          cases hf : i.fired.contains p <;> simp [hlater, hcalm, hquiet, he]
      · have hover : (s.interrupt i).firesEnabled is p = false :=
          firesEnabled_of_not_enabled _ (by rw [hs]; decide) is
        simp [hover, he, hs, hfired]
    · have hover : (s.interrupt i).firesEnabled is p = false := by
        refine firesEnabled_of_not_enabled _ ?_ is
        rcases s.state_interrupt i p with hs | ⟨-, hs, -⟩
        · rwa [hs]
        · exact absurd hs he
      simp [hover, he]

theorem eventPins_burst_digital (is : List Interrupt) {p : Pin}
    (hp : s.digitalPortForPin p ≠ none) (h : s.eventPins.contains p = false) :
    (is.foldl interrupt s).eventPins.contains p = false := by
  induction is generalizing s with
  | nil => exact h
  | cons i is ih =>
    refine ih _ ?_ (s.eventPins_interrupt_digital i hp h)
    rwa [digitalPortForPin_interrupt]

theorem longPorts_burst (is : List Interrupt) (port : Port) :
    (is.foldl interrupt s).longPorts.contains port =
      (s.longPorts.contains port || s.pulsedLong is port) := by
  induction is generalizing s with
  | nil => simp [pulsedLong]
  | cons i is ih =>
    rw [List.foldl_cons, ih, (s.ports_interrupt i port).1, Bool.or_assoc]
    unfold pulsedLong
    rw [List.any_cons, digitalPortForPin_interrupt]

/-- The port of a pin is recorded whatever the state of the pin. -/
theorem ports_burst (is : List Interrupt) (port : Port) :
    ((is.foldl interrupt s).longPorts.contains port ||
        (is.foldl interrupt s).shortPorts.contains port) =
      (s.longPorts.contains port || s.shortPorts.contains port || s.pulsed is port) := by
  induction is generalizing s with
  | nil => simp [pulsed]
  | cons i is ih =>
    obtain ⟨hlong, hshort⟩ := s.ports_interrupt i port
    have hall : (i.fired.toList.any fun p => s.digitalPortForPin p = some port) =
        ((i.fired.toList.any fun p => s.digitalPortForPin p = some port && i.long.contains p) ||
          i.fired.toList.any fun p => s.digitalPortForPin p = some port && !i.long.contains p) := by
      induction i.fired.toList with
      | nil => rfl
      | cons p ps ihps =>
        rw [List.any_cons, List.any_cons, List.any_cons, ihps]
        cases i.long.contains p <;> simp [Bool.or_left_comm, Bool.or_assoc]
    rw [List.foldl_cons, ih, hlong, hshort]
    unfold pulsed
    rw [List.any_cons, digitalPortForPin_interrupt, hall]
    ac_rfl

end Bursts

end Controller

end HotplugDetect
