import Mathlib.Data.Finset.Card
import HotplugDetect.Proofs.Backlog.Alarm

/-! # The recovery is neither forgotten nor starved

Every new storm postpones the one deadline of all pins. It leaves at least one more pin to polling
each time, and there are ten pins, so that no pin waits longer than ten delays for its recovery.
That is as long as the worker is not late: a storm that is handed over when the recovery is due
already puts it off by more than a delay.
-/

namespace HotplugDetect

variable {ρ : Type}

def Action.frees : Action → Bool
  | .init => true
  | .enable _ => true
  | _ => false

namespace Watch

def masked (w : Watch) : Finset Pin :=
  Pin.all.toFinset.filter fun p => (w.stats p).state = .disabled

@[simp] theorem mem_masked (w : Watch) (p : Pin) :
    p ∈ w.masked ↔ (w.stats p).state = .disabled := by
  simp [masked, Pin.mem_all]

theorem card_masked_le (w : Watch) : w.masked.card ≤ 10 :=
  (Finset.card_filter_le _ _).trans (List.toFinset_card_le _)

theorem recovers_recovered {w : Watch} {p : Pin} (h : w.recovers p = true) :
    w.recovered.recovers p = false := by
  rcases w.stats_recovered p with ⟨hr, -⟩ | ⟨-, hp⟩
  · rw [h] at hr
    cases hr
  · rw [recovers, hp]
    rfl

theorem masked_interrupted (w : Watch) (i : Interrupt) : w.masked ⊆ (w.interrupted i).masked := by
  intro p hp
  rw [mem_masked] at hp ⊢
  rcases w.stats_interrupted i p with h | ⟨-, h⟩
  · rw [h, hp]
  · rw [h, PinStats.pulsed, if_neg (by rw [hp]; decide), hp]

theorem masked_foldl_interrupted (is : List Interrupt) (w : Watch) :
    w.masked ⊆ (is.foldl Watch.interrupted w).masked := by
  induction is generalizing w with
  | nil => exact subset_rfl
  | cons i is ih => exact (w.masked_interrupted i).trans (ih _)

theorem masked_mitigated (w : Watch) : w.masked ⊆ w.mitigated.masked := by
  intro p hp
  rw [mem_masked] at hp ⊢
  rcases (w.stats p).handedOver_cases with ⟨-, h⟩ | ⟨-, h⟩
  · exact (congrArg PinStats.state h).trans hp
  · exact congrArg PinStats.state h

theorem exists_of_isEmpty_pinsIn {w : Watch} {state : PinState}
    (h : (w.pinsIn state).isEmpty = false) : ∃ p, (w.stats p).state = state := by
  by_contra hnone
  push Not at hnone
  have hnil : (Pin.all.filter fun p => (w.stats p).state = state) = [] :=
    List.filter_eq_nil_iff.mpr fun p _ => by simpa using hnone p
  rw [pinsIn, hnil] at h
  cases h

theorem masked_disabled (w : Watch) (q : Pin) : w.masked ⊆ (w.disabled q).masked := by
  intro p hp
  rw [mem_masked] at hp ⊢
  rcases w.stats_disabled q p with h | ⟨-, -, h⟩
  · rw [h, hp]
  · rw [h]

theorem mitigated_of_storm {w : Watch} {p : Pin} (h : (w.stats p).state = .autoDisabled) :
    (w.mitigated.stats p).mitigated = true := by
  rcases (w.stats p).handedOver_cases with ⟨hn, -⟩ | ⟨-, hp⟩
  · exact absurd h hn
  · exact congrArg PinStats.mitigated hp

/-- A storm that is handed over leaves one more pin to polling. -/
theorem masked_mitigated_ssubset {w : Watch} (h : (w.pinsIn .autoDisabled).isEmpty = false) :
    w.masked ⊂ w.mitigated.masked := by
  obtain ⟨p, hp⟩ := exists_of_isEmpty_pinsIn h
  refine (Finset.ssubset_iff_of_subset w.masked_mitigated).mpr ⟨p, ?_, ?_⟩
  · rw [mem_masked]
    rcases (w.stats p).handedOver_cases with ⟨hn, -⟩ | ⟨-, h⟩
    · exact absurd hp hn
    · exact congrArg PinStats.state h
  · rw [mem_masked, hp]
    decide

end Watch

namespace Controller

variable [Probe ρ] {s : Controller ρ}

section Lateness

/-- A storm is handed over, which arms the recovery of all pins anew. -/
def postpones (s : Controller ρ) (a : Action) : Bool := Pin.all.any fun p => s.mitigates p a

theorem postpones_iff {s : Controller ρ} {a : Action} :
    s.postpones a = true ↔ ∃ p, s.mitigates p a = true := by
  simp [postpones, Pin.mem_all]

def arrears (s : Controller ρ) : Nat := s.reenable.deadline.elim 0 (s.now - ·)

omit [Probe ρ] in
theorem arrears_of_le (h : ∀ d, s.watch.deadline = some d → s.watch.now ≤ d) : s.arrears = 0 := by
  unfold arrears
  cases hd : s.reenable.deadline with
  | none => rfl
  | some d => exact Nat.sub_eq_zero_of_le (h d hd)

/-- By how much a run puts the recovery off beyond a delay for every storm. -/
def lateness (s : Controller ρ) (as : List Action) : Nat :=
  (((s.trail as).filter fun x => x.1.postpones x.2).map (·.1.arrears)).sum

theorem lateness_concat (s : Controller ρ) (as : List Action) (a : Action) :
    s.lateness (as ++ [a]) =
      s.lateness as + if (s.run as).postpones a then (s.run as).arrears else 0 := by
  unfold lateness
  rw [trail_concat, List.filter_append, List.map_append, List.sum_append]
  congr 1
  cases h : (s.run as).postpones a <;> simp [h]

end Lateness

section Steps

/-- A pin was left to polling and still is. Then the deadline stays, or a new storm postpones it;
and no pin comes back, unless it is enabled from outside. -/
theorem deadline_act (h : s.backlog.Alert) {a : Action} (hc : a.cancels = false) {p : Pin}
    (hbefore : s.watch.recovers p = true) (hafter : (s.act a).watch.recovers p = true) :
    (s.act a).watch.deadline = s.watch.deadline ∧
        (a.frees = false → s.watch.masked ⊆ (s.act a).watch.masked) ∨
      (s.act a).watch.deadline = some (s.watch.now + s.watch.reenableDelay) ∧
        s.postpones a = true ∧ s.watch.masked ⊂ (s.act a).watch.masked := by
  by_cases hresume : ∃ client, a = .resume client
  · obtain ⟨client, rfl⟩ := hresume
    rw [act_resume h]
    exact .inl ⟨rfl, fun _ => subset_rfl⟩
  have hstuck {w : Watch} (hw : w.recovers p = true) (hr : w.recovered.recovers p = true) :
      False := by
    rw [Watch.recovers_recovered hw] at hr
    cases hr
  have he := s.effect_act a
  generalize hw : (s.act a).watch = w at he hafter
  cases he with
  | interrupts _ =>
    have hmasked := Watch.masked_foldl_interrupted (s.interruptsOf a) s.watch
    obtain ⟨stats, hi⟩ := fixed_foldl_interrupted (s.interruptsOf a) s.watch
    exact .inl ⟨by rw [hi], fun _ => hmasked⟩
  | init => exact .inl ⟨rfl, nofun⟩
  | disable q => exact .inl ⟨rfl, fun _ => s.watch.masked_disabled q⟩
  | enable q => exact .inl ⟨rfl, nofun⟩
  | @mitigation timerFirst hclaimed =>
    rw [watch_claim_generic hclaimed] at hw
    split at hw
    · rw [← hw]
      exact .inl ⟨rfl, fun _ => subset_rfl⟩
    · rename_i hstorm
      rw [Bool.not_eq_true] at hstorm
      obtain ⟨q, hq⟩ := Watch.exists_of_isEmpty_pinsIn hstorm
      have hmarked : ((s.act (.move .generic timerFirst)).watch.stats q).mitigated = true := by
        rw [watch_claim_generic hclaimed, if_neg (by simp [hstorm])]
        exact Watch.mitigated_of_storm hq
      exact .inr ⟨rfl, postpones_iff.mpr ⟨q, mitigates_move hq hmarked⟩,
        Watch.masked_mitigated_ssubset hstorm⟩
  | recovery _ _ _ => exact (hstuck (w := s.watch.dropping true false) hbefore hafter).elim
  | @knob _ _ config _ _ =>
    exact (hstuck (w := (s.watch.configured config).dropping true false) hbefore hafter).elim
  | @flush client _ => exact absurd ⟨client, rfl⟩ hresume
  | cancellation recovery run hdrops =>
    cases a with
    | cancelAll client => cases hc
    | shutdown client => cases hc
    | resume client => exact absurd ⟨client, rfl⟩ hresume
    | _ => cases hdrops
  | _ => exact .inl ⟨rfl, fun _ => subset_rfl⟩

end Steps

section Histories

/-- No pin was enabled from outside since a storm on the pin was last handed over to polling. -/
def undisturbed (p : Pin) (s : Controller ρ) (as : List Action) : Bool :=
  ((s.trail as).reverse.takeWhile fun x => !x.1.mitigates p x.2).all fun x => !x.2.frees

theorem undisturbed_concat (p : Pin) (s : Controller ρ) (as : List Action) (a : Action) :
    undisturbed p s (as ++ [a]) =
      ((s.run as).mitigates p a || (!a.frees && undisturbed p s as)) := by
  unfold undisturbed
  rw [trail_concat, List.reverse_concat, List.takeWhile_cons]
  cases (s.run as).mitigates p a with
  | true => rfl
  | false => simp

/-- The deadline is in time for a pin: every pin that is disabled by now may have postponed it
once, and a late worker may have put it off further. -/
def InTime (w : Watch) (p : Pin) (last : Option Nat) (calm : Bool) (late : Nat) : Prop :=
  w.recovers p = true → calm = true → ∀ t, last = some t → ∀ d, w.deadline = some d →
    d ≤ t + w.masked.card * w.reenableDelay + late

theorem recovers_act (hs : s.watch.Sound) {a : Action} {p : Pin}
    (hafter : (s.act a).watch.recovers p = true) :
    s.watch.recovers p = true ∧ s.mitigates p a = false ∨
      s.mitigates p a = true ∧
        (s.act a).watch.deadline = some (s.watch.now + s.watch.reenableDelay) := by
  obtain ⟨-, hm, hel⟩ := ((s.act a).watch.recovers_iff p).mp hafter
  have he := s.effect_act a
  obtain ⟨-, -, -, heligible⟩ := he.fixed
  rcases he.mitigated hs hm with hbefore | ⟨hstorm, ⟨timerFirst, rfl⟩, hd⟩
  · have hstate := hs p hbefore
    refine .inl ⟨(s.watch.recovers_iff p).mpr ⟨hstate, hbefore, heligible ▸ hel⟩, ?_⟩
    refine not_mitigates ?_ a
    rw [show s.table.state p = .disabled from hstate]
    decide
  · exact .inr ⟨mitigates_move hstorm hm, hd⟩

theorem armed_act (hs : s.watch.Sound) (h : s.backlog.Alert) {a : Action} (hc : a.cancels = false)
    {p : Pin} (harmed : s.watch.recovers p = true → s.watch.deadline.isSome = true)
    (hafter : (s.act a).watch.recovers p = true) : (s.act a).watch.deadline.isSome = true := by
  rcases recovers_act hs hafter with ⟨hbefore, -⟩ | ⟨-, hd⟩
  · rcases deadline_act h hc hbefore hafter with ⟨hd, -⟩ | ⟨hd, -⟩
    · rw [hd]
      exact harmed hbefore
    · rw [hd]
      rfl
  · rw [hd]
    rfl

theorem inTime_act (hs : s.watch.Sound) (h : s.backlog.Alert) {a : Action}
    (hc : a.cancels = false) {p : Pin}
    (harmed : s.watch.recovers p = true → s.watch.deadline.isSome = true)
    {last : Option Nat} {calm : Bool} {late : Nat} (htime : InTime s.watch p last calm late) :
    InTime (s.act a).watch p (if s.mitigates p a then some s.now else last)
      (s.mitigates p a || (!a.frees && calm))
      (late + if s.postpones a then s.arrears else 0) := by
  intro hafter hcalm t hlast d hd
  obtain ⟨-, hdelay, -, -⟩ := (s.effect_act a).fixed
  rw [hdelay]
  rcases recovers_act hs hafter with ⟨hbefore, hn⟩ | ⟨hy, hd'⟩
  · rw [hn] at hlast hcalm
    obtain ⟨hfrees, hcalm⟩ : a.frees = false ∧ calm = true := by simpa using hcalm
    rcases deadline_act h hc hbefore hafter with ⟨hsame, hmasked⟩ | ⟨hlater, hstorm, hmasked⟩
    · rw [hsame] at hd
      have hbound := htime hbefore hcalm t (by simpa using hlast) d hd
      have hcard := Nat.mul_le_mul_right s.watch.reenableDelay
        (Finset.card_le_card (hmasked hfrees))
      omega
    · obtain ⟨e, hold⟩ := Option.isSome_iff_exists.mp (harmed hbefore)
      have hbound := htime hbefore hcalm t (by simpa using hlast) e hold
      have hcard := Nat.mul_le_mul_right s.watch.reenableDelay
        (Nat.succ_le_of_lt (Finset.card_lt_card hmasked))
      have hmul := Nat.succ_mul s.watch.masked.card s.watch.reenableDelay
      have hdue : s.arrears = s.watch.now - e := by
        unfold arrears
        rw [show s.reenable.deadline = some e from hold]
        rfl
      rw [hlater, Option.some_inj] at hd
      rw [if_pos hstorm, hdue]
      omega
  · rw [hy, if_pos rfl, Option.some_inj] at hlast
    rw [hd', Option.some_inj] at hd
    have hp : p ∈ (s.act a).watch.masked := by
      rw [Watch.mem_masked]
      exact (((s.act a).watch.recovers_iff p).mp hafter).1
    have hcard := Nat.le_mul_of_pos_left s.watch.reenableDelay (Finset.card_pos.mpr ⟨p, hp⟩)
    rw [← hd, ← hlast]
    exact (Nat.add_le_add_left hcard _).trans (Nat.le_add_right _ _)

end Histories

section Runs

/-- What holds on one thread as long as nothing is cancelled. -/
structure Guarded (busy : Option Job) (s : Controller ρ) : Prop where

  kept : s.backlog.Kept busy

  alert : s.backlog.Alert

  sound : s.watch.Sound

  armed {p : Pin} : s.watch.recovers p = true → s.watch.deadline.isSome = true

theorem Guarded.act {busy : Option Job} (h : Guarded busy s) {a : Action}
    (ha : mayFollow busy a = true) (hc : a.cancels = false) :
    Guarded (s.keepsThread a) (s.act a) where
  kept := kept_act h.kept ha
  alert := alert_act h.kept h.alert ha hc
  sound := (s.effect_act a).sound h.sound
  armed := armed_act h.sound h.alert hc h.armed

omit [Probe ρ] in
theorem guarded_ofSettings (settings : Settings) (connectors : ConnectorList ρ)
    (ports : Port → Option PulseHandler) : Guarded none (ofSettings settings connectors ports) where
  kept := kept_ofSettings settings connectors ports
  alert := ⟨fun _ => nofun, (·.elim nofun nofun), rfl⟩
  sound := sound_ofSettings settings connectors ports
  armed {p} hp := by
    rw [Watch.recovers, stats_ofSettings] at hp
    cases hp

theorem guarded_run (h : Guarded none s) {as : List Action}
    (has : s.OneThreaded none as = true) (hc : ∀ a ∈ as, a.cancels = false) :
    Guarded (s.busyAfter none as) (s.run as) ∧ ∀ p, s.watch.recovers p = false →
      InTime (s.run as).watch p (lastMitigation p s as) (undisturbed p s as) (s.lateness as) := by
  induction as using List.reverseRecOn with
  | nil =>
    refine ⟨h, fun p hp hr => ?_⟩
    rw [show s.watch.recovers p = true from hr] at hp
    cases hp
  | append_singleton as a ih =>
    rw [oneThreaded_concat, Bool.and_eq_true] at has
    have hca := hc a (List.mem_append_right as List.mem_cons_self)
    obtain ⟨hg, htime⟩ := ih has.1 fun b hb => hc b (List.mem_append_left [a] hb)
    rw [busyAfter_concat, run_concat]
    refine ⟨hg.act has.2 hca, fun p hp => ?_⟩
    rw [lastMitigation_concat, undisturbed_concat, lateness_concat]
    exact inTime_act hg.sound hg.alert hca hg.armed (htime p hp)

theorem lateness_of_punctual (h : Guarded none s)
    (hstart : ∀ d, s.watch.deadline = some d → s.watch.now ≤ d) {as : List Action}
    (has : s.OneThreaded none as = true) (hc : ∀ a ∈ as, a.cancels = false)
    (hp : s.Punctual as = true) :
    s.lateness as = 0 ∧ ∀ d, (s.run as).watch.deadline = some d → (s.run as).watch.now ≤ d := by
  induction as using List.reverseRecOn with
  | nil => exact ⟨rfl, hstart⟩
  | append_singleton as a ih =>
    rw [oneThreaded_concat, Bool.and_eq_true] at has
    rw [punctual_concat, Bool.and_eq_true] at hp
    have hearlier (b : Action) (hb : b ∈ as) : b.cancels = false :=
      hc b (List.mem_append_left [a] hb)
    obtain ⟨hzero, hnow⟩ := ih has.1 hearlier hp.1
    obtain ⟨hg, -⟩ := guarded_run h has.1 hearlier
    rw [lateness_concat, hzero, arrears_of_le hnow, ite_self, run_concat]
    exact ⟨rfl, fun d hd => now_le_deadline_act hg.kept hg.alert hnow has.2 hp.2 hd⟩

end Runs

/-- A storm on one pin, and at a later instant a storm on another one. -/
def twoStorms (instant : Nat) : List Action :=
  Action.boot ++ .advance 7 :: Action.storm .portB ++ Action.serve .generic ++
    Action.serve .reenable ++ .advance instant :: Action.storm .portC ++ Action.serve .generic ++
    Action.serve .reenable

end Controller

end HotplugDetect
