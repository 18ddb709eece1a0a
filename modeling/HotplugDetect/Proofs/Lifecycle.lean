import HotplugDetect.Proofs.Watch.Runs

/-! # The lifecycle of a pin

A pin is enabled, storming, or disabled, and only a disabled pin carries the mark of a mitigated
storm. Along every run, each change of a pin has one of a few causes, and each cause is an action on
that pin or a pass that covers it.
-/

namespace HotplugDetect

variable {ρ : Type}

namespace PinStats

/-- The state of a pin and its mark. -/
def phase (x : PinStats) : PinState × Bool := (x.state, x.mitigated)

def Sound (x : PinStats) : Prop := x.mitigated = true → x.state = .disabled

theorem phase_observe (x : PinStats) (c : StormConfig) (long : Bool) (now : Nat) :
    (x.observe c long now).1.phase = x.phase ∨
      (x.observe c long now).1.phase = (.autoDisabled, x.mitigated) := by
  have hw : (x.openWindow c.period now).phase = x.phase := by
    unfold openWindow
    split <;> rfl
  unfold observe
  split
  · simp only
    split
    · exact .inr (congrArg (fun y => (PinState.autoDisabled, y)) (congrArg Prod.snd hw))
    · exact .inl hw
  · exact .inl rfl

theorem Sound.unmarked {x : PinStats} (h : x.Sound) (hs : x.state ≠ .disabled) :
    x.mitigated = false := by
  rw [← Bool.not_eq_true]
  exact fun hm => hs (h hm)

theorem Sound.phase_pulsed {x : PinStats} (h : x.Sound) (c : StormConfig) (long : Bool)
    (now : Nat) : (x.pulsed c long now).phase = x.phase ∨
      x.phase = (.enabled, false) ∧ (x.pulsed c long now).phase = (.autoDisabled, false) := by
  unfold pulsed
  by_cases he : x.state = .enabled
  · have hm : x.mitigated = false := h.unmarked (by rw [he]; decide)
    rw [if_pos he]
    rcases x.phase_observe c long now with ho | ho
    · exact .inl ho
    · exact .inr ⟨by rw [phase, he, hm], by rw [ho, hm]⟩
  · rw [if_neg he]
    exact .inl rfl

theorem Sound.mitigated_pulsed {x : PinStats} (h : x.Sound) (c : StormConfig) (long : Bool)
    (now : Nat) : (x.pulsed c long now).mitigated = x.mitigated := by
  rcases h.phase_pulsed c long now with hp | ⟨hx, hp⟩
  · exact congrArg Prod.snd hp
  · exact (congrArg Prod.snd hp).trans (congrArg Prod.snd hx).symm

theorem sound_iff_phase (x : PinStats) : x.Sound ↔ (x.phase.2 = true → x.phase.1 = .disabled) :=
  Iff.rfl

theorem Sound.pulsed {x : PinStats} (h : x.Sound) (c : StormConfig) (long : Bool) (now : Nat) :
    (x.pulsed c long now).Sound := by
  rw [sound_iff_phase]
  rcases h.phase_pulsed c long now with hp | ⟨_, hp⟩
  · rwa [hp]
  · simp [hp]

theorem Sound.handedOver {x : PinStats} (h : x.Sound) : x.handedOver.Sound := by
  rcases x.handedOver_cases with ⟨-, hx⟩ | ⟨-, hx⟩
  · rwa [hx]
  · rw [hx]
    exact fun _ => rfl

theorem sound_freed (x : PinStats) : x.freed.Sound := fun h => by cases h

end PinStats

namespace Watch

def Sound (w : Watch) : Prop := ∀ p, (w.stats p).Sound

theorem Sound.interrupted {w : Watch} (h : w.Sound) (i : Interrupt) : (w.interrupted i).Sound := by
  intro p
  rcases w.stats_interrupted i p with hp | ⟨-, hp⟩
  · rw [hp]
    exact h p
  · rw [hp]
    exact (h p).pulsed _ _ _

theorem Sound.foldl_interrupted {w : Watch} (h : w.Sound) (is : List Interrupt) :
    (is.foldl Watch.interrupted w).Sound := by
  induction is generalizing w with
  | nil => exact h
  | cons i is ih => exact ih (h.interrupted i)

theorem Sound.mitigated_foldl_interrupted {w : Watch} (h : w.Sound) (is : List Interrupt)
    (p : Pin) : ((is.foldl Watch.interrupted w).stats p).mitigated = (w.stats p).mitigated := by
  induction is generalizing w with
  | nil => rfl
  | cons i is ih =>
    rw [List.foldl_cons, ih (h.interrupted i)]
    rcases w.stats_interrupted i p with hp | ⟨-, hp⟩
    · rw [hp]
    · rw [hp]
      exact (h p).mitigated_pulsed _ _ _

theorem Sound.recovered {w : Watch} (h : w.Sound) : w.recovered.Sound := by
  intro p
  rcases w.stats_recovered p with ⟨-, hp⟩ | ⟨-, hp⟩
  · rw [hp]
    exact h p
  · rw [hp]
    exact (w.stats p).sound_freed

end Watch

namespace Controller

def phase (s : Controller ρ) (p : Pin) : PinState × Bool := (s.table.get p).phase

def handling (s : Controller ρ) : List Interrupt → List (Controller ρ × Interrupt)
  | [] => []
  | i :: is => (s, i) :: (s.interrupt i).handling is

theorem sound_ofSettings (settings : Settings) (connectors : ConnectorList ρ)
    (ports : Port → Option PulseHandler) :
    (ofSettings settings connectors ports).watch.Sound := by
  intro p hm
  rw [stats_ofSettings] at hm
  cases hm

theorem phase_interrupt {s : Controller ρ} (h : s.watch.Sound) (i : Interrupt) (p : Pin) :
    (s.interrupt i).phase p = s.phase p ∨
      i.fired.contains p = true ∧ s.phase p = (.enabled, false) ∧
        (s.interrupt i).phase p = (.autoDisabled, false) := by
  have hp : (s.interrupt i).phase p = ((s.watch.interrupted i).stats p).phase := by
    rw [← watch_interrupt]
    rfl
  rw [hp]
  rcases s.watch.stats_interrupted i p with hw | ⟨hf, hw⟩
  · rw [hw]
    exact .inl rfl
  · rw [hw]
    rcases (h p).phase_pulsed s.watch.config (s.watch.longOn i p) s.watch.now with hq | ⟨hq, hq'⟩
    · exact .inl hq
    · exact .inr ⟨hf, hq, hq'⟩

theorem phase_foldl_interrupt {s : Controller ρ} (h : s.watch.Sound) (is : List Interrupt)
    (p : Pin) : (is.foldl interrupt s).phase p = s.phase p ∨
      s.phase p = (.enabled, false) ∧ (is.foldl interrupt s).phase p = (.autoDisabled, false) ∧
        ∃ t i, (t, i) ∈ s.handling is ∧ i.fired.contains p = true ∧ t.phase p = (.enabled, false) ∧
          (t.interrupt i).phase p = (.autoDisabled, false) := by
  induction is generalizing s with
  | nil => exact .inl rfl
  | cons i is ih =>
    have hnext : (s.interrupt i).watch.Sound := by
      rw [watch_interrupt]
      exact h.interrupted i
    rw [List.foldl_cons]
    rcases phase_interrupt h i p with hi | ⟨hf, hs, hi⟩
    · rcases ih hnext with hr | ⟨hs, hr, t, j, hm, hj⟩
      · exact .inl (hr.trans hi)
      · exact .inr ⟨hi.symm.trans hs, hr, t, j, List.mem_cons_of_mem _ hm, hj⟩
    · have hr : (is.foldl interrupt (s.interrupt i)).phase p = (s.interrupt i).phase p := by
        rcases ih hnext with hr | ⟨hs', -⟩
        · exact hr
        · rw [hi] at hs'
          cases hs'
      exact .inr ⟨hs, hr.trans hi, s, i, List.mem_cons_self, hf, hs, hi⟩

section Changes

variable [Probe ρ]

/-- The causes of a change of a pin. -/
inductive PinChange (s : Controller ρ) (p : Pin) :
    Action → PinState × Bool → PinState × Bool → Prop where

  | storm {a : Action} {t : Controller ρ} {i : Interrupt} :
      (t, i) ∈ s.handling (s.interruptsOf a) → i.fired.contains p = true →
      t.phase p = (.enabled, false) → (t.interrupt i).phase p = (.autoDisabled, false) →
      PinChange s p a (.enabled, false) (.autoDisabled, false)

  | mitigation {timerFirst : Bool} : s.generic.seek.2 = .claimed →
      PinChange s p (.move .generic timerFirst) (.autoDisabled, false) (.disabled, true)

  | disable : PinChange s p (.disable p) (.enabled, false) (.disabled, false)

  | recovery {a : Action} : s.RecoveryPass a → s.eligible p = true →
      PinChange s p a (.disabled, true) (.enabled, false)

  | enable (before : PinState × Bool) : PinChange s p (.enable p) before (.enabled, false)

  | init (before : PinState × Bool) : PinChange s p .init before (.enabled, false)

omit [Probe ρ] in
theorem phase_of_watch {t : Controller ρ} {w : Watch} (h : t.watch = w) (p : Pin) :
    t.phase p = (w.stats p).phase :=
  congrArg (fun w => (w.stats p).phase) h

theorem phase_recovered (w : Watch) (p : Pin) :
    (w.recovered.stats p).phase = (w.stats p).phase ∨
      w.eligible p = true ∧ (w.stats p).phase = (.disabled, true) ∧
        (w.recovered.stats p).phase = (.enabled, false) := by
  rcases w.stats_recovered p with ⟨-, hp⟩ | ⟨hr, hp⟩
  · rw [hp]
    exact .inl rfl
  · obtain ⟨hs, hm, he⟩ := (w.recovers_iff p).mp hr
    rw [hp]
    exact .inr ⟨he, by rw [PinStats.phase, hs, hm], rfl⟩

theorem pinChange_recovery {s : Controller ρ} {p : Pin} {a : Action} (hr : s.RecoveryPass a)
    (w : Watch) (hw : (w.stats p).phase = s.phase p) (he : w.eligible = s.eligible)
    (h : (s.act a).watch = w.recovered) :
    (s.act a).phase p = s.phase p ∨ s.PinChange p a (s.phase p) ((s.act a).phase p) := by
  have hp := phase_of_watch h p
  rcases phase_recovered w p with hq | ⟨hel, hd, hq⟩
  · exact .inl (hp.trans (hq.trans hw))
  · rw [hp, hq, ← hw, hd]
    exact .inr (.recovery hr (he ▸ hel))

theorem pinChange_act {s : Controller ρ} (h : s.watch.Sound) (a : Action) (p : Pin) :
    (s.act a).phase p = s.phase p ∨ s.PinChange p a (s.phase p) ((s.act a).phase p) := by
  have he := s.effect_act a
  generalize hw : (s.act a).watch = w at he
  cases he with
  | interrupts _ =>
    rw [← watch_foldl_interrupt] at hw
    have hp : (s.act a).phase p = ((s.interruptsOf a).foldl interrupt s).phase p :=
      phase_of_watch hw p
    rw [hp]
    rcases phase_foldl_interrupt h (s.interruptsOf a) p with hq | ⟨hs, hq, t, i, hm, hf, ht, hi⟩
    · exact .inl hq
    · rw [hs, hq]
      exact .inr (.storm hm hf ht hi)
  | init =>
    rw [phase_of_watch hw p]
    exact .inr (.init _)
  | forcePolling on => exact .inl (phase_of_watch hw p)
  | disable q =>
    rw [phase_of_watch hw p]
    rcases s.watch.stats_disabled q p with hp | ⟨rfl, hs, hp⟩
    · rw [hp]
      exact .inl rfl
    · have hm := (h p).unmarked (by rw [hs]; decide)
      have hbefore : s.phase p = (.enabled, false) := Prod.ext hs hm
      rw [hp, hbefore, PinStats.phase, hm]
      exact .inr .disable
  | enable q =>
    rw [phase_of_watch hw p]
    rcases s.watch.stats_enabled q p with hp | ⟨rfl, hp⟩
    · rw [hp]
      exact .inl rfl
    · rw [hp]
      exact .inr (.enable _)
  | advance instant => exact .inl (phase_of_watch hw p)
  | mitigation hc =>
    have hp : (s.act _).phase p = (s.table.get p).handedOver.phase := phase_of_watch hw p
    rcases (s.table.get p).handedOver_cases with ⟨-, hx⟩ | ⟨hs, hx⟩
    · rw [hp, hx]
      exact .inl rfl
    · have hm := (h p).unmarked (by rw [show (s.watch.stats p).state = _ from hs]; decide)
      have hbefore : s.phase p = (.autoDisabled, false) := Prod.ext hs hm
      rw [hp, hx, hbefore]
      exact .inr (.mitigation hc)
  | glimpse _ => exact .inl (phase_of_watch hw p)
  | reinitialization _ => exact .inl (phase_of_watch hw p)
  | recovery hr _ _ => exact pinChange_recovery hr (s.watch.dropping true false) rfl rfl hw
  | configuration _ => exact .inl (phase_of_watch hw p)
  | @knob _ _ config _ hr =>
    exact pinChange_recovery hr ((s.watch.configured config).dropping true false) rfl rfl hw
  | flush hr => exact pinChange_recovery hr (s.watch.dropping true false) rfl rfl hw
  | cancellation recovery run _ => exact .inl (phase_of_watch hw p)

theorem phase_act_of_not {s : Controller ρ} (h : s.watch.Sound) {a : Action} {p : Pin}
    (hn : ∀ after, ¬s.PinChange p a (s.phase p) after) : (s.act a).phase p = s.phase p :=
  (pinChange_act h a p).resolve_right (hn _)

theorem state_claim_generic {s : Controller ρ} (hs : s.generic.seek.2 = .claimed)
    (timerFirst : Bool) (p : Pin) :
    (s.act (.move .generic timerFirst)).table.state p ≠ .autoDisabled := by
  intro hstate
  have hw := watch_claim_generic hs timerFirst
  split at hw
  · rename_i hnone
    have hbefore : s.table.state p = .autoDisabled :=
      (congrArg (fun w => (w.stats p).state) hw).symm.trans hstate
    have hmem := s.table.contains_pinsIn .autoDisabled p
    rw [show s.table.pinsIn .autoDisabled = ∅ from Mask.eq_empty_of_isEmpty hnone,
      Mask.contains_empty, hbefore, decide_eq_true rfl] at hmem
    cases hmem
  · have hafter : (s.table.get p).handedOver.state = .autoDisabled :=
      (congrArg (fun w => (w.stats p).state) hw).symm.trans hstate
    rcases (s.table.get p).handedOver_cases with ⟨hne, hx⟩ | ⟨-, hx⟩
    · rw [hx] at hafter
      exact hne hafter
    · rw [hx] at hafter
      cases hafter

end Changes

section Runs

variable [Probe ρ]

/-- Whatever the action is, marks stay on disabled pins. -/
theorem Effect.sound {s : Controller ρ} {a : Action} {w : Watch} (he : s.Effect a w)
    (h : s.watch.Sound) : w.Sound := by
  cases he with
  | interrupts _ => exact h.foldl_interrupted _
  | init => exact fun p hm => by cases hm
  | forcePolling on => exact h
  | disable q =>
    intro p
    rcases s.watch.stats_disabled q p with hp | ⟨-, -, hp⟩
    · rw [hp]
      exact h p
    · rw [hp]
      exact fun _ => rfl
  | enable q =>
    intro p
    rcases s.watch.stats_enabled q p with hp | ⟨-, hp⟩
    · rw [hp]
      exact h p
    · rw [hp]
      exact (s.watch.stats p).sound_freed
  | advance instant => exact h
  | mitigation _ => exact fun p => (h p).handedOver
  | glimpse _ => exact h
  | reinitialization _ => exact h
  | recovery _ _ _ => exact Watch.Sound.recovered (w := s.watch.dropping true false) h
  | configuration _ => exact h
  | @knob _ _ config _ _ =>
    exact Watch.Sound.recovered (w := (s.watch.configured config).dropping true false) h
  | flush _ => exact Watch.Sound.recovered (w := s.watch.dropping true false) h
  | cancellation recovery run _ => exact h

theorem sound_run {s : Controller ρ} (h : s.watch.Sound) (as : List Action) :
    (s.run as).watch.Sound := by
  induction as using List.reverseRecOn with
  | nil => exact h
  | append_singleton as a ih =>
    rw [run_concat]
    exact (effect_act _ a).sound ih

/-- Marks are on disabled pins only, and every change of a pin has one of the causes. -/
theorem pin_lifecycle (settings : Settings) (connectors : ConnectorList ρ)
    (ports : Port → Option PulseHandler) (as : List Action) (p : Pin) :
    let s := (ofSettings settings connectors ports).run as
    ((s.table.get p).mitigated = true → s.table.state p = .disabled) ∧
      ∀ a, (s.act a).phase p = s.phase p ∨ s.PinChange p a (s.phase p) ((s.act a).phase p) := by
  have h := sound_run (sound_ofSettings settings connectors ports) as
  exact ⟨h p, fun a => pinChange_act h a p⟩

end Runs

section Mitigations

variable [Probe ρ]

def mitigates (s : Controller ρ) (p : Pin) : Action → Bool
  | .move .generic timerFirst =>
    s.table.state p = .autoDisabled && ((s.act (.move .generic timerFirst)).table.get p).mitigated
  | _ => false

theorem not_mitigates {s : Controller ρ} {p : Pin} (h : s.table.state p ≠ .autoDisabled)
    (a : Action) : s.mitigates p a = false := by
  unfold mitigates
  split
  · simp [h]
  · rfl

theorem mitigates_move {s : Controller ρ} {p : Pin} {timerFirst : Bool}
    (h : s.table.state p = .autoDisabled)
    (hm : ((s.act (.move .generic timerFirst)).watch.stats p).mitigated = true) :
    s.mitigates p (.move .generic timerFirst) = true := by
  rw [mitigates, h]
  exact hm

theorem Effect.mitigated {s : Controller ρ} {a : Action} {w : Watch} (he : s.Effect a w)
    (hs : s.watch.Sound) {p : Pin} (hm : (w.stats p).mitigated = true) :
    (s.watch.stats p).mitigated = true ∨
      (s.watch.stats p).state = .autoDisabled ∧ (∃ timerFirst, a = .move .generic timerFirst) ∧
        w.deadline = some (s.watch.now + s.watch.reenableDelay) := by
  have hrecovered {w : Watch} (h : (w.recovered.stats p).mitigated = true) :
      (w.stats p).mitigated = true := by
    rcases phase_recovered w p with hp | ⟨-, -, hp⟩
    · exact (congrArg Prod.snd hp).symm.trans h
    · rw [show (w.recovered.stats p).mitigated = false from congrArg Prod.snd hp] at h
      cases h
  cases he with
  | interrupts _ =>
    rw [hs.mitigated_foldl_interrupted] at hm
    exact .inl hm
  | init => cases hm
  | disable q =>
    rcases s.watch.stats_disabled q p with hp | ⟨-, -, hp⟩
    · rw [hp] at hm
      exact .inl hm
    · rw [hp] at hm
      exact .inl hm
  | enable q =>
    rcases s.watch.stats_enabled q p with hp | ⟨-, hp⟩
    · rw [hp] at hm
      exact .inl hm
    · rw [hp] at hm
      cases hm
  | @mitigation timerFirst _ =>
    rcases (s.watch.stats p).handedOver_cases with ⟨-, hx⟩ | ⟨ha, -⟩
    · left
      rw [← hx]
      exact hm
    · exact .inr ⟨ha, ⟨timerFirst, rfl⟩, rfl⟩
  | recovery _ _ _ => exact .inl (hrecovered (w := s.watch.dropping true false) hm)
  | @knob _ _ config _ _ =>
    exact .inl (hrecovered (w := (s.watch.configured config).dropping true false) hm)
  | flush _ => exact .inl (hrecovered (w := s.watch.dropping true false) hm)
  | _ => exact .inl hm

end Mitigations

end Controller

end HotplugDetect
