import HotplugDetect.Proofs.Backlog.Steps
import HotplugDetect.Proofs.Disabling
import HotplugDetect.Proofs.PollModes

/-! # What becomes of an output

A poll-init run that ends sets every connector anew. A storm that is handed over to polling
switches the connectors that listen to its pin, and a recovery lets those on the pins that it
frees go back to their own way. Nothing else changes a poll mode.
-/

namespace HotplugDetect

namespace Connector

variable {σ : Type} {c : Connector σ} {p : Pin}

theorem switched_of_contains (h : c.pin = some p) {pins : PinSet} (hp : pins.contains p = true) :
    c.switched pins = c.switched (.ofList [p]) := by
  unfold switched listensOn
  rw [isOn_of_pin h, isOn_of_pin h, hp, Mask.contains_ofList,
    decide_eq_true (List.mem_singleton_self p)]

theorem polled_switched_own (h : c.pin = some p) :
    (c.switched (.ofList [p])).polled =
      if c.polled = .hpd then .connectDisconnect else c.polled := by
  unfold switched listensOn
  rw [isOn_of_pin h, Mask.contains_ofList, decide_eq_true (List.mem_singleton_self p),
    Bool.and_true]
  by_cases hc : c.polled = .hpd
  · rw [if_pos hc, if_pos (decide_eq_true hc)]
  · rw [if_neg hc, if_neg (by rw [decide_eq_false hc]; decide)]

theorem switched_of_no_pin (h : c.pin = none) (pins : PinSet) : c.switched pins = c := by
  unfold switched listensOn isOn
  rw [h, Option.any_none, Bool.and_false]
  rfl

theorem switched_empty (c : Connector σ) : c.switched ∅ = c := by
  rcases hpin : c.pin with _ | p
  · exact switched_of_no_pin hpin ∅
  · exact switched_of_not_contains hpin (Mask.contains_empty p)

theorem returned_of_returns (h : c.pin = some p) {returns : Pin → Bool} (hp : returns p = true) :
    c.returned returns = c.returned (· = p) := by
  unfold returned
  rw [h, Option.any_some, Option.any_some, hp, decide_eq_true rfl]

theorem returned_of_no_pin (h : c.pin = none) (returns : Pin → Bool) : c.returned returns = c := by
  unfold returned
  rw [h, Option.any_none, Bool.and_false]
  rfl

theorem polled_returned (h : c.pin = some p) (hc : c.multiStream = false) :
    (c.returned (· = p)).polled = .restored c.preference := by
  unfold returned
  rw [h, hc, Option.any_some, decide_eq_true rfl]
  rfl

theorem returned_of_stream (h : c.multiStream = true) (returns : Pin → Bool) :
    c.returned returns = c := by
  unfold returned
  rw [h]
  rfl

end Connector

namespace Controller

variable {ρ : Type} [Probe ρ]

def Frees (s : Controller ρ) (p : Pin) (a : Action) : Prop :=
  s.RecoveryPass a ∧ s.phase p = (.disabled, true) ∧ s.eligible p = true

/-- What an action makes of a connector. -/
inductive Turn (s : Controller ρ) (a : Action) (c : Connector Unit) : Connector Unit → Prop

  | reinitialized {disabled : PinSet} : s.endedReading a = some disabled →
      Turn s a c (c.reinitialized s.caps.hasHotplug s.pollForced disabled)

  | switched {p : Pin} : s.endedReading a = none → c.pin = some p → s.mitigates p a = true →
      Turn s a c (c.switched (.ofList [p]))

  | returned {p : Pin} : s.endedReading a = none → c.pin = some p → s.Frees p a →
      Turn s a c (c.returned (· = p))

  | kept : s.endedReading a = none →
      (∀ p, c.pin = some p → s.mitigates p a = false ∧ ¬s.Frees p a) → Turn s a c c

section Turns

variable {s : Controller ρ} {p : Pin} {a : Action}

theorem Turn.fixed {c c' : Connector Unit} (h : s.Turn a c c') :
    c'.name = c.name ∧ c'.pin = c.pin ∧ c'.multiStream = c.multiStream ∧
      c'.preference = c.preference := by
  cases h with
  | reinitialized _ => exact ⟨rfl, rfl, rfl, rfl⟩
  | switched _ _ _ => exact c.fixed_switched _
  | returned _ _ _ => exact c.fixed_returned _
  | kept _ _ => exact ⟨rfl, rfl, rfl, rfl⟩

theorem handsOver_of_mitigates (hs : s.watch.Sound) (h : s.mitigates p a = true) :
    s.HandsOver a := by
  unfold mitigates at h
  split at h
  · rename_i timerFirst
    obtain ⟨hstorm, hmark⟩ := (Bool.and_eq_true _ _).mp h
    have hstate : (s.watch.stats p).state = .autoDisabled := of_decide_eq_true hstorm
    have he := s.effect_act (.move .generic timerFirst)
    have hnew : ((s.act (.move .generic timerFirst)).watch.stats p).mitigated = true := hmark
    generalize (s.act (.move .generic timerFirst)).watch = w at he hnew
    cases he with
    | interrupts _ =>
      rw [hs.mitigated_foldl_interrupted] at hnew
      rw [hs p hnew] at hstate
      cases hstate
    | mitigation hclaimed => exact ⟨hclaimed, _, rfl⟩
    | configuration hk => cases hk
    | knob hk _ => cases hk
    | cancellation _ _ hd => cases hd
  · cases h

theorem mitigates_of_handsOver (hs : s.watch.Sound) (h : s.HandsOver a)
    (hp : s.table.state p = .autoDisabled) : s.mitigates p a = true := by
  have hunmarked := (hs p).unmarked (by rw [show (s.watch.stats p).state = _ from hp]; decide)
  have hafter := phase_handsOver hs (Prod.ext hp hunmarked : s.phase p = (.autoDisabled, false)) h
  obtain ⟨-, timerFirst, rfl⟩ := h
  exact mitigates_move hp (congrArg Prod.snd hafter)

theorem not_mitigates_of_recoveryPass (hr : s.RecoveryPass a) : s.mitigates p a = false := by
  cases hr with
  | timer => rfl
  | knob hk => cases a <;> first | rfl | cases hk
  | resume => rfl

omit [Probe ρ] in
theorem not_recoveryPass_of_handsOver (h : s.HandsOver a) : ¬s.RecoveryPass a := by
  obtain ⟨-, timerFirst, rfl⟩ := h
  intro hr
  cases hr with
  | knob hk => cases hk

theorem connectors_of_kept (hread : s.endedReading a = none) (hg : ¬s.HandsOver a)
    (hr : ¬s.RecoveryPass a) : (s.act a).watch.connectors = s.watch.connectors := by
  have he := s.effect_act a
  generalize (s.act a).watch = w at he
  cases he with
  | interrupts _ => exact connectors_foldl_interrupted _ _
  | mitigation hs => exact absurd ⟨hs, _, rfl⟩ hg
  | reinitialization hd =>
    rw [hread] at hd
    cases hd
  | recovery hpass => exact absurd hpass hr
  | knob _ hpass => exact absurd hpass hr
  | flush hpass => exact absurd hpass hr
  | _ => rfl

theorem turns_reinitialized {disabled : PinSet} (h : s.endedReading a = some disabled) :
    List.Forall₂ (s.Turn a) s.watch.connectors (s.act a).watch.connectors := by
  obtain ⟨⟨timerFirst, rfl⟩, -⟩ := endedReading_eq_some h
  have hw : (s.act (.move .pollInit timerFirst)).watch = s.watch.reinitialized disabled :=
    watch_movePollInit h
  rw [hw]
  exact List.forall₂_map_right_iff.mpr (List.forall₂_same.mpr fun c _ => .reinitialized h)

theorem turns_recoveryPass (hread : s.endedReading a = none) (hr : s.RecoveryPass a) :
    List.Forall₂ (s.Turn a) s.watch.connectors (s.act a).watch.connectors := by
  obtain ⟨w, hw, heligible, hconnectors, hstats⟩ := hr.watch
  have hfrees (p : Pin) : w.recovers p = true ↔ s.Frees p a := by
    obtain ⟨hstate, hmark⟩ := hstats p
    rw [w.recovers_iff, hstate, hmark, heligible]
    exact ⟨fun ⟨hs, hm, he⟩ => ⟨hr, Prod.ext hs hm, he⟩,
      fun ⟨_, hp, he⟩ => ⟨congrArg Prod.fst hp, congrArg Prod.snd hp, he⟩⟩
  rw [hw, Watch.recovered, Watch.freed, hconnectors]
  refine List.forall₂_map_right_iff.mpr (List.forall₂_same.mpr fun c _ => ?_)
  rcases hpin : c.pin with _ | p
  · rw [Connector.returned_of_no_pin hpin]
    exact .kept hread fun q hq => by rw [hpin] at hq; cases hq
  · cases hp : w.recovers p with
    | true =>
      rw [Connector.returned_of_returns hpin hp]
      exact .returned hread hpin ((hfrees p).mp hp)
    | false =>
      rw [Connector.returned_of_not hpin hp]
      refine .kept hread fun q hq => ⟨not_mitigates_of_recoveryPass hr, fun hf => ?_⟩
      obtain rfl : p = q := Option.some_inj.mp (hpin.symm.trans hq)
      rw [(hfrees p).mpr hf] at hp
      cases hp

theorem turns_handsOver (hs : s.watch.Sound) (hread : s.endedReading a = none)
    (hg : s.HandsOver a) :
    List.Forall₂ (s.Turn a) s.watch.connectors (s.act a).watch.connectors := by
  have hconnectors : (s.act a).watch.connectors =
      s.watch.connectors.map (·.switched (s.watch.pinsIn .autoDisabled)) := by
    obtain ⟨hclaimed, timerFirst, rfl⟩ := hg
    rw [watch_claim_generic hclaimed timerFirst]
    split
    · rename_i hnone
      have hempty : s.watch.pinsIn .autoDisabled = ∅ := Mask.eq_empty_of_isEmpty hnone
      rw [hempty, List.map_congr_left fun c _ => c.switched_empty, List.map_id']
    · rfl
  rw [hconnectors]
  refine List.forall₂_map_right_iff.mpr (List.forall₂_same.mpr fun c _ => ?_)
  -- All storming pins are switched at once; of these a connector meets only its own.
  rcases hpin : c.pin with _ | p
  · rw [Connector.switched_of_no_pin hpin]
    exact .kept hread fun q hq => by rw [hpin] at hq; cases hq
  · by_cases hp : s.table.state p = .autoDisabled
    · have hin : (s.watch.pinsIn .autoDisabled).contains p = true := by
        rw [Watch.contains_pinsIn]
        exact decide_eq_true hp
      rw [Connector.switched_of_contains hpin hin]
      exact .switched hread hpin (mitigates_of_handsOver hs hg hp)
    · have hout : (s.watch.pinsIn .autoDisabled).contains p = false := by
        rw [Watch.contains_pinsIn]
        exact decide_eq_false hp
      rw [Connector.switched_of_not_contains hpin hout]
      refine .kept hread fun q hq =>
        ⟨?_, fun hf => not_recoveryPass_of_handsOver hg hf.1⟩
      obtain rfl : p = q := Option.some_inj.mp (hpin.symm.trans hq)
      exact not_mitigates hp a

/-- Every action makes one thing of each connector. -/
theorem turns_act (hs : s.watch.Sound) (a : Action) :
    List.Forall₂ (s.Turn a) s.watch.connectors (s.act a).watch.connectors := by
  cases hread : s.endedReading a with
  | some disabled => exact turns_reinitialized hread
  | none =>
    by_cases hr : s.RecoveryPass a
    · exact turns_recoveryPass hread hr
    by_cases hg : s.HandsOver a
    · exact turns_handsOver hs hread hg
    · rw [connectors_of_kept hread hg hr]
      refine List.forall₂_same.mpr fun c _ => .kept hread fun p _ => ⟨?_, fun hf => hr hf.1⟩
      rw [← Bool.not_eq_true]
      exact fun hm => hg (handsOver_of_mitigates hs hm)

theorem turn_of_mem (hs : s.watch.Sound) (a : Action) {c' : Connector Unit}
    (h : c' ∈ (s.act a).watch.connectors) : ∃ c ∈ s.watch.connectors, s.Turn a c c' := by
  have hturns := turns_act hs a
  generalize s.watch.connectors = before at hturns
  generalize (s.act a).watch.connectors = after at hturns h
  induction hturns with
  | nil => cases h
  | @cons c d _ _ hturn _ ih =>
    rcases List.mem_cons.mp h with rfl | h
    · exact ⟨c, List.mem_cons_self, hturn⟩
    · obtain ⟨e, he, hturned⟩ := ih h
      exact ⟨e, List.mem_cons_of_mem c he, hturned⟩

end Turns

/-- A poll-init run is pending or in flight. -/
def InitDue (s : Controller ρ) : Prop := s.queued .pollInit = true ∨ s.pollInit.rest?.isSome = true

instance (s : Controller ρ) : Decidable s.InitDue := inferInstanceAs (Decidable (_ ∨ _))

section Due

variable {s : Controller ρ} {a : Action}

theorem rest?_act (h : s.pollInit.rest?.isSome = true) (ha : a.drops = false)
    (hread : s.endedReading a = none) : (s.act a).pollInit.rest?.isSome = true := by
  have he := s.effect_act a
  rw [← isSome_glimpse] at h ⊢
  generalize (s.act a).watch = w at he
  cases he with
  | interrupts _ =>
    obtain ⟨stats, hw⟩ := fixed_foldl_interrupted (s.interruptsOf a) s.watch
    rw [hw]
    exact h
  | glimpse _ => rfl
  | reinitialization hd =>
    rw [hread] at hd
    cases hd
  | cancellation _ _ hd =>
    rw [ha] at hd
    cases hd
  | _ => exact h

theorem queued_or_reads (h : s.queued .pollInit = true) (ha : a.drops = false) :
    (s.act a).queued .pollInit = true ∨
      (s.act a).pollInit.rest? = some { pins := s.table.pinsIn .disabled } := by
  by_cases hm : ∃ timerFirst, a = .move .pollInit timerFirst
  · obtain ⟨timerFirst, rfl⟩ := hm
    change s.movePollInit.pollInit.pending = true ∨
      s.movePollInit.pollInit.rest? = some { pins := s.table.pinsIn .disabled }
    unfold movePollInit
    split
    · rename_i rest _
      left
      split
      · have hkept := congrArg (fun b => b.pollInit.pending)
          ((backlog_finishRun (s.pollInitPass rest.pins) .pollInit).trans
            (congrArg (fun b => Backlog.withLane b .pollInit Lane.finish)
              (s.backlog_pollInitPass rest.pins)))
        exact hkept.trans h
      · exact h
    · split
      · rename_i w hs
        exact .inl ((Work.pending_looking hs).trans h)
      · exact .inr rfl
  · exact .inl (queued_act ha (fun timerFirst hmove => hm ⟨timerFirst, hmove⟩) h)

/-- What is due is done or dropped, or it stays due. -/
theorem InitDue.act (h : s.InitDue) (ha : a.drops = false) (hread : s.endedReading a = none) :
    (s.act a).InitDue := by
  rcases h with hqueued | hrunning
  · exact (queued_or_reads hqueued ha).imp_right Option.isSome_of_eq_some
  · exact .inr (rest?_act hrunning ha hread)

/-- A poll-init run is due only after an initialization or a change of forced polling. -/
theorem InitDue.of_act (h : (s.act a).InitDue) :
    s.InitDue ∨ a = .init ∨ ∃ on, a = .forcePolling on := by
  rcases h with hqueued | hrunning
  · exact (queued_pollInit hqueued).imp_left .inl
  · left
    have hflight {disabled : PinSet} (h : s.watch.glimpse = some disabled) : s.InitDue :=
      .inr ((isSome_glimpse s).symm.trans (Option.isSome_of_eq_some h))
    have he := s.effect_act a
    obtain ⟨disabled, hglimpse⟩ :=
      Option.isSome_iff_exists.mp ((isSome_glimpse (s.act a)).trans hrunning)
    generalize (s.act a).watch = w at he hglimpse
    cases he with
    | interrupts _ =>
      obtain ⟨stats, hw⟩ := fixed_foldl_interrupted (s.interruptsOf a) s.watch
      rw [hw] at hglimpse
      exact hflight hglimpse
    | glimpse hclaimed =>
      have hseek : s.pollInit.seek = (s.pollInit.seek.1, .claimed) := Prod.ext rfl hclaimed
      exact .inl (Work.seek_claimed hseek).2.1
    | reinitialization _ => cases hglimpse
    | cancellation recovery run _ =>
      cases run with
      | true => cases hglimpse
      | false => exact hflight hglimpse
    | _ => exact hflight hglimpse

theorem pollForced_act (h : (s.act a).pollForced = true) :
    s.pollForced = true ∨ ∃ on, a = .forcePolling on := by
  have he := s.effect_act a
  have hforced : (s.act a).watch.forced = true := h
  generalize (s.act a).watch = w at he hforced
  cases he with
  | interrupts _ =>
    obtain ⟨stats, hw⟩ := fixed_foldl_interrupted (s.interruptsOf a) s.watch
    rw [hw] at hforced
    exact .inl hforced
  | init => cases hforced
  | forcePolling on => exact .inr ⟨on, rfl⟩
  | _ => exact .inl hforced

end Due

end Controller

end HotplugDetect
