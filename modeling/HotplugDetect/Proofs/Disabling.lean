import HotplugDetect.Controller.Script
import HotplugDetect.Proofs.Lifecycle

/-! # Pins that are disabled by hand

A pin that is enabled when it is disabled by hand stays disabled until it is enabled by hand. A pin
that a storm holds is left as it is, and the recovery takes it for one of its own.
-/

namespace HotplugDetect.Controller

variable {ρ : Type} [Probe ρ] {s : Controller ρ} {p : Pin} {a : Action}

section Steps

def HandsOver (s : Controller ρ) (a : Action) : Prop :=
  s.generic.seek.2 = .claimed ∧ ∃ timerFirst, a = .move .generic timerFirst

theorem phase_disable (h : s.watch.Sound) :
    (s.act (.disable p)).phase p =
      if s.phase p = (.enabled, false) then (.disabled, false) else s.phase p := by
  have hw : (s.act (.disable p)).phase p = ((s.watch.disabled p).stats p).phase :=
    phase_of_watch (s.watch_disable p) p
  rw [hw]
  by_cases hs : (s.watch.stats p).state = .enabled
  · have hunmarked := (h p).unmarked (by rw [hs]; decide)
    have hphase : s.phase p = (.enabled, false) := Prod.ext hs hunmarked
    have hstats : (s.watch.disabled p).stats p = { s.watch.stats p with state := .disabled } :=
      if_pos ⟨rfl, hs⟩
    rw [if_pos hphase, hstats, PinStats.phase, hunmarked]
  · have hphase : s.phase p ≠ (.enabled, false) := fun hp => hs (congrArg Prod.fst hp)
    have hstats : (s.watch.disabled p).stats p = s.watch.stats p := if_neg fun hp => hs hp.2
    rw [if_neg hphase, hstats]
    rfl

theorem phase_act_of_disabled (h : s.watch.Sound) (hp : s.phase p = (.disabled, false))
    (ha : a ≠ .init ∧ a ≠ .enable p) : (s.act a).phase p = (.disabled, false) := by
  refine (phase_act_of_not h fun after hc => ?_).trans hp
  rw [hp] at hc
  cases hc with
  | enable => exact ha.2 rfl
  | init => exact ha.1 rfl

theorem phase_act_of_mitigated (h : s.watch.Sound) (hp : s.phase p = (.disabled, true))
    (ha : a ≠ .init ∧ a ≠ .enable p) (hr : ¬(s.eligible p = true ∧ s.RecoveryPass a)) :
    (s.act a).phase p = (.disabled, true) := by
  refine (phase_act_of_not h fun after hc => ?_).trans hp
  rw [hp] at hc
  cases hc with
  | recovery hpass heligible => exact hr ⟨heligible, hpass⟩
  | enable => exact ha.2 rfl
  | init => exact ha.1 rfl

theorem phase_act_of_storming (h : s.watch.Sound) (hp : s.phase p = (.autoDisabled, false))
    (ha : a ≠ .init ∧ a ≠ .enable p) (hg : ¬s.HandsOver a) :
    (s.act a).phase p = (.autoDisabled, false) := by
  refine (phase_act_of_not h fun after hc => ?_).trans hp
  rw [hp] at hc
  cases hc with
  | mitigation hs => exact hg ⟨hs, _, rfl⟩
  | enable => exact ha.2 rfl
  | init => exact ha.1 rfl

theorem phase_handsOver (h : s.watch.Sound) (hp : s.phase p = (.autoDisabled, false))
    (hg : s.HandsOver a) : (s.act a).phase p = (.disabled, true) := by
  obtain ⟨hs, timerFirst, rfl⟩ := hg
  have hleft := state_claim_generic hs timerFirst p
  rcases pinChange_act h (.move .generic timerFirst) p with hc | hc
  · rw [hp] at hc
    exact absurd (congrArg Prod.fst hc) hleft
  · rw [hp] at hc
    generalize (s.act (.move .generic timerFirst)).phase p = after at hc
    cases hc with
    | mitigation => rfl

theorem phase_recoveryPass (hp : s.phase p = (.disabled, true)) (he : s.eligible p = true)
    (hr : s.RecoveryPass a) : (s.act a).phase p = (.enabled, false) := by
  obtain ⟨w, hw, heligible, -, hstats⟩ := hr.watch
  obtain ⟨hstate, hmark⟩ := hstats p
  have hrecovers : w.recovers p = true := by
    rw [w.recovers_iff, hstate, hmark, heligible]
    exact ⟨congrArg Prod.fst hp, congrArg Prod.snd hp, he⟩
  rw [phase_of_watch hw p]
  rcases w.stats_recovered p with ⟨hnot, -⟩ | ⟨-, hfreed⟩
  · rw [hrecovers] at hnot
    cases hnot
  · rw [hfreed]
    rfl

end Steps

/-- The pin is enabled at some time of a run. -/
def EverEnabled (s : Controller ρ) (p : Pin) (as : List Action) : Prop :=
  ∃ bs, bs <+: as ∧ (s.run bs).table.state p = .enabled

section Runs

theorem everEnabled_nil : s.EverEnabled p [] ↔ (s.phase p).1 = .enabled := by
  constructor
  · rintro ⟨bs, hbs, h⟩
    obtain rfl := List.prefix_nil.mp hbs
    exact h
  · exact fun h => ⟨[], List.nil_prefix, h⟩

theorem everEnabled_cons {as : List Action} (hp : (s.phase p).1 ≠ .enabled) :
    s.EverEnabled p (a :: as) ↔ (s.act a).EverEnabled p as := by
  constructor
  · rintro ⟨bs, hbs, h⟩
    rcases List.prefix_cons_iff.mp hbs with rfl | ⟨bs, rfl, hbs⟩
    · exact absurd h hp
    · exact ⟨bs, (List.cons_prefix_cons.mp hbs).2, h⟩
  · rintro ⟨bs, hbs, h⟩
    exact ⟨a :: bs, List.cons_prefix_cons.mpr ⟨rfl, hbs⟩, h⟩

variable {as : List Action}

theorem phase_run_of_disabled (h : s.watch.Sound) (hp : s.phase p = (.disabled, false))
    (has : ∀ a ∈ as, a ≠ .init ∧ a ≠ .enable p) : (s.run as).phase p = (.disabled, false) := by
  induction as generalizing s with
  | nil => exact hp
  | cons a as ih =>
    obtain ⟨ha, hrest⟩ := List.forall_mem_cons.mp has
    exact ih ((s.effect_act a).sound h) (phase_act_of_disabled h hp ha) hrest

theorem everEnabled_iff_of_mitigated (h : s.watch.Sound) (hp : s.phase p = (.disabled, true))
    (has : ∀ a ∈ as, a ≠ .init ∧ a ≠ .enable p) :
    s.EverEnabled p as ↔
      s.eligible p = true ∧ ∃ x ∈ s.trail as, x.1.RecoveryPass x.2 := by
  induction as generalizing s with
  | nil =>
    simp [everEnabled_nil, hp, trail]
  | cons a as ih =>
    obtain ⟨ha, hrest⟩ := List.forall_mem_cons.mp has
    have hsound := (s.effect_act a).sound h
    have heligible : (s.act a).eligible = s.eligible := (s.effect_act a).fixed.2.2.2
    rw [everEnabled_cons (by simp [hp])]
    simp only [trail, List.exists_mem_cons_iff]
    by_cases hr : s.eligible p = true ∧ s.RecoveryPass a
    · have henabled := congrArg Prod.fst (phase_recoveryPass hp hr.1 hr.2)
      exact iff_of_true ⟨[], List.nil_prefix, henabled⟩ ⟨hr.1, .inl hr.2⟩
    · have hafter := phase_act_of_mitigated h hp ha hr
      rw [ih hsound hafter hrest, heligible]
      exact and_congr_right fun he => (or_iff_right fun hpass => hr ⟨he, hpass⟩).symm

/-- A storming pin waits for a generic run and for a recovery after it. -/
theorem everEnabled_iff_of_storming (h : s.watch.Sound) (hp : s.phase p = (.autoDisabled, false))
    (has : ∀ a ∈ as, a ≠ .init ∧ a ≠ .enable p) :
    s.EverEnabled p as ↔ s.eligible p = true ∧
      ∃ x y, [x, y].Sublist (s.trail as) ∧ x.1.HandsOver x.2 ∧ y.1.RecoveryPass y.2 := by
  induction as generalizing s with
  | nil =>
    simp [everEnabled_nil, hp, trail]
  | cons a as ih =>
    obtain ⟨ha, hrest⟩ := List.forall_mem_cons.mp has
    have hsound := (s.effect_act a).sound h
    have heligible : (s.act a).eligible = s.eligible := (s.effect_act a).fixed.2.2.2
    rw [everEnabled_cons (by simp [hp])]
    by_cases hg : s.HandsOver a
    · have hafter := phase_handsOver h hp hg
      rw [everEnabled_iff_of_mitigated hsound hafter hrest, heligible]
      refine and_congr_right fun _ => ⟨?_, ?_⟩
      · rintro ⟨y, hy, hr⟩
        exact ⟨(s, a), y, List.cons_sublist_cons.mpr (List.singleton_sublist.mpr hy), hg, hr⟩
      · rintro ⟨x, y, hxy, -, hr⟩
        refine ⟨y, ?_, hr⟩
        rcases List.sublist_cons_iff.mp hxy with hxy | ⟨r, hr, hy⟩
        · exact hxy.subset (by simp)
        · cases hr
          exact List.singleton_sublist.mp hy
    · have hafter := phase_act_of_storming h hp ha hg
      rw [ih hsound hafter hrest, heligible]
      refine and_congr_right fun _ => ⟨?_, ?_⟩
      · rintro ⟨x, y, hxy, hx, hr⟩
        exact ⟨x, y, hxy.cons _, hx, hr⟩
      · rintro ⟨x, y, hxy, hx, hr⟩
        rcases List.sublist_cons_iff.mp hxy with hxy | ⟨r, heq, -⟩
        · exact ⟨x, y, hxy, hx, hr⟩
        · cases heq
          exact absurd hx hg

end Runs

/-- What becomes of a pin that is disabled by hand, as long as it is not enabled by hand. An enabled
pin stays disabled for good. A pin that a storm holds is enabled again by the first recovery after
the storm was handed over to polling, if the recovery covers it. -/
theorem everEnabled_disable_iff (settings : Settings) (connectors : ConnectorList ρ)
    (ports : Port → Option PulseHandler) (as cs : List Action) (p : Pin)
    (hcs : ∀ c ∈ cs, c ≠ .init ∧ c ≠ .enable p) :
    let s := (ofSettings settings connectors ports).run as
    let t := s.act (.disable p)
    (s.phase p = (.enabled, false) ∨ s.phase p = (.disabled, false) →
      (t.run cs).phase p = (.disabled, false)) ∧
    (s.phase p = (.disabled, true) →
      (t.EverEnabled p cs ↔ s.eligible p = true ∧ ∃ x ∈ t.trail cs, x.1.RecoveryPass x.2)) ∧
    (s.phase p = (.autoDisabled, false) →
      (t.EverEnabled p cs ↔ s.eligible p = true ∧
        ∃ x y, [x, y].Sublist (t.trail cs) ∧ x.1.HandsOver x.2 ∧ y.1.RecoveryPass y.2)) := by
  intro s t
  have hsound : s.watch.Sound := sound_run (sound_ofSettings settings connectors ports) as
  have hnext : t.watch.Sound := (s.effect_act (.disable p)).sound hsound
  have heligible : t.eligible = s.eligible := (s.effect_act (.disable p)).fixed.2.2.2
  have hphase :
      t.phase p = if s.phase p = (.enabled, false) then (.disabled, false) else s.phase p :=
    phase_disable hsound
  refine ⟨?_, fun hp => ?_, fun hp => ?_⟩
  · rintro (hp | hp)
    · rw [hp, if_pos rfl] at hphase
      exact phase_run_of_disabled hnext hphase hcs
    · rw [hp, if_neg (by decide)] at hphase
      exact phase_run_of_disabled hnext hphase hcs
  · rw [hp, if_neg (by decide)] at hphase
    rw [everEnabled_iff_of_mitigated hnext hphase hcs, heligible]
  · rw [hp, if_neg (by decide)] at hphase
    rw [everEnabled_iff_of_storming hnext hphase hcs, heligible]

def storming : List Action := Action.boot ++ Action.storm .crt

def mitigating : List Action :=
  [.move .generic true, .move .generic true, .move .generic true, .move .reenable true]

def awaiting : List Action :=
  [.advance 120000, .move .reenable true, .move .reenable true]

/-- The pin is disabled by hand before and after its storm is handed over to polling, and is enabled
again all the same. -/
theorem disabled_reenabled :
    let s := (ofSettings {} ([] : ConnectorList Script) fun _ => none).run storming
    let t := (s.act (.disable .crt)).run mitigating
    s.phase .crt = (.autoDisabled, false) ∧ t.phase .crt = (.disabled, true) ∧
      ((t.act (.disable .crt)).run awaiting).phase .crt = (.enabled, false) := by
  decide +kernel

theorem everEnabled_disable_iff_awaiting :
    let s : Controller Script := ofSettings {} [] fun _ => none
    let t := (s.run (storming ++ mitigating)).act (.disable .crt)
    let u := (s.run storming).act (.disable .crt)
    ((s.act (.disable .crt)).run awaiting).phase .crt = (.disabled, false) ∧
      (∃ x ∈ t.trail awaiting, x.1.RecoveryPass x.2) ∧
      ∃ x y, [x, y].Sublist (u.trail (mitigating ++ awaiting)) ∧ x.1.HandsOver x.2 ∧
        y.1.RecoveryPass y.2 := by
  intro s t u
  have hkept : ∀ c ∈ mitigating ++ awaiting, c ≠ .init ∧ c ≠ .enable .crt := by
    simp [mitigating, awaiting]
  have hawaiting : ∀ c ∈ awaiting, c ≠ .init ∧ c ≠ .enable .crt :=
    fun c hc => hkept c (List.mem_append_right _ hc)
  refine ⟨?_, ?_, ?_⟩
  · exact (everEnabled_disable_iff {} ([] : ConnectorList Script) (fun _ => none) [] awaiting .crt
      hawaiting).1 (.inl (by decide +kernel))
  · exact ((everEnabled_disable_iff {} ([] : ConnectorList Script) (fun _ => none)
      (storming ++ mitigating) awaiting .crt hawaiting).2.1 (by decide +kernel)).mp
        ⟨awaiting, List.prefix_refl _, by decide +kernel⟩ |>.2
  · exact ((everEnabled_disable_iff {} ([] : ConnectorList Script) (fun _ => none) storming
      (mitigating ++ awaiting) .crt hkept).2.2 (by decide +kernel)).mp
        ⟨mitigating ++ awaiting, List.prefix_refl _, by decide +kernel⟩ |>.2

end HotplugDetect.Controller
