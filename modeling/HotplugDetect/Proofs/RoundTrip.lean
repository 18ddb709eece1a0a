import HotplugDetect.Proofs.Outputs
import Mathlib.Data.List.Infix

/-! # From a storm back to the initial modes

After an initialization every output is watched in its initial mode. A storm that is handed over to
polling and the recovery that follows bring an output on the pin back to this mode, with two
exceptions: one stream of a shared link is switched to polling and never returns, and a recovery
listens to an output without a preference of its own also where nothing can be heard.
-/

namespace HotplugDetect

/-- An action that neither initializes, nor forces polling, nor changes a pin by hand, nor drops
work. -/
def Action.ordinary : Action → Bool
  | .init | .forcePolling _ | .disable _ | .enable _ => false
  | a => !a.drops

theorem Action.drops_of_ordinary {a : Action} (h : a.ordinary = true) : a.drops = false := by
  cases a <;> first | rfl | cases h

theorem Action.ne_of_ordinary {a : Action} (h : a.ordinary = true) :
    a ≠ .init ∧ ∀ p, a ≠ .enable p := by
  constructor
  · rintro rfl
    cases h
  · rintro p rfl
    cases h

theorem Connector.polled_reinitialized_of_none {σ : Type} (c : Connector σ)
    (hasHotplug forced : Bool) {disabled : PinSet} (h : ∀ p, disabled.contains p = false) :
    (c.reinitialized hasHotplug forced disabled).polled = c.initialMode hasHotplug forced := by
  have hon : c.isOn disabled = false := by
    unfold isOn
    cases c.pin with
    | none => rfl
    | some p => exact h p
  unfold reinitialized staysPolling
  rw [hon, Bool.and_false]
  rfl

theorem forall₂_comp {α β γ : Type} {R : α → β → Prop} {S : β → γ → Prop} {T : α → γ → Prop}
    (h : ∀ x y z, R x y → S y z → T x z) {xs : List α} {ys : List β} {zs : List γ}
    (hxy : List.Forall₂ R xs ys) (hyz : List.Forall₂ S ys zs) : List.Forall₂ T xs zs := by
  induction hxy generalizing zs with
  | nil =>
    cases hyz
    exact .nil
  | cons hx _ ih =>
    cases hyz with
    | cons hz hzs => exact .cons (h _ _ _ hx hz) (ih hzs)

def Connector.On {σ : Type} (c : Connector σ) (P : Pin → Prop) : Prop := ∃ p, c.pin = some p ∧ P p

theorem Connector.on_iff {σ : Type} {c : Connector σ} {p : Pin} (h : c.pin = some p)
    {P : Pin → Prop} : c.On P ↔ P p := by
  constructor
  · rintro ⟨q, hq, hP⟩
    obtain rfl : p = q := Option.some_inj.mp (h.symm.trans hq)
    exact hP
  · exact fun hP => ⟨p, h, hP⟩

theorem Connector.On.isSome {σ : Type} {c : Connector σ} {P : Pin → Prop} (h : c.On P) :
    c.pin.isSome = true := by
  obtain ⟨p, hp, -⟩ := h
  exact Option.isSome_of_eq_some hp

/-- What has become of a connector since the time of `c`: `handed` says that a storm on its pin was
handed over to polling, and `marked` that the pin has not recovered since. -/
structure Tracked (handed marked : Prop) (c c' : Connector Unit) : Prop where

  same : c'.name = c.name ∧ c'.pin = c.pin ∧ c'.multiStream = c.multiStream ∧
    c'.preference = c.preference

  spared : ¬handed → c'.polled = c.polled

  stream : c.multiStream = true → handed →
    c'.polled = if c.polled = .hpd then .connectDisconnect else c.polled

  restored : c.multiStream = false → handed → ¬marked → c'.polled = .restored c.preference

namespace Tracked

variable {handed marked handed' marked' : Prop} {c d : Connector Unit} {p : Pin}

theorem self (h : ¬handed) (c : Connector Unit) : Tracked handed marked c c :=
  ⟨⟨rfl, rfl, rfl, rfl⟩, fun _ => rfl, fun _ hp => absurd hp h, fun _ hp => absurd hp h⟩

theorem switched (h : Tracked handed marked c d) (hp : d.pin = some p) (hnow : handed')
    (hmark : marked') : Tracked handed' marked' c (d.switched (.ofList [p])) := by
  obtain ⟨hname, hpin, hstreams, hprefers⟩ := d.fixed_switched (.ofList [p])
  obtain ⟨hname', hpin', hstreams', hprefers'⟩ := h.same
  refine ⟨⟨hname.trans hname', hpin.trans hpin', hstreams.trans hstreams',
    hprefers.trans hprefers'⟩, fun hnot => absurd hnow hnot, fun hstream _ => ?_,
    fun _ _ hnot => absurd hmark hnot⟩
  rw [Connector.polled_switched_own hp]
  -- A stream that was switched before does not listen, and is left as it is.
  by_cases hbefore : handed
  · rw [h.stream hstream hbefore]
    by_cases hc : c.polled = .hpd
    · rw [if_pos hc]
      rfl
    · rw [if_neg hc, if_neg hc]
  · rw [h.spared hbefore]

theorem returned (h : Tracked handed marked c d) (hp : d.pin = some p) (hbefore : handed)
    (hnow : handed') : Tracked handed' marked' c (d.returned (· = p)) := by
  obtain ⟨hname, hpin, hstreams, hprefers⟩ := d.fixed_returned (· = p)
  obtain ⟨hname', hpin', hstreams', hprefers'⟩ := h.same
  refine ⟨⟨hname.trans hname', hpin.trans hpin', hstreams.trans hstreams',
    hprefers.trans hprefers'⟩, fun hnot => absurd hnow hnot, fun hstream _ => ?_,
    fun hstream _ _ => ?_⟩
  · rw [Connector.returned_of_stream (hstreams'.trans hstream)]
    exact h.stream hstream hbefore
  · rw [Connector.polled_returned hp (hstreams'.trans hstream), hprefers']

theorem kept (h : Tracked handed marked c d) (hhanded : handed' ↔ handed)
    (hmarked : marked → marked') : Tracked handed' marked' c d :=
  ⟨h.same, fun hnot => h.spared (hhanded.not.mp hnot),
    fun hstream hnow => h.stream hstream (hhanded.mp hnow),
    fun hstream hnow hnot => h.restored hstream (hhanded.mp hnow) (mt hmarked hnot)⟩

/-- What has become of a connector that was in its initial mode, when its pin has recovered. -/
theorem outcome (h : Tracked handed False c d) {hasHotplug : Bool}
    (hinit : c.polled = c.initialMode hasHotplug false) (hpin : handed → c.pin.isSome = true) :
    d.name = c.name ∧ (¬handed → d.polled = c.polled) ∧
      (handed → d.polled =
        if c.multiStream = true ∧ c.preference = .hpd then .connectDisconnect
        else if c.multiStream = false ∧ c.preference = .unset ∧ hasHotplug = false then .hpd
        else c.polled) := by
  refine ⟨h.same.1, h.spared, fun hhanded => ?_⟩
  unfold Connector.initialMode at hinit
  rw [hpin hhanded] at hinit
  cases hstream : c.multiStream with
  | true =>
    rw [h.stream hstream hhanded]
    simp_all
  | false =>
    rw [h.restored hstream hhanded not_false]
    cases hprefers : c.preference <;> cases hasHotplug <;>
      simp_all [PollMode.restored]

end Tracked

namespace Controller

variable {ρ : Type} [Probe ρ]

section Initialization

variable {s : Controller ρ} {a : Action}

/-- The initial modes are set, or a poll-init run is on its way that will set them. -/
structure Initializing (s : Controller ρ) : Prop where

  unforced : s.pollForced = false

  modes : s.queued .pollInit = true ∨
    (∀ disabled, s.watch.glimpse = some disabled → ∀ p, disabled.contains p = false) ∧
      (s.pollInit.rest?.isSome = true ∨
        ∀ c ∈ s.watch.connectors, c.polled = c.initialMode s.caps.hasHotplug false)

theorem unforced_act (h : s.pollForced = false) (ha : a.ordinary = true) :
    (s.act a).pollForced = false := by
  rw [← Bool.not_eq_true]
  intro hforced
  rcases pollForced_act hforced with hbefore | ⟨on, rfl⟩
  · rw [h] at hbefore
    cases hbefore
  · cases ha

/-- As long as every pin is enabled, only poll-init runs set poll modes. -/
theorem turn_of_enabled (henabled : ∀ p, s.table.state p = .enabled)
    {c c' : Connector Unit} (h : s.Turn a c c') :
    c' = c ∧ s.endedReading a = none ∨ ∃ disabled, s.endedReading a = some disabled ∧
      c' = c.reinitialized s.caps.hasHotplug s.pollForced disabled := by
  cases h with
  | reinitialized hread => exact .inr ⟨_, hread, rfl⟩
  | @switched p _ _ hm =>
    rw [not_mitigates (by rw [henabled p]; decide)] at hm
    cases hm
  | @returned p _ _ hf =>
    have hdisabled : s.table.state p = .disabled := congrArg Prod.fst hf.2.1
    rw [henabled p] at hdisabled
    cases hdisabled
  | kept hread _ => exact .inl ⟨rfl, hread⟩

omit [Probe ρ] in
theorem contains_pinsIn_disabled (henabled : ∀ p, s.table.state p = .enabled) (p : Pin) :
    (s.table.pinsIn .disabled).contains p = false := by
  rw [PinTable.contains_pinsIn, henabled p]
  rfl

theorem Initializing.act (h : s.Initializing) (hs : s.watch.Sound) (ha : a.ordinary = true)
    (henabled : ∀ p, s.table.state p = .enabled) : (s.act a).Initializing := by
  have hdrops := Action.drops_of_ordinary ha
  refine ⟨unforced_act h.unforced ha, ?_⟩
  rcases h.modes with hqueued | ⟨hread, hmodes⟩
  · refine (queued_or_reads hqueued hdrops).imp_right fun hreads => ?_
    refine ⟨fun disabled hd p => ?_, .inl (Option.isSome_of_eq_some hreads)⟩
    rw [watch, hreads] at hd
    obtain rfl := Option.some_inj.mp hd
    exact contains_pinsIn_disabled henabled p
  · right
    constructor
    · intro disabled hd p
      rcases (s.effect_act a).glimpse_eq_some hd with hbefore | ⟨-, rfl⟩
      · exact hread disabled hbefore p
      · exact contains_pinsIn_disabled henabled p
    · have hhotplug : (s.act a).caps.hasHotplug = s.caps.hasHotplug := (s.effect_act a).fixed.1
      rw [hhotplug]
      cases hended : s.endedReading a with
      | some disabled =>
        -- The run that ends read that no pin is disabled, so no connector is kept on polling.
        right
        intro c' hc'
        obtain ⟨c, hc, hturn⟩ := turn_of_mem hs a hc'
        obtain ⟨-, hnone⟩ | ⟨read, hsome, rfl⟩ := turn_of_enabled henabled hturn
        · rw [hended] at hnone
          cases hnone
        · obtain ⟨-, hglimpse⟩ := endedReading_eq_some hsome
          rw [h.unforced]
          exact c.polled_reinitialized_of_none _ _ (hread read hglimpse)
      | none =>
        refine hmodes.imp (fun hrunning => rest?_act hrunning hdrops hended) fun hmodes c' hc' => ?_
        obtain ⟨c, hc, hturn⟩ := turn_of_mem hs a hc'
        obtain ⟨rfl, -⟩ | ⟨read, hsome, -⟩ := turn_of_enabled henabled hturn
        · exact hmodes c' hc
        · rw [hended] at hsome
          cases hsome

theorem initializing_init (s : Controller ρ) : (s.act .init).Initializing := by
  have hpending := congrArg (fun b => b.pollInit.pending) s.backlog_init
  exact ⟨congrArg Watch.forced s.watch_init, .inl (hpending.trans (Work.pending_queue _))⟩

theorem initializing_run (hs : s.watch.Sound) (h : s.Initializing) {ms : List Action}
    (hms : ∀ m ∈ ms, m.ordinary = true)
    (henabled : ∀ ns, ns <+: ms → ∀ p, (s.run ns).table.state p = .enabled) :
    (s.run ms).Initializing := by
  induction ms using List.reverseRecOn with
  | nil => exact h
  | append_singleton ms m ih =>
    have hbefore := ih (fun n hn => hms n (List.mem_append_left _ hn))
      fun ns hns => henabled ns (hns.trans (List.prefix_append ms [m]))
    rw [run_concat]
    have hm := hms m (List.mem_append_right _ (List.mem_singleton_self m))
    exact hbefore.act (sound_run hs ms) hm (henabled ms (List.prefix_append ms [m]))

omit [Probe ρ] in
theorem Initializing.polled (h : s.Initializing) (hidle : ¬s.InitDue) {c : Connector Unit}
    (hc : c ∈ s.watch.connectors) : c.polled = c.initialMode s.caps.hasHotplug false := by
  rcases h.modes with hqueued | ⟨-, hrunning | hmodes⟩
  · exact absurd (.inl hqueued) hidle
  · exact absurd (.inr hrunning) hidle
  · exact hmodes c hc

end Initialization

/-- A storm on the pin is handed over to polling in the course of a run. -/
def HandedOver (s : Controller ρ) (as : List Action) (p : Pin) : Prop :=
  ∃ x ∈ s.trail as, x.1.mitigates p x.2 = true

/-- A storm on the pin was handed over to polling, and the pin has not recovered since. -/
def Marked (s : Controller ρ) (p : Pin) : Prop := (s.table.get p).mitigated = true

section Recovery

variable {s t : Controller ρ} {p : Pin} {as : List Action} {a : Action}

theorem not_handedOver_nil : ¬s.HandedOver [] p := by
  rintro ⟨x, hx, -⟩
  cases hx

theorem handedOver_concat :
    s.HandedOver (as ++ [a]) p ↔ s.HandedOver as p ∨ (s.run as).mitigates p a = true := by
  unfold HandedOver
  rw [trail_concat]
  simp only [List.mem_append, List.mem_singleton, or_and_right, exists_or, exists_eq_left]

theorem Marked.of_mitigates (h : t.mitigates p a = true) : (t.act a).Marked p := by
  unfold mitigates at h
  split at h
  · exact ((Bool.and_eq_true _ _).mp h).2
  · cases h

omit [Probe ρ] in
theorem Marked.phase (h : t.Marked p) (hs : t.watch.Sound) : t.phase p = (.disabled, true) :=
  Prod.ext (hs p h) h

theorem Marked.of_act (h : (t.act a).Marked p) (hs : t.watch.Sound) :
    t.Marked p ∨ t.mitigates p a = true := by
  refine ((t.effect_act a).mitigated hs h).imp_right ?_
  rintro ⟨hstate, ⟨timerFirst, rfl⟩, -⟩
  exact mitigates_move hstate h

theorem Marked.act (h : t.Marked p) (hs : t.watch.Sound) (ha : a ≠ .init ∧ a ≠ .enable p)
    (hf : ¬t.Frees p a) : (t.act a).Marked p := by
  have hphase := h.phase hs
  exact congrArg Prod.snd
    (phase_act_of_mitigated hs hphase ha fun hr => hf ⟨hr.2, hphase, hr.1⟩)

theorem tracked_act {c d e : Connector Unit}
    (h : Tracked (c.On (s.HandedOver as)) (c.On (s.run as).Marked) c d)
    (hturn : (s.run as).Turn a d e) (hs : (s.run as).watch.Sound) (hidle : ¬(s.run as).InitDue)
    (hmarked : ∀ p, (s.run as).Marked p → s.HandedOver as p)
    (ha : a ≠ .init ∧ ∀ p, a ≠ .enable p) :
    Tracked (c.On (s.HandedOver (as ++ [a]))) (c.On (s.run (as ++ [a])).Marked) c e := by
  have hpins : d.pin = c.pin := h.same.2.1
  rw [run_concat]
  cases hturn with
  | reinitialized hread =>
    obtain ⟨-, hglimpse⟩ := endedReading_eq_some hread
    exact absurd (.inr ((isSome_glimpse _).symm.trans (Option.isSome_of_eq_some hglimpse))) hidle
  | @switched p _ hp hm =>
    have hpin : c.pin = some p := hpins.symm.trans hp
    exact h.switched hp ((Connector.on_iff hpin).mpr (handedOver_concat.mpr (.inr hm)))
      ((Connector.on_iff hpin).mpr (Marked.of_mitigates hm))
  | @returned p _ hp hf =>
    have hpin : c.pin = some p := hpins.symm.trans hp
    have hbefore := hmarked p (congrArg Prod.snd hf.2.1)
    exact h.returned hp ((Connector.on_iff hpin).mpr hbefore)
      ((Connector.on_iff hpin).mpr (handedOver_concat.mpr (.inl hbefore)))
  | kept _ hnone =>
    refine h.kept ⟨?_, ?_⟩ ?_
    · rintro ⟨p, hp, hhanded⟩
      have hm := (hnone p (hpins.trans hp)).1
      rw [handedOver_concat, hm] at hhanded
      exact ⟨p, hp, hhanded.resolve_right (by decide)⟩
    · rintro ⟨p, hp, hhanded⟩
      exact ⟨p, hp, handedOver_concat.mpr (.inl hhanded)⟩
    · rintro ⟨p, hp, hmark⟩
      exact ⟨p, hp, hmark.act hs ⟨ha.1, ha.2 p⟩ (hnone p (hpins.trans hp)).2⟩

theorem idle_run (h : ¬s.InitDue) (has : ∀ a ∈ as, a.ordinary = true) : ¬(s.run as).InitDue := by
  induction as using List.reverseRecOn with
  | nil => exact h
  | append_singleton as a ih =>
    rw [run_concat]
    intro hdue
    have ha := has a (List.mem_append_right _ (List.mem_singleton_self a))
    rcases hdue.of_act with hbefore | rfl | ⟨on, rfl⟩
    · exact ih (fun b hb => has b (List.mem_append_left _ hb)) hbefore
    · cases ha
    · cases ha

theorem handedOver_of_marked (hs : s.watch.Sound) (h : ¬s.Marked p) (hm : (s.run as).Marked p) :
    s.HandedOver as p := by
  induction as using List.reverseRecOn with
  | nil => exact absurd hm h
  | append_singleton as a ih =>
    rw [run_concat] at hm
    rw [handedOver_concat]
    exact (hm.of_act (sound_run hs as)).imp_left ih

theorem phase_ne_byHand (hs : s.watch.Sound) (h : s.phase p ≠ (.disabled, false))
    (has : ∀ a ∈ as, a.ordinary = true) : (s.run as).phase p ≠ (.disabled, false) := by
  induction as using List.reverseRecOn with
  | nil => exact h
  | append_singleton as a ih =>
    have hbefore := ih fun b hb => has b (List.mem_append_left _ hb)
    rw [run_concat]
    rcases pinChange_act (sound_run hs as) a p with heq | hc
    · rw [heq]
      exact hbefore
    · generalize ((s.run as).act a).phase p = after at hc ⊢
      rintro rfl
      generalize (s.run as).phase p = before at hc
      cases hc with
      | disable => cases has _ (List.mem_append_right _ (List.mem_singleton_self _))

theorem tracked_run (hs : s.watch.Sound) (hidle : ¬s.InitDue) (hunmarked : ∀ p, ¬s.Marked p)
    (has : ∀ a ∈ as, a.ordinary = true) :
    List.Forall₂ (fun c c' => Tracked (c.On (s.HandedOver as)) (c.On (s.run as).Marked) c c')
      s.watch.connectors (s.run as).watch.connectors := by
  induction as using List.reverseRecOn with
  | nil =>
    refine List.forall₂_same.mpr fun c _ => .self ?_ c
    rintro ⟨p, -, hp⟩
    exact not_handedOver_nil hp
  | append_singleton as a ih =>
    have hbefore (b) (hb : b ∈ as) := has b (List.mem_append_left _ hb)
    have hsound := sound_run hs as
    have hturns := turns_act hsound a
    rw [← run_concat] at hturns
    refine forall₂_comp (fun c d e hc hturn => ?_) (ih hbefore) hturns
    exact tracked_act hc hturn hsound (idle_run hidle hbefore)
      (fun p => handedOver_of_marked hs (hunmarked p))
      (Action.ne_of_ordinary (has a (List.mem_append_right _ (List.mem_singleton_self a))))

theorem state_recoveryPass (hr : t.RecoveryPass a)
    (h : t.table.state p = .enabled ∨ t.phase p = (.disabled, true) ∧ t.eligible p = true) :
    (t.act a).table.state p = .enabled := by
  rcases h with henabled | ⟨hphase, heligible⟩
  · obtain ⟨w, hw, -, -, hstats⟩ := hr.watch
    have hstate : (t.act a).table.state p = (w.recovered.stats p).state :=
      congrArg (fun w => (w.stats p).state) hw
    rw [hstate]
    rcases w.stats_recovered p with ⟨-, hkept⟩ | ⟨-, hfreed⟩
    · rw [hkept]
      exact (hstats p).1.trans henabled
    · rw [hfreed]
      rfl
  · exact congrArg Prod.fst (phase_recoveryPass hphase heligible hr)

omit [Probe ρ] in
theorem ne_of_recoveryPass (hr : t.RecoveryPass a) : a ≠ .init ∧ ∀ p, a ≠ .enable p := by
  cases hr with
  | timer _ => exact ⟨Action.noConfusion, fun _ => Action.noConfusion⟩
  | knob hk =>
    constructor
    · rintro rfl
      cases hk
    · rintro p rfl
      cases hk
  | resume _ => exact ⟨Action.noConfusion, fun _ => Action.noConfusion⟩

end Recovery

/-- An initialization is over: all that it asks for is done, and no pin stormed meanwhile. -/
structure Initialized (settings : Settings) (s : Controller ρ) : Prop where

  reached : ∃ (connectors : ConnectorList ρ) (ports : Port → Option PulseHandler)
    (as ms : List Action), let t := ((ofSettings settings connectors ports).run as).act .init
    s = t.run ms ∧ (∀ m ∈ ms, m.ordinary = true) ∧
      ∀ ns, ns <+: ms → ∀ p, (t.run ns).table.state p = .enabled

  idle : ¬s.InitDue

section RoundTrips

variable {settings : Settings} {s : Controller ρ} {as : List Action} {a : Action}

namespace Initialized

theorem sound (h : s.Initialized settings) : s.watch.Sound := by
  obtain ⟨connectors, ports, as, ms, rfl, -⟩ := h.reached
  rw [← run_concat]
  exact sound_run (sound_run (sound_ofSettings settings connectors ports) _) ms

theorem enabled (h : s.Initialized settings) (p : Pin) : s.table.state p = .enabled := by
  obtain ⟨connectors, ports, as, ms, rfl, -, henabled⟩ := h.reached
  exact henabled ms (List.prefix_refl ms) p

theorem hasHotplug (h : s.Initialized settings) :
    s.caps.hasHotplug = settings.platform.hasHotplug := by
  obtain ⟨connectors, ports, as, ms, rfl, -⟩ := h.reached
  rw [← run_concat, ← run_append]
  exact (fixed_run (ofSettings settings connectors ports) _).1

theorem polled (h : s.Initialized settings) {c : Connector Unit} (hc : c ∈ s.watch.connectors) :
    c.polled = c.initialMode settings.platform.hasHotplug false := by
  have hinit : s.Initializing := by
    obtain ⟨connectors, ports, as, ms, rfl, hms, henabled⟩ := h.reached
    refine initializing_run ?_ (initializing_init _) hms henabled
    rw [← run_concat]
    exact sound_run (sound_ofSettings settings connectors ports) _
  rw [← h.hasHotplug]
  exact hinit.polled h.idle hc

end Initialized

omit [Probe ρ] in
theorem unmarked_of_enabled (hs : s.watch.Sound) {p : Pin} (h : s.table.state p = .enabled) :
    ¬s.Marked p := by
  intro hm
  have hdisabled : s.table.state p = .disabled := hs p hm
  rw [h] at hdisabled
  cases hdisabled

/-- A recovery that covers all pins that are disabled leaves all pins enabled. -/
theorem state_recovered (hs : s.Initialized settings) (has : ∀ a ∈ as, a.ordinary = true)
    (hr : (s.run as).RecoveryPass a) (hcalm : ∀ p, (s.run as).table.state p ≠ .autoDisabled)
    (heligible : ∀ p, (s.run as).table.state p = .disabled → s.eligible p = true) (p : Pin) :
    ((s.run as).act a).table.state p = .enabled := by
  refine state_recoveryPass hr ?_
  cases hstate : (s.run as).table.state p with
  | enabled => exact .inl rfl
  | autoDisabled => exact absurd hstate (hcalm p)
  | disabled =>
    have hstart : s.phase p ≠ (.disabled, false) := fun hp =>
      absurd ((hs.enabled p).symm.trans (congrArg Prod.fst hp)) (by decide)
    have hmark : ((s.run as).table.get p).mitigated = true := by
      rw [← Bool.not_eq_false]
      exact fun hm => phase_ne_byHand hs.sound hstart has (Prod.ext hstate hm)
    have hfixed : (s.run as).eligible = s.eligible := (fixed_run s as).2.2.2
    rw [hfixed]
    exact .inr ⟨Prod.ext hstate hmark, heligible p hstate⟩

theorem tracked_recovered (hs : s.Initialized settings) (has : ∀ a ∈ as, a.ordinary = true)
    (hr : (s.run as).RecoveryPass a)
    (henabled : ∀ p, ((s.run as).act a).table.state p = .enabled) :
    List.Forall₂ (fun c c' => Tracked (c.On (s.HandedOver as)) False c c')
      s.watch.connectors ((s.run as).act a).watch.connectors := by
  have hsound := sound_run hs.sound as
  have hunmarked (p) := unmarked_of_enabled hs.sound (hs.enabled p)
  refine forall₂_comp (fun c d e hc hturn => ?_) (tracked_run hs.sound hs.idle hunmarked has)
    (turns_act hsound a)
  -- The last turn is the recovery, which hands nothing over and leaves no mark.
  refine (tracked_act hc hturn hsound (idle_run hs.idle has)
    (fun p => handedOver_of_marked hs.sound (hunmarked p)) (ne_of_recoveryPass hr)).kept ?_ ?_
  · simp only [Connector.On, handedOver_concat, not_mitigates_of_recoveryPass hr,
      Bool.false_eq_true, or_false]
  · rw [run_concat]
    rintro ⟨p, -, hm⟩
    exact unmarked_of_enabled (((s.run as).effect_act a).sound hsound) (henabled p) hm

/-- After an initialization pins storm, their storms are handed over to polling, and a recovery
follows that covers all of them. Then every pin is enabled again, and every connector is in the
mode in which it was before. The exceptions are on pins that stormed: one stream of a shared link
that listened stays on polling, and where nothing can be heard a connector without a preference of
its own listens. -/
theorem recovery_undoes_mitigation (hs : s.Initialized settings)
    (has : ∀ a ∈ as, a.ordinary = true) (hr : (s.run as).RecoveryPass a)
    (hcalm : ∀ p, (s.run as).table.state p ≠ .autoDisabled)
    (heligible : ∀ p, (s.run as).table.state p = .disabled → s.eligible p = true) :
    let t := (s.run as).act a
    (∀ p, t.table.state p = .enabled) ∧
      List.Forall₂ (fun c c' => c'.name = c.name ∧
        (¬c.On (s.HandedOver as) → c'.polled = c.polled) ∧
        (c.On (s.HandedOver as) → c'.polled =
          if c.multiStream = true ∧ c.preference = .hpd then .connectDisconnect
          else if c.multiStream = false ∧ c.preference = .unset ∧
            settings.platform.hasHotplug = false then .hpd
          else c.polled)) s.connectors t.connectors := by
  intro t
  have henabled := state_recovered hs has hr hcalm heligible
  have htracked := tracked_recovered hs has hr henabled
  have hinitial (c) (hc : c ∈ s.watch.connectors) := hs.polled hc
  have houtcome := ((List.forall₂_and_left _ _).mpr ⟨hinitial, htracked⟩).imp
    fun c c' h => h.2.outcome h.1 Connector.On.isSome
  exact ⟨henabled, List.forall₂_map_left_iff.mp (List.forall₂_map_right_iff.mp houtcome)⟩

end RoundTrips

def stormAndWait (p : Pin) : List Action :=
  Action.storm p ++ Action.serve .generic ++ Action.serve .reenable ++
    [.advance 120000, .move .reenable true]

def unequal : List (Connector Script) :=
  [.make "DP-1-1" (some .crt) .hpd true { answers := [], interrupt := ⟨∅, ∅⟩ },
    .make "VGA-1" (some .crt) .unset false { answers := [], interrupt := ⟨∅, ∅⟩ }]

/-- On a platform that hears nothing, both are in another mode after the recovery. -/
theorem recovered_otherwise :
    let settings : Settings := { platform := { hasHotplug := false } }
    let s := (ofSettings settings unequal fun _ => none).run
      (Action.boot ++ [.init] ++ Action.serve .pollInit)
    let t := s.run (stormAndWait .crt)
    s.AtRest ∧ s.Quiescent ∧ s.pollForced = false ∧ s.eligible .crt = true ∧
      s.connectors.map (·.polled) = [.hpd, .unset] ∧ t.phase .crt = (.disabled, true) ∧
      (t.reenable.seek t.now true).2 = .claimed ∧
      (t.act (.move .reenable true)).phase .crt = (.enabled, false) ∧
      (t.act (.move .reenable true)).connectors.map (·.polled) = [.connectDisconnect, .hpd] := by
  decide +kernel

theorem recovery_undoes_mitigation_display :
    let s := (((ofSettings {} [display] fun _ => none).run Action.boot).act .init).run
      (Action.serve .pollInit)
    let t := (s.run (stormAndWait .portB)).act (.move .reenable true)
    (∀ p, t.table.state p = .enabled) ∧
      List.Forall₂ (fun c c' => c'.polled = c.polled) s.connectors t.connectors := by
  intro s t
  have hcalm : ∀ ns ∈ (Action.serve .pollInit).inits, ∀ p ∈ Pin.all,
      ((((ofSettings {} [display] fun _ => none).run Action.boot).act .init).run ns).table.state p =
        .enabled := by
    decide +kernel
  have hstart : s.Initialized {} :=
    ⟨⟨[display], fun _ => none, Action.boot, Action.serve .pollInit, rfl, by decide, fun ns hns p =>
      hcalm ns ((List.mem_inits _ _).mpr hns) p p.mem_all⟩, by decide +kernel⟩
  have hheld : ∀ p ∈ Pin.all, (s.run (stormAndWait .portB)).table.state p ≠ .autoDisabled ∧
      s.eligible p = true := by
    decide +kernel
  have hpass : (s.run (stormAndWait .portB)).RecoveryPass (.move .reenable true) :=
    .timer (by decide +kernel)
  obtain ⟨henabled, houtcome⟩ := recovery_undoes_mitigation hstart (by decide) hpass
    (fun p => (hheld p p.mem_all).1) fun p _ => (hheld p p.mem_all).2
  refine ⟨henabled, ?_⟩
  have hown : ∀ c ∈ s.connectors, c.multiStream = false := by decide +kernel
  refine ((List.forall₂_and_left _ _).mpr ⟨hown, houtcome⟩).imp ?_
  rintro c c' ⟨hstream, -, hspared, hreturned⟩
  by_cases hon : c.On (s.HandedOver (stormAndWait .portB))
  · rw [hreturned hon, if_neg (by simp [hstream]), if_neg (by simp)]
  · exact hspared hon

end Controller

end HotplugDetect
