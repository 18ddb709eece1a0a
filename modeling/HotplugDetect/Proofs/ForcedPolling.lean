import HotplugDetect.Proofs.Outputs
import HotplugDetect.Proofs.Shutdown

/-! # Outputs while polling is forced

A poll-init run knows whether polling is forced, and a recovery does not. So an output whose pin
recovers listens to it again although polling is forced, and so does one that was set to listen
before polling was forced, if the poll-init run that would have changed it was dropped.
-/

namespace HotplugDetect.Controller

variable {ρ : Type} [Probe ρ]

/-- A poll-init run ends, or a storm on the pin is handed over to polling. -/
def Rewrites (s : Controller ρ) (p : Pin) (a : Action) : Prop :=
  (s.endedReading a).isSome = true ∨ s.mitigates p a = true

/-- A cancellation drops the poll-init run that is due. -/
def DropsInit (s : Controller ρ) (a : Action) : Prop :=
  a.drops = true ∧ s.InitDue ∧ ¬(s.act a).InitDue

/-- An output on the pin that has no preference of its own was set to listen last: by a recovery,
or by a poll-init run that ended when polling was not forced and did not know the pin as a
disabled one. -/
def ListensLast (s : Controller ρ) (p : Pin) (as : List Action) : Prop :=
  s.Since (·.Frees p ·) (·.Rewrites p ·) as ∨
    ∃ disabled, lastReading p s as = some (disabled, false) ∧ disabled.contains p = false

section Listening

variable {s : Controller ρ} {p : Pin} {as : List Action} {a : Action}

theorem not_frees_of_rewrites (hs : s.watch.Sound) (h : s.Rewrites p a) : ¬s.Frees p a := by
  rintro ⟨hr, -⟩
  rcases h with hread | hm
  · obtain ⟨disabled, hd⟩ := Option.isSome_iff_exists.mp hread
    obtain ⟨⟨timerFirst, rfl⟩, -⟩ := endedReading_eq_some hd
    cases hr with
    | knob hk => cases hk
  · exact not_recoveryPass_of_handsOver (handsOver_of_mitigates hs hm) hr

theorem listensLast_of_read (hs : (s.run as).watch.Sound) {disabled : PinSet}
    (h : (s.run as).endedReading a = some disabled) :
    s.ListensLast p (as ++ [a]) ↔
      disabled.contains p = false ∧ (s.run as).pollForced = false := by
  have hrewrites : (s.run as).Rewrites p a := .inl (by rw [h]; rfl)
  have hm : (s.run as).mitigates p a = false := by
    obtain ⟨⟨timerFirst, rfl⟩, -⟩ := endedReading_eq_some h
    rfl
  rw [ListensLast, since_concat, lastReading_concat, hm, h]
  simp only [not_frees_of_rewrites hs hrewrites, hrewrites, not_true_eq_false, and_false, or_false,
    false_or, Bool.false_eq_true, if_false, Option.map_some, Option.some_or, Option.some.injEq,
    Prod.mk.injEq]
  constructor
  · rintro ⟨_, ⟨rfl, hforced⟩, hp⟩
    exact ⟨hp, hforced⟩
  · rintro ⟨hp, hforced⟩
    exact ⟨disabled, ⟨rfl, hforced⟩, hp⟩

theorem not_listensLast_of_mitigates (hs : (s.run as).watch.Sound)
    (h : (s.run as).mitigates p a = true) : ¬s.ListensLast p (as ++ [a]) := by
  have hrewrites : (s.run as).Rewrites p a := .inr h
  rw [ListensLast, since_concat, lastReading_concat, h]
  simp [not_frees_of_rewrites hs hrewrites, hrewrites]

theorem listensLast_of_frees (h : (s.run as).Frees p a) : s.ListensLast p (as ++ [a]) :=
  .inl (since_concat.mpr (.inl h))

theorem listensLast_of_kept (hread : (s.run as).endedReading a = none)
    (hm : (s.run as).mitigates p a = false) (hf : ¬(s.run as).Frees p a) :
    s.ListensLast p (as ++ [a]) ↔ s.ListensLast p as := by
  have hkept : ¬(s.run as).Rewrites p a := by
    rw [Rewrites, hread, hm]
    decide
  rw [ListensLast, since_concat, lastReading_concat, hm, hread]
  simp [hf, hkept, ListensLast]

end Listening

def Heard (w : Watch) (p : Pin) (listens : Prop) : Prop :=
  ∀ c ∈ w.connectors, c.multiStream = false → c.pin = some p → c.preference = .unset →
    (c.polled = .hpd ↔ listens)

section Runs

variable {s : Controller ρ} {p : Pin} {as : List Action}

theorem heard_act (hs : (s.run as).watch.Sound) (hhotplug : (s.run as).caps.hasHotplug = true)
    (h : Heard (s.run as).watch p (s.ListensLast p as)) (a : Action) :
    Heard ((s.run as).act a).watch p (s.ListensLast p (as ++ [a])) := by
  intro c' hc' hstream hpin hchoice
  obtain ⟨c, hc, hturn⟩ := turn_of_mem hs a hc'
  obtain ⟨-, hsamePin, hsameStream, hsameChoice⟩ := hturn.fixed
  rw [hsamePin] at hpin
  rw [hsameStream] at hstream
  rw [hsameChoice] at hchoice
  cases hturn with
  | reinitialized hread =>
    have hmode : c.initialMode (s.run as).caps.hasHotplug (s.run as).pollForced = .hpd ↔
        (s.run as).pollForced = false := by
      rw [Connector.initialMode, hpin, hstream, hchoice, hhotplug]
      cases (s.run as).pollForced <;> simp
    rw [Connector.polled_reinitialized hpin hstream, hmode]
    exact (listensLast_of_read hs hread).symm
  | switched _ hq hm =>
    obtain rfl := Option.some_inj.mp (hpin.symm.trans hq)
    refine iff_of_false (Connector.polled_switched hpin ?_) (not_listensLast_of_mitigates hs hm)
    rw [Mask.contains_ofList, decide_eq_true (List.mem_singleton_self p)]
  | returned _ hq hf =>
    obtain rfl := Option.some_inj.mp (hpin.symm.trans hq)
    refine iff_of_true ?_ (listensLast_of_frees hf)
    rw [Connector.polled_returned hpin hstream, hchoice]
    rfl
  | kept hread hnone =>
    obtain ⟨hm, hf⟩ := hnone p hpin
    rw [listensLast_of_kept hread hm hf]
    exact h c' hc hstream hpin hchoice

theorem heard_run (settings : Settings) {connectors : ConnectorList ρ}
    (ports : Port → Option PulseHandler) (hhotplug : settings.platform.hasHotplug = true)
    (hfresh : ∀ c ∈ connectors, c.polled = c.preference) (as : List Action) (p : Pin) :
    Heard ((ofSettings settings connectors ports).run as).watch p
      ((ofSettings settings connectors ports).ListensLast p as) := by
  induction as using List.reverseRecOn with
  | nil =>
    intro c hc _ _ hchoice
    obtain ⟨d, hd, rfl⟩ := List.mem_map.mp hc
    refine iff_of_false (fun hpolled => ?_) ?_
    · have hunset : d.polled = .unset := (hfresh d hd).trans hchoice
      rw [show d.polled = .hpd from hpolled] at hunset
      cases hunset
    · rintro (h | ⟨_, h, -⟩)
      · exact since_nil h
      · cases h
  | append_singleton as a ih =>
    have hsound := sound_run (sound_ofSettings settings connectors ports) as
    have hfixed := (fixed_run (ofSettings settings connectors ports) as).1
    rw [run_concat]
    exact heard_act hsound (hfixed.trans hhotplug) ih a

/-- While polling is forced, a poll-init run is due, or the one that ended last since the last storm
knew of it, or the one that was due was dropped. -/
def Observed (s : Controller ρ) (p : Pin) (as : List Action) : Prop :=
  (s.run as).pollForced = true →
    (s.run as).InitDue ∨
      (∀ disabled forced, lastReading p s as = some (disabled, forced) → forced = true) ∨
        s.Since DropsInit (fun t a => (t.act a).InitDue) as

theorem initDue_forcePolling (t : Controller ρ) (on : Bool) :
    (t.act (.forcePolling on)).InitDue := by
  have hqueued := congrArg (fun b => b.pollInit.pending) (t.backlog_forcePolling on)
  exact .inl (hqueued.trans (Work.pending_queue _))

theorem forced_of_lastReading {a : Action} (hforced : (s.run as).pollForced = true)
    {disabled : PinSet} {forced : Bool}
    (h : lastReading p s (as ++ [a]) = some (disabled, forced)) :
    forced = true ∨
      (s.run as).endedReading a = none ∧ lastReading p s as = some (disabled, forced) := by
  rw [lastReading_concat] at h
  split at h
  · cases h
  · cases hread : (s.run as).endedReading a with
    | some read =>
      rw [hread, Option.map_some, Option.some_or, Option.some_inj, Prod.mk.injEq] at h
      exact .inl (h.2.symm.trans hforced)
    | none =>
      rw [hread] at h
      exact .inr ⟨rfl, h⟩

theorem Observed.act (h : s.Observed p as) (a : Action) : s.Observed p (as ++ [a]) := by
  intro hforced
  rw [run_concat] at hforced ⊢
  rcases pollForced_act hforced with hbefore | ⟨on, rfl⟩
  · by_cases hdue : ((s.run as).act a).InitDue
    · exact .inl hdue
    right
    rw [since_concat]
    rcases h hbefore with hwas | hlast | hdropped
    -- What was due is due no more: it ended now and knows of the forcing, or it was dropped.
    · cases hread : (s.run as).endedReading a with
      | some read =>
        refine .inl fun disabled forced hl => (forced_of_lastReading hbefore hl).resolve_right ?_
        rintro ⟨hnone, -⟩
        rw [hread] at hnone
        cases hnone
      | none =>
        cases hdrops : a.drops with
        | true => exact .inr (.inl ⟨hdrops, hwas, hdue⟩)
        | false => exact absurd (hwas.act hdrops hread) hdue
    · left
      intro disabled forced hl
      rcases forced_of_lastReading hbefore hl with hf | ⟨-, hl⟩
      · exact hf
      · exact hlast disabled forced hl
    · exact .inr (.inr ⟨hdropped, hdue⟩)
  · exact .inl (initDue_forcePolling _ on)

theorem observed_run (settings : Settings) (connectors : ConnectorList ρ)
    (ports : Port → Option PulseHandler) (as : List Action) (p : Pin) :
    (ofSettings settings connectors ports).Observed p as := by
  induction as using List.reverseRecOn with
  | nil => exact nofun
  | append_singleton as a ih => exact ih.act a

end Runs

section Settled

variable {s : Controller ρ} {there : Bool}

omit [Probe ρ] in
/-- When everybody waits, a poll-init run that is due is pending. -/
theorem queued_of_initDue (h : s.backlog.InLine there) (hs : s.AtRest) (hheld : s.held = false)
    (hdue : s.InitDue) : s.queued .pollInit = true := by
  refine hdue.resolve_right fun hrunning => ?_
  have hidle := not_running h hs hheld .pollInit
  rw [show s.backlog.running .pollInit = true from hrunning] at hidle
  cases hidle

/-- When everybody waits, a poll-init run that is pending was left behind. -/
theorem leftBehind_pollInit (settings : Settings) (connectors : ConnectorList ρ)
    (ports : Port → Option PulseHandler) {as : List Action}
    (hs : ((ofSettings settings connectors ports).run as).AtRest)
    (hstarted : ((ofSettings settings connectors ports).run as).started = true)
    (hheld : ((ofSettings settings connectors ports).run as).held = false)
    (hdue : ((ofSettings settings connectors ports).run as).InitDue) :
    (ofSettings settings connectors ports).LeftBehind .pollInit as := by
  obtain ⟨there, hline⟩ := Backlog.inLine_run
    ⟨false, Backlog.inLine_ofSettings settings connectors ports⟩ as
  have hqueued := queued_of_initDue hline hs hheld hdue
  refine leftBehind_of_unattended (by decide) (attended_ofSettings settings connectors ports _)
    fun ha => ?_
  rw [not_queued_of_attended hline hs hstarted hheld (by decide) ha] at hqueued
  cases hqueued

end Settled

/-- When everybody waits while polling is forced, an output without a preference of its own is
still listened to in two cases only. Its pin recovered, and no poll-init run has ended since. Or
it was set to listen by the last poll-init run, which did not know that polling would be forced,
and the poll-init run after it was left behind by a worker that was stopped, or dropped by a
cancellation. -/
theorem listens_while_forced_iff (settings : Settings) (connectors : ConnectorList ρ)
    (ports : Port → Option PulseHandler) (as : List Action) (p : Pin) (c : Connector ρ)
    (hhotplug : settings.platform.hasHotplug = true)
    (hfresh : ∀ c ∈ connectors, c.polled = c.preference)
    (hsettled : ((ofSettings settings connectors ports).run as).AtRest)
    (hstarted : ((ofSettings settings connectors ports).run as).started = true)
    (hheld : ((ofSettings settings connectors ports).run as).held = false)
    (hforced : ((ofSettings settings connectors ports).run as).pollForced = true)
    (hc : c ∈ ((ofSettings settings connectors ports).run as).connectors)
    (hstream : c.multiStream = false) (hpin : c.pin = some p) (hchoice : c.preference = .unset) :
    let s := ofSettings settings connectors ports
    c.polled = .hpd ↔ s.Since (·.Frees p ·) (·.Rewrites p ·) as ∨
      (∃ disabled, lastReading p s as = some (disabled, false) ∧ disabled.contains p = false) ∧
        (s.LeftBehind .pollInit as ∨ s.Since DropsInit (fun t a => (t.act a).InitDue) as) := by
  intro s
  have hlistens := heard_run settings ports hhotplug hfresh as p c.bare (List.mem_map_of_mem hc)
    hstream hpin hchoice
  refine hlistens.trans (or_congr_right ⟨fun hlast => ⟨hlast, ?_⟩, And.left⟩)
  obtain ⟨disabled, hl, -⟩ := hlast
  rcases observed_run settings connectors ports as p hforced with hdue | hall | hdropped
  · exact .inl (leftBehind_pollInit settings connectors ports hsettled hstarted hheld hdue)
  · cases hall disabled false hl
  · exact .inr hdropped

def forcedRecovery : List Action :=
  Action.boot ++ [.forcePolling true] ++ Action.serve .pollInit ++ Action.storm .portB ++
    Action.serve .generic ++ Action.serve .reenable ++ [.advance 120000] ++ Action.serve .reenable

/-- In the end everybody waits, polling is forced, and the display is listened to. -/
theorem forced_listened :
    let s := (ofSettings {} [display] fun _ => none).run forcedRecovery
    s.caps.hasHotplug = true ∧ s.AtRest ∧ s.started = true ∧ s.held = false ∧
      s.pollForced = true ∧ ∃ c ∈ s.connectors, c.multiStream = false ∧ c.pin = some .portB ∧
        c.preference = .unset ∧ c.polled = .hpd := by
  decide +kernel

/-- Polling is forced, and the poll-init run is cancelled before it begins. -/
def forcedInVain : List Action :=
  Action.boot ++ [.init] ++ Action.serve .pollInit ++ [.forcePolling true, .cancelAll 0] ++
    Job.all.flatMap Action.serve

theorem listens_while_forced_iff_cancelled :
    let s := ofSettings {} [display] fun _ => none
    s.Since (·.Frees .portB ·) (·.Rewrites .portB ·) forcedRecovery ∧
      (s.LeftBehind .pollInit forcedInVain ∨
        s.Since DropsInit (fun t a => (t.act a).InitDue) forcedInVain) := by
  intro s
  have hfresh : ∀ c ∈ [display], c.polled = c.preference := by decide +kernel
  have hrecovery := (listens_while_forced_iff {} [display] (fun _ => none) forcedRecovery .portB
    { display with polled := .hpd } rfl hfresh (by decide +kernel) (by decide +kernel)
    (by decide +kernel) (by decide +kernel) (by decide +kernel) rfl rfl rfl).mp rfl
  have hvain := (listens_while_forced_iff {} [display] (fun _ => none) forcedInVain .portB
    { display with polled := .hpd } rfl hfresh (by decide +kernel) (by decide +kernel)
    (by decide +kernel) (by decide +kernel) (by decide +kernel) rfl rfl rfl).mp rfl
  have hread : lastReading .portB s forcedRecovery = none := by decide +kernel
  have hcalm : ∀ x ∈ s.trail forcedInVain, x.1.phase .portB ≠ (.disabled, true) := by
    decide +kernel
  constructor
  · refine hrecovery.resolve_right ?_
    rintro ⟨⟨disabled, hl, -⟩, -⟩
    rw [hl] at hread
    cases hread
  · refine (hvain.resolve_left fun hsince => ?_).2
    obtain ⟨x, hx, hfrees⟩ := hsince.exists_mem_trail
    exact hcalm x hx hfrees.2.1

end HotplugDetect.Controller
