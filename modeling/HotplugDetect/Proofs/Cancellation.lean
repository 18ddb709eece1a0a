import HotplugDetect.Controller.Script
import HotplugDetect.Proofs.Backlog.Steps
import HotplugDetect.Proofs.Lifecycle

/-! # Storms that a cancellation drops

A storm leaves its pin to the generic run that it queues. A cancellation drops the run and not the
storm. The pin then stays as it is, and its display is not watched, until a new generic run is
queued or the pin is enabled anew.
-/

namespace HotplugDetect

variable {ρ : Type}

theorem PinTable.state_observe_of_ne_storm {t : PinTable} {p : Pin} {long : Bool} {now : Nat}
    (h : (t.observe p long now).2 ≠ .storm) : (t.observe p long now).1.state = t.state := by
  have hpin : ((t.get p).observe t.config long now).1.state = (t.get p).state := by
    have hwindow : ((t.get p).openWindow t.config.period now).state = (t.get p).state := by
      unfold PinStats.openWindow
      split <;> rfl
    have hv : ((t.get p).observe t.config long now).2 ≠ .storm := h
    unfold PinStats.observe at hv ⊢
    split
    · rename_i hc
      rw [if_pos hc] at hv
      simp only at hv ⊢
      split
      · rename_i hover
        rw [if_pos hover] at hv
        exact absurd rfl hv
      · exact hwindow
    · rfl
  funext q
  unfold state
  rw [get_observe]
  split
  · rename_i hq
    rw [hq]
    exact hpin
  · rfl

namespace Controller

section Interrupts

/-- Without a demand for the generic run no pin changed its state. -/
def Steady (s : Controller ρ) (d : Demand) (s' : Controller ρ) (d' : Demand) : Prop :=
  d'.generic = false → d.generic = false ∧ s'.table.state = s.table.state

theorem Steady.trans {s s' s'' : Controller ρ} {d d' d'' : Demand} (h : s.Steady d s' d')
    (h' : s'.Steady d' s'' d'') : s.Steady d s'' d'' := by
  intro hd
  obtain ⟨hd', hs'⟩ := h' hd
  obtain ⟨hd, hs⟩ := h hd'
  exact ⟨hd, hs'.trans hs⟩

theorem steady_detectStorm (s : Controller ρ) (p : Pin) (long : Bool) (d : Demand) :
    s.Steady d (s.detectStorm p long d).1 (s.detectStorm p long d).2 := by
  have hstate : (s.table.observe p long s.now).2 ≠ .storm →
      (s.table.observe p long s.now).1.state = s.table.state :=
    PinTable.state_observe_of_ne_storm
  unfold detectStorm
  split
  · exact nofun
  · rename_i heq
    rw [heq] at hstate
    exact fun hd => ⟨hd, hstate (by simp)⟩
  · rename_i heq
    rw [heq] at hstate
    exact fun hd => ⟨hd, hstate (by simp)⟩

theorem steady_judge (s : Controller ρ) (p : Pin) (digital long : Bool) (d : Demand) :
    s.Steady d (s.judge p digital long d).1 (s.judge p digital long d).2 := by
  unfold judge
  split
  · exact fun hd => ⟨hd, rfl⟩
  · exact fun hd => ⟨hd, rfl⟩
  · split
    · exact s.steady_detectStorm p long d
    · intro hd
      have hsteady := steady_detectStorm { s with eventPins := s.eventPins.insert p } p long
        { d with generic := true } hd
      exact nomatch hsteady.1

theorem steady_receive (s : Controller ρ) (long : PinSet) (p : Pin) (d : Demand) :
    s.Steady d (s.receive long p d).1 (s.receive long p d).2 := by
  unfold receive
  split
  · rename_i port _
    have hkept : s.Steady d ((s.note (.digitalPulse port (long.contains p))).keepPulse port
        (long.contains p)) { d with digital := true } := by
      unfold keepPulse
      split
      all_goals exact fun hd => ⟨hd, rfl⟩
    exact hkept.trans (steady_judge _ p true _ _)
  · exact s.steady_judge p false true d

theorem steady_receiveAll (long : PinSet) (ps : List Pin) (s : Controller ρ) (d : Demand) :
    s.Steady d (s.receiveAll long d ps).1 (s.receiveAll long d ps).2 := by
  induction ps generalizing s d with
  | nil => exact fun hd => ⟨hd, rfl⟩
  | cons p ps ih => exact (s.steady_receive long p d).trans (ih _ _)

/-- A storm on the pin has its generic run queued. -/
def Heeded (p : Pin) (s : Controller ρ) : Prop :=
  s.table.state p = .autoDisabled → s.generic.pending = true

theorem heeded_of_stats {p : Pin} {s t : Controller ρ} (hw : t.watch.stats = s.watch.stats)
    (hp : t.generic.pending = s.generic.pending) (h : s.Heeded p) : t.Heeded p := by
  intro hstate
  rw [hp]
  exact h ((congrArg (fun stats => (stats p).state) hw).symm.trans hstate)

theorem heeded_interrupt {p : Pin} {s : Controller ρ} (h : s.Heeded p) (i : Interrupt) :
    (s.interrupt i).Heeded p := by
  have hsteady := steady_receiveAll i.long i.fired.toList s {}
  have hrec := (s.recorded_receiveAll i.long i.fired.toList {}).rest
  unfold interrupt
  generalize s.receiveAll i.long {} i.fired.toList = r at hsteady hrec
  obtain ⟨t, d⟩ := r
  simp only at hsteady hrec ⊢
  have hgeneric : (t.answer d).generic = if d.generic then t.generic.queue.1 else t.generic :=
    congrArg Backlog.generic (silent_backlog.answer t d)
  cases hd : d.generic with
  | true =>
    intro _
    rw [hgeneric, if_pos hd]
    exact t.generic.pending_queue
  | false =>
    refine heeded_of_stats (congrArg Watch.stats (t.watch_answer d)) ?_ fun hstate => ?_
    · rw [hgeneric, hd]
      rfl
    · rw [show t.generic = s.generic from congrArg Backlog.generic hrec]
      exact h ((congrFun (hsteady hd).2 p).symm.trans hstate)

theorem heeded_moveDigital {p : Pin} {s : Controller ρ} (h : s.Heeded p) :
    s.moveDigital.Heeded p := by
  unfold moveDigital
  split
  · split
    · exact deliver_induction (P := Heeded p) (fun _ _ ht => ht) (fun _ _ _ _ ht => ht)
        (fun t i ht => heeded_interrupt ht i) _ _ ∅ Port.all s h
    · unfold fallBack
      split
      · exact h
      · refine fun _ => ?_
        show (queueGeneric _).generic.pending = true
        obtain ⟨line, hline⟩ := rouse_eq _ _
        rw [queueGeneric, hline]
        exact Work.pending_queue _
  · split
    · exact h
    · exact h

end Interrupts

section Actions

variable [Probe ρ] {s : Controller ρ} {p : Pin}

theorem heeded_probePass (h : s.Heeded p) (pins : PinSet) : (s.probePass pins).Heeded p := by
  have hprobed : (s.probeAll pins s.connectors).1.Heeded p :=
    probeAll_induction (P := Heeded p) (fun _ _ ht => ht) (fun t i ht => heeded_interrupt ht i)
      pins s.connectors s h
  unfold probePass
  generalize s.probeAll pins s.connectors = r at hprobed
  have hreleased : ({ r.1 with connectors := r.2.1 } : Controller ρ).releaseMode.Heeded p := by
    refine heeded_of_stats (s := r.1) ?_ ?_ hprobed
    · rw [plain_watch.releaseMode]
      rfl
    · exact congrArg (fun b => b.generic.pending)
        (backlog_releaseMode ({ r.1 with connectors := r.2.1 } : Controller ρ))
  simp only
  split
  · exact hreleased
  · exact hreleased

theorem heeded_moveGeneric (h : s.Heeded p) (timerFirst : Bool) :
    (s.act (.move .generic timerFirst)).Heeded p := by
  cases hseek : s.generic.seek with
  | mk w found =>
  cases found with
  | claimed =>
    intro hstate
    exact absurd hstate (state_claim_generic (by rw [hseek]) timerFirst p)
  | looking =>
    show s.moveGeneric.Heeded p
    unfold moveGeneric
    rw [hseek]
    split
    · rename_i rest hw
      split
      · exact heeded_of_stats (s := s.probePass rest.pins) rfl rfl (heeded_probePass h rest.pins)
      · exact h
    · exact heeded_of_stats (s := s) rfl (Work.pending_looking hseek) h

theorem state_of_storming (hsound : s.watch.Sound) {a : Action} (hi : s.interruptsOf a = [])
    (h : (s.act a).table.state p = .autoDisabled) : s.table.state p = .autoDisabled := by
  have hafter : ((s.act a).phase p).1 = .autoDisabled := h
  rcases pinChange_act hsound a p with hp | hp
  · exact (congrArg Prod.fst hp).symm.trans hafter
  · cases hp' : (s.act a).phase p with
    | mk state mark =>
    rw [hp'] at hp hafter
    obtain rfl : state = .autoDisabled := hafter
    generalize s.phase p = before at hp
    cases hp with
    | storm hmem =>
      rw [hi] at hmem
      cases hmem

/-- Only a cancellation takes the generic run away from a storm. -/
theorem heeded_act (hsound : s.watch.Sound) {a : Action} (ha : a.drops = false)
    (h : s.Heeded p) : (s.act a).Heeded p := by
  have hquiet (hi : s.interruptsOf a = []) (hm : ∀ t, a ≠ .move .generic t) :
      (s.act a).Heeded p :=
    fun hstate => queued_act (j := .generic) ha hm (h (state_of_storming hsound hi hstate))
  cases a with
  | interrupt i => exact heeded_interrupt h i
  | raw pinMask longMask =>
    show (s.raw pinMask longMask).Heeded p
    unfold raw
    refine heeded_interrupt ?_ _
    split
    · exact h
    · exact h
  | move j timerFirst =>
    cases j with
    | digital => exact heeded_moveDigital h
    | generic => exact heeded_moveGeneric h timerFirst
    | _ => exact hquiet rfl nofun
  | _ => exact hquiet rfl nofun

end Actions

variable [Probe ρ]

/-- The generic run of a storm on the pin was dropped, and nothing has been done about the storm
since. -/
def Forsaken (s : Controller ρ) (p : Pin) (as : List Action) : Prop :=
  ∃ bs a cs, as = bs ++ a :: cs ∧ a.drops = true ∧
    (s.run bs).table.state p = .autoDisabled ∧ (s.run bs).queued .generic = true ∧
    (∀ cs', cs' <+: cs → (s.run (bs ++ a :: cs')).queued .generic = false) ∧
    ∀ c ∈ cs, c ≠ .init ∧ c ≠ .enable p

section Runs

variable {s : Controller ρ} {p : Pin}

theorem interruptsOf_of_drops {a : Action} (ha : a.drops = true) : s.interruptsOf a = [] := by
  cases a with
  | cancelAll client => rfl
  | shutdown client => rfl
  | resume client => rfl
  | _ => cases ha

theorem state_init (s : Controller ρ) (p : Pin) : (s.act .init).table.state p = .enabled :=
  congrArg (fun w => (w.stats p).state) s.watch_init

theorem state_enable (s : Controller ρ) (p : Pin) :
    (s.act (.enable p)).table.state p = .enabled := by
  have h : (s.act (.enable p)).table.state p = ((s.watch.enabled p).stats p).state :=
    congrArg (fun w => (w.stats p).state) (s.watch_enable p)
  have hfreed : (s.watch.enabled p).stats p = (s.watch.stats p).freed := if_pos rfl
  rw [h, hfreed]
  rfl

theorem state_act_of_storming (hsound : s.watch.Sound) (h : s.table.state p = .autoDisabled)
    {a : Action} (hinit : a ≠ .init) (henable : a ≠ .enable p)
    (hrun : ∀ timerFirst, a = .move .generic timerFirst → s.generic.pending = false) :
    (s.act a).table.state p = .autoDisabled := by
  have hunmarked := (hsound p).unmarked (by rw [show (s.watch.stats p).state = _ from h]; decide)
  have hbefore : s.phase p = (.autoDisabled, false) := Prod.ext h hunmarked
  refine (congrArg Prod.fst (phase_act_of_not hsound fun after hc => ?_)).trans h
  rw [hbefore] at hc
  cases hc with
  | @mitigation timerFirst hclaimed =>
    have hseek : s.generic.seek = (s.generic.seek.1, .claimed) := Prod.ext rfl hclaimed
    have hpending := (Work.seek_claimed hseek).2.1
    rw [hrun timerFirst rfl] at hpending
    cases hpending
  | enable => exact henable rfl
  | init => exact hinit rfl

theorem forsaken_of_not_heeded (hsound : s.watch.Sound) (h : s.Heeded p) {as : List Action}
    (hn : ¬(s.run as).Heeded p) : s.Forsaken p as := by
  obtain ⟨bs, a, cs, rfl, hbefore, hsince⟩ := given_up h hn
  have hstorming {cs' : List Action} (hcs' : cs' <+: cs) :
      (s.run (bs ++ a :: cs')).table.state p = .autoDisabled :=
    (Classical.not_imp.mp (hsince cs' hcs')).1
  have hlost := hsince [] List.nil_prefix
  rw [run_concat] at hlost
  have ha : a.drops = true := by
    rw [← Bool.not_eq_false]
    exact fun ha => hlost (heeded_act (sound_run hsound bs) ha hbefore)
  have hstorm := state_of_storming (sound_run hsound bs) (interruptsOf_of_drops ha)
    (Classical.not_imp.mp hlost).1
  refine ⟨bs, a, cs, rfl, ha, hstorm, hbefore hstorm, fun cs' hcs' => ?_, fun c hc => ?_⟩
  · exact Bool.not_eq_true _ ▸ (Classical.not_imp.mp (hsince cs' hcs')).2
  · obtain ⟨xs, ys, rfl⟩ := List.append_of_mem hc
    have hprefix : xs ++ [c] <+: xs ++ c :: ys := ⟨ys, List.append_assoc _ _ _⟩
    have hafter := hstorming hprefix
    rw [← List.cons_append, ← List.append_assoc, run_concat] at hafter
    constructor
    · rintro rfl
      rw [state_init] at hafter
      cases hafter
    · rintro rfl
      rw [state_enable] at hafter
      cases hafter

/-- Whatever is done to other pins, a storm stays as long as no generic run is queued. -/
theorem state_of_forsaken (hsound : s.watch.Sound) {as : List Action} (h : s.Forsaken p as) :
    (s.run as).table.state p = .autoDisabled := by
  obtain ⟨bs, a, cs, rfl, ha, hstate, -, hsince, hcs⟩ := h
  induction cs using List.reverseRecOn with
  | nil =>
    rw [run_concat]
    refine state_act_of_storming (sound_run hsound bs) hstate ?_ ?_ ?_
    · rintro rfl
      cases ha
    · rintro rfl
      cases ha
    · rintro timerFirst rfl
      cases ha
  | append_singleton cs c ih =>
    have hbefore := ih (fun cs' hcs' => hsince cs' (hcs'.trans (List.prefix_append cs [c])))
      fun x hx => hcs x (List.mem_append_left _ hx)
    obtain ⟨hinit, henable⟩ := hcs c (List.mem_append_right _ (List.mem_singleton_self c))
    rw [← List.cons_append, ← List.append_assoc, run_concat]
    exact state_act_of_storming (sound_run hsound _) hbefore hinit henable
      fun _ _ => hsince cs (List.prefix_append cs [c])

/-- A storm has no generic run pending just if its run was dropped, and since then neither a generic
run was queued nor the pin enabled. -/
theorem storm_unqueued_iff (settings : Settings) (connectors : ConnectorList ρ)
    (ports : Port → Option PulseHandler) (as : List Action) (p : Pin) :
    let s := ofSettings settings connectors ports
    (s.run as).table.state p = .autoDisabled ∧ (s.run as).queued .generic = false ↔
      s.Forsaken p as := by
  intro s
  have hsound : s.watch.Sound := sound_ofSettings settings connectors ports
  constructor
  · rintro ⟨hstate, hqueued⟩
    refine forsaken_of_not_heeded hsound (fun hstorm => ?_) fun hheeded => ?_
    · rw [show s.table.state p = .enabled from
        congrArg PinStats.state (stats_ofSettings settings connectors ports p)] at hstorm
      cases hstorm
    · rw [show (s.run as).queued .generic = true from hheeded hstate] at hqueued
      cases hqueued
  · intro h
    refine ⟨state_of_forsaken hsound h, ?_⟩
    obtain ⟨bs, a, cs, rfl, -, -, -, hsince, -⟩ := h
    exact hsince cs (List.prefix_refl cs)

end Runs

def listening : Connector Script :=
  .make "VGA-1" (some .crt) .hpd false { answers := [], interrupt := ⟨∅, ∅⟩ }

/-- A storm arrives, and all work is cancelled before the generic run begins. -/
def cancelledStorm : List Action :=
  Action.boot ++ Action.storm .crt ++ [.cancelAll 0, .move .generic true, .move .generic true,
    .move .generic true, .move .reenable true, .move .reenable true]

/-- The workers have come to rest, and the display is neither listened to nor polled. -/
theorem cancelled_unwatched :
    let s := (ofSettings {} [listening] fun _ => none).run cancelledStorm
    s.AtRest ∧ s.started = true ∧ s.errands = [] ∧ s.table.state .crt = .autoDisabled ∧
      s.queued .generic = false ∧ s.connectors.map (·.polled) = [.hpd] := by
  decide +kernel

end Controller

end HotplugDetect
