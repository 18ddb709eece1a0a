import HotplugDetect.Proofs.Knobs.Turns
import HotplugDetect.Proofs.Quiet.Emptied
import HotplugDetect.Simulation.Basic

/-! # A knob is applied completely and once

The setting of a knob puts the new settings in force and recovers, if the recovery is armed, just as
the worker would have done. Between the two the client may have to wait, and the worker or another
client may recover first. In every case the recovery is neither lost nor made twice.
-/

namespace HotplugDetect

namespace Simulation

theorem perform_threshold (sim : Simulation) (text : String) :
    sim.perform (.threshold text) = (ThresholdKnob.parse text).map fun k =>
      sim.withCore fun core => (core.act (.setThreshold client k)).await client := by
  rcases h : ThresholdKnob.parse text with e | k <;>
    simp [perform, h, bind, Except.bind, Except.map, Controller.act]

theorem perform_shortStorms (sim : Simulation) (text : String) :
    sim.perform (.shortStorms text) = (ShortStormKnob.parse text).map fun k =>
      sim.withCore fun core => (core.act (.setShortStorms client k)).await client := by
  rcases h : ShortStormKnob.parse text with e | k <;>
    simp [perform, h, bind, Except.bind, Except.map, Controller.act]

end Simulation

namespace Controller

open Backlog

variable {ρ : Type} [Probe ρ] {s : Controller ρ} {client : ℕ} {config : StormConfig} {a : Action}

/-- What becomes of a knob that is set by the action `a` in the state `s`. -/
structure KnobTakes (s : Controller ρ) (client : ℕ) (config : StormConfig) (a : Action) : Prop where

  /-- If nobody has the run lock, all is done at once. -/
  free : s.reenable.run.holder = none → s.AppliedAlone client config (fun _ => 0) (s.act a)

  /-- If somebody has it, the settings are in force and the client waits. -/
  taken : s.reenable.run.holder ≠ none → s.Awaits client config (s.act a)

  /-- A worker that gets in just before the knob does what the knob would have done. -/
  timer (timerFirst : Bool) : (s.reenable.seek s.now timerFirst).2 = .claimed →
    (s.act (.move .reenable timerFirst)).outcome = s.timerRun.outcome

  /-- The client that was handed the lock finishes, whatever happened meanwhile. -/
  resumed (bs : List Action) : let t := (s.act a).run bs
    t.errand? client = some .flush → t.holdsRun .reenable client = true →
      t.AppliedAlone client t.table.config (fun p => (t.table.get p).count) (t.act (.resume client))

  /-- Against the worker and other clients that want this lock, whoever comes first. -/
  contended (bs : List Action) : let t := (s.act a).run bs
    (∀ x ∈ (s.act a).trail bs, x.1.Contends client x.2) → t.errand? client = none →
      s.Applied client config (fun _ => 0) t ∧ s.passes (a :: bs) = s.reenable.armed.toNat

  /-- Until the next mitigation nobody recovers a second time. -/
  atMostOnce (bs : List Action) : (∀ x ∈ (s.act a).trail bs, ¬x.1.Mitigates x.2) →
    s.passes (a :: bs) ≤ s.reenable.armed.toNat

  /-- Unless somebody cancels the recovery, it is not lost either when the knob has returned. -/
  once (bs : List Action) : let t := (s.act a).run bs
    (∀ x ∈ (s.act a).trail bs, x.2 ≠ .abandon client ∧ ¬x.1.Mitigates x.2 ∧ ¬x.1.Cancels x.2) →
      t.errand? client = none → s.passes (a :: bs) = s.reenable.armed.toNat

  /-- As long as the client waits, there is somebody to go on. -/
  turn (bs : List Action) : let t := (s.act a).run bs
    t.errand? client = some .flush → ∃ b, b ≠ .abandon client ∧ t.HeadTurn b

  /-- The client returns if those at the head of the line go on. -/
  returns (σ : ℕ → Action) : (s.act a).GivesTurns client σ →
    ∃ n, ((s.act a).course σ n).errand? client = none

omit [Probe ρ] in
theorem kept_of_knob (hk : s.knob? a = some (client, config)) : ¬s.Mitigates a ∧ ¬s.Cancels a := by
  cases a with
  | setThreshold c k => exact ⟨fun ⟨⟨_, h⟩, _⟩ => (nomatch h), id⟩
  | setShortStorms c k => exact ⟨fun ⟨⟨_, h⟩, _⟩ => (nomatch h), id⟩
  | _ => cases hk

/-- As long as nobody hands a storm over, the recovery is disarmed or the client still waits. -/
theorem unarmed_run (h : s.errand? client = some .flush ∨ s.reenable.armed = false)
    {bs : List Action} (hbs : ∀ x ∈ s.trail bs, x.2 ≠ .abandon client ∧ ¬x.1.Mitigates x.2) :
    (s.run bs).errand? client = some .flush ∨ (s.run bs).reenable.armed = false := by
  induction bs generalizing s with
  | nil => exact h
  | cons b bs ih =>
    obtain ⟨hstay, hm⟩ := hbs (s, b) List.mem_cons_self
    refine ih ?_ fun x hx => hbs x (List.mem_cons_of_mem _ hx)
    rcases h with he | hnone
    · exact (errand?_act_of_flush he hstay).imp_right And.right
    · have hp : ¬s.RecoveryPass b := fun hp => by simp [hp.armed] at hnone
      rcases armed_act_cases hm hp with hsame | ⟨hnone, -⟩
      · exact .inr (hsame.trans hnone)
      · exact .inr hnone

omit [Probe ρ] in
theorem Queues.exists_turn {n : ℕ} (h : s.Queues client n) :
    ∃ b, b ≠ .abandon client ∧ s.HeadTurn b := by
  obtain ⟨y, hy⟩ := Lock.Within.holder h
  cases y with
  | worker => exact ⟨.move .reenable true, by simp, hy⟩
  | client c => exact ⟨.resume c, by simp, hy⟩

theorem outcome_act_timer {timerFirst : Bool}
    (hs : (s.reenable.seek s.now timerFirst).2 = .claimed) :
    (s.act (.move .reenable timerFirst)).outcome = s.timerRun.outcome := by
  have hpass : s.RecoveryPass (.move .reenable timerFirst) := .timer hs
  rw [outcome_timerRun]
  rcases s.recovers_or_unseen_move timerFirst with ⟨-, hshown⟩ | ⟨-, hsame⟩
  · exact hshown.alike.outcome
  · rw [hpass.disarms, hpass.armed] at hsame
    cases hsame

/-- What holds in every state in which the lines are in order. -/
theorem knobTakes_of_knob (hline : ∃ there, s.backlog.InLine there) (hc : s.backlog.Composed)
    (hfree : s.errand? client = none) (hk : s.knob? a = some (client, config)) :
    s.KnobTakes client config a := by
  obtain ⟨m, hact⟩ := act_knob hk
  obtain ⟨hmitigates, hcancels⟩ := kept_of_knob hk
  have hlater (bs : List Action) : ∃ there, ((s.act a).run bs).backlog.InLine there :=
    inLine_run hline (a :: bs)
  have hfound (hnone : s.reenable.run.holder = none) :
      s.AppliedAlone client config (fun _ => 0) (s.act a) := by
    rw [hact]
    exact applied_configure hfree hnone m
  have hwaits (htaken : s.reenable.run.holder ≠ none) : s.Awaits client config (s.act a) := by
    rw [hact]
    refine awaits_configure hfree (Bool.not_eq_true _ ▸ fun hgranted => htaken ?_) m
    obtain ⟨there, hline⟩ := hline
    have hempty := (hline.lanes .reenable).run_of_granted (not_mem_waiting_of_fresh hfree .reenable)
      hgranted
    exact congrArg Lock.holder hempty
  have hcontested : s.Contested client config (s.act a) := by
    by_cases hnone : s.reenable.run.holder = none
    · exact (hfound hnone).contested
    · exact (hwaits hnone).contested
  have htrail {P : Controller ρ × Action → Prop} {bs : List Action} (ha : P (s, a))
      (hbs : ∀ x ∈ (s.act a).trail bs, P x) : ∀ x ∈ s.trail (a :: bs), P x :=
    List.forall_mem_cons.mpr ⟨ha, hbs⟩
  refine ⟨hfound, hwaits, fun _ hs => outcome_act_timer hs,
    fun bs he hheld => applied_resume he hheld, fun bs hbs hdone => ?_, fun bs hbs => ?_,
    fun bs hbs hdone => ?_, fun bs he => ?_, fun σ hσ => ?_⟩
  · have happlied := (hcontested.run hbs).applied hdone
    have hbalance := passes_of_same (a :: bs)
      (htrail (armed_act_of_not_cancels hmitigates hcancels) fun x hx => (hbs x hx).armed)
    have hdisarmed : (s.run (a :: bs)).reenable.armed = false := happlied.disarmed
    rw [hdisarmed] at hbalance
    exact ⟨happlied, hbalance⟩
  · exact (Nat.le_add_right _ _).trans (passes_le (htrail hmitigates hbs))
  · have hbalance := passes_of_same (a :: bs)
      (htrail (armed_act_of_not_cancels hmitigates hcancels)
        fun x hx => armed_act_of_not_cancels (hbs x hx).2.1 (hbs x hx).2.2)
    have hdisarmed : (s.run (a :: bs)).reenable.armed = false :=
      (unarmed_run (hcontested.client.imp_right And.right)
        fun x hx => ⟨(hbs x hx).1, (hbs x hx).2.1⟩).resolve_left fun he => by
          cases hdone.symm.trans he
    rw [hdisarmed] at hbalance
    exact hbalance
  · obtain ⟨n, hq⟩ := queues_of_errand (hlater bs) he
    exact hq.exists_turn
  · rcases hcontested.client with he | ⟨hdone, -⟩
    · exact hσ.returns (hlater []) (composed_run hc [a]) he
    · exact ⟨0, hdone⟩

/-- In every state that can be reached, a knob with a value that a text stands for puts this value
in force and nothing else, forgets the counts, and sees to it that an armed recovery is made once. A
text that stands for no value changes nothing. -/
theorem knob_applied (settings : Settings) (connectors : ConnectorList ρ)
    (ports : Port → Option PulseHandler) (as : List Action) (client : ℕ) (text : String) :
    let s := (ofSettings settings connectors ports).run as
    s.errand? client = none →
      (∀ k, ThresholdKnob.parse text = .ok k →
        s.KnobTakes client
          { s.table.config with
            threshold := match k with
              | .reset => defaultThreshold
              | .set n => n }
          (.setThreshold client k)) ∧
      (∀ k, ShortStormKnob.parse text = .ok k →
        s.KnobTakes client
          { s.table.config with
            shortStorms := match k with
              | .reset => s.caps.countsShortStorms
              | .set on => on }
          (.setShortStorms client k)) ∧
      ∀ sim : Simulation,
        (sim.perform (.threshold text) = (ThresholdKnob.parse text).map fun k =>
          sim.withCore fun core =>
            (core.act (.setThreshold Simulation.client k)).await Simulation.client) ∧
        (sim.perform (.shortStorms text) = (ShortStormKnob.parse text).map fun k =>
          sim.withCore fun core =>
            (core.act (.setShortStorms Simulation.client k)).await Simulation.client) ∧
        (∀ e, ThresholdKnob.parse text = .error e →
          sim.runStep (.threshold text) = (sim.remember (.step (.threshold text)), some e)) ∧
        ∀ e, ShortStormKnob.parse text = .error e →
          sim.runStep (.shortStorms text) = (sim.remember (.step (.shortStorms text)), some e) := by
  intro s hfree
  have hline : ∃ there, s.backlog.InLine there :=
    inLine_run ⟨false, inLine_ofSettings settings connectors ports⟩ as
  have hc : s.backlog.Composed := composed_run (composed_ofSettings settings connectors ports) as
  refine ⟨fun k _ => knobTakes_of_knob hline hc hfree ?_,
    fun k _ => knobTakes_of_knob hline hc hfree ?_, fun sim => ⟨?_, ?_, ?_, ?_⟩⟩
  · exact if_neg (by simp [hfree])
  · exact if_neg (by simp [hfree])
  · exact sim.perform_threshold text
  · exact sim.perform_shortStorms text
  · intro e he
    simp [Simulation.runStep, Simulation.perform_threshold, he, Except.map]
  · intro e he
    simp [Simulation.runStep, Simulation.perform_shortStorms, he, Except.map]

theorem errand?_course_of_resume {σ : ℕ → Action} {n : ℕ} (hσ : ∀ m ≥ n, σ m = .resume client)
    (h : (s.course σ n).errand? client = none) {m : ℕ} (hm : n ≤ m) :
    (s.course σ m).errand? client = none := by
  induction m, hm using Nat.le_induction with
  | base => exact h
  | succ m hm ih =>
    rw [course_succ, hσ m hm]
    exact Contends.errand?_none (fun e he => nomatch ih.symm.trans he) ih

def overdue : List Action :=
  Action.boot ++ Action.storm .crt ++ List.replicate 4 (Action.move .generic true) ++
    List.replicate 2 (Action.move .reenable true) ++ [Action.advance 120000, .move .reenable true]

def handing : ℕ → Action
  | 0 => .move .reenable true
  | _ => .resume 1

theorem givesTurns_handing (hfirst : s.reenable.run.holder = some .worker)
    (hsecond : (s.act (.move .reenable true)).reenable.run.holder = some (.client 1))
    (hover : ((s.act (.move .reenable true)).act (.resume 1)).errand? 1 = none) :
    s.GivesTurns 1 handing := by
  have hresumes (m : ℕ) (hm : m ≥ 2) : handing m = .resume 1 := by
    cases m with
    | zero => cases hm
    | succ m => rfl
  refine ⟨fun n => by cases n <;> simp [handing], fun {n} he => ?_⟩
  rcases n with _ | _ | n
  · exact ⟨0, le_rfl, hfirst⟩
  · exact ⟨1, le_rfl, hsecond⟩
  · have hnone := errand?_course_of_resume hresumes hover (Nat.le_add_left 2 n)
    cases hnone.symm.trans he

theorem knob_applied_overdue :
    let s := (ofSettings {} [placid] fun _ => none).run overdue
    let a : Action := .setThreshold 1 (.set 3)
    let bs : List Action := [.move .reenable true, .resume 1]
    let t := (s.act a).run bs
    s.errand? 1 = none ∧ s.reenable.armed = true ∧ s.reenable.due s.now = true ∧
      s.reenable.run.holder = some .worker ∧ s.table.state .crt = .disabled ∧
      ThresholdKnob.parse " 3" = .ok (.set 3) ∧ (s.act a).errand? 1 = some .flush ∧
      t.errand? 1 = none ∧ t.table.config = { s.table.config with threshold := 3 } ∧
      (∀ p, (t.table.get p).count = 0) ∧ t.table.state .crt = .enabled ∧
      t.outcome = s.timerRun.outcome ∧ t.calls ≠ s.calls ∧ s.passes (a :: bs) = 1 ∧
      (s.act a).GivesTurns 1 handing ∧ ∃ n, ((s.act a).course handing n).errand? 1 = none := by
  intro s a bs t
  have hfree : s.errand? 1 = none := by decide +kernel
  have harmed : s.reenable.armed = true := by decide +kernel
  have hparse : ThresholdKnob.parse " 3" = .ok (.set 3) := by rfl
  obtain ⟨hthreshold, -, -⟩ := knob_applied {} [placid] (fun _ => none) overdue 1 " 3" hfree
  have hrivals : ∀ x ∈ (s.act a).trail bs, x.1.Contends 1 x.2 := by
    have hwaits : ((s.act a).act (.move .reenable true)).errand? 1 = some .flush := by
      decide +kernel
    refine List.forall_mem_cons.mpr ⟨trivial, List.forall_mem_singleton.mpr fun e he => ?_⟩
    obtain rfl := Option.some.inj (hwaits.symm.trans he)
    rfl
  have hdone : t.errand? 1 = none := by decide +kernel
  have htakes : s.KnobTakes 1 { s.table.config with threshold := 3 } a :=
    hthreshold (.set 3) hparse
  obtain ⟨happlied, hpasses⟩ : s.Applied 1 { s.table.config with threshold := 3 } (fun _ => 0) t ∧
      s.passes (a :: bs) = s.reenable.armed.toNat := htakes.contended bs hrivals hdone
  have hturns : (s.act a).GivesTurns 1 handing :=
    givesTurns_handing (by decide +kernel) (by decide +kernel) (by decide +kernel)
  have houtcome := happlied.outcome
  rw [harmed, if_pos rfl] at houtcome
  rw [harmed] at hpasses
  exact ⟨hfree, harmed, by decide +kernel, by decide +kernel, by decide +kernel, hparse,
    by decide +kernel, hdone, happlied.config, happlied.counts, by decide +kernel, houtcome,
    by decide +kernel, hpasses, hturns, htakes.returns handing hturns⟩

end Controller

end HotplugDetect
