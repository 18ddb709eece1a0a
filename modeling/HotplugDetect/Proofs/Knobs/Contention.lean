import HotplugDetect.Proofs.Knobs.Flush
import HotplugDetect.Proofs.Quiet.Exhausted

/-! # The knob and the worker compete

The timer may be due at the instant at which a knob is set, and other clients may be before it in
the line. Whoever gets the run lock first recovers, and nobody does it a second time.
-/

namespace HotplugDetect.Controller

open Backlog

variable {ρ : Type}

section Errands

theorem errands_configure (s : Controller ρ) (config : StormConfig) {client c : Nat}
    (h : c ≠ client) :
    (s.configure client config).errand? c = s.errand? c := by
  unfold configure flush
  simp only
  split
  · exact congrArg (List.lookup c) (errands_recoverNow _)
  · exact errand?_withErrand _ _ h

variable [Probe ρ]

theorem errand?_act_of_some {s : Controller ρ} {a : Action} {c : Nat} {e : Errand}
    (h : s.errand? c = some e) (hresume : a ≠ .resume c) (habandon : a ≠ .abandon c) :
    (s.act a).errand? c = some e := by
  have hother {client : Nat} (hfree : ¬(s.errand? client).isSome) : c ≠ client := by
    rintro rfl
    exact hfree (Option.isSome_of_eq_some h)
  cases a with
  | setThreshold client k =>
    simp only [act]
    unfold setThreshold
    split
    · exact h
    · rename_i hfree
      exact (errands_configure (s.note _) _ (hother hfree)).trans h
  | setShortStorms client k =>
    simp only [act]
    unfold setShortStorms
    split
    · exact h
    · rename_i hfree
      exact (errands_configure (s.note _) _ (hother hfree)).trans h
  | cancelAll client =>
    simp only [act]
    unfold cancelAll
    split
    · exact h
    · rename_i hfree
      exact (errand?_cancelJobs s.withoutPulses false Job.all (hother hfree)).trans h
  | shutdown client =>
    simp only [act]
    unfold shutdown
    split
    · exact h
    · rename_i hfree
      exact (errand?_cancelJobs s.withoutPulses true Job.all (hother hfree)).trans h
  | resume client => exact (s.errand?_resume fun he => hresume (congrArg _ he.symm)).trans h
  | abandon client => exact (s.errand?_abandon fun he => habandon (congrArg _ he.symm)).trans h
  | _ => exact (errand?_of_backlog (errands_act rfl) c).trans h

theorem errand?_act_of_flush {s : Controller ρ} {a : Action} {client : Nat}
    (h : s.errand? client = some .flush) (habandon : a ≠ .abandon client) :
    (s.act a).errand? client = some .flush ∨
      (s.act a).errand? client = none ∧ (s.act a).reenable.armed = false := by
  by_cases hresume : a = .resume client
  · subst hresume
    cases hheld : s.holdsRun .reenable client with
    | true =>
      have happlied := applied_resume h hheld
      exact .inr ⟨happlied.returned, happlied.disarmed⟩
    | false =>
      have hstays : s.resume client = s := by simp [Controller.resume, h, hheld]
      rw [act, hstays]
      exact .inl h
  · exact .inl (errand?_act_of_some h hresume habandon)

end Errands

section Passes

variable {s : Controller ρ} {a : Action}

/-- Whether a re-enable pass runs in an action. -/
def passesIn (s : Controller ρ) : Action → Bool
  | .move .reenable timerFirst => (s.reenable.seek s.now timerFirst).2 = .claimed
  | .resume client =>
    s.errand? client = some .flush && s.holdsRun .reenable client && s.reenable.armed
  | a => (s.knob? a).any fun x =>
    (s.requestRun .reenable x.1).holdsRun .reenable x.1 && s.reenable.armed

theorem passesIn_iff (s : Controller ρ) (a : Action) : s.passesIn a = true ↔ s.RecoveryPass a := by
  constructor
  · intro h
    unfold passesIn at h
    split at h
    · exact .timer (of_decide_eq_true h)
    · simp only [Bool.and_eq_true, decide_eq_true_eq] at h
      exact .resume h.1.1 h.1.2 h.2
    · obtain ⟨⟨client, config⟩, hk, hx⟩ := (Option.any_eq_true _ _).mp h
      obtain ⟨hgranted, harmed⟩ := Bool.and_eq_true_iff.mp hx
      exact .knob hk hgranted harmed
  · intro h
    cases h with
    | timer hs => exact decide_eq_true hs
    | resume he hh harmed => simp [passesIn, he, hh, harmed]
    | knob hk hgranted harmed =>
      have hany : (s.knob? a).any (fun x =>
          (s.requestRun .reenable x.1).holdsRun .reenable x.1 && s.reenable.armed) = true := by
        rw [hk]
        exact Bool.and_eq_true_iff.mpr ⟨hgranted, harmed⟩
      cases a with
      | setThreshold client k => exact hany
      | setShortStorms client k => exact hany
      | _ => cases hk

instance (s : Controller ρ) (a : Action) : Decidable (s.RecoveryPass a) :=
  decidable_of_iff _ (s.passesIn_iff a)

def passes [Probe ρ] (s : Controller ρ) (as : List Action) : ℕ :=
  (s.trail as).countP fun x => x.1.RecoveryPass x.2

theorem passes_cons [Probe ρ] (s : Controller ρ) (a : Action) (as : List Action) :
    s.passes (a :: as) = (s.act a).passes as + if s.RecoveryPass a then 1 else 0 := by
  simp only [passes, trail, List.countP_cons, decide_eq_true_eq]

/-- The generic worker hands a storm over, which arms the recovery. -/
def Mitigates (s : Controller ρ) (a : Action) : Prop :=
  (∃ timerFirst, a = .move .generic timerFirst) ∧ s.generic.seek.2 = .claimed ∧
    ∃ p, s.table.state p = .autoDisabled

def Cancels (s : Controller ρ) : Action → Prop
  | .cancelAll _ => True
  | .shutdown _ => True
  | .resume client => ∃ e, s.errand? client = some e ∧ e ≠ .flush
  | _ => False

theorem RecoveryPass.armed (h : s.RecoveryPass a) : s.reenable.armed = true := by
  cases h with
  | @timer timerFirst hs =>
    obtain ⟨-, hdue, -⟩ := DelayedWork.seek_claimed (Prod.ext rfl hs)
    obtain ⟨d, hd, -⟩ := (s.reenable.due_iff s.now).mp hdue
    exact Option.isSome_of_eq_some hd
  | knob _ _ harmed => exact harmed
  | resume _ _ harmed => exact harmed

variable [Probe ρ]

theorem RecoveryPass.disarms (h : s.RecoveryPass a) : (s.act a).reenable.armed = false := by
  have hdisarmed {w : Watch} (hw : (s.act a).watch = (w.dropping true false).recovered) :
      (s.act a).reenable.armed = false := by
    show (s.act a).watch.deadline.isSome = false
    rw [hw]
    rfl
  cases h with
  | timer hs => exact hdisarmed (watch_claim_reenable hs)
  | @knob _ client config hk hgranted harmed =>
    obtain ⟨m, hact⟩ := act_knob hk
    refine hdisarmed (w := s.watch.configured config) ?_
    rw [hact, watch_configure, silent_watch.note]
    exact if_pos ⟨hgranted, harmed⟩
  | resume he hheld _ => exact (applied_resume he hheld).disarmed

theorem mitigates_of_claimed {timerFirst : Bool} (hs : s.generic.seek.2 = .claimed)
    (hdeadline : (s.act (.move .generic timerFirst)).watch ≠ s.watch) :
    s.Mitigates (.move .generic timerFirst) := by
  rw [watch_claim_generic hs] at hdeadline
  split at hdeadline
  · exact absurd rfl hdeadline
  · rename_i hstorm
    obtain ⟨p, hp⟩ := Watch.exists_of_isEmpty_pinsIn (Bool.not_eq_true _ ▸ hstorm)
    exact ⟨⟨timerFirst, rfl⟩, hs, p, hp⟩

/-- The recovery is armed by a mitigation only. Without a run of it only a cancellation disarms
it. -/
theorem armed_act_cases (hm : ¬s.Mitigates a) (hp : ¬s.RecoveryPass a) :
    (s.act a).reenable.armed = s.reenable.armed ∨
      (s.act a).reenable.armed = false ∧ s.Cancels a := by
  have he := s.effect_act a
  have harmed : (s.act a).reenable.armed = (s.act a).watch.deadline.isSome := rfl
  rw [harmed]
  generalize hw : (s.act a).watch = w at he
  cases he with
  | interrupts _ =>
    obtain ⟨stats, hi⟩ := fixed_foldl_interrupted (s.interruptsOf a) s.watch
    rw [hi]
    exact .inl rfl
  | mitigation hs =>
    by_cases hsame : s.watch.mitigated = s.watch
    · rw [hsame]
      exact .inl rfl
    · exact absurd (mitigates_of_claimed hs (hw ▸ hsame)) hm
  | recovery hpass => exact absurd hpass hp
  | knob _ hpass => exact absurd hpass hp
  | flush hpass => exact absurd hpass hp
  | cancellation recovery run hdrops =>
    cases recovery with
    | false => exact .inl rfl
    | true =>
      cases harm : s.reenable.armed with
      | false => exact .inl rfl
      | true =>
        refine .inr ⟨rfl, ?_⟩
        cases a with
        | cancelAll client => trivial
        | shutdown client => trivial
        | resume client =>
          rcases s.resume_cases client with hr | ⟨j, rest, stop, he, -⟩ | ⟨he, hheld, -⟩
          · have hstays : (s.act (.resume client)).watch.deadline.isSome = true := by
              rw [act, hr]
              exact harm
            rw [hw] at hstays
            cases hstays
          · exact ⟨_, he, by simp⟩
          · exact absurd (.resume he hheld harm) hp
        | _ => cases hdrops
  | _ => exact .inl rfl

/-- An armed recovery runs once, or it stays armed, as long as nobody arms it or takes it back. -/
theorem passes_balance {as : List Action}
    (h : ∀ x ∈ s.trail as, ¬x.1.RecoveryPass x.2 →
      (x.1.act x.2).reenable.armed ≤ x.1.reenable.armed) :
    s.passes as + (s.run as).reenable.armed.toNat ≤ s.reenable.armed.toNat ∧
      ((∀ x ∈ s.trail as, ¬x.1.RecoveryPass x.2 →
        (x.1.act x.2).reenable.armed = x.1.reenable.armed) →
          s.passes as + (s.run as).reenable.armed.toNat = s.reenable.armed.toNat) := by
  induction as generalizing s with
  | nil => exact ⟨(Nat.zero_add _).le, fun _ => Nat.zero_add _⟩
  | cons a as ih =>
    obtain ⟨hle, heq⟩ := ih (s := s.act a) fun x hx => h x (List.mem_cons_of_mem _ hx)
    have hrun : s.run (a :: as) = (s.act a).run as := rfl
    rw [passes_cons, hrun]
    by_cases hp : s.RecoveryPass a
    · rw [hp.disarms] at hle heq
      rw [if_pos hp, hp.armed]
      simp only [Bool.toNat_false, Bool.toNat_true] at hle heq ⊢
      exact ⟨by omega, fun _ => by omega⟩
    · have hstep := Bool.toNat_le_toNat (h (s, a) List.mem_cons_self hp)
      rw [if_neg hp, Nat.add_zero]
      refine ⟨hle.trans hstep, fun hsame => ?_⟩
      rw [heq fun x hx => hsame x (List.mem_cons_of_mem _ hx), hsame (s, a) List.mem_cons_self hp]

theorem passes_of_same (as : List Action)
    (h : ∀ x ∈ s.trail as, ¬x.1.RecoveryPass x.2 →
      (x.1.act x.2).reenable.armed = x.1.reenable.armed) :
    s.passes as + (s.run as).reenable.armed.toNat = s.reenable.armed.toNat :=
  (passes_balance fun x hx hp => (h x hx hp).le).2 h

/-- Without a further mitigation the recovery runs at most once. -/
theorem passes_le {as : List Action} (hm : ∀ x ∈ s.trail as, ¬x.1.Mitigates x.2) :
    s.passes as + (s.run as).reenable.armed.toNat ≤ s.reenable.armed.toNat := by
  refine (passes_balance fun x hx hp => ?_).1
  rcases armed_act_cases (hm x hx) hp with hsame | ⟨hnone, -⟩
  · rw [hsame]
  · rw [hnone]
    exact Bool.false_le _

theorem armed_act_of_not_cancels (hm : ¬s.Mitigates a) (hc : ¬s.Cancels a)
    (hp : ¬s.RecoveryPass a) : (s.act a).reenable.armed = s.reenable.armed :=
  (armed_act_cases hm hp).resolve_right fun h => hc h.2

end Passes

section Rivals

variable [Probe ρ] {s t : Controller ρ} {client : Nat} {config : StormConfig} {a : Action}

/-- The actions of those who compete with a client for the run lock of the re-enable job: its
worker, and the other clients who wait for this lock only. Turns end and the time passes. -/
def Contends (s : Controller ρ) (client : Nat) : Action → Prop
  | .move .reenable _ => True
  | .giveWay => True
  | .advance _ => True
  | .resume c => ∀ e, s.errand? c = some e → e.jobs = [.reenable]
  | .abandon c => c ≠ client
  | _ => False

/-- Nothing is to be seen, and the recovery stays as it is. -/
def Unseen (s t : Controller ρ) : Prop := s.Shows t ∧ t.reenable.armed = s.reenable.armed

omit [Probe ρ] in
theorem Unseen.refl (s : Controller ρ) : s.Unseen s := ⟨.refl s, rfl⟩

omit [Probe ρ] in
theorem Unseen.trans {u : Controller ρ} (h : s.Unseen t) (h' : t.Unseen u) : s.Unseen u :=
  ⟨h.1.trans h'.1, h'.2.trans h.2⟩

omit [Probe ρ] in
theorem Unseen.rouse (s : Controller ρ) (j : Job) : s.Unseen (s.rouse j) := by
  obtain ⟨line, hroused⟩ := s.rouse_eq j
  rw [hroused]
  exact ⟨s.shows_work _ _ _ _, rfl⟩

omit [Probe ρ] in
theorem Unseen.withLane (s : Controller ρ) (j : Job) (f : Lane Rest → Lane Rest) :
    s.Unseen (s.withLane j f) := by
  cases j <;> exact ⟨⟨rfl, rfl, rfl, rfl, rfl, rfl⟩, rfl⟩

omit [Probe ρ] in
theorem Unseen.withoutErrand (s : Controller ρ) (c : Nat) : s.Unseen (s.withoutErrand c) :=
  ⟨s.shows_work _ _ _ _, rfl⟩

omit [Probe ρ] in
theorem Unseen.stopWorkers (s : Controller ρ) : s.Unseen s.stopWorkers := by
  have hlanes : s.Unseen (Job.all.foldl (fun s j => s.withLane j Lane.stop) s) := by
    simp only [Job.all, List.foldl_cons, List.foldl_nil]
    exact (withLane _ _ _).trans ((withLane _ _ _).trans ((withLane _ _ _).trans (withLane _ _ _)))
  unfold Controller.stopWorkers
  generalize Job.all.foldl (fun s j => s.withLane j Lane.stop) s = u at hlanes ⊢
  exact hlanes.trans ⟨⟨rfl, rfl, rfl, rfl, rfl, rfl⟩, rfl⟩

omit [Probe ρ] in
theorem Unseen.stopAll (s : Controller ρ) (c : Nat) : s.Unseen (s.stopAll c) := by
  have hasked : s.Unseen (s.requestRun .digital c) := .withLane s .digital _
  unfold Controller.stopAll
  simp only
  split
  · exact hasked.trans ⟨shows_work _ _ _ _ _, rfl⟩
  · exact .stopWorkers s

/-- A move of the worker is a run of the recovery, or nothing is to be seen of it. -/
theorem recovers_or_unseen_move (s : Controller ρ) (timerFirst : Bool) :
    s.RecoveryPass (.move .reenable timerFirst) ∧
        s.reenablePass.Shows (s.act (.move .reenable timerFirst)) ∨
      s.Unseen (s.act (.move .reenable timerFirst)) := by
  -- The place in line after the move is not to be seen.
  have hmoved {t : Controller ρ} (ht : t.Shows (s.moveReenable timerFirst)) :
      t.Shows (s.act (.move .reenable timerFirst)) := ht.trans (shows_work _ _ _ _ _)
  cases hs : s.reenable.seek s.now timerFirst with
  | mk w found =>
    cases found with
    | looking =>
      have hmove : s.moveReenable timerFirst = { s with reenable := w } := by
        simp only [moveReenable, hs]
      rw [hmove] at hmoved
      refine .inr ⟨hmoved (s.shows_work _ _ _ _), ?_⟩
      show (s.moveReenable timerFirst).reenable.armed = _
      rw [hmove]
      exact congrArg Option.isSome (DelayedWork.deadline_seek hs)
    | claimed =>
      have hmove : s.moveReenable timerFirst =
          (({ s with reenable := w } : Controller ρ).beginRun .reenable
            {}).reenablePass.finishRun .reenable := by
        simp only [moveReenable, hs]
      refine .inl ⟨.timer (congrArg Prod.snd hs), hmoved ?_⟩
      rw [hmove]
      exact (Shows.reenablePass (s.shows_work _ _ _ _)).trans (shows_work _ _ _ _ _)

theorem recovers_or_unseen_resume {c : Nat}
    (h : ∀ e, s.errand? c = some e → e.jobs = [.reenable]) :
    s.RecoveryPass (.resume c) ∧ s.reenablePass.Shows (s.act (.resume c)) ∨
      s.Unseen (s.act (.resume c)) := by
  rcases s.resume_cases c with hr | ⟨j, rest, stop, he, -, hr⟩ | ⟨he, hheld, hr⟩
  · rw [act, hr]
    exact .inr (.refl s)
  · obtain ⟨rfl, rfl⟩ := List.cons.inj (h _ he)
    have hreleased : s.Unseen ((s.withoutErrand c).releaseRun .reenable) :=
      (Unseen.withoutErrand s c).trans ((Unseen.withLane _ _ _).trans (Unseen.rouse _ _))
    rw [act, hr, cancelJobs]
    split
    · exact .inr (hreleased.trans (Unseen.stopAll _ c))
    · exact .inr hreleased
  · obtain ⟨reenable, ready, hnone, hnow⟩ := (s.withoutErrand c).recoverNow_eq
    have hact : s.act (.resume c) = { (s.withoutErrand c).takeOver with reenable, ready } :=
      hr.trans hnow
    have hwithout : s.Shows (s.withoutErrand c) := s.shows_work _ _ _ _
    have hshown : (s.withoutErrand c).takeOver.Shows (s.act (.resume c)) := by
      rw [hact]
      exact shows_work _ _ _ _ _
    have harmed : (s.withoutErrand c).reenable.armed = s.reenable.armed := rfl
    rw [takeOver, harmed] at hshown
    cases harm : s.reenable.armed with
    | true =>
      rw [if_pos harm] at hshown
      exact .inl ⟨.resume he hheld harm, hwithout.reenablePass.trans hshown⟩
    | false =>
      rw [if_neg (by simp [harm])] at hshown
      refine .inr ⟨hwithout.trans hshown, ?_⟩
      rw [hact, harm]
      exact congrArg Option.isSome hnone

theorem Contends.cases (h : s.Contends client a) :
    s.RecoveryPass a ∧ s.reenablePass.Shows (s.act a) ∨ s.Unseen (s.act a) := by
  cases a with
  | giveWay => exact .inr ⟨s.shows_work _ _ _ _, rfl⟩
  | advance instant =>
    obtain ⟨line, hroused⟩ :=
      ({ s with now := max s.now instant } : Controller ρ).rouse_eq .reenable
    rw [act, advance, hroused]
    exact .inr ⟨s.shows_work _ _ _ _, rfl⟩
  | move j timerFirst =>
    cases j with
    | reenable => exact s.recovers_or_unseen_move timerFirst
    | _ => cases h
  | resume c => exact recovers_or_unseen_resume h
  | abandon c =>
    simp only [act]
    unfold abandon
    split
    · exact .inr ((Unseen.withoutErrand s c).trans
        ((Unseen.withLane _ _ _).trans (Unseen.rouse _ _)))
    · exact .inr (.refl s)
  | _ => cases h

theorem Contends.armed (h : s.Contends client a) (hp : ¬s.RecoveryPass a) :
    (s.act a).reenable.armed = s.reenable.armed :=
  (h.cases.resolve_left fun hpass => hp hpass.1).2

/-- What holds from the call of a knob in the state `s` on, as long as nobody but rivals acts: the
recovery is still to come, or it has come as a run of the worker in `s` would have done. -/
structure Contested (s : Controller ρ) (client : Nat) (config : StormConfig) (t : Controller ρ) :
    Prop where

  config : t.table.config = config

  counts (p : Pin) : (t.table.get p).count = 0

  windows (p : Pin) : (t.table.get p).windowStart = (s.table.get p).windowStart

  recovery : s.Alike t ∧ t.reenable.armed = s.reenable.armed ∨
    s.reenable.armed = true ∧ s.reenablePass.Alike t ∧ t.reenable.armed = false

  client : t.errand? client = some .flush ∨ t.errand? client = none ∧ t.reenable.armed = false

theorem Contends.errand?_none (h : s.Contends client a) (hnone : s.errand? client = none) :
    (s.act a).errand? client = none := by
  cases a with
  | resume c =>
    by_cases hc : client = c
    · subst hc
      rcases s.resume_cases client with hr | ⟨j, rest, stop, he, -⟩ | ⟨he, -⟩
      · rw [act, hr, hnone]
      · cases hnone.symm.trans he
      · cases hnone.symm.trans he
    · exact (s.errand?_resume hc).trans hnone
  | abandon c => exact (s.errand?_abandon (Ne.symm h)).trans hnone
  | move j timerFirst => exact (errand?_of_backlog (s.errands_move j timerFirst) client).trans hnone
  | advance instant => exact (errand?_of_backlog (by rw [act, backlog_advance]) client).trans hnone
  | giveWay => exact hnone
  | _ => cases h

theorem Contested.act (h : s.Contested client config t) (hc : t.Contends client a) :
    s.Contested client config (t.act a) := by
  have hclient : (t.act a).errand? client = some .flush ∨
      (t.act a).errand? client = none ∧ t.reenable.armed = false ∨
        (t.act a).errand? client = none ∧ (t.act a).reenable.armed = false := by
    rcases h.client with he | ⟨hnone, harmed⟩
    · exact (errand?_act_of_flush he (by rintro rfl; exact hc rfl)).imp_right .inr
    · exact .inr (.inl ⟨hc.errand?_none hnone, harmed⟩)
  rcases hc.cases with ⟨hpass, hshown⟩ | ⟨hshown, harmed⟩
  · have hdisarmed := hpass.disarms
    have htaken : t.takeOver = t.reenablePass := if_pos hpass.armed
    have htable : (t.act a).table = t.takeOver.table := by rw [htaken, hshown.table]
    rcases h.recovery with ⟨halike, hsame⟩ | ⟨-, -, hnone⟩
    · refine ⟨?_, fun p => ?_, fun p => ?_, .inr ⟨?_, ?_, hdisarmed⟩, ?_⟩
      · rw [htable, config_takeOver, h.config]
      · rw [htable, (t.stats_takeOver p).1, h.counts]
      · rw [htable, (t.stats_takeOver p).2, h.windows]
      · rw [← hsame, hpass.armed]
      · exact halike.reenablePass.trans hshown.alike
      · rcases hclient with he | ⟨hnone, -⟩ | hdone
        · exact .inl he
        · exact .inr ⟨hnone, hdisarmed⟩
        · exact .inr hdone
    · rw [hpass.armed] at hnone
      cases hnone
  · refine ⟨?_, fun p => ?_, fun p => ?_, ?_, ?_⟩
    · rw [hshown.table, h.config]
    · rw [hshown.table, h.counts]
    · rw [hshown.table, h.windows]
    · rcases h.recovery with ⟨halike, hsame⟩ | ⟨hwas, halike, hnone⟩
      · exact .inl ⟨halike.trans hshown.alike, harmed.trans hsame⟩
      · exact .inr ⟨hwas, halike.trans hshown.alike, harmed.trans hnone⟩
    · rcases hclient with he | ⟨hnone, hunarmed⟩ | hdone
      · exact .inl he
      · exact .inr ⟨hnone, harmed.trans hunarmed⟩
      · exact .inr hdone

theorem Contested.run (h : s.Contested client config t) {as : List Action}
    (has : ∀ x ∈ t.trail as, x.1.Contends client x.2) : s.Contested client config (t.run as) := by
  induction as generalizing t with
  | nil => exact h
  | cons a as ih =>
    exact ih (h.act (has (t, a) List.mem_cons_self)) fun x hx => has x (List.mem_cons_of_mem _ hx)

theorem AppliedAlone.contested (h : s.AppliedAlone client config (fun _ => 0) t) :
    s.Contested client config t := by
  refine ⟨h.config, h.counts, h.windows, ?_, .inr ⟨h.returned, h.disarmed⟩⟩
  have houtcome := h.outcome
  cases harm : s.reenable.armed with
  | true =>
    rw [harm, if_pos rfl, outcome_timerRun] at houtcome
    refine .inr ⟨rfl, ⟨houtcome, ?_, ?_, ?_, ?_⟩, h.disarmed⟩ <;> rw [h.rest, reenablePass_frame]
  | false =>
    rw [harm, if_neg Bool.false_ne_true] at houtcome
    refine .inl ⟨⟨houtcome, ?_, ?_, ?_, ?_⟩, h.disarmed⟩ <;> rw [h.rest]

omit [Probe ρ] in
theorem Awaits.contested (h : s.Awaits client config t) : s.Contested client config t := by
  refine ⟨h.config, h.counts, h.windows, .inl ⟨⟨h.outcome, ?_, ?_, ?_, ?_⟩, ?_⟩, .inl h.errand⟩ <;>
    rw [h.rest]
  rfl

/-- When the client has returned, its knob is applied. -/
theorem Contested.applied (h : s.Contested client config t) (hdone : t.errand? client = none) :
    s.Applied client config (fun _ => 0) t := by
  rcases h.client with he | ⟨-, hdisarmed⟩
  · cases hdone.symm.trans he
  refine ⟨hdone, hdisarmed, h.config, h.counts, h.windows, ?_⟩
  rcases h.recovery with ⟨halike, hsame⟩ | ⟨hwas, halike, -⟩
  · rw [← hsame, hdisarmed]
    exact halike.outcome
  · rw [hwas, if_pos rfl, outcome_timerRun]
    exact halike.outcome

end Rivals

end HotplugDetect.Controller
