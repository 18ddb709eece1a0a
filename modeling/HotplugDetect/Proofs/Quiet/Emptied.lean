import Mathlib.Data.List.Infix
import HotplugDetect.Controller.Script
import HotplugDetect.Proofs.Backlog.Kept
import HotplugDetect.Proofs.Quiet.Moves
import HotplugDetect.Proofs.Watch.Runs

/-! # What a cancellation leaves behind

A cancellation takes the jobs in the order in which their runs feed each other. The work of a job
that it has dealt with does not come back, since only jobs before it could ask for it. When the
cancellation is through, nothing is left to do. Only a digital run that was in flight when the
events were dropped may have recorded refused pulses since.
-/

namespace HotplugDetect

variable {ρ : Type}

namespace Backlog

/-- A job whose runs ask for further work stands before the job that gets it: whoever still has to
be dealt with comes last. -/
structure Downstream (later underway : List Job) : Prop where

  digital : .digital ∉ later

  refused : .digital ∈ underway → .generic ∈ later

  generic : .generic ∈ later → .reenable ∈ later

  subset {j : Job} : j ∈ later → j ∈ underway

theorem downstream_nil : Downstream [] [] := ⟨List.not_mem_nil, nofun, nofun, nofun⟩

theorem downstream_of_suffix {j : Job} {rest : List Job} (h : j :: rest <:+ Job.all) :
    Downstream rest (j :: rest) := by
  have htails : j :: rest ∈ Job.all.tails := (List.mem_tails _ _).mpr h
  simp only [Job.all, List.tails, List.mem_cons, List.cons.injEq, reduceCtorEq, List.not_mem_nil,
    or_false] at htails
  rcases htails with ⟨rfl, rfl⟩ | ⟨rfl, rfl⟩ | ⟨rfl, rfl⟩ | ⟨rfl, rfl⟩
  all_goals exact ⟨by decide, by decide, by decide, List.mem_cons_of_mem _⟩

/-- No pulse is recorded. Runs are asked for in jobs of `later` only, and in flight in jobs of
`underway` only. -/
structure Drained (b : Backlog) (later underway : List Job) : Prop where

  pulses : b.longPorts = ∅ ∧ b.shortPorts = ∅

  wanted {j : Job} : j ∉ later → b.wanted j = false

  rest {j : Job} : j ∉ underway → (b.lane j).rest? = none

section Steps

variable {b b' : Backlog} {later underway : List Job} {j : Job}

/-- Whoever still has to be dealt with may go on; it asks for nothing that was dealt with. -/
theorem Drained.moves {now : Nat} (h : b.Drained later underway) (hd : Downstream later underway)
    (hm : b.Moves now j b') : b'.Drained later underway := by
  have hmem {k : Job} (hw : b.wanted k = true) : k ∈ later := by
    by_contra hk
    rw [h.wanted hk] at hw
    cases hw
  refine ⟨?_, fun {k} hk => Bool.eq_false_iff.mpr fun hw => ?_, fun {k} hk => ?_⟩
  · cases hm with
    | drains => exact ⟨rfl, rfl⟩
    | _ => exact h.pulses
  · rcases hm.wanted hw with hkept | ⟨rfl, hdigital⟩ | ⟨rfl, hgeneric⟩
    · exact hk (hmem hkept)
    · refine hk (hd.refused ?_)
      by_contra hout
      have hidle : b.digital.rest? = none := h.rest hout
      rw [hidle] at hdigital
      cases hdigital
    · exact hk (hd.generic (hmem hgeneric))
  · exact hm.rest?_eq_none (h.rest hk) (h.wanted fun hin => hk (hd.subset hin))

theorem Drained.withLane (h : b.Drained later underway) (j : Job) {f : Lane Rest → Lane Rest}
    (hf : ∀ l, (f l).rest? = l.rest?) : (b.withLane j f).Drained later underway where
  pulses := by
    cases j <;> exact h.pulses
  wanted {k} hk := by
    rw [wanted_withLane]
    exact h.wanted hk
  rest {k} hk := by
    rw [rest?_withLane b j k hf]
    exact h.rest hk

theorem Drained.withErrands (h : b.Drained later underway) (errands : List (Nat × Errand)) :
    ({ b with errands } : Backlog).Drained later underway :=
  ⟨h.pulses, fun {k} hk => by cases k <;> exact h.wanted hk,
    fun {k} hk => by cases k <;> exact h.rest hk⟩

theorem Drained.withMode (h : b.Drained later underway) (mode : Lock ModeParty) :
    ({ b with mode } : Backlog).Drained later underway :=
  ⟨h.pulses, fun {k} hk => by cases k <;> exact h.wanted hk,
    fun {k} hk => by cases k <;> exact h.rest hk⟩

theorem Drained.disarm (h : b.Drained (j :: later) underway) :
    (b.disarm j).Drained later underway where
  pulses := by
    cases j <;> exact h.pulses
  wanted {k} hk := by
    rw [wanted_disarm]
    by_cases he : k = j
    · simp [he]
    · rw [h.wanted (by simp [he, hk])]
      rfl
  rest {k} hk := (b.rest?_disarm j k).trans (h.rest hk)

theorem Drained.weaken (h : b.Drained later underway) (j : Job) :
    b.Drained (j :: later) underway :=
  ⟨h.pulses, fun hk => h.wanted fun hin => hk (List.mem_cons_of_mem j hin), h.rest⟩

theorem Drained.step {a : Action} (h : b.Drained later underway) (ha : a.drops = true)
    (hs : Step a b b') : b'.Drained later underway := by
  have hmove {j : Job} : ¬∃ timerFirst, a = .move j timerFirst := by
    rintro ⟨timerFirst, rfl⟩
    cases ha
  cases hs with
  | interrupted hdrops =>
    rw [ha] at hdrops
    cases hdrops
  | queuesPollInit hrequest => rcases hrequest with rfl | ⟨on, rfl⟩ <;> cases ha
  | digitalLooks hm => exact absurd hm hmove
  | genericLooks hm => exact absurd hm hmove
  | pollInitLooks hm => exact absurd hm hmove
  | reenableLooks hm => exact absurd ⟨_, hm⟩ hmove
  | drains hm => exact absurd hm hmove
  | delivers hm => exact absurd hm hmove
  | fallsBack hm => exact absurd hm hmove
  | takes hm => exact absurd hm hmove
  | probed hm => exact absurd hm hmove
  | reads hm => exact absurd hm hmove
  | reinitialized hm => exact absurd hm hmove
  | recovers hm => exact absurd ⟨_, hm⟩ hmove
  | forgets =>
    refine ⟨⟨rfl, rfl⟩, fun {k} hk => ?_, fun {k} hk => ?_⟩
    · cases k <;> exact h.wanted hk
    · cases k <;> exact h.rest hk
  | disarms j => exact (h.weaken j).disarm
  | passes => exact h.withLane _ fun _ => rfl
  | waits =>
    refine (h.withLane _ ?_).withErrands _
    exact fun _ => rfl
  | resumes =>
    refine (h.withLane _ ?_).withErrands _
    exact fun _ => rfl
  | leaves =>
    refine (h.withLane _ ?_).withErrands _
    exact fun _ => rfl
  | starts hstart =>
    subst hstart
    cases ha
  | stops =>
    refine ⟨h.pulses, fun {k} hk => ?_, fun {k} hk => ?_⟩
    · cases k <;> exact h.wanted hk
    · cases k <;> exact Lane.rest?_stop _
  | holds => exact h.withMode _
  | releases => exact h.withMode _

theorem Drained.past (h : b.Drained later (j :: underway)) (hj : (b.lane j).rest? = none) :
    b.Drained later underway := by
  refine ⟨h.pulses, h.wanted, fun {k} hk => ?_⟩
  by_cases he : k = j
  · exact he ▸ hj
  · exact h.rest (by simp [he, hk])

end Steps

end Backlog

namespace Controller

open Backlog

variable {s : Controller ρ} {client : Nat} {later underway : List Job}

def Emptying (s : Controller ρ) (client : Nat) : Prop :=
  ∃ j rest stop, s.errand? client = some (.cancel j rest stop) ∧ j :: rest <:+ Job.all ∧
    s.backlog.Drained rest (j :: rest)

def Emptied (s : Controller ρ) (client : Nat) : Prop :=
  s.errand? client = none ∧ s.backlog.Drained [] []

theorem emptied_cancelJobs {stop : Bool} {js : List Job} (hjs : js <:+ Job.all)
    (hline : ∃ there, s.backlog.InLine there) (hfresh : s.errand? client = none)
    (h : s.backlog.Drained js js) : (s.cancelJobs client stop js).Emptying client ∨
      (s.cancelJobs client stop js).Emptied client := by
  induction js generalizing s with
  | nil =>
    unfold cancelJobs
    split
    · have hidle : s.digital.rest? = none := h.rest (j := .digital) List.not_mem_nil
      rw [stopAll_of_idle hidle]
      refine .inr ⟨(s.errand?_stopWorkers client).trans hfresh, ?_⟩
      rw [backlog_stopWorkers]
      refine h.step (a := .resume client) rfl (.stops client rfl fun hflight => ?_)
      rw [show s.backlog.digital.rest? = none from hidle] at hflight
      cases hflight
    · exact .inr ⟨hfresh, h⟩
  | cons j js ih =>
    obtain ⟨there, hline⟩ := hline
    have hdisarmed : (s.disarm j).backlog.Drained js (j :: js) := by
      rw [backlog_disarm]
      exact h.disarm
    have hline' : (s.disarm j).backlog.InLine there := by
      rw [backlog_disarm]
      exact hline.disarms j
    have hfresh' : (s.disarm j).errand? client = none := (s.errand?_disarm j client).trans hfresh
    unfold cancelJobs
    simp only [holdsRun_requestRun]
    split
    · rename_i hh
      have hrun := (hline'.lanes j).run_of_granted (not_mem_waiting_of_fresh hfresh' j) hh
      have hover := hdisarmed.past (hline'.rest?_of_holder (by rw [hrun]; simp))
      have hpassed : (((s.disarm j).requestRun j client).releaseRun j).backlog =
          (s.disarm j).backlog.withLane j fun l =>
            { l with run := (l.run.request (.client client)).release } := by
        rw [backlog_releaseRun, backlog_requestRun, withLane_withLane]
      refine ih ((List.suffix_cons j js).trans hjs) ⟨there, ?_⟩ ?_ ?_
      · rw [hpassed]
        exact hline'.passes hfresh' hh
      · rw [errand?_releaseRun, errand?_requestRun, hfresh']
      · rw [hpassed]
        exact hover.withLane j fun _ => rfl
    · refine .inl ⟨j, js, stop, ?_, hjs, ?_⟩
      · show (((s.disarm j).requestRun j client).errands ++ [(client, _)]).lookup client = _
        have hnone := (errand?_requestRun (s.disarm j) j client client).trans hfresh'
        rw [List.lookup_append, show List.lookup client _ = none from hnone]
        simp
      · rw [backlog_withErrand, backlog_requestRun]
        refine (hdisarmed.withLane j ?_).withErrands _
        exact fun _ => rfl

section Actions

variable [Probe ρ]

theorem drained_act (hd : Downstream later underway) (h : s.backlog.Drained later underway)
    {a : Action} (ha : a.background = true) (hi : s.interruptsOf a = []) :
    (s.act a).backlog.Drained later underway := by
  have hsteps {client : Nat} {b : Backlog} (hs : Steps (.resume client) s.backlog b) :
      b.Drained later underway :=
    Steps.induction (P := fun b => b.Drained later underway) (fun _ _ hs hb => hb.step rfl hs) hs h
  cases a with
  | resume client => exact hsteps (s.steps_resume client)
  | abandon client => exact hsteps (s.steps_abandon (a := .resume client) client)
  | hold party =>
    rw [act, backlog_hold]
    exact h.withMode _
  | release party =>
    rw [act, backlog_release]
    exact h.withMode _
  | move j timerFirst => exact h.moves hd (moves_move hi)
  | giveWay => exact h
  | advance instant =>
    rw [act, backlog_advance]
    exact h
  | _ => cases ha

/-- Nothing is left to be done, and nothing calls anybody. -/
theorem calls_act (h : s.backlog.Drained [] []) {a : Action} (ha : a.background = true) :
    (s.act a).calls = s.calls := by
  cases a with
  | resume client => exact s.calls_resume (h.wanted (j := .reenable) List.not_mem_nil) client
  | abandon client => exact outward_calls.abandon s client
  | hold party => exact outward_calls.hold s party
  | release party => exact outward_calls.release s party
  | move j timerFirst =>
    exact s.calls_move (h.wanted List.not_mem_nil) (lane_backlog s j ▸ h.rest List.not_mem_nil) _
  | giveWay => rfl
  | advance instant => exact s.calls_advance instant
  | _ => cases ha

theorem calls_run (h : s.backlog.Drained [] []) {as : List Action} (has : s.LeftAlone as = true) :
    (s.run as).calls = s.calls := by
  induction as generalizing s with
  | nil => rfl
  | cons a as ih =>
    obtain ⟨ha, hi, has⟩ := leftAlone_cons.mp has
    exact (ih (drained_act downstream_nil h ha hi) has).trans (calls_act h ha)

theorem emptied_act (hline : ∃ there, s.backlog.InLine there)
    (h : s.Emptying client ∨ s.Emptied client) {a : Action} (ha : a.background = true)
    (hi : s.interruptsOf a = []) (hstay : a ≠ .abandon client) :
    (s.act a).Emptying client ∨ (s.act a).Emptied client := by
  by_cases hresume : a = .resume client
  · subst hresume
    rcases h with ⟨j, rest, stop, he, hsuffix, hdrained⟩ | hemptied
    · rcases s.resume_cases client with hr | ⟨j', rest', stop', he', hh, hr⟩ | ⟨he', -, -⟩
      · rw [act, hr]
        exact .inl ⟨j, rest, stop, he, hsuffix, hdrained⟩
      · cases he.symm.trans he'
        obtain ⟨there, hline⟩ := hline
        rw [act, hr]
        have hholder := (Lock.heldBy_iff _ _).mp hh
        have hover : s.backlog.Drained rest rest := by
          refine hdrained.past (hline.rest?_of_holder ?_)
          simp [hholder]
        refine emptied_cancelJobs ((List.suffix_cons j rest).trans hsuffix) ⟨there, ?_⟩ ?_ ?_
        · rw [backlog_released]
          exact hline.resumes (e := .cancel j rest stop) he (lane_backlog s j ▸ hh)
        · rw [errand?_releaseRun]
          exact lookup_filter_self s.errands client
        · rw [backlog_released]
          refine (hover.withLane j ?_).withErrands _
          exact fun _ => rfl
      · cases he.symm.trans he'
    · rcases s.resume_cases client with hr | ⟨j, rest, stop, he, -⟩ | ⟨he, -⟩
      · rw [act, hr]
        exact .inr hemptied
      · cases hemptied.1.symm.trans he
      · cases hemptied.1.symm.trans he
  · have herrand := errand?_act ha hi hresume hstay
    rcases h with ⟨j, rest, stop, he, hsuffix, hdrained⟩ | ⟨hnone, hdrained⟩
    · exact .inl ⟨j, rest, stop, herrand.trans he, hsuffix,
        drained_act (downstream_of_suffix hsuffix) hdrained ha hi⟩
    · exact .inr ⟨herrand.trans hnone, drained_act downstream_nil hdrained ha hi⟩

theorem emptied_run (hline : ∃ there, s.backlog.InLine there)
    (h : s.Emptying client ∨ s.Emptied client) {as : List Action} (has : s.LeftAlone as = true)
    (hstay : ∀ a ∈ as, a ≠ .abandon client) :
    (s.run as).Emptying client ∨ (s.run as).Emptied client := by
  induction as generalizing s with
  | nil => exact h
  | cons a as ih =>
    obtain ⟨ha, hi, has⟩ := leftAlone_cons.mp has
    exact ih (inLine_run hline [a]) (emptied_act hline h ha hi (hstay a List.mem_cons_self)) has
      fun x hx => hstay x (List.mem_cons_of_mem a hx)

end Actions

section Refusals

/-- The pins that a digital run in flight finds or has found refused. -/
def toRefuse (s : Controller ρ) : PinSet :=
  s.digital.rest?.elim ∅ fun rest =>
    rest.pulses.elim rest.pins fun pulses => (s.deliver pulses.1 pulses.2 ∅ Port.all).2

theorem toRefuse_of_idle (h : s.digital.rest? = none) : s.toRefuse = ∅ := by
  rw [toRefuse, h, Option.elim_none]

theorem toRefuse_of_taken {rest : Rest} {long short : PortSet} (hr : s.digital.rest? = some rest)
    (htaken : rest.pulses = some (long, short)) :
    s.toRefuse = (s.deliver long short ∅ Port.all).2 := by
  rw [toRefuse, hr, Option.elim_some, htaken, Option.elim_some]

theorem toRefuse_of_delivered {rest : Rest} (hr : s.digital.rest? = some rest)
    (hdone : rest.pulses = none) : s.toRefuse = rest.pins := by
  rw [toRefuse, hr, Option.elim_some, hdone, Option.elim_none]

theorem toRefuse_congr {t : Controller ρ} (hw : t.wiring = s.wiring)
    (hr : t.digital.rest? = s.digital.rest?) : t.toRefuse = s.toRefuse := by
  obtain ⟨hcaps, hports⟩ := Prod.ext_iff.mp hw
  have hdeliver (long short : PortSet) :
      (t.deliver long short ∅ Port.all).2 = (s.deliver long short ∅ Port.all).2 := by
    have hcaps : t.caps = s.caps := hcaps
    have hports : t.digitalPorts = s.digitalPorts := hports
    rw [deliver_eq t long short ∅ (by decide), deliver_eq s long short ∅ (by decide)]
    simp only [refusedBy, pulsesFor, pulseFor, pinForPort, hcaps, hports]
  simp only [toRefuse, hr, hdeliver]

/-- The bit is recorded, or a digital run in flight is going to record it. -/
def Records (s : Controller ρ) (i : Nat) : Prop :=
  s.eventPins.has i = true ∨ s.toRefuse.has i = true

theorem records_of_fades {t : Controller ρ} {i : Nat} (hw : t.wiring = s.wiring)
    (hf : s.backlog.Fades t.backlog) (h : t.Records i) : s.Records i := by
  refine h.imp (fun hpins => ?_) fun hrefused => ?_
  · rcases hf.pins with hp | hp
    · exact (congrArg (·.has i) hp).symm.trans hpins
    · rw [show t.eventPins = ∅ from hp, Mask.has_empty] at hpins
      cases hpins
  · rcases hf.rest with hr | hr
    · exact (congrArg (·.has i) (toRefuse_congr hw hr)).symm.trans hrefused
    · rw [toRefuse_of_idle hr, Mask.has_empty] at hrefused
      cases hrefused

variable [Probe ρ]

/-- A digital run in flight records what it is refused, and no other begins. -/
theorem records_moveDigital {timerFirst : Bool} {i : Nat} (hp : s.digital.pending = false)
    (hi : s.interruptsOf (.move .digital timerFirst) = []) (h : s.moveDigital.Records i) :
    s.Records i := by
  revert h
  unfold moveDigital
  split
  · rename_i rest hw
    have hr : s.digital.rest? = some rest := Lane.rest?_eq_some_iff.mpr hw
    split
    · rename_i long short htaken
      have hquiet : raisedBy (s.pulsesFor long short Port.all) = [] := by
        rwa [interruptsOf, hr, Option.bind_some, htaken] at hi
      have hpins : (s.deliver long short ∅ Port.all).1.eventPins = s.eventPins :=
        congrArg Backlog.eventPins (s.backlog_deliver_quiet ∅ hquiet)
      rintro (hrecorded | hrefused)
      · exact .inl ((congrArg (·.has i) hpins).symm.trans hrecorded)
      · rw [Records, toRefuse_of_taken hr htaken]
        exact .inr hrefused
    · rename_i hdone
      have hpins : (s.fallBack rest.pins).eventPins =
          if rest.pins.isEmpty then s.eventPins else s.eventPins ∪ rest.pins :=
        (congrArg Backlog.eventPins (s.backlog_fallBack rest.pins)).trans (by split <;> rfl)
      rw [Records, Records, toRefuse_of_delivered hr hdone, toRefuse_of_idle rfl, Mask.has_empty]
      rintro (hrecorded | ⟨⟨⟩⟩)
      rw [show ((s.fallBack rest.pins).finishRun .digital).eventPins = _ from hpins] at hrecorded
      split at hrecorded
      · exact .inl hrecorded
      · rw [Mask.has_union, Bool.or_eq_true] at hrecorded
        exact hrecorded
  · split
    · rename_i w hs
      exact records_of_fades rfl ⟨.inl rfl, .inl (Work.rest?_of_seek hs)⟩
    · rename_i w hs
      rw [(Work.seek_claimed hs).2.1] at hp
      cases hp

theorem records_act {a : Action} {i : Nat} (hp : s.digital.pending = false)
    (ha : a.background = true) (hi : s.interruptsOf a = []) (h : (s.act a).Records i) :
    s.Records i := by
  by_cases hm : ∃ timerFirst, a = .move .digital timerFirst
  · obtain ⟨timerFirst, rfl⟩ := hm
    exact records_moveDigital hp hi (records_of_fades (t := s.act _) rfl (.refl _) h)
  · push Not at hm
    exact records_of_fades (wiring_act hm) (fades_act ha hi hm) h

theorem records_run {i : Nat} (hline : ∃ there, s.backlog.InLine there)
    (h : s.Emptying client ∨ s.Emptied client) {as : List Action} (has : s.LeftAlone as = true)
    (hstay : ∀ a ∈ as, a ≠ .abandon client) (hrecords : (s.run as).Records i) : s.Records i := by
  induction as generalizing s with
  | nil => exact hrecords
  | cons a as ih =>
    obtain ⟨ha, hi, has⟩ := leftAlone_cons.mp has
    have hp : s.digital.pending = false := by
      rcases h with ⟨j, rest, stop, -, hsuffix, hdrained⟩ | ⟨-, hdrained⟩
      · exact hdrained.wanted (j := .digital) (downstream_of_suffix hsuffix).digital
      · exact hdrained.wanted (j := .digital) List.not_mem_nil
    exact records_act hp ha hi (ih (inLine_run hline [a])
      (emptied_act hline h ha hi (hstay a List.mem_cons_self)) has
      (fun x hx => hstay x (List.mem_cons_of_mem a hx)) hrecords)

theorem records_cancelAll {i : Nat} (hfree : s.errand? client = none)
    (h : (s.act (.cancelAll client)).Records i) : s.toRefuse.has i = true := by
  rw [act, cancelAll, if_neg (by simp [hfree])] at h
  have hsame : ({ s with longPorts := ∅, shortPorts := ∅, eventPins := ∅ } :
      Controller ρ).toRefuse = s.toRefuse := toRefuse_congr rfl rfl
  have hcancelled : ({ s with longPorts := ∅, shortPorts := ∅, eventPins := ∅ } :
      Controller ρ).Records i := by
    refine records_of_fades (outward_wiring.cancelJobs _ client false Job.all) ?_ h
    exact Steps.induction (P := fun b => Backlog.Fades _ b)
      (fun _ _ hs hb => hb.trans (.of_step (a := .cancelAll client) rfl hs))
      (steps_cancelJobs rfl client false Job.all hfree) (.refl _)
  rcases hcancelled with hpins | hrefused
  · rw [Mask.has_empty] at hpins
    cases hpins
  · exact hsame ▸ hrefused

end Refusals

section Cancellation

variable [Probe ρ]

end Cancellation

/-- A digital run has taken a pulse that its port refuses. The cancellation waits for the end of the
run, and what the run records stays. -/
example :
    let ports : Port → Option PulseHandler :=
      fun port => if port = .C then some ⟨[], fun _ => false⟩ else none
    let s := (ofSettings {} ([] : ConnectorList Script) ports).run
      (Action.boot ++ [.interrupt ⟨.ofList [.portC], ∅⟩, .move .digital true, .move .digital true])
    let t := (s.act (.cancelAll 0)).run [.move .digital true, .move .digital true, .resume 0]
    s.digital.rest?.isSome = true ∧ t.errand? 0 = none ∧ t.eventPins = .ofList [.portC] ∧
      t.generic.pending = false := by
  decide +kernel

/-- A display that answers its probes and raises no interrupt. -/
def placid : Connector Script :=
  .make "VGA-1" (some .crt) .unset false { answers := [true], interrupt := ⟨∅, ∅⟩ }

/-- A storm was handed over, and the run that did so waits for the outside party. Further runs are
pending and the recovery is armed. -/
def besieged : List Action :=
  Action.boot ++ .hold 0 :: Action.storm .crt ++
    [.move .generic true, .move .generic true, .init, .interrupt ⟨.ofList [.crt], ∅⟩]

/-- The poll-init run begins while the cancellation waits for the generic one. -/
def relieved : List Action :=
  [.move .pollInit true, .move .pollInit true, .release 0, .move .generic true, .resume 0,
    .move .pollInit true, .resume 0]

end Controller

end HotplugDetect
