import Mathlib.Order.WellFounded
import HotplugDetect.Proofs.Quiet.Blocking
import HotplugDetect.Proofs.Quiet.Credit

/-! # The end of deferred work

Workers that were started and never stopped attend to everything that was queued. When such a
controller is left alone, and everybody gets a turn again and again, its work comes to an end.
-/

namespace HotplugDetect

variable {ρ : Type}

theorem Lane.canMove_later {β : Type} {l : Lane β} {now now' : Nat} {ready : β → Bool}
    (hle : now ≤ now') (h : l.canMove now ready = true) : l.canMove now' ready = true := by
  rcases l with ⟨permit, run, _ | _ | ⟨u, notified⟩ | _ | rest⟩
  case some.parked =>
    refine Bool.or_eq_true_iff.mpr ((Bool.or_eq_true_iff.mp h).imp_right fun hdue => ?_)
    obtain ⟨d, hd, hle'⟩ := (Option.any_eq_true _ _).mp hdue
    exact (Option.any_eq_true _ _).mpr ⟨d, hd, decide_eq_true ((of_decide_eq_true hle').trans hle)⟩
  all_goals exact h

/-- Actions by which a client takes an errand up, goes on with it or gives it up. -/
def Action.engages : Action → Bool
  | .setThreshold _ _ | .setShortStorms _ _ | .cancelAll _ | .shutdown _ | .resume _
  | .abandon _ => true
  | _ => false

namespace Controller

open Backlog

section Endurance

def Unthreatened (s : Controller ρ) : Prop := ∀ x ∈ s.errands, x.2.stops = false

variable {s : Controller ρ} {client : Nat}

theorem started_disarm (s : Controller ρ) (j : Job) : (s.disarm j).started = s.started := by
  show (s.disarm j).backlog.digital.worker.isSome = _
  rw [backlog_disarm]
  cases j <;> rfl

theorem started_of_withLane {t : Controller ρ} {j : Job} {run : Lane Rest → Lock Claimant}
    (h : t.backlog = s.backlog.withLane j fun l => { l with run := run l }) :
    t.started = s.started := by
  show t.backlog.digital.worker.isSome = _
  rw [h]
  cases j <;> rfl

theorem started_requestRun (s : Controller ρ) (j : Job) (client : Nat) :
    (s.requestRun j client).started = s.started :=
  started_of_withLane (s.backlog_requestRun j client)

theorem started_releaseRun (s : Controller ρ) (j : Job) :
    (s.releaseRun j).started = s.started :=
  started_of_withLane (s.backlog_releaseRun j)

theorem unthreatened_of_backlog {t : Controller ρ} (h : s.Unthreatened)
    (ht : t.backlog.errands = s.backlog.errands) : t.Unthreatened :=
  fun x hx => h x ((show t.errands = s.errands from ht) ▸ hx)

theorem unthreatened_withErrand (h : s.Unthreatened) {e : Errand} (he : e.stops = false) :
    (s.withErrand client e).Unthreatened := by
  intro x hx
  rcases List.mem_append.mp hx with hx | hx
  · exact h x hx
  · obtain rfl := List.mem_singleton.mp hx
    exact he

theorem cancelJobs_endures (h : s.Unthreatened) (js : List Job) :
    (s.cancelJobs client false js).Unthreatened ∧
      (s.cancelJobs client false js).started = s.started := by
  refine cancelJobs_induction (P := fun t => t.Unthreatened ∧ t.started = s.started) ?_ ?_ ?_ ?_ ?_
    ⟨h, rfl⟩ js
  · rintro t j ⟨ht, hstarted⟩
    refine ⟨unthreatened_of_backlog ht ?_, (t.started_disarm j).trans hstarted⟩
    rw [backlog_disarm, errands_disarm]
  · rintro t j ⟨ht, hstarted⟩
    refine ⟨unthreatened_of_backlog ht ?_, (t.started_requestRun j client).trans hstarted⟩
    rw [backlog_requestRun, errands_withLane]
  · rintro t j ⟨ht, hstarted⟩
    refine ⟨unthreatened_of_backlog ht ?_, (t.started_releaseRun j).trans hstarted⟩
    rw [backlog_releaseRun, errands_withLane]
  · rintro t j rest ⟨ht, hstarted⟩
    exact ⟨unthreatened_withErrand ht rfl, hstarted⟩
  · intro t hstop
    cases hstop

theorem unthreatened_configure (h : s.Unthreatened) (client : Nat) (config : StormConfig) :
    (s.configure client config).Unthreatened := by
  unfold configure flush
  simp only
  split
  · refine unthreatened_of_backlog h ?_
    show (recoverNow _).errands = _
    rw [errands_recoverNow]
    rfl
  · exact unthreatened_withErrand (unthreatened_of_backlog h rfl) rfl

theorem started_of_inLine {there : Bool} (hline : s.backlog.InLine there) : s.started = there :=
  (hline.lanes .digital).worker

theorem isSome_worker (hline : ∃ there, s.backlog.InLine there) (j : Job) :
    (s.lane j).worker.isSome = s.started := by
  obtain ⟨there, hline⟩ := hline
  rw [started_of_inLine hline, ← lane_backlog]
  exact (hline.lanes j).worker

theorem errands_move [Probe ρ] (s : Controller ρ) (j : Job) (timerFirst : Bool) :
    (s.move j timerFirst).backlog.errands = s.backlog.errands := by
  have hinterrupt (t : Controller ρ) (i : Interrupt)
      (ht : t.backlog.errands = s.backlog.errands) :
      (t.interrupt i).backlog.errands = s.backlog.errands :=
    (congrArg Backlog.errands (t.interrupted_interrupt i).rest :).trans ht
  rcases s.move_cases j timerFirst with hi | ⟨-, -, long, short, -, -, -, hb⟩ |
    ⟨-, rest, -, -, -, hb⟩
  · exact (moves_move hi).errands
  · rw [hb]
    exact deliver_induction (P := fun t => t.backlog.errands = s.backlog.errands)
      (fun _ _ ht => ht) (fun _ _ _ _ ht => ht) hinterrupt long short ∅ Port.all s rfl
  · rw [hb]
    exact probeAll_induction (P := fun t => t.backlog.errands = s.backlog.errands)
      (fun _ _ ht => ht) hinterrupt rest.pins s.connectors s rfl

theorem backlog_act_start [Probe ρ] (s : Controller ρ) :
    (s.act .start).backlog = s.backlog ∨ (s.act .start).backlog = { s.backlog with
      digital := { s.digital with toLane := s.digital.toLane.start }
      generic := { s.generic with toLane := s.generic.toLane.start }
      pollInit := { s.pollInit with toLane := s.pollInit.toLane.start }
      reenable := { s.reenable with toLane := s.reenable.toLane.start } } := by
  rw [← backlog_startWorkers]
  simp only [act, start, Bool.not_true, Bool.false_eq_true, if_false]
  split
  · exact .inl rfl
  · exact .inr rfl

theorem errands_act [Probe ρ] {s : Controller ρ} {a : Action} (ha : a.engages = false) :
    (s.act a).backlog.errands = s.backlog.errands := by
  cases a with
  | interrupt i => exact (congrArg Backlog.errands (s.interrupted_interrupt i).rest :)
  | raw pinMask longMask =>
    exact (congrArg Backlog.errands (s.interrupted_raw pinMask longMask).rest :)
  | init => rw [act, backlog_init]
  | forcePolling on => rw [act, backlog_forcePolling]
  | start =>
    rcases s.backlog_act_start with hstart | hstart
    · rw [hstart]
    · rw [hstart]
  | hold party => rw [act, backlog_hold]
  | release party => rw [act, backlog_release]
  | move j timerFirst => exact s.errands_move j timerFirst
  | advance instant => rw [act, backlog_advance]
  | setIrqs | disable | enable | giveWay => rfl
  | _ => cases ha

variable [Probe ρ] {a : Action}

theorem unthreatened_act (h : s.Unthreatened) (ha : ∀ client, a ≠ .shutdown client) :
    (s.act a).Unthreatened := by
  have hfewer {t : Controller ρ} (ht : ∀ x ∈ t.errands, x ∈ s.errands) : t.Unthreatened :=
    fun x hx => h x (ht x hx)
  cases a with
  | setThreshold client k =>
    simp only [act]
    unfold setThreshold
    split
    · exact h
    · exact unthreatened_configure (s := s.note _) h client _
  | setShortStorms client k =>
    simp only [act]
    unfold setShortStorms
    split
    · exact h
    · exact unthreatened_configure (s := s.note _) h client _
  | cancelAll client =>
    simp only [act]
    unfold cancelAll
    split
    · exact h
    · exact (cancelJobs_endures (s := s.withoutPulses) h Job.all).1
  | shutdown client => exact absurd rfl (ha client)
  | resume client =>
    have hwithout : (s.withoutErrand client).Unthreatened :=
      hfewer fun x hx => (List.mem_filter.mp hx).1
    rcases s.resume_cases client with hr | ⟨j, rest, stop, he, -, hr⟩ | ⟨-, -, hr⟩
    · rw [act, hr]
      exact h
    · obtain rfl : stop = false := h _ (mem_of_lookup he)
      rw [act, hr]
      refine (cancelJobs_endures (unthreatened_of_backlog hwithout ?_) rest).1
      rw [backlog_releaseRun, errands_withLane]
    · rw [act, hr]
      exact unthreatened_of_backlog hwithout (errands_recoverNow _)
  | abandon client =>
    cases he : s.errand? client with
    | none =>
      rw [act, abandon_of_none he]
      exact h
    | some e =>
      refine hfewer fun x hx => ?_
      have hleft : x ∈ (s.abandon client).backlog.errands := hx
      rw [backlog_abandon he] at hleft
      exact (List.mem_filter.mp hleft).1
  | _ => exact unthreatened_of_backlog h (errands_act rfl)

theorem started_act (hline : ∃ there, s.backlog.InLine there) (h : s.Unthreatened)
    (ha : ∀ client, a ≠ .shutdown client) (hs : s.started = true) : (s.act a).started = true := by
  obtain ⟨there, hline⟩ := hline
  obtain rfl : there = true := (started_of_inLine hline).symm.trans hs
  have hkept (hdrops : a.drops = false) : (s.act a).started = true := by
    refine started_of_inLine
      (Steps.induction (P := fun b => b.InLine true) ?_ (s.steps_act a) hline)
    rintro b b' hstep hb
    obtain ⟨there', hb', hthere⟩ := hb.step hstep
    exact hthere hdrops rfl ▸ hb'
  cases a with
  | cancelAll client =>
    simp only [act]
    unfold cancelAll
    split
    · exact hs
    · exact (cancelJobs_endures (s := s.withoutPulses) h Job.all).2.trans hs
  | shutdown client => exact absurd rfl (ha client)
  | resume client =>
    rcases s.resume_cases client with hr | ⟨j, rest, stop, he, -, hr⟩ | ⟨-, -, hr⟩
    · rw [act, hr]
      exact hs
    · obtain rfl : stop = false := h _ (mem_of_lookup he)
      rw [act, hr]
      refine (cancelJobs_endures ?_ rest).2.trans ((started_releaseRun _ j).trans hs)
      refine unthreatened_of_backlog (s := s.withoutErrand client) ?_ ?_
      · exact fun x hx => h x (List.mem_filter.mp hx).1
      · rw [backlog_releaseRun, errands_withLane]
    · show (s.resume client).backlog.digital.worker.isSome = true
      rw [hr, backlog_recoverNow_eq]
      exact hs
  | _ => exact hkept rfl

/-- Without a shutdown the workers stay. -/
theorem endures_run (hline : ∃ there, s.backlog.InLine there) (h : s.Unthreatened)
    {as : List Action} (has : ∀ client, .shutdown client ∉ as) :
    (s.run as).Unthreatened ∧ (s.started = true → (s.run as).started = true) := by
  induction as generalizing s with
  | nil => exact ⟨h, id⟩
  | cons a as ih =>
    have ha (client : Nat) : a ≠ .shutdown client := by
      rintro rfl
      exact has client List.mem_cons_self
    obtain ⟨hrun, hstays⟩ := ih (inLine_run hline [a]) (unthreatened_act h ha) fun client hin =>
      has client (List.mem_cons_of_mem a hin)
    exact ⟨hrun, fun hs => hstays (started_act hline h ha hs)⟩

theorem started_start (s : Controller ρ) : (s.act .start).started = true := by
  show ((s.start true).toOption.getD s).started = true
  unfold start
  simp only [Bool.not_true, Bool.false_eq_true, if_false]
  split
  · rename_i hs
    exact hs
  · show (Controller.backlog (List.foldl _ s Job.all)).digital.worker.isSome = true
    rw [backlog_startWorkers]
    show (s.digital.worker.or (some .idle)).isSome = true
    rw [Option.isSome_or]
    exact Bool.or_true _

end Endurance

section Served

theorem unthreatened_ofSettings (settings : Settings) (connectors : ConnectorList ρ)
    (ports : Port → Option PulseHandler) :
    (ofSettings settings connectors ports).Unthreatened := by
  intro x hx
  cases hx

variable [Probe ρ] (settings : Settings) (connectors : ConnectorList ρ)
  (ports : Port → Option PulseHandler) {as : List Action}

theorem unthreatened_run (has : ∀ client, .shutdown client ∉ as) :
    ((ofSettings settings connectors ports).run as).Unthreatened :=
  (endures_run ⟨false, inLine_ofSettings settings connectors ports⟩
    (unthreatened_ofSettings settings connectors ports) has).1

theorem started_run (hstart : .start ∈ as) (has : ∀ client, .shutdown client ∉ as) :
    ((ofSettings settings connectors ports).run as).started = true := by
  obtain ⟨bs, cs, rfl⟩ := List.append_of_mem hstart
  have hline := inLine_run ⟨false, inLine_ofSettings settings connectors ports⟩ (bs ++ [.start])
  rw [run_concat] at hline
  have hquiet : ((ofSettings settings connectors ports).run bs).Unthreatened :=
    unthreatened_run settings connectors ports fun client hin =>
      has client (List.mem_append_left _ hin)
  have hstarted : (((ofSettings settings connectors ports).run bs).act .start).Unthreatened := by
    refine unthreatened_act hquiet ?_
    rintro client ⟨⟩
  rw [run_append]
  refine (endures_run hline hstarted fun client hin => ?_).2 (started_start _)
  exact has client (List.mem_append_right _ (List.mem_cons_of_mem _ hin))

theorem attended_run (has : ∀ client, .shutdown client ∉ as) {j : Job} (hj : j ≠ .reenable) :
    (((ofSettings settings connectors ports).run as).backlog.work j).Attended := by
  by_contra hn
  obtain ⟨bs, a, cs, rfl, ⟨hclaiming, hgone, -⟩, -⟩ :=
    leftBehind_of_unattended hj (attended_ofSettings settings connectors ports j) hn
  have hline := inLine_run ⟨false, inLine_ofSettings settings connectors ports⟩ bs
  have hquiet : ((ofSettings settings connectors ports).run bs).Unthreatened :=
    unthreatened_run settings connectors ports fun client hin =>
      has client (List.mem_append_left _ hin)
  have hstarted : ((ofSettings settings connectors ports).run bs).started = true := by
    rw [← isSome_worker hline j, hclaiming]
    rfl
  have hthere : ((((ofSettings settings connectors ports).run bs).act a).lane j).worker.isSome =
      (((ofSettings settings connectors ports).run bs).act a).started :=
    isSome_worker (inLine_run hline [a]) j
  rw [started_act hline hquiet ?_ hstarted, hgone] at hthere
  · cases hthere
  · rintro client rfl
    exact has client (List.mem_append_right _ List.mem_cons_self)

end Served

section Courses

variable [Probe ρ]

def course (s : Controller ρ) (σ : ℕ → Action) (n : ℕ) : Controller ρ :=
  s.run ((List.range n).map σ)

theorem course_succ (s : Controller ρ) (σ : ℕ → Action) (n : ℕ) :
    s.course σ (n + 1) = (s.course σ n).act (σ n) := by
  rw [course, course, List.range_succ, List.map_append, List.map_singleton, run_concat]

/-- The controller is left alone for ever and nobody takes the lock on the display configuration. A
worker that can move and a client that was handed the run lock get a turn, and the time does not
stand still. -/
structure Fair (s : Controller ρ) (σ : ℕ → Action) : Prop where

  alone (n : ℕ) : (σ n).background = true ∧ (s.course σ n).interruptsOf (σ n) = []

  free (n party : ℕ) : σ n ≠ .hold party

  workers {n : ℕ} {j : Job} : (s.course σ n).canMove j = true →
    ∃ m ≥ n, ∃ timerFirst, σ m = .move j timerFirst

  clients {n client : ℕ} {e : Errand} : (s.course σ n).errand? client = some e →
    (s.course σ n).holdsRun e.job client = true →
      ∃ m ≥ n, σ m = .resume client ∨ σ m = .abandon client

  clock (instant : ℕ) : ∃ n, instant ≤ (s.course σ n).now

section Idling

variable {s : Controller ρ} {a : Action}

omit [Probe ρ] in
theorem release_of_unclaimed (h : s.unclaimed = true) (party : ℕ) : s.release party = s := by
  have hout : ModeParty.outside party ∉ s.mode.line := fun hin => by cases unclaimed_iff.mp h _ hin
  have hheld : s.mode.heldBy (.outside party) = false :=
    Bool.eq_false_iff.mpr fun hh => hout (Lock.mem_line_of_holder ((Lock.heldBy_iff _ _).mp hh))
  have hqueue : s.mode.queue.erase (.outside party) = s.mode.queue :=
    List.erase_of_not_mem fun hin => hout (List.mem_append_right _ hin)
  simp [release, Lock.leave, hheld, hqueue]

omit [Probe ρ] in
theorem background_of_operates (h : a.background = true) : a.operates = false := by
  cases a <;> first | rfl | cases h

/-- In the background nothing changes for anybody else while nobody gets on. -/
theorem act_of_not_stirs (ha : a.background = true) (hhold : ∀ party, a ≠ .hold party)
    (hfree : s.unclaimed = true) (h : s.stirs a = false) :
    (s.act a).backlog = s.backlog ∧ (s.act a).calls = s.calls := by
  cases a with
  | resume client =>
    rw [act, resume_of_not_stirs h]
    exact ⟨rfl, rfl⟩
  | abandon client =>
    rw [act, abandon_of_not_stirs h]
    exact ⟨rfl, rfl⟩
  | hold party => exact absurd rfl (hhold party)
  | release party =>
    rw [act, release_of_unclaimed hfree]
    exact ⟨rfl, rfl⟩
  | move j timerFirst =>
    obtain ⟨line, hline⟩ := move_of_not_canMove h timerFirst
    rw [act, hline]
    exact ⟨rfl, rfl⟩
  | giveWay => exact ⟨rfl, rfl⟩
  | advance instant => exact ⟨s.backlog_advance instant, s.calls_advance instant⟩
  | _ => cases ha

omit [Probe ρ] in
theorem errand?_of_mem (hline : ∃ there, s.backlog.InLine there) {x : Nat × Errand}
    (hx : x ∈ s.errands) : s.errand? x.1 = some x.2 := by
  obtain ⟨there, hline⟩ := hline
  cases he : s.errand? x.1 with
  | none => exact absurd (List.mem_map_of_mem hx) (not_mem_of_fresh he)
  | some e =>
    have hone := List.inj_on_of_nodup_map hline.clients (mem_of_lookup he) hx rfl
    exact congrArg (fun y => some y.2) hone

omit [Probe ρ] in
theorem canMove_later {t : Controller ρ} {j : Job} (hb : t.backlog = s.backlog)
    (hnow : s.now ≤ t.now) (h : s.canMove j = true) : t.canMove j = true := by
  rw [← canMove_backlog] at h ⊢
  rw [hb]
  cases j <;> exact Lane.canMove_later hnow h

end Idling

section Settling

variable {s : Controller ρ} {σ : ℕ → Action}

theorem monotone_now (s : Controller ρ) (σ : ℕ → Action) : Monotone fun n => (s.course σ n).now :=
  monotone_nat_of_le_succ fun n => by
    rw [course_succ]
    exact (effect_act _ (σ n)).now_le

theorem Fair.unclaimed_course (hf : s.Fair σ) (h : s.unclaimed = true) (n : ℕ) :
    (s.course σ n).unclaimed = true := by
  induction n with
  | zero => exact h
  | succ n ih =>
    rw [course_succ]
    exact unclaimed_act (hf.free n) ih

/-- The toil does not grow, so that it does not shrink for ever. -/
theorem Fair.exists_idle (hf : s.Fair σ) (hline : ∃ there, s.backlog.InLine there)
    (hc : s.backlog.Composed) :
    ∃ n, ∀ m ≥ n, (s.course σ m).stirs (σ m) = false := by
  have hcomposed (n : ℕ) : (s.course σ n).backlog.Composed := composed_run hc _
  have hantitone : Antitone fun n => (s.course σ n).toil := by
    refine antitone_nat_of_succ_le fun n => ?_
    obtain ⟨ha, hi⟩ := hf.alone n
    obtain ⟨there, hlined⟩ : ∃ there, (s.course σ n).backlog.InLine there := inLine_run hline _
    have hle := toil_act_le (hcomposed n) hlined (background_of_operates ha)
    rw [hi] at hle
    rw [course_succ]
    exact hle
  obtain ⟨n, hn⟩ : ∃ n, ∀ m, (s.course σ n).toil ≤ (s.course σ m).toil :=
    ⟨_, fun m => Function.argmin_le (fun n => (s.course σ n).toil) m⟩
  refine ⟨n, fun m hm => Bool.eq_false_iff.mpr fun hstirs => ?_⟩
  obtain ⟨there, hlined⟩ : ∃ there, (s.course σ m).backlog.InLine there := inLine_run hline _
  have hless := toil_act_lt (hcomposed m) hlined hstirs
  rw [(hf.alone m).2, ← course_succ] at hless
  have hbefore : (s.course σ m).toil ≤ (s.course σ n).toil := hantitone hm
  exact absurd (hn (m + 1)) (Nat.not_le.mpr (hless.trans_le hbefore))

/-- In a fair run everybody comes to rest and nobody is called any more. -/
theorem Fair.settles (hf : s.Fair σ) (hline : ∃ there, s.backlog.InLine there)
    (hc : s.backlog.Composed) (hfree : s.unclaimed = true) :
    ∃ n, ∀ m ≥ n, (s.course σ m).AtRest ∧ (s.course σ m).held = false ∧
      (s.course σ m).backlog = (s.course σ n).backlog ∧
        (s.course σ m).calls = (s.course σ n).calls := by
  obtain ⟨n, hidle⟩ := hf.exists_idle hline hc
  have hunclaimed := hf.unclaimed_course hfree
  have hsame (m : ℕ) (hm : m ≥ n) : (s.course σ m).backlog = (s.course σ n).backlog ∧
      (s.course σ m).calls = (s.course σ n).calls := by
    induction m, hm using Nat.le_induction with
    | base => exact ⟨rfl, rfl⟩
    | succ m hm ih =>
      obtain ⟨hb, hcalls⟩ := act_of_not_stirs (hf.alone m).1 (hf.free m) (hunclaimed m) (hidle m hm)
      rw [course_succ]
      exact ⟨hb.trans ih.1, hcalls.trans ih.2⟩
  have hlater {m m' : ℕ} (hm : m ≥ n) (hm' : m' ≥ n) :
      (s.course σ m').backlog = (s.course σ m).backlog :=
    (hsame m' hm').1.trans (hsame m hm).1.symm
  refine ⟨n, fun m hm => ⟨⟨fun j _ => ?_, fun x hx => ?_⟩,
    not_held_of_unclaimed (hunclaimed m), hsame m hm⟩⟩
  · refine Bool.eq_false_iff.mpr fun hcan => ?_
    obtain ⟨m', hm', timerFirst, hmove⟩ := hf.workers hcan
    have hstirs := hidle m' (hm.trans hm')
    rw [hmove, stirs, canMove_later (hlater hm (hm.trans hm'))
      (monotone_now s σ hm') hcan] at hstirs
    cases hstirs
  · refine Bool.eq_false_iff.mpr fun hheld => ?_
    have herrand := errand?_of_mem (inLine_run hline _) hx
    obtain ⟨m', hm', hturn⟩ := hf.clients herrand hheld
    have hb := hlater hm (hm.trans hm')
    have hstirs := hidle m' (hm.trans hm')
    have herrand' : (s.course σ m').errand? x.1 = some x.2 :=
      (errand?_of_backlog (congrArg Backlog.errands hb) x.1).trans herrand
    have hheld' : (s.course σ m').holdsRun x.2.job x.1 = true := by
      rw [holdsRun, ← lane_backlog] at hheld ⊢
      rwa [hb]
    rcases hturn with hresume | habandon
    · simp [hresume, stirs, herrand', hheld'] at hstirs
    · simp [habandon, stirs, herrand'] at hstirs

omit [Probe ρ] in
/-- A recovery whose instant has come is not armed when everybody waits. -/
theorem unarmed_of_atRest (hline : ∃ there, s.backlog.InLine there) (hc : s.backlog.Composed)
    (hs : s.AtRest) (hstarted : s.started = true)
    (hlate : ∀ d, s.reenable.deadline = some d → d ≤ s.now) : s.reenable.armed = false := by
  refine Bool.eq_false_iff.mpr fun harmed => ?_
  obtain ⟨d, hd⟩ := Option.isSome_iff_exists.mp harmed
  have hthere := (isSome_worker hline .reenable).trans hstarted
  have hmove := hs.not_canMove .reenable
  obtain ⟨there, hline⟩ := hline
  rcases hw : s.reenable.worker with _ | _ | ⟨u, notified⟩ | _ | rest
  · rw [lane, hw] at hthere
    cases hthere
  · rw [canMove, Lane.canMove, hw] at hmove
    cases hmove
  · rw [canMove, Lane.canMove, hw] at hmove
    obtain ⟨rfl, hdue⟩ := Bool.or_eq_false_iff.mp hmove
    have hset : u = some d := (hc.reenable u hw).trans hd
    rw [hset, Option.any_some, decide_eq_true (hlate d hd)] at hdue
    cases hdue
  · exact not_claiming hline hs .reenable hw
  · have hrest : s.reenable.rest? = none := hc.prompt
    rw [Lane.rest?_eq_some_iff.mpr hw] at hrest
    cases hrest

theorem Fair.unarmed (hf : s.Fair σ) (hline : ∃ there, s.backlog.InLine there)
    (hc : s.backlog.Composed) {n : ℕ} (hstarted : ∀ m, (s.course σ m).started = true)
    (hrest : ∀ m ≥ n, (s.course σ m).AtRest)
    (hsame : ∀ m ≥ n, (s.course σ m).backlog = (s.course σ n).backlog) {m : ℕ} (hm : m ≥ n) :
    (s.course σ m).reenable.armed = false := by
  have hreenable {m' : ℕ} (hm' : m' ≥ n) :
      (s.course σ m').reenable = (s.course σ m).reenable :=
    congrArg Backlog.reenable ((hsame m' hm').trans (hsame m hm).symm)
  refine Bool.eq_false_iff.mpr fun harmed => ?_
  obtain ⟨d, hd⟩ := Option.isSome_iff_exists.mp harmed
  obtain ⟨k, hk⟩ := hf.clock d
  have hlater : max m k ≥ n := hm.trans (Nat.le_max_left m k)
  have hunarmed := unarmed_of_atRest (s := s.course σ (max m k)) (inLine_run hline _)
    (composed_run hc _) (hrest _ hlater) (hstarted _) fun d' hd' => ?_
  · rw [hreenable hlater, harmed] at hunarmed
    cases hunarmed
  · rw [hreenable hlater, hd] at hd'
    obtain rfl := Option.some.inj hd'
    exact hk.trans (monotone_now s σ (Nat.le_max_right m k))

/-- A digital run with a refused pulse is in flight, while a digital and a generic run are
pending. -/
example :
    let ports : Port → Option PulseHandler :=
      fun port => if port = .C then some ⟨[], fun _ => false⟩ else none
    let i : Interrupt := ⟨.ofList [.portC, .crt], ∅⟩
    let s := (ofSettings {} ([] : ConnectorList Script) ports).run
      (Action.boot ++ [.interrupt i, .move .digital true, .move .digital true, .interrupt i])
    let bs : List Action := [.move .generic true, .move .generic true, .move .generic true,
      .move .digital true, .move .digital true, .move .generic true, .move .generic true,
      .move .generic true, .move .digital true, .move .digital true, .move .digital true,
      .move .digital true, .move .generic true, .move .generic true]
    s.digital.rest?.isSome = true ∧ s.LeftAlone bs = true ∧ s.begun bs .generic = 3 := by
  decide +kernel

def rota (n : ℕ) : Action :=
  match n % 5 with
  | 0 => .move .digital true
  | 1 => .move .generic true
  | 2 => .move .pollInit true
  | 3 => .move .reenable true
  | _ => .advance n

theorem rota_cases (n : ℕ) : (∃ j, rota n = .move j true) ∨ rota n = .advance n := by
  unfold rota
  split <;> first | exact .inl ⟨_, rfl⟩ | exact .inr rfl

theorem connectors_act (h : s.connectors = []) (a : Action) : (s.act a).connectors = [] := by
  have hbare : s.watch.connectors = [] := List.map_eq_nil_iff.mpr h
  suffices (s.act a).watch.connectors = [] from List.map_eq_nil_iff.mp this
  have he := s.effect_act a
  generalize (s.act a).watch = w at he
  cases he with
  | interrupts =>
    obtain ⟨stats, hi⟩ := fixed_foldl_interrupted (s.interruptsOf a) s.watch
    rw [hi]
    exact hbare
  | mitigation => exact List.map_eq_nil_iff.mpr hbare
  | reinitialization => exact List.map_eq_nil_iff.mpr hbare
  | recovery => exact List.map_eq_nil_iff.mpr hbare
  | knob => exact List.map_eq_nil_iff.mpr hbare
  | flush => exact List.map_eq_nil_iff.mpr hbare
  | _ => exact hbare

theorem connectors_run (h : s.connectors = []) (as : List Action) : (s.run as).connectors = [] := by
  induction as generalizing s with
  | nil => exact h
  | cons a as ih => exact ih (connectors_act h a)

omit [Probe ρ] in
theorem pulsesFor_eq_nil (h : ∀ port, s.digitalPorts port = none) (long short : PortSet) :
    s.pulsesFor long short Port.all = [] :=
  List.filterMap_eq_nil_iff.mpr fun port _ => by simp [pulseFor, h]

theorem digitalPorts_act (h : ∀ port, s.digitalPorts port = none) (a : Action) (port : Port) :
    (s.act a).digitalPorts port = none := by
  suffices (s.act a).wiring = s.wiring by
    rw [show (s.act a).digitalPorts = s.digitalPorts from congrArg Prod.snd this, h]
  by_cases hm : ∃ timerFirst, a = .move .digital timerFirst
  · obtain ⟨timerFirst, rfl⟩ := hm
    show s.moveDigital.wiring = s.wiring
    unfold moveDigital
    split
    · split
      · rw [deliver_eq s _ _ ∅ (by decide), pulsesFor_eq_nil h]
        exact outward_wiring.beginRun s .digital _
      · rw [outward_wiring.finishRun, outward_wiring.fallBack]
    · split
      · rfl
      · exact outward_wiring.beginRun _ .digital _
  · push Not at hm
    exact wiring_act hm

theorem interruptsOf_rota (hconnectors : s.connectors = [])
    (hports : ∀ port, s.digitalPorts port = none) (n : ℕ) : s.interruptsOf (rota n) = [] := by
  rcases rota_cases n with ⟨j, hmove⟩ | hadvance
  · rw [hmove]
    rcases s.move_cases j true with hi | ⟨-, rest, long, short, -, -, hi, -⟩ |
      ⟨-, rest, -, -, hi, -⟩
    · exact hi
    · rw [hi, pulsesFor_eq_nil hports]
      rfl
    · rw [hi, hconnectors]
      rfl
  · rw [hadvance]
    rfl

theorem fair_rota (hconnectors : s.connectors = []) (hports : ∀ port, s.digitalPorts port = none)
    (herrands : ∀ client, s.errand? client = none) : s.Fair rota := by
  have hbackground (n : ℕ) : (rota n).background = true := by
    rcases rota_cases n with ⟨j, hmove⟩ | hadvance
    · rw [hmove]
      rfl
    · rw [hadvance]
      rfl
  have hdeaf (n : ℕ) (port : Port) : (s.course rota n).digitalPorts port = none := by
    induction n generalizing port with
    | zero => exact hports port
    | succ n ih =>
      rw [course_succ]
      exact digitalPorts_act ih _ port
  have hsilent (n : ℕ) : (s.course rota n).interruptsOf (rota n) = [] :=
    interruptsOf_rota (connectors_run hconnectors _) (hdeaf n) n
  have hnobody (n client : ℕ) : (s.course rota n).errand? client = none := by
    induction n with
    | zero => exact herrands client
    | succ n ih =>
      rw [course_succ, errand?_act (hbackground n) (hsilent n), ih]
      all_goals rcases rota_cases n with ⟨j, hturn⟩ | hturn <;> rw [hturn] <;> simp
  refine ⟨fun n => ⟨hbackground n, hsilent n⟩, fun n party => ?_, fun {n j} _ => ?_,
    fun {n client e} he => ?_, fun instant => ⟨5 * instant + 4 + 1, ?_⟩⟩
  · rcases rota_cases n with ⟨j, hturn⟩ | hturn <;> rw [hturn] <;> simp
  · cases j with
    | digital => exact ⟨5 * n, by omega, true, by simp [rota]⟩
    | generic => exact ⟨5 * n + 1, by omega, true, by simp [rota]⟩
    | pollInit => exact ⟨5 * n + 2, by omega, true, by simp [rota]⟩
    | reenable => exact ⟨5 * n + 3, by omega, true, by simp [rota]⟩
  · rw [hnobody] at he
    cases he
  · have hturn : rota (5 * instant + 4) = .advance (5 * instant + 4) := by simp [rota]
    rw [course_succ, hturn, act, now_advance]
    exact (by omega : instant ≤ 5 * instant + 4).trans (Nat.le_max_right _ _)

end Settling

end Courses

def recovering : List Action :=
  List.replicate 4 (.move .generic true) ++ List.replicate 2 (.move .reenable true) ++
    .advance 120000 :: List.replicate 4 (.move .reenable true)

end Controller

end HotplugDetect
