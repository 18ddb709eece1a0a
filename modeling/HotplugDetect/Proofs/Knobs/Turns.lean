import HotplugDetect.Proofs.Knobs.Contention

/-! # A client that waits for the recovery gets its turn

A run lock is handed over in the order of the line. Whatever the others do, a client in the line
falls back by no place, and it comes forward with every turn of the party at the head.
-/

namespace HotplugDetect

section Places

variable {α : Type} [DecidableEq α]

theorem idxOf_erase_le {line : List α} {a x : α} (hx : x ∈ line) (hne : a ≠ x) :
    (line.erase a).idxOf x ≤ line.idxOf x := by
  induction line with
  | nil => cases hx
  | cons b line ih =>
    by_cases hb : b = a
    · rw [hb, List.erase_cons_head, List.idxOf_cons_ne _ hne]
      exact Nat.le_succ _
    · rw [List.erase_cons_tail (by simpa using hb)]
      by_cases hbx : b = x
      · rw [hbx, List.idxOf_cons_self]
        exact Nat.zero_le _
      · rw [List.idxOf_cons_ne _ hbx, List.idxOf_cons_ne _ hbx]
        exact Nat.succ_le_succ (ih ((List.mem_cons.mp hx).resolve_left (Ne.symm hbx)))

/-- A party stands in the line at a lock, with at most `n` others before it. -/
structure Lock.Within (l : Lock α) (x : α) (n : ℕ) : Prop where

  orderly : l.Orderly

  mem : x ∈ l.line

  place : l.line.idxOf x ≤ n

namespace Lock.Within

variable {l : Lock α} {a x : α} {m n : ℕ}

theorem mono (h : l.Within x m) (hle : m ≤ n) : l.Within x n :=
  ⟨h.orderly, h.mem, h.place.trans hle⟩

theorem request (h : l.Within x n) (a : α) : (l.request a).Within x n where
  orderly := l.orderly_request a
  mem := by
    rw [h.orderly.line_request]
    exact List.mem_append_left _ h.mem
  place := by
    rw [h.orderly.line_request, List.idxOf_append_of_mem h.mem]
    exact h.place

theorem holder (h : l.Within x n) : ∃ y, l.holder = some y := by
  rw [← Option.ne_none_iff_exists']
  intro hfree
  have hmem := h.mem
  rw [h.orderly.line_eq_nil.mpr hfree] at hmem
  cases hmem

theorem release (h : l.Within x n) (ha : l.holder = some a) (hne : a ≠ x) :
    ∃ m < n, l.release.Within x m := by
  have hmem := h.mem
  have hplace := h.place
  rw [line_of_holder ha, List.mem_cons, or_iff_right hne.symm] at hmem
  rw [line_of_holder ha, List.idxOf_cons_ne _ hne] at hplace
  refine ⟨l.queue.idxOf x, hplace, l.orderly_release, ?_, ?_⟩
  · rwa [line_release]
  · rw [line_release]

theorem leave (h : l.Within x n) (hne : a ≠ x) : (l.leave a).Within x n where
  orderly := h.orderly.leave a
  mem := by
    rw [line_leave]
    exact (List.mem_erase_of_ne hne.symm).mpr h.mem
  place := by
    rw [line_leave]
    exact (idxOf_erase_le h.mem hne).trans h.place

end Lock.Within

end Places

namespace Controller

open Backlog

variable {ρ : Type} {s t : Controller ρ} {client c n : ℕ}

/-- A client stands in the line at the run lock of the re-enable job, with at most `n` others before
it. -/
def Queues (s : Controller ρ) (client n : ℕ) : Prop := s.reenable.run.Within (.client client) n

theorem run_releaseRun (s : Controller ρ) :
    (s.releaseRun .reenable).reenable.run = s.reenable.run.release :=
  congrArg (fun b : Backlog => b.reenable.run) (s.backlog_releaseRun .reenable)

namespace Queues

theorem of_run (h : s.Queues client n) (hrun : t.reenable.run = s.reenable.run) :
    t.Queues client n := by
  rwa [Queues, hrun]

theorem of_backlog (h : s.Queues client n) (hb : t.backlog.reenable = s.backlog.reenable) :
    t.Queues client n := h.of_run (congrArg (fun w : DelayedWork Rest => w.run) hb)

theorem disarm (h : s.Queues client n) (j : Job) : (s.disarm j).Queues client n := by
  refine h.of_run ?_
  show ((s.disarm j).backlog.lane .reenable).run = _
  rw [backlog_disarm, run_disarm]
  rfl

theorem requestRun (h : s.Queues client n) (j : Job) : (s.requestRun j c).Queues client n := by
  cases j with
  | reenable => exact Lock.Within.request h _
  | _ => exact h

theorem releaseRun (h : s.Queues client n) {j : Job} (hh : s.holdsRun j c = true)
    (hne : c ≠ client) : (s.releaseRun j).Queues client n := by
  cases j with
  | reenable =>
    have hholder : s.reenable.run.holder = some (.client c) := (Lock.heldBy_iff _ _).mp hh
    obtain ⟨m, hm, hq⟩ := Lock.Within.release h hholder (by simpa using hne)
    rw [Queues, run_releaseRun]
    exact hq.mono hm.le
  | _ => exact h.of_backlog (by rw [backlog_releaseRun]; rfl)

theorem stopWorkers (h : s.Queues client n) : s.stopWorkers.Queues client n := by
  have hstop (l : Lane Rest) (hl : l.run.Within (.client client) n) :
      l.stop.run.Within (.client client) n := by
    rcases l with ⟨permit, run, _ | _ | _ | _ | rest⟩
    · exact hl
    · exact hl
    · exact hl
    · exact Lock.Within.leave hl (by simp)
    · exact Lock.Within.leave hl (by simp)
  show s.stopWorkers.backlog.reenable.run.Within _ _
  rw [backlog_stopWorkers]
  exact hstop _ h

theorem stopAll (h : s.Queues client n) (c : ℕ) : (s.stopAll c).Queues client n := by
  unfold Controller.stopAll
  simp only
  split
  · exact h.requestRun (c := c) .digital
  · exact h.stopWorkers

theorem cancelJobs (h : s.Queues client n) (hne : c ≠ client) (stop : Bool) (js : List Job) :
    (s.cancelJobs c stop js).Queues client n := by
  induction js generalizing s with
  | nil =>
    unfold Controller.cancelJobs
    split
    · exact h.stopAll c
    · exact h
  | cons j js ih =>
    have hrequested := (h.disarm j).requestRun (c := c) j
    unfold Controller.cancelJobs
    simp only
    split
    · rename_i hh
      exact ih (hrequested.releaseRun hh hne)
    · exact hrequested

theorem recoverNow (h : s.Queues client n) (hh : s.holdsRun .reenable c = true)
    (hne : c ≠ client) : ∃ m < n, s.recoverNow.Queues client m := by
  have hholder : s.reenable.run.holder = some (.client c) := (Lock.heldBy_iff _ _).mp hh
  obtain ⟨m, hm, hq⟩ := Lock.Within.release h hholder (by simpa using hne)
  refine ⟨m, hm, ?_⟩
  show s.recoverNow.backlog.reenable.run.Within _ _
  rw [backlog_recoverNow_eq]
  show Lock.Within ((s.backlog.disarm .reenable).lane .reenable).run.release _ _
  rw [run_disarm]
  exact hq

theorem configure (h : s.Queues client n) (hne : c ≠ client) (config : StormConfig) :
    (s.configure c config).Queues client n := by
  unfold Controller.configure flush
  generalize hu : ({ s with table := { s.table with config }.clearCounts } : Controller ρ) = u
  have hrequested : (u.requestRun .reenable c).Queues client n := by
    subst hu
    exact Queues.requestRun h .reenable
  simp only
  split
  · rename_i hh
    obtain ⟨m, hm, hq⟩ := hrequested.recoverNow hh hne
    exact Lock.Within.mono hq hm.le
  · exact hrequested

end Queues

theorem run_recovered (s : Controller ρ) :
    (s.reenablePass.finishRun .reenable).reenable.run = s.reenable.run.release := by
  have hb : (s.reenablePass.finishRun .reenable).backlog =
      s.backlog.withLane .reenable Lane.finish := by
    rw [backlog_finishRun, backlog_reenablePass]
  exact congrArg (fun b : Backlog => b.reenable.run) hb

/-- A move of the worker leaves the line alone, joins it, or takes the worker at its head away. -/
theorem run_moveReenable (s : Controller ρ) (timerFirst : Bool) :
    (s.moveReenable timerFirst).reenable.run = s.reenable.run ∨
      (s.moveReenable timerFirst).reenable.run = s.reenable.run.request .worker ∨
      s.reenable.run.holder = some .worker ∧
        (s.moveReenable timerFirst).reenable.run = s.reenable.run.release := by
  unfold moveReenable
  split
  · rename_i w hs
    cases DelayedWork.seeks hs with
    | asks => exact .inr (.inl rfl)
    | withdraws _ hhead => exact .inr (.inr ⟨hhead, rfl⟩)
    | _ => exact .inl rfl
  · rename_i w hs
    cases DelayedWork.seeks hs with
    | claims _ hhead => exact .inr (.inr ⟨hhead, run_recovered _⟩)

/-- With or without a run, the worker at the head of the line makes room. -/
theorem run_moveReenable_of_head (hclaiming : s.reenable.worker = some .claiming)
    (hhead : s.reenable.run.holder = some .worker) (timerFirst : Bool) :
    (s.moveReenable timerFirst).reenable.run = s.reenable.run.release := by
  have hseek : s.reenable.seek s.now timerFirst = s.reenable.claim s.now := by
    simp [DelayedWork.seek, hclaiming, Lock.heldBy, hhead]
  unfold moveReenable
  rw [hseek, DelayedWork.claim]
  split
  · rename_i hs
    split at hs
    · cases hs
    · cases hs
      rfl
  · rename_i hs
    split at hs
    · cases hs
      exact run_recovered _
    · cases hs

theorem claiming_of_head (hline : ∃ there, s.backlog.InLine there) (hc : s.backlog.Composed)
    (hhead : s.reenable.run.holder = some .worker) : s.reenable.worker = some .claiming := by
  obtain ⟨there, hline⟩ := hline
  have hplaced : s.reenable.Placed := (hline.lanes .reenable).lined.placed
  have hidle : s.reenable.rest? = none := hc.prompt
  have hin := Lock.mem_line_of_holder hhead
  rw [Lane.Placed] at hplaced
  split at hplaced
  · assumption
  · rename_i rest hw
    rw [Lane.rest?_eq_some_iff.mpr hw] at hidle
    cases hidle
  · exact absurd hin hplaced

theorem errand?_of_head (hline : ∃ there, s.backlog.InLine there)
    (hhead : s.reenable.run.holder = some (.client c)) :
    ∃ e, s.errand? c = some e ∧ e.job = .reenable := by
  obtain ⟨there, hlined⟩ := hline
  have hin : c ∈ waiting s.backlog.errands .reenable := by
    rw [← (hlined.lanes .reenable).lined.clients]
    exact Lane.mem_clients.mpr (Lock.mem_line_of_holder hhead)
  obtain ⟨e, he, hj⟩ := mem_waiting.mp hin
  exact ⟨e, errand?_of_mem ⟨there, hlined⟩ he, hj⟩

theorem queues_of_errand (hline : ∃ there, s.backlog.InLine there)
    (he : s.errand? client = some .flush) : ∃ n, s.Queues client n := by
  obtain ⟨there, hline⟩ := hline
  have hlined := (hline.lanes .reenable).lined
  refine ⟨_, hlined.orderly, Lane.mem_clients.mp ?_, le_rfl⟩
  show client ∈ (s.backlog.lane .reenable).clients
  rw [hlined.clients]
  exact mem_waiting.mpr ⟨.flush, mem_of_lookup he, rfl⟩

theorem errand?_abandon_self {e : Errand} (he : s.errand? client = some e) :
    (s.abandon client).errand? client = none := by
  show (s.abandon client).backlog.errands.lookup client = none
  rw [backlog_abandon he]
  exact lookup_filter_self s.errands client

variable [Probe ρ] {a : Action}

theorem run_move_of_ne {j : Job} (hj : j ≠ .reenable) (timerFirst : Bool) :
    (s.move j timerFirst).reenable.run = s.reenable.run := by
  show (s.move j timerFirst).backlog.reenable.run = s.backlog.reenable.run
  have hinterrupt (t : Controller ρ) (i : Interrupt)
      (ht : t.backlog.reenable.run = s.backlog.reenable.run) :
      (t.interrupt i).backlog.reenable.run = s.backlog.reenable.run :=
    (congrArg (fun b : Backlog => b.reenable.run) (t.interrupted_interrupt i).rest :).trans ht
  rcases s.move_cases j timerFirst with hi | ⟨-, -, long, short, -, -, -, hb⟩ |
    ⟨-, rest, -, -, -, hb⟩
  · have hmoves := moves_move hi
    generalize (s.move j timerFirst).backlog = b at hmoves
    cases hmoves with
    | takes _ harmed =>
      rcases harmed with rfl | ⟨instant, rfl⟩
      · rfl
      · exact Lane.run_notify _
    | reenableLooks _ => exact absurd rfl hj
    | recovers _ => exact absurd rfl hj
    | _ => rfl
  · rw [hb]
    exact deliver_induction (P := fun t => t.backlog.reenable.run = s.backlog.reenable.run)
      (fun _ _ ht => ht) (fun _ _ _ _ ht => ht) hinterrupt long short ∅ Port.all s rfl
  · rw [hb]
    exact probeAll_induction (P := fun t => t.backlog.reenable.run = s.backlog.reenable.run)
      (fun _ _ ht => ht) hinterrupt rest.pins s.connectors s rfl

theorem Queues.move (h : s.Queues client n) (j : Job) (timerFirst : Bool) :
    (s.move j timerFirst).Queues client n := by
  by_cases hj : j = .reenable
  · subst hj
    show (s.moveReenable timerFirst).Queues client n
    rcases s.run_moveReenable timerFirst with hrun | hrun | ⟨hhead, hrun⟩
    · exact h.of_run hrun
    · rw [Queues, hrun]
      exact Lock.Within.request h _
    · obtain ⟨m, hm, hq⟩ := Lock.Within.release h hhead (by simp)
      rw [Queues, hrun]
      exact hq.mono hm.le
  · exact h.of_run (run_move_of_ne hj timerFirst)

/-- A client that goes on waiting for the recovery keeps its place. -/
theorem Queues.act (h : s.Queues client n) (he : s.errand? client = some .flush)
    (he' : (s.act a).errand? client = some .flush) : (s.act a).Queues client n := by
  have hother {c : Nat} (hfree : ¬(s.errand? c).isSome) : c ≠ client := by
    rintro rfl
    exact hfree (Option.isSome_of_eq_some he)
  cases a with
  | interrupt i =>
    exact h.of_backlog (congrArg Backlog.reenable (s.interrupted_interrupt i).rest :)
  | raw pinMask longMask =>
    exact h.of_backlog (congrArg Backlog.reenable (s.interrupted_raw pinMask longMask).rest :)
  | init =>
    refine h.of_backlog ?_
    rw [Controller.act, backlog_init]
  | forcePolling on =>
    refine h.of_backlog ?_
    rw [Controller.act, backlog_forcePolling]
  | setThreshold c k =>
    simp only [Controller.act]
    unfold setThreshold
    split
    · exact h
    · rename_i hfree
      exact Queues.configure (s := s.note _) h (hother hfree) _
  | setShortStorms c k =>
    simp only [Controller.act]
    unfold setShortStorms
    split
    · exact h
    · rename_i hfree
      exact Queues.configure (s := s.note _) h (hother hfree) _
  | cancelAll c =>
    simp only [Controller.act]
    unfold cancelAll
    split
    · exact h
    · rename_i hfree
      exact Queues.cancelJobs (s := s.withoutPulses) h (hother hfree) false Job.all
  | shutdown c =>
    simp only [Controller.act]
    unfold shutdown
    split
    · exact h
    · rename_i hfree
      exact Queues.cancelJobs (s := s.withoutPulses) h (hother hfree) true Job.all
  | resume c =>
    rcases s.resume_cases c with hr | ⟨j, rest, stop, hc, hh, hr⟩ | ⟨hc, hh, hr⟩
    · rwa [Controller.act, hr]
    · have hne : c ≠ client := by
        rintro rfl
        cases he.symm.trans hc
      rw [Controller.act, hr]
      exact (Queues.releaseRun (s := s.withoutErrand c) h hh hne).cancelJobs hne stop rest
    · have hne : c ≠ client := by
        rintro rfl
        cases he'.symm.trans (applied_resume hc hh).returned
      obtain ⟨m, hm, hq⟩ := Queues.recoverNow (s := s.withoutErrand c) h hh hne
      rw [Controller.act, hr]
      exact Lock.Within.mono hq hm.le
  | abandon c =>
    have hne : c ≠ client := by
      rintro rfl
      cases he'.symm.trans (errand?_abandon_self he)
    cases hc : s.errand? c with
    | none => rwa [Controller.act, abandon_of_none hc]
    | some e =>
      have hb := congrArg (fun b : Backlog => b.reenable) (backlog_abandon hc)
      rw [Controller.act]
      cases hj : e.job with
      | reenable =>
        rw [hj] at hb
        show (Controller.backlog _).reenable.run.Within _ _
        rw [hb]
        exact Lock.Within.leave h (by simpa using hne)
      | _ =>
        rw [hj] at hb
        exact h.of_backlog hb
  | start =>
    rcases s.backlog_act_start with hstart | hstart
    · exact h.of_backlog (congrArg Backlog.reenable hstart)
    · exact h.of_run (congrArg (fun b : Backlog => b.reenable.run) hstart)
  | hold party => exact h.of_backlog (by rw [Controller.act, backlog_hold])
  | release party => exact h.of_backlog (by rw [Controller.act, backlog_release])
  | move j timerFirst => exact h.move j timerFirst
  | advance instant => exact h.of_backlog (by rw [Controller.act, backlog_advance])
  | _ => exact h

/-- The party at the head of the line goes on, or goes away. -/
def HeadTurn (s : Controller ρ) : Action → Prop
  | .move .reenable _ => s.reenable.run.holder = some .worker
  | .resume c => s.reenable.run.holder = some (.client c)
  | .abandon c => s.reenable.run.holder = some (.client c)
  | _ => False

/-- A turn brings a client that goes on waiting forward. -/
theorem Queues.turn (h : s.Queues client n) (hline : ∃ there, s.backlog.InLine there)
    (hc : s.backlog.Composed) (hturn : s.HeadTurn a) (he : s.errand? client = some .flush)
    (he' : (s.act a).errand? client = some .flush) : ∃ m < n, (s.act a).Queues client m := by
  cases a with
  | move j timerFirst =>
    cases j with
    | reenable =>
      have hhead : s.reenable.run.holder = some .worker := hturn
      obtain ⟨m, hm, hq⟩ := Lock.Within.release h hhead (by simp)
      refine ⟨m, hm, ?_⟩
      show (s.moveReenable timerFirst).reenable.run.Within _ _
      rw [run_moveReenable_of_head (claiming_of_head hline hc hhead) hhead]
      exact hq
    | _ => cases hturn
  | resume c =>
    have hhead : s.reenable.run.holder = some (.client c) := hturn
    have hh : s.holdsRun .reenable c = true := (Lock.heldBy_iff _ _).mpr hhead
    have hne : c ≠ client := by
      rintro rfl
      cases he'.symm.trans (applied_resume he hh).returned
    obtain ⟨e, hc, hj⟩ := errand?_of_head hline hhead
    cases e with
    | cancel j rest stop =>
      obtain rfl : j = .reenable := hj
      have hr : s.resume c = ((s.withoutErrand c).releaseRun .reenable).cancelJobs c stop rest := by
        simp [Controller.resume, hc, hh]
      obtain ⟨m, hm, hq⟩ := Lock.Within.release h hhead (by simpa using hne)
      refine ⟨m, hm, ?_⟩
      rw [Controller.act, hr]
      refine Queues.cancelJobs ?_ hne stop rest
      rwa [Queues, run_releaseRun]
    | flush =>
      have hr : s.resume c = (s.withoutErrand c).recoverNow := by
        simp [Controller.resume, hc, hh]
      rw [Controller.act, hr]
      exact Queues.recoverNow (s := s.withoutErrand c) h hh hne
  | abandon c =>
    have hhead : s.reenable.run.holder = some (.client c) := hturn
    have hne : c ≠ client := by
      rintro rfl
      cases he'.symm.trans (errand?_abandon_self he)
    obtain ⟨e, hc, hj⟩ := errand?_of_head hline hhead
    obtain ⟨m, hm, hq⟩ := Lock.Within.release h hhead (by simpa using hne)
    have hleft : s.reenable.run.leave (.client c) = s.reenable.run.release :=
      if_pos ((Lock.heldBy_iff _ _).mpr hhead)
    refine ⟨m, hm, ?_⟩
    show (s.abandon c).backlog.reenable.run.Within _ _
    rw [backlog_abandon hc, hj]
    show (s.reenable.run.leave (.client c)).Within _ _
    rwa [hleft]
  | _ => cases hturn

/-- An endless run in which a client waits as long as it has to and the party at the head of the
line gets a turn again and again. -/
structure GivesTurns (s : Controller ρ) (client : ℕ) (σ : ℕ → Action) : Prop where

  stays (n : ℕ) : σ n ≠ .abandon client

  turns {n : ℕ} : (s.course σ n).errand? client = some .flush →
    ∃ m ≥ n, (s.course σ m).HeadTurn (σ m)

/-- A client that waits for the recovery returns. -/
theorem GivesTurns.returns {σ : ℕ → Action} (hσ : s.GivesTurns client σ)
    (hline : ∃ there, s.backlog.InLine there) (hc : s.backlog.Composed)
    (he : s.errand? client = some .flush) : ∃ n, (s.course σ n).errand? client = none := by
  by_contra hnever
  have hwaits (n : ℕ) : (s.course σ n).errand? client = some .flush := by
    induction n with
    | zero => exact he
    | succ n ih =>
      rw [course_succ]
      refine (errand?_act_of_flush ih (hσ.stays n)).resolve_right fun hdone => hnever ⟨n + 1, ?_⟩
      rw [course_succ]
      exact hdone.1
  have hnext (m : ℕ) : ((s.course σ m).act (σ m)).errand? client = some .flush := by
    rw [← course_succ]
    exact hwaits (m + 1)
  -- The place in the line cannot get smaller for ever.
  have hplace (k : ℕ) : ∀ n, ¬(s.course σ n).Queues client k := by
    induction k using Nat.strong_induction_on with
    | _ k ih =>
      intro n hq
      have hkept (m : ℕ) (hm : n ≤ m) : (s.course σ m).Queues client k := by
        induction m, hm using Nat.le_induction with
        | base => exact hq
        | succ m _ hq =>
          rw [course_succ]
          exact hq.act (hwaits m) (hnext m)
      obtain ⟨m, hm, hturn⟩ := hσ.turns (hwaits n)
      obtain ⟨k', hk, hq'⟩ := (hkept m hm).turn (inLine_run hline _) (composed_run hc _) hturn
        (hwaits m) (hnext m)
      rw [← course_succ] at hq'
      exact ih k' hk (m + 1) hq'
  obtain ⟨k, hq⟩ := queues_of_errand hline he
  exact hplace k 0 hq

end Controller

end HotplugDetect
