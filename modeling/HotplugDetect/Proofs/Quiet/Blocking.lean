import HotplugDetect.Controller.Script
import HotplugDetect.Proofs.Quiet.Toil
import HotplugDetect.Proofs.Shutdown

/-! # What a cancellation waits for

A cancellation waits for runs in flight, and a run in flight waits for the lock on the display
configuration. Among themselves the runs give that lock back at once, so that only an outside party
can keep a cancellation waiting while time passes.
-/

namespace HotplugDetect

variable {ρ : Type}

namespace Lock

variable {α : Type} {l : Lock α} {a b : α}

theorem mem_line_request (h : a ∈ (l.request b).line) : a = b ∨ a ∈ l.line := by
  unfold request line at h
  split at h
  · simp only [Option.toList_some, List.cons_append, List.nil_append, List.mem_cons] at h
    exact h.imp_right fun hin => List.mem_append_right _ hin
  · rename_i c hc
    simp only [hc, Option.toList_some, List.mem_append, List.mem_singleton] at h
    rcases h with rfl | hin | rfl
    · exact .inr (mem_line_of_holder hc)
    · exact .inr (List.mem_append_right _ hin)
    · exact .inl rfl

theorem mem_line_release (h : a ∈ l.release.line) : a ∈ l.line := by
  rw [line_release] at h
  exact List.mem_append_right _ h

theorem holder_leave_of_ne [DecidableEq α] (h : l.holder = some a) (hne : a ≠ b) :
    (l.leave b).holder = some a := by
  have hnot : l.heldBy b ≠ true := by
    rw [ne_eq, heldBy_iff, h, Option.some_inj]
    exact hne
  rw [leave, if_neg hnot]
  exact h

end Lock

/-- The jobs whose run locks a client has yet to take. -/
def Errand.jobs : Errand → List Job
  | cancel j rest _ => j :: rest
  | flush => [.reenable]

def Errand.stops : Errand → Bool
  | cancel _ _ stop => stop
  | flush => false

theorem Errand.job_mem_jobs (e : Errand) : e.job ∈ e.jobs := by
  cases e <;> simp [job, jobs]

namespace Backlog

variable {b b' : Backlog} {client party : Nat} {j : Job}

/-- A run of the job is in flight that does not end without the lock on the display
configuration. -/
def detained (b : Backlog) : Job → Bool
  | .generic => b.generic.rest?.isSome
  | .pollInit => b.pollInit.rest?.isSome
  | _ => false

theorem rest?_of_detained (h : b.detained j = true) : (b.lane j).rest?.isSome = true := by
  cases j with
  | generic => exact h
  | pollInit => exact h
  | _ => cases h

theorem detained_eq (h : ∀ k, (b'.lane k).rest? = (b.lane k).rest?) : b'.detained = b.detained := by
  funext j
  cases j with
  | generic => exact congrArg Option.isSome (h .generic)
  | pollInit => exact congrArg Option.isSome (h .pollInit)
  | _ => rfl

/-- An outside party has its lock, and the client has to wait for the end of a run in flight before
its operation is done. So has everybody who would stop the workers. -/
structure Barred (b : Backlog) (client party : Nat) : Prop where

  held : b.mode.holder = some (.outside party)

  errands {x : Nat × Errand} : x ∈ b.errands → x.1 = client ∨ x.2.stops = true →
    ∃ j ∈ x.2.jobs, b.detained j = true

theorem run_disarm (b : Backlog) (j k : Job) : ((b.disarm j).lane k).run = (b.lane k).run := by
  cases j with
  | reenable =>
    cases k with
    | reenable => exact Lane.run_notify _
    | _ => rfl
  | _ => cases k <;> rfl

theorem mode_disarm (b : Backlog) (j : Job) : (b.disarm j).mode = b.mode := by
  cases j <;> rfl

theorem mode_withLane (b : Backlog) (j : Job) (f : Lane Rest → Lane Rest) :
    (b.withLane j f).mode = b.mode := by
  cases j <;> rfl

/-- Nobody but runs comes to the lock on the display configuration, unless somebody asks for it from
outside. -/
theorem Step.mem_line {a : Action} (hs : Step a b b') (hhold : ∀ party, a ≠ .hold party)
    {q : ModeParty} (hq : q ∈ b'.mode.line) : q ∈ b.mode.line ∨ q.isRun = true := by
  have hrequest {r : ModeParty} (hr : r.isRun = true) (hin : q ∈ (b.mode.request r).line) :
      q ∈ b.mode.line ∨ q.isRun = true := by
    rcases Lock.mem_line_request hin with rfl | hin
    · exact .inr hr
    · exact .inl hin
  cases hs with
  | interrupted _ hi =>
    rw [hi.rest] at hq
    exact .inl hq
  | takes => exact hrequest rfl hq
  | reads => exact hrequest rfl hq
  | probed => exact .inl (Lock.mem_line_release hq)
  | reinitialized => exact .inl (Lock.mem_line_release hq)
  | disarms j =>
    rw [mode_disarm] at hq
    exact .inl hq
  | passes =>
    rw [mode_withLane] at hq
    exact .inl hq
  | @waits _ e =>
    exact .inl (b.mode_withLane e.job (fun l => { l with run := l.run.request _ }) ▸ hq)
  | @resumes _ e =>
    exact .inl (b.mode_withLane e.job (fun l => { l with run := l.run.release }) ▸ hq)
  | @leaves _ e =>
    exact .inl (b.mode_withLane e.job (fun l => { l with run := l.run.leave _ }) ▸ hq)
  | stops =>
    simp only [Lock.line_leave] at hq
    exact .inl (List.mem_of_mem_erase (List.mem_of_mem_erase hq))
  | holds hasked => exact absurd hasked (hhold _)
  | releases =>
    simp only [Lock.line_leave] at hq
    exact .inl (List.mem_of_mem_erase hq)
  | _ => exact .inl hq

theorem Barred.disarm (h : b.Barred client party) (j : Job) :
    (b.disarm j).Barred client party where
  held := by
    rw [mode_disarm]
    exact h.held
  errands hx hc := by
    rw [Controller.errands_disarm] at hx
    rw [detained_eq (rest?_disarm b j)]
    exact h.errands hx hc

theorem Barred.withLane (h : b.Barred client party) (j : Job) {f : Lane Rest → Lane Rest}
    (hf : ∀ l, (f l).rest? = l.rest?) : (b.withLane j f).Barred client party where
  held := by
    rw [mode_withLane]
    exact h.held
  errands hx hc := by
    rw [Controller.errands_withLane] at hx
    rw [detained_eq fun k => rest?_withLane b j k hf]
    exact h.errands hx hc

theorem Barred.withErrands (h : b.Barred client party) {es : List (Nat × Errand)}
    (hes : ∀ x ∈ es, x ∈ b.errands ∨ (x.1 = client ∨ x.2.stops = true →
      ∃ j ∈ x.2.jobs, b.detained j = true)) :
    ({ b with errands := es } : Backlog).Barred client party := by
  have hsame : ({ b with errands := es } : Backlog).detained = b.detained :=
    detained_eq fun k => by cases k <;> rfl
  refine ⟨h.held, fun {x} hx hc => ?_⟩
  rw [hsame]
  exact (hes x hx).elim (fun hin => h.errands hin hc) fun hnew => hnew hc

theorem Barred.withMode (h : b.Barred client party) {mode : Lock ModeParty}
    (hm : mode.holder = some (.outside party)) :
    ({ b with mode } : Backlog).Barred client party := by
  have hsame : ({ b with mode } : Backlog).detained = b.detained :=
    detained_eq fun k => by cases k <;> rfl
  refine ⟨hm, fun {x} hx hc => ?_⟩
  rw [hsame]
  exact h.errands hx hc

theorem Barred.withDigital (h : b.Barred client party) (digital : Work Rest) :
    ({ b with digital } : Backlog).Barred client party := by
  have hsame : ({ b with digital } : Backlog).detained = b.detained := by
    funext j
    cases j <;> rfl
  refine ⟨h.held, fun {x} hx hc => ?_⟩
  rw [hsame]
  exact h.errands hx hc

theorem Barred.interrupted (h : b.Barred client party) (hi : b.Interrupted b') :
    b'.Barred client party where
  held := by
    rw [hi.rest]
    exact h.held
  errands {x} hx hc := by
    have herrands : b'.errands = b.errands := by rw [hi.rest]
    rw [detained_eq hi.rest?_lane]
    exact h.errands (herrands ▸ hx) hc

/-- As long as an outside party has the lock on the display configuration, no run ends that needs
it. -/
theorem Moves.outside {now : Nat} (hm : b.Moves now j b')
    (h : b.mode.holder = some (.outside party)) :
    b'.mode.holder = some (.outside party) ∧
      ∀ k, b.detained k = true → b'.detained k = true := by
  have hnot {q : ModeParty} (hq : q.isRun = true) : b.mode.heldBy q ≠ true := by
    rw [ne_eq, Lock.heldBy_iff, h, Option.some_inj]
    rintro rfl
    cases hq
  have hkept (q : ModeParty) : (b.mode.request q).holder = some (.outside party) :=
    b.mode.holder_request_of_held q _ h
  refine ⟨?_, fun k hk => ?_⟩
  · cases hm with
    | takes => exact hkept .generic
    | probes _ hheld => exact absurd hheld (hnot rfl)
    | reads => exact hkept .pollInit
    | reinitializes _ hheld => exact absurd hheld (hnot rfl)
    | _ => exact h
  have hother (hown : k ≠ j) : b'.detained k = true := by
    have hrest := hm.rest?_of_ne hown
    cases k with
    | generic => exact (congrArg Option.isSome hrest).trans hk
    | pollInit => exact (congrArg Option.isSome hrest).trans hk
    | _ => cases hk
  by_cases hown : k = j
  · subst hown
    cases hm with
    | genericLooks hs => exact (congrArg Option.isSome (Work.rest?_of_seek hs)).trans hk
    | takes => rfl
    | probes _ hheld => exact absurd hheld (hnot rfl)
    | genericWaits => exact hk
    | pollInitLooks hs => exact (congrArg Option.isSome (Work.rest?_of_seek hs)).trans hk
    | reads => rfl
    | reinitializes _ hheld => exact absurd hheld (hnot rfl)
    | pollInitWaits => exact hk
    | _ => cases hk
  · exact hother hown

theorem Barred.moves (h : b.Barred client party) {now : Nat} (hm : b.Moves now j b') :
    b'.Barred client party := by
  obtain ⟨hheld, hflight⟩ := hm.outside h.held
  refine ⟨hheld, fun {x} hx hc => ?_⟩
  obtain ⟨k, hk, hrest⟩ := h.errands (hm.errands ▸ hx) hc
  exact ⟨k, hk, hflight k hrest⟩

end Backlog

/-- Anything but calls of operations, as long as the outside party keeps its lock and the client
does not give up. -/
def Action.abides (client party : Nat) : Action → Bool
  | .release p => p != party
  | .abandon c => c != client
  | a => !a.operates

namespace Controller

open Backlog

section Rest

variable {s : Controller ρ} {there : Bool} {client : Nat} {e : Errand}

theorem held_iff : s.held = true ↔ ∃ party, s.mode.holder = some (.outside party) := by
  unfold held
  split
  · rename_i party h
    exact iff_of_true rfl ⟨party, h⟩
  · rename_i h
    exact iff_of_false Bool.false_ne_true fun ⟨party, hp⟩ => h party hp

theorem rest?_of_atRest (hline : s.backlog.InLine there) (hs : s.AtRest) {j : Job}
    (hholder : (s.backlog.lane j).run.holder ≠ none) : (s.backlog.lane j).rest?.isSome = true := by
  have hlined := (hline.lanes j).lined
  obtain ⟨y, hy⟩ := Option.ne_none_iff_exists'.mp hholder
  have hmem := Lock.mem_line_of_holder hy
  cases y with
  | client c =>
    have hin := Lane.mem_clients.mpr hmem
    rw [hlined.clients] at hin
    obtain ⟨e, he, rfl⟩ := mem_waiting.mp hin
    have hheld := hs.2 _ he
    rw [lane_backlog] at hy
    rw [holdsRun, (Lock.heldBy_iff _ _).mpr hy] at hheld
    cases hheld
  | worker =>
    have hplaced := hlined.placed
    have hclaiming := not_claiming hline hs j
    rw [← lane_backlog] at hclaiming
    rw [Lane.Placed] at hplaced
    rcases hw : (s.backlog.lane j).worker with _ | _ | ⟨u, notified⟩ | _ | rest
    · rw [hw] at hplaced
      exact absurd hmem hplaced
    · rw [hw] at hplaced
      exact absurd hmem hplaced
    · rw [hw] at hplaced
      exact absurd hmem hplaced
    · exact absurd hw hclaiming
    · rw [Lane.rest?_eq_some_iff.mpr hw]
      rfl

theorem waited_of_atRest (hline : s.backlog.InLine there) (hs : s.AtRest) {x : Nat × Errand}
    (hx : x ∈ s.errands) : (s.backlog.lane x.2.job).rest?.isSome = true := by
  have hlined := (hline.lanes x.2.job).lined
  have hwaits : Claimant.client x.1 ∈ (s.backlog.lane x.2.job).run.line := by
    rw [← Lane.mem_clients, hlined.clients, mem_waiting]
    exact ⟨x.2, hx, rfl⟩
  refine rest?_of_atRest hline hs fun hholder => ?_
  rw [hlined.orderly.line_eq_nil.mpr hholder] at hwaits
  cases hwaits

theorem free_of_atRest (hline : s.backlog.InLine there) (hc : s.backlog.Composed) (hs : s.AtRest)
    (hflight : ((s.lane .generic).rest?.isSome || (s.lane .pollInit).rest?.isSome) = false)
    (j : Job) : (s.lane j).run.holder = none := by
  obtain ⟨hgeneric, hpollInit⟩ := Bool.or_eq_false_iff.mp hflight
  have hnone : (s.backlog.lane j).rest? = none := by
    cases j with
    | digital => exact digital_rest?_of_atRest hs
    | generic => exact Option.isNone_iff_eq_none.mp (Option.isSome_eq_false_iff.mp hgeneric)
    | pollInit => exact Option.isNone_iff_eq_none.mp (Option.isSome_eq_false_iff.mp hpollInit)
    | reenable => exact hc.prompt
  by_contra hholder
  rw [← lane_backlog] at hholder
  have hrest := rest?_of_atRest hline hs hholder
  rw [hnone] at hrest
  cases hrest

theorem idle_of_atRest (hline : s.backlog.InLine there) (hc : s.backlog.Composed) (hs : s.AtRest)
    (hheld : s.held = false) (j : Job) : (s.lane j).rest? = none := by
  have hnot (q : ModeParty) : s.backlog.running q = false := not_running hline hs hheld q
  cases j with
  | digital => exact digital_rest?_of_atRest hs
  | generic => exact Option.isNone_iff_eq_none.mp (Option.isSome_eq_false_iff.mp (hnot .generic))
  | pollInit => exact Option.isNone_iff_eq_none.mp (Option.isSome_eq_false_iff.mp (hnot .pollInit))
  | reenable => exact hc.prompt

/-- When everybody waits, a run in flight waits for an outside party. -/
theorem held_of_rest? (hline : s.backlog.InLine there) (hc : s.backlog.Composed) (hs : s.AtRest)
    {j : Job} (hrest : (s.lane j).rest?.isSome = true) : s.held = true := by
  by_contra hheld
  rw [idle_of_atRest hline hc hs (Bool.not_eq_true _ ▸ hheld)] at hrest
  cases hrest

/-- When everybody waits, an errand waits for a run that waits for an outside party. -/
theorem blocked_of_atRest (hline : s.backlog.InLine there) (hc : s.backlog.Composed)
    (hs : s.AtRest) (he : s.errand? client = some e) :
    s.held = true ∧ (e.job = .generic ∨ e.job = .pollInit) ∧
      (s.lane e.job).rest?.isSome = true := by
  have hrest : (s.lane e.job).rest?.isSome = true := by
    rw [← lane_backlog]
    exact waited_of_atRest hline hs (mem_of_lookup he)
  have hprompt {j : Job} (hnone : (s.lane j).rest? = none) : e.job ≠ j := by
    rintro rfl
    rw [hnone] at hrest
    cases hrest
  refine ⟨held_of_rest? hline hc hs hrest, ?_, hrest⟩
  cases hj : e.job with
  | digital => exact absurd hj (hprompt (digital_rest?_of_atRest hs))
  | generic => exact .inl rfl
  | pollInit => exact .inr rfl
  | reenable => exact absurd hj (hprompt hc.prompt)

/-- When everybody waits, nobody is done before the outside party has given its lock back. -/
theorem barred_of_atRest (hline : s.backlog.InLine there) (hc : s.backlog.Composed) (hs : s.AtRest)
    {party : Nat} (hheld : s.mode.holder = some (.outside party)) (client : Nat) :
    s.backlog.Barred client party where
  held := hheld
  errands {x} hx _ := by
    have hrest := waited_of_atRest hline hs hx
    refine ⟨x.2.job, x.2.job_mem_jobs, ?_⟩
    have hnone {j : Job} (hidle : (s.backlog.lane j).rest? = none) : x.2.job ≠ j := by
      rintro rfl
      rw [hidle] at hrest
      cases hrest
    cases hj : x.2.job with
    | digital => exact absurd hj (hnone (digital_rest?_of_atRest hs))
    | generic =>
      rw [hj] at hrest
      exact hrest
    | pollInit =>
      rw [hj] at hrest
      exact hrest
    | reenable => exact absurd hj (hnone hc.prompt)

end Rest

section Cancelling

variable {s : Controller ρ} {client party : Nat} {stop : Bool}

theorem backlog_pass {there : Bool} {j : Job} (hline : s.backlog.InLine there)
    (hfresh : s.errand? client = none)
    (hh : ((s.backlog.lane j).run.request (.client client)).heldBy (.client client) = true) :
    (((s.disarm j).requestRun j client).releaseRun j).backlog = s.backlog.disarm j := by
  have hrun := (hline.lanes j).run_of_granted (not_mem_waiting_of_fresh hfresh j) hh
  rw [backlog_releaseRun, backlog_requestRun, withLane_withLane, backlog_disarm, withLane_of_eq]
  have hempty : ((s.backlog.disarm j).lane j).run = {} := (run_disarm _ j j).trans hrun
  rw [hempty]
  exact congrArg (fun run => { (s.backlog.disarm j).lane j with run }) hempty.symm

theorem cancelJobs_free {js : List Job} (hline : ∃ there, s.backlog.InLine there)
    (hfresh : s.errand? client = none) (hfree : ∀ j, (s.backlog.lane j).run.holder = none) :
    (s.cancelJobs client stop js).errand? client = none := by
  induction js generalizing s with
  | nil =>
    unfold cancelJobs
    split
    · obtain ⟨there, hline⟩ := hline
      have hidle : s.digital.rest? = none :=
        hline.rest?_of_holder (j := .digital) (by rw [hfree .digital]; simp)
      rw [stopAll_of_idle hidle]
      exact (s.errand?_stopWorkers client).trans hfresh
    · exact hfresh
  | cons j js ih =>
    obtain ⟨there, hline⟩ := hline
    have hh := Lock.heldBy_request_of_free _ (.client client) (hfree j)
    have hpassed := backlog_pass hline hfresh hh
    unfold cancelJobs
    simp only [holdsRun_requestRun]
    rw [backlog_disarm, run_disarm, if_pos hh]
    refine ih ⟨there, ?_⟩ ?_ fun k => ?_
    · rw [hpassed]
      exact hline.disarms j
    · rw [errand?_releaseRun, errand?_requestRun, errand?_disarm]
      exact hfresh
    · rw [hpassed, run_disarm]
      exact hfree k

theorem barred_cancelJobs {c : Nat} {js : List Job} (hline : ∃ there, s.backlog.InLine there)
    (hfresh : s.errand? c = none) (h : s.backlog.Barred client party)
    (hjs : c = client ∨ stop = true → ∃ j ∈ js, s.backlog.detained j = true) :
    (s.cancelJobs c stop js).backlog.Barred client party ∧
      (c = client → (s.cancelJobs c stop js).errand? c ≠ none) := by
  induction js generalizing s with
  | nil =>
    have hstays : ¬(c = client ∨ stop = true) := fun hc => by
      obtain ⟨j, hj, -⟩ := hjs hc
      cases hj
    obtain ⟨hother, hstop⟩ := not_or.mp hstays
    unfold cancelJobs
    rw [if_neg hstop]
    exact ⟨h, fun hc => absurd hc hother⟩
  | cons j js ih =>
    obtain ⟨there, hline⟩ := hline
    unfold cancelJobs
    simp only [holdsRun_requestRun]
    rw [backlog_disarm, run_disarm]
    split
    · rename_i hh
      have hpassed := backlog_pass hline hfresh hh
      have hrun := (hline.lanes j).run_of_granted (not_mem_waiting_of_fresh hfresh j) hh
      have hidle : (s.backlog.lane j).rest? = none := hline.rest?_of_holder (by rw [hrun]; simp)
      refine ih ⟨there, ?_⟩ ?_ ?_ fun hc => ?_
      · rw [hpassed]
        exact hline.disarms j
      · rw [errand?_releaseRun, errand?_requestRun, errand?_disarm]
        exact hfresh
      · rw [hpassed]
        exact h.disarm j
      · obtain ⟨k, hk, hrest⟩ := hjs hc
        rw [hpassed]
        refine ⟨k, (List.mem_cons.mp hk).resolve_left ?_, ?_⟩
        · rintro rfl
          have hflight := rest?_of_detained hrest
          rw [hidle] at hflight
          cases hflight
        · rwa [detained_eq (rest?_disarm s.backlog j)]
    · refine ⟨?_, fun _ hnone => ?_⟩
      · rw [backlog_withErrand, backlog_requestRun, backlog_disarm]
        have hasked := (h.disarm j).withLane j
          (f := fun l => { l with run := l.run.request (.client c) }) fun _ => rfl
        refine hasked.withErrands fun x hx => ?_
        rw [List.mem_append, List.mem_singleton] at hx
        refine hx.imp_right ?_
        rintro rfl hc
        obtain ⟨k, hk, hrest⟩ := hjs hc
        refine ⟨k, hk, ?_⟩
        rwa [detained_eq fun k => rest?_withLane _ j k (fun _ => by rfl),
          detained_eq (rest?_disarm s.backlog j)]
      · refine not_mem_of_fresh hnone (List.mem_map.mpr ⟨(c, .cancel j js stop), ?_, rfl⟩)
        exact List.mem_append_right _ (List.mem_singleton_self _)

theorem barred_resume (hline : ∃ there, s.backlog.InLine there) (h : s.backlog.Barred client party)
    (c : Nat) : (s.resume c).backlog.Barred client party ∧
      (s.errand? client ≠ none → (s.resume c).errand? client ≠ none) := by
  obtain ⟨there, hline⟩ := hline
  have hother (hc : c ≠ client) (herrand : s.errand? client ≠ none) :
      (s.resume c).errand? client ≠ none := by
    rwa [errand?_resume s (Ne.symm hc)]
  -- The run whose lock the client has been handed is not in flight.
  have hover {e : Errand} (he : s.errand? c = some e) (hh : s.holdsRun e.job c = true)
      (hc : c = client ∨ e.stops = true) :
      ∃ k ∈ e.jobs, k ≠ e.job ∧ s.backlog.detained k = true := by
    obtain ⟨k, hk, hrest⟩ := h.errands (mem_of_lookup he) hc
    refine ⟨k, hk, ?_, hrest⟩
    rintro rfl
    have hflight := rest?_of_detained hrest
    rw [hline.rest?_of_holder (by rw [lane_backlog, (Lock.heldBy_iff _ _).mp hh]; simp)] at hflight
    cases hflight
  have hwithout : (s.withoutErrand c).backlog.Barred client party :=
    h.withErrands fun x hx => .inl (List.mem_filter.mp hx).1
  rcases s.resume_cases c with hr | ⟨j, rest, stop, he, hh, hr⟩ | ⟨he, hh, hr⟩
  · rw [hr]
    exact ⟨h, id⟩
  · have hlined := hline.resumes (e := .cancel j rest stop) he (lane_backlog s j ▸ hh)
    have hreleased : ((s.withoutErrand c).releaseRun j).backlog.Barred client party := by
      rw [backlog_releaseRun]
      exact hwithout.withLane j fun _ => rfl
    have hleft (hc : c = client ∨ stop = true) : ∃ k ∈ rest,
        ((s.withoutErrand c).releaseRun j).backlog.detained k = true := by
      obtain ⟨k, hk, hne, hrest⟩ := hover he hh hc
      refine ⟨k, (List.mem_cons.mp hk).resolve_left hne, ?_⟩
      rw [backlog_releaseRun, detained_eq fun k => rest?_withLane _ j k fun _ => by rfl]
      cases k <;> exact hrest
    have hspent : ((s.withoutErrand c).releaseRun j).errand? c = none :=
      (errand?_releaseRun _ j c).trans (lookup_filter_self s.errands c)
    obtain ⟨hbarred, hstays⟩ :=
      barred_cancelJobs ⟨there, (s.backlog_released c j).symm ▸ hlined⟩ hspent hreleased hleft
    rw [hr]
    refine ⟨hbarred, fun herrand => ?_⟩
    by_cases hc : c = client
    · exact hc ▸ hstays hc
    · exact hr ▸ hother hc herrand
  · refine ⟨?_, hother ?_⟩
    · rw [hr, backlog_recoverNow_eq]
      exact (hwithout.disarm .reenable).withLane .reenable fun _ => rfl
    · rintro rfl
      obtain ⟨k, hk, hne, -⟩ := hover he hh (.inl rfl)
      exact hne (List.mem_singleton.mp hk)

def unclaimed (s : Controller ρ) : Bool := s.mode.line.all ModeParty.isRun

theorem unclaimed_iff : s.unclaimed = true ↔ ∀ q ∈ s.mode.line, q.isRun = true := List.all_eq_true

theorem not_held_of_unclaimed (h : s.unclaimed = true) : s.held = false := by
  refine Bool.eq_false_iff.mpr fun hheld => ?_
  obtain ⟨party, hholder⟩ := held_iff.mp hheld
  have hrun := unclaimed_iff.mp h _ (Lock.mem_line_of_holder hholder)
  cases hrun

end Cancelling

section Actions

variable [Probe ρ] {s : Controller ρ} {client party : Nat}

theorem unclaimed_act {a : Action} (hhold : ∀ party, a ≠ .hold party) (h : s.unclaimed = true) :
    (s.act a).unclaimed = true := by
  refine unclaimed_iff.mpr (Steps.induction (P := fun b => ∀ q ∈ b.mode.line, q.isRun = true)
    (fun b b' hs hb q hq => ?_) (s.steps_act a) (unclaimed_iff.mp h))
  exact (hs.mem_line hhold hq).elim (hb q) id

/-- As long as the outside party keeps its lock, the client stays. -/
theorem barred_act (hline : ∃ there, s.backlog.InLine there) (h : s.backlog.Barred client party)
    {a : Action} (ha : a.abides client party = true) :
    (s.act a).backlog.Barred client party ∧
      (s.errand? client ≠ none → (s.act a).errand? client ≠ none) := by
  have hsame {t : Controller ρ} (hb : t.backlog.Barred client party)
      (ht : t.backlog.errands = s.backlog.errands) :
      t.backlog.Barred client party ∧ (s.errand? client ≠ none → t.errand? client ≠ none) :=
    ⟨hb, fun herrand => (errand?_of_backlog ht client).symm ▸ herrand⟩
  cases a with
  | interrupt i =>
    have hi := s.interrupted_interrupt i
    refine hsame (h.interrupted hi) ?_
    exact (congrArg Backlog.errands hi.rest :)
  | raw pinMask longMask =>
    have hi := s.interrupted_raw pinMask longMask
    refine hsame (h.interrupted hi) ?_
    exact (congrArg Backlog.errands hi.rest :)
  | resume c => exact barred_resume hline h c
  | abandon c =>
    have hc : client ≠ c := by
      rintro rfl
      simp [Action.abides] at ha
    refine ⟨?_, fun herrand => (s.errand?_abandon hc).symm ▸ herrand⟩
    cases he : s.errand? c with
    | none =>
      rw [act, abandon_of_none he]
      exact h
    | some e =>
      rw [act, backlog_abandon he]
      have hleft := h.withLane e.job
        (f := fun l => { l with run := l.run.leave (.client c) }) fun _ => rfl
      refine hleft.withErrands fun x hx => .inl ?_
      rw [errands_withLane]
      exact (List.mem_filter.mp hx).1
  | hold p =>
    refine ⟨?_, fun herrand => ?_⟩
    · rw [act, backlog_hold]
      refine h.withMode ?_
      split
      · exact h.held
      · exact s.mode.holder_request_of_held _ _ h.held
    · rw [act, errand?_of_backlog (s := s) (by rw [backlog_hold]) client]
      exact herrand
  | release p =>
    have hne : ModeParty.outside party ≠ .outside p := by
      rintro ⟨⟩
      simp [Action.abides] at ha
    refine ⟨?_, fun herrand => ?_⟩
    · rw [act, backlog_release]
      exact h.withMode (Lock.holder_leave_of_ne h.held hne)
    · rw [act, errand?_of_backlog (s := s) (by rw [backlog_release]) client]
      exact herrand
  | move j timerFirst =>
    rcases s.move_cases j timerFirst with hi | ⟨rfl, rest, long, short, -, -, -, hb⟩ |
      ⟨rfl, rest, -, hheld, -, -⟩
    · have hm := moves_move hi
      exact hsame (h.moves hm) hm.errands
    · have hdelivered : (s.deliver long short ∅ Port.all).1.backlog.Barred client party ∧
          (s.deliver long short ∅ Port.all).1.backlog.errands = s.backlog.errands :=
        deliver_induction
          (P := fun t => t.backlog.Barred client party ∧ t.backlog.errands = s.backlog.errands)
          (fun _ _ ht => ht) (fun _ _ _ _ ht => ht)
          (fun t i ht => ⟨ht.1.interrupted (t.interrupted_interrupt i),
            (congrArg Backlog.errands (t.interrupted_interrupt i).rest :).trans ht.2⟩)
          long short ∅ Port.all s ⟨h, rfl⟩
      refine hsame ?_ ((congrArg Backlog.errands hb :).trans hdelivered.2)
      rw [act, hb]
      exact hdelivered.1.withDigital _
    · rw [Lock.heldBy_iff] at hheld
      cases hheld.symm.trans h.held
  | giveWay => exact ⟨h, id⟩
  | advance instant =>
    have hb := s.backlog_advance instant
    exact hsame (hb.symm ▸ h) (by rw [act, hb])
  | _ => cases ha

theorem barred_run (hline : ∃ there, s.backlog.InLine there) (h : s.backlog.Barred client party)
    (herrand : s.errand? client ≠ none) {as : List Action}
    (has : ∀ a ∈ as, a.abides client party = true) : (s.run as).errand? client ≠ none := by
  induction as generalizing s with
  | nil => exact herrand
  | cons a as ih =>
    obtain ⟨hbarred, hstays⟩ := barred_act hline h (has a List.mem_cons_self)
    exact ih (inLine_run hline [a]) hbarred (hstays herrand) fun x hx =>
      has x (List.mem_cons_of_mem a hx)

/-- Every action gets somebody on, or an interrupt arrives. -/
def Eager (s : Controller ρ) : List Action → Bool
  | [] => true
  | a :: as => (s.stirs a || !(s.interruptsOf a).isEmpty) && (s.act a).Eager as

def arrivals (s : Controller ρ) (as : List Action) : List Interrupt :=
  (s.trail as).flatMap fun x => x.1.interruptsOf x.2

theorem eager_cons {a : Action} {as : List Action} :
    s.Eager (a :: as) = true ↔
      (s.stirs a = true ∨ s.interruptsOf a ≠ []) ∧ (s.act a).Eager as = true := by
  simp [Eager]

theorem operates_of_eager {a : Action} (h : s.stirs a = true ∨ s.interruptsOf a ≠ []) :
    a.operates = false ∧ (∀ party, a ≠ .hold party) ∧ ∀ instant, a ≠ .advance instant := by
  cases a with
  | interrupt i => exact ⟨rfl, nofun, nofun⟩
  | raw pinMask longMask => exact ⟨rfl, nofun, nofun⟩
  | resume client => exact ⟨rfl, nofun, nofun⟩
  | abandon client => exact ⟨rfl, nofun, nofun⟩
  | move j timerFirst => exact ⟨rfl, nofun, nofun⟩
  | _ => exact absurd rfl (h.resolve_left Bool.false_ne_true)

/-- An eager run ends at the instant at which it begins, after a few actions for every interrupt. -/
theorem eager_run (hline : ∃ there, s.backlog.InLine there) (hc : s.backlog.Composed)
    {as : List Action} (has : s.Eager as = true) :
    as.length ≤ s.toil + 38 * (s.arrivals as).length ∧ (s.run as).now = s.now := by
  induction as generalizing s with
  | nil => exact ⟨Nat.zero_le _, rfl⟩
  | cons a as ih =>
    obtain ⟨ha, has⟩ := eager_cons.mp has
    obtain ⟨hoperates, -, hadvance⟩ := operates_of_eager ha
    obtain ⟨hlength, hnow⟩ := ih (s := s.act a) (inLine_run hline [a]) (composed_run hc [a]) has
    obtain ⟨there, hline⟩ := hline
    have harrivals : (s.arrivals (a :: as)).length =
        (s.interruptsOf a).length + ((s.act a).arrivals as).length := by
      simp [arrivals, trail]
    refine ⟨?_, hnow.trans ((s.effect_act a).now_eq hadvance)⟩
    rw [List.length_cons, harrivals]
    rcases ha with hstirs | hi
    · have hless := toil_act_lt hc hline hstirs
      omega
    · have hle := toil_act_le hc hline hoperates
      have hpos := List.length_pos_iff.mpr hi
      omega

theorem unclaimed_run {as : List Action} (has : s.Eager as = true) (h : s.unclaimed = true) :
    (s.run as).unclaimed = true := by
  induction as generalizing s with
  | nil => exact h
  | cons a as ih =>
    obtain ⟨ha, has⟩ := eager_cons.mp has
    exact ih has (unclaimed_act (operates_of_eager ha).2.1 h)

end Actions

section Calls

def withoutPulses (s : Controller ρ) : Controller ρ :=
  { s with longPorts := ∅, shortPorts := ∅, eventPins := ∅ }

variable {s : Controller ρ} {there : Bool} {client : Nat} {stop : Bool}

theorem inLine_withoutPulses (h : s.backlog.InLine there) :
    s.withoutPulses.backlog.InLine there :=
  h.withDigital (h.lanes .digital) ∅ ∅ ∅

variable [Probe ρ]

/-- The call of a cancellation, which may stop the workers in the end. -/
def cancelling (client : Nat) (stop : Bool) : Action :=
  if stop then .shutdown client else .cancelAll client

theorem act_cancelling (hfree : s.errand? client = none) (stop : Bool) :
    s.act (cancelling client stop) = s.withoutPulses.cancelJobs client stop Job.all := by
  cases stop <;> simp [cancelling, act, cancelAll, shutdown, withoutPulses, hfree]

theorem now_cancelling (client : Nat) (stop : Bool) :
    (s.act (cancelling client stop)).now = s.now :=
  (s.effect_act _).now_eq fun instant => by cases stop <;> exact nofun

theorem unclaimed_cancelling (h : s.unclaimed = true) {bs : List Action}
    (hbs : (s.act (cancelling client stop)).Eager bs = true) :
    ((s.act (cancelling client stop)).run bs).unclaimed = true := by
  refine unclaimed_run hbs (unclaimed_act (fun party => ?_) h)
  cases stop <;> exact nofun

/-- While an outside party has its lock, a cancellation does not pass the run that waits for it. -/
theorem barred_cancelling (hline : s.backlog.InLine there) (hc : s.backlog.Composed)
    (hfree : s.errand? client = none) {party : Nat}
    (hheld : s.mode.holder = some (.outside party))
    (hflight : ((s.lane .generic).rest?.isSome || (s.lane .pollInit).rest?.isSome) = true)
    (hothers : s.AtRest ∨ ∀ x ∈ s.errands, x.2.stops = false) :
    (s.act (cancelling client stop)).backlog.Barred client party ∧
      (s.act (cancelling client stop)).errand? client ≠ none := by
  have hbarred : s.withoutPulses.backlog.Barred client party := by
    refine ⟨hheld, fun {x} hx hclient => ?_⟩
    rcases hothers with hrest | hstops
    · obtain ⟨j, hj, hd⟩ := (barred_of_atRest hline hc hrest hheld client).errands hx hclient
      exact ⟨j, hj, by cases j <;> exact hd⟩
    rcases hclient with hclient | hstop
    · exact absurd (List.mem_map.mpr ⟨x, hx, hclient⟩) (not_mem_of_fresh hfree)
    · rw [hstops x hx] at hstop
      cases hstop
  have hpassed : ∃ j ∈ Job.all, s.withoutPulses.backlog.detained j = true := by
    rcases Bool.or_eq_true_iff.mp hflight with hgeneric | hpollInit
    · exact ⟨.generic, by decide, hgeneric⟩
    · exact ⟨.pollInit, by decide, hpollInit⟩
  obtain ⟨hstuck, hstays⟩ :
      (s.withoutPulses.cancelJobs client stop Job.all).backlog.Barred client party ∧
        (client = client →
          (s.withoutPulses.cancelJobs client stop Job.all).errand? client ≠ none) :=
    barred_cancelJobs ⟨there, inLine_withoutPulses hline⟩ hfree hbarred fun _ => hpassed
  rw [act_cancelling hfree]
  exact ⟨hstuck, hstays rfl⟩

theorem returned_of_free (hline : s.backlog.InLine there) (hfree : s.errand? client = none)
    (hlocks : ∀ j, (s.lane j).run.holder = none) :
    (s.act (cancelling client stop)).errand? client = none := by
  rw [act_cancelling hfree]
  refine cancelJobs_free (s := s.withoutPulses) ⟨there, inLine_withoutPulses hline⟩ hfree ?_
  intro j
  have hlane := hlocks j
  rw [← lane_backlog] at hlane
  cases j <;> exact hlane

/-- A cancellation comes to an end, or to a run that waits for an outside party, at the instant at
which it was called. It comes to an end if no outside party has the lock on the display
configuration or waits for it. If one has it and a run is in flight, which waits for it, the
cancellation waits until the lock is given back; if everybody waits and there is no such run, or if
no run lock is taken, it returns at once. A run lock that is handed on just then lets a run begin
first: what the cancellation finds once everybody waits decides. -/
theorem cancellation_waits_for_outside (settings : Settings) (connectors : ConnectorList ρ)
    (ports : Port → Option PulseHandler) (as : List Action) (client : Nat) (stop : Bool) :
    let s := (ofSettings settings connectors ports).run as
    let t := s.act (cancelling client stop)
    let flight := (s.lane .generic).rest?.isSome || (s.lane .pollInit).rest?.isSome
    s.errand? client = none →
      (∃ n, ∀ bs, t.Eager bs = true →
        bs.length ≤ n + 38 * (t.arrivals bs).length ∧ (t.run bs).now = s.now ∧
          (s.unclaimed = true → (t.run bs).AtRest → (t.run bs).errand? client = none)) ∧
      ((∀ j, (s.lane j).run.holder = none) → t.errand? client = none) ∧
      (s.AtRest → ¬(s.held = true ∧ flight = true) → t.errand? client = none) ∧
      (∀ party, s.mode.holder = some (.outside party) → flight = true →
        (s.AtRest ∨ ∀ x ∈ s.errands, x.2.stops = false) →
          ∀ bs, (∀ a ∈ bs, a.abides client party = true) → (t.run bs).errand? client ≠ none) ∧
      ∀ bs e, (t.run bs).AtRest → (t.run bs).errand? client = some e →
        (e.job = .generic ∨ e.job = .pollInit) ∧ ((t.run bs).lane e.job).rest?.isSome = true ∧
          ∃ party, (t.run bs).mode.holder = some (.outside party) ∧
            ∀ cs, (∀ a ∈ cs, a.abides client party = true) →
              ((t.run bs).run cs).errand? client ≠ none := by
  intro s t flight hfree
  obtain ⟨there, hline⟩ : ∃ there, s.backlog.InLine there :=
    inLine_run ⟨false, inLine_ofSettings settings connectors ports⟩ as
  have hc : s.backlog.Composed := composed_run (composed_ofSettings settings connectors ports) as
  have hlineT : ∃ there, t.backlog.InLine there := inLine_run ⟨there, hline⟩ [_]
  have hcT : t.backlog.Composed := composed_run hc [_]
  have hblocked (bs : List Action) (e : Errand) (hrest : (t.run bs).AtRest)
      (he : (t.run bs).errand? client = some e) :
      (t.run bs).held = true ∧ (e.job = .generic ∨ e.job = .pollInit) ∧
        ((t.run bs).lane e.job).rest?.isSome = true := by
    obtain ⟨there, hline⟩ := inLine_run hlineT bs
    exact blocked_of_atRest hline (composed_run hcT bs) hrest he
  refine ⟨⟨t.toil, fun bs hbs => ?_⟩, returned_of_free hline hfree, fun hrest hnone => ?_,
    fun party hheld hflight hothers bs hbs => ?_, fun bs e hrest he => ?_⟩
  · obtain ⟨hlength, hnow⟩ := eager_run hlineT hcT hbs
    refine ⟨hlength, hnow.trans (now_cancelling client stop), fun hunclaimed hrest => ?_⟩
    rw [Option.eq_none_iff_forall_ne_some]
    rintro e he
    have hnobody := not_held_of_unclaimed (unclaimed_cancelling hunclaimed hbs)
    rw [(hblocked bs e hrest he).1] at hnobody
    cases hnobody
  · refine returned_of_free hline hfree (free_of_atRest hline hc hrest ?_)
    refine Bool.eq_false_iff.mpr fun hflight => hnone ⟨?_, hflight⟩
    rcases Bool.or_eq_true_iff.mp hflight with hgeneric | hpollInit
    · exact held_of_rest? hline hc hrest hgeneric
    · exact held_of_rest? hline hc hrest hpollInit
  · obtain ⟨hbarred, hstays⟩ : t.backlog.Barred client party ∧ t.errand? client ≠ none :=
      barred_cancelling hline hc hfree hheld hflight hothers
    exact barred_run hlineT hbarred hstays hbs
  · obtain ⟨hheld, hjob, hflight⟩ := hblocked bs e hrest he
    obtain ⟨party, hholder⟩ := held_iff.mp hheld
    refine ⟨hjob, hflight, party, hholder, fun cs hcs => ?_⟩
    obtain ⟨there, hline⟩ := inLine_run hlineT bs
    exact barred_run ⟨there, hline⟩
      (barred_of_atRest hline (composed_run hcT bs) hrest hholder client)
      (by rw [he]; exact Option.some_ne_none e) hcs

end Calls

/-- An outside party has its lock and no run is in flight when the cancellation is called. But it
has to wait for the generic worker, which owns its run lock just then, and a poll-init run begins
meanwhile: in the end everybody waits, and the cancellation has not returned. -/
theorem cancellation_outrun_by_queued_run :
    let s := (ofSettings {} ([] : ConnectorList Script) fun _ => none).run
      (Action.boot ++ [.hold 0, .init, .interrupt ⟨.ofList [.crt], ∅⟩, .move .generic true])
    let t := s.act (cancelling 0 false)
    let bs : List Action := [.move .pollInit true, .move .pollInit true, .move .generic true,
      .resume 0, .move .generic true]
    s.errand? 0 = none ∧ s.held = true ∧
      ((s.lane .generic).rest?.isSome || (s.lane .pollInit).rest?.isSome) = false ∧
      t.Eager bs = true ∧ (t.run bs).AtRest ∧ (t.run bs).errand? 0 ≠ none := by
  decide +kernel

/-- A run in flight waits for an outside party when the cancellation is called, and the party keeps
its lock. But a shutdown that has passed that job before the run began stops the worker, and the
cancellation returns. -/
example :
    let s := (ofSettings {} ([] : ConnectorList Script) fun _ => none).run
      (Action.boot ++ [.hold 0, .init, .move .pollInit true, .move .pollInit true, .shutdown 1,
        .interrupt ⟨.ofList [.crt], ∅⟩, .hold 1, .move .generic true, .move .generic true,
        .release 0, .move .pollInit true])
    let t := s.act (cancelling 0 false)
    let bs : List Action := [.resume 1, .resume 0]
    s.errand? 0 = none ∧ s.mode.holder = some (.outside 1) ∧
      (s.lane .generic).rest?.isSome = true ∧ (∀ a ∈ bs, a.abides 0 1 = true) ∧
        (t.run bs).errand? 0 = none := by
  decide +kernel

/-- A poll-init run waits for an outside party, and an interrupt has queued a generic run. -/
def contended : List Action :=
  Action.boot ++ [.hold 0, .init, .move .pollInit true, .move .pollInit true,
    .interrupt ⟨.ofList [.crt], ∅⟩]

theorem cancellation_waits_for_outside_contended :
    let s := (ofSettings {} ([] : ConnectorList Script) fun _ => none).run contended
    let t := s.act (cancelling 0 true)
    let u := (s.act (.release 0)).act (cancelling 0 true)
    s.errand? 0 = none ∧ s.held = true ∧ s.generic.pending = true ∧
      (s.lane .pollInit).rest?.isSome = true ∧
      (t.run [.move .generic true, .advance 60000]).errand? 0 ≠ none ∧
      u.errand? 0 ≠ none ∧ u.Eager [.move .pollInit true, .resume 0] = true ∧
      (u.run [.move .pollInit true, .resume 0]).now = s.now ∧
      (u.run [.move .pollInit true, .resume 0]).errand? 0 = none := by
  intro s t u
  obtain ⟨-, -, -, hwaits, -⟩ := cancellation_waits_for_outside {} ([] : ConnectorList Script)
    (fun _ => none) contended 0 true (by decide +kernel)
  obtain ⟨⟨n, hreturns⟩, -⟩ := cancellation_waits_for_outside {} ([] : ConnectorList Script)
    (fun _ => none) (contended ++ [.release 0]) 0 true (by decide +kernel)
  obtain ⟨-, hnow, hdone⟩ := hreturns [.move .pollInit true, .resume 0] (by decide +kernel)
  exact ⟨by decide +kernel, by decide +kernel, by decide +kernel, by decide +kernel,
    hwaits 0 (by decide +kernel) (by decide +kernel) (.inr (by decide +kernel))
      [.move .generic true, .advance 60000] (by decide),
    by decide +kernel, by decide +kernel, hnow.trans (by decide +kernel),
    hdone (by decide +kernel) (by decide +kernel)⟩

end Controller

end HotplugDetect
