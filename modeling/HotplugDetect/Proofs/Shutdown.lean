import HotplugDetect.Controller.Script
import HotplugDetect.Proofs.Backlog.Lines
import HotplugDetect.Proofs.Watch.Runs

/-! # Work that outlives its worker

A worker that is stopped on its way to the run lock takes the notification of its item with it. If
the item is pending, nothing rouses the next worker: queueing a pending item does not notify, and
only a cancellation takes the run away. Every other queued run is made before the workers come to
rest.
-/

namespace HotplugDetect

variable {ρ : Type}

section Items

variable {a : Action} {j : Job} {w w' : Work Rest}

theorem Work.Attended.stop (h : w.Attended) (hw : w.worker ≠ some .claiming) :
    ({ w with toLane := w.toLane.stop } : Work Rest).Attended := by
  intro hp
  have hroused := h hp
  rcases w with ⟨⟨permit, run, _ | _ | ⟨u, notified⟩ | _ | rest⟩, pending⟩
  · exact hroused
  · exact hroused
  · obtain rfl : notified = true := hroused
    exact Bool.or_true _
  · exact absurd rfl hw
  · exact hroused

theorem Backlog.Serves.attended (hs : Backlog.Serves a j w w') (ha : a.drops = false)
    (h : w.Attended) : w'.Attended := by
  cases hs with
  | keeps hp hr =>
    intro hpending
    rw [hr]
    exact h (hp ▸ hpending)
  | queues => exact h.queue
  | looks _ hseek => exact h.of_seek hseek
  | claims _ _ htaken => exact Work.attended_of_not_pending htaken
  | disarms hdrops =>
    rw [ha] at hdrops
    cases hdrops
  | stops hdrops =>
    rw [ha] at hdrops
    cases hdrops

/-- The item is attended to, or its worker was stopped on its way to the run lock. -/
def Work.Accounted (w : Work Rest) (claiming : Prop) : Prop :=
  w.Attended ∧ (w.worker = some .claiming → claiming) ∨ claiming ∧ w.worker = none

theorem Backlog.Serves.accounted (hs : Backlog.Serves a j w w') (ha : a.drops = true)
    {claiming : Prop} (h : w.Accounted claiming) : w'.Accounted claiming := by
  have hmove : ¬∃ timerFirst, a = .move j timerFirst := by
    rintro ⟨timerFirst, rfl⟩
    cases ha
  cases hs with
  | keeps hp hr hclaiming hgone =>
    rcases h with ⟨hattended, hc⟩ | ⟨hc, hnone⟩
    · refine .inl ⟨fun hpending => ?_, fun hw => hc (hclaiming hw)⟩
      rw [hr]
      exact hattended (hp ▸ hpending)
    · refine .inr ⟨hc, (hgone hnone).resolve_right ?_⟩
      rintro rfl
      cases ha
  | queues hdrops =>
    rw [ha] at hdrops
    cases hdrops
  | disarms =>
    refine h.imp ?_ id
    rintro ⟨-, hc⟩
    exact ⟨Work.attended_of_not_pending rfl, hc⟩
  | looks hmoved => exact absurd hmoved hmove
  | claims hmoved => exact absurd hmoved hmove
  | stops =>
    have hnone : ({ w with toLane := w.toLane.stop } : Work Rest).worker = none := by
      rcases w with ⟨⟨permit, run, _ | _ | _ | _ | rest⟩, pending⟩ <;> rfl
    rcases h with ⟨hattended, hc⟩ | ⟨hc, -⟩
    · by_cases hw : w.worker = some .claiming
      · exact .inr ⟨hc hw, hnone⟩
      · refine .inl ⟨hattended.stop hw, fun hclaiming => ?_⟩
        rw [hnone] at hclaiming
        cases hclaiming
    · exact .inr ⟨hc, hnone⟩

/-- An unattended item stays unattended until its run is taken away. -/
theorem Backlog.Serves.unattended (hs : Backlog.Serves a j w w') (ha : a.drops = false)
    (h : w.pending = true ∧ w.roused = false) : w'.pending = true ∧ w'.roused = false := by
  obtain ⟨hpending, hroused⟩ := h
  cases hs with
  | keeps hp hr => exact ⟨hp.trans hpending, hr.trans hroused⟩
  | queues =>
    have hsame : w.queue.1 = w := by
      unfold Work.queue
      rw [if_pos hpending]
    rw [hsame]
    exact ⟨hpending, hroused⟩
  | looks _ hseek =>
    refine ⟨(Work.pending_looking hseek).trans hpending, ?_⟩
    cases Work.seeks hseek with
    | consumes hw hkept =>
      rw [Lane.roused, hw] at hroused
      exact absurd (hkept.symm.trans hroused) (by decide)
    | parks => rfl
    | wakes hw =>
      rw [Lane.roused, hw] at hroused
      cases hroused
    | withdraws _ _ hdropped =>
      rw [hpending] at hdropped
      cases hdropped
    | waits => exact hroused
  | claims _ hclaimed =>
    have hseek : w.seek = (w.seek.1, .claimed) := Prod.ext rfl hclaimed
    have hw := (Work.seek_claimed hseek).1
    rw [Lane.roused, hw] at hroused
    cases hroused
  | disarms hdrops =>
    rw [ha] at hdrops
    cases hdrops
  | stops hdrops =>
    rw [ha] at hdrops
    cases hdrops

end Items

namespace Controller

section Rest

variable {s : Controller ρ} {there : Bool} {j : Job}

theorem canMove_eq (s : Controller ρ) (j : Job) :
    ∃ ready, s.canMove j = (s.lane j).canMove s.now ready := by
  cases j <;> exact ⟨_, rfl⟩

theorem work_toLane (s : Controller ρ) (j : Job) : (s.backlog.work j).toLane = s.lane j := by
  cases j <;> rfl

theorem not_claiming (h : s.backlog.InLine there) (hs : s.AtRest) (j : Job) :
    (s.lane j).worker ≠ some .claiming := by
  intro hw
  have hlined := (h.lanes j).lined
  rw [lane_backlog] at hlined
  have hplaced := hlined.placed
  rw [Lane.Placed, hw] at hplaced
  have hm : (s.lane j).run.heldBy .worker = false := by
    obtain ⟨ready, hcan⟩ := s.canMove_eq j
    have hmove := hs.not_canMove j
    rwa [hcan, Lane.canMove, hw] at hmove
  rcases hholder : (s.lane j).run.holder with _ | _ | client
  · rw [hlined.orderly.line_eq_nil.mpr hholder] at hplaced
    cases hplaced
  · rw [(Lock.heldBy_iff _ _).mpr hholder] at hm
    cases hm
  · have hin := Lane.mem_clients.mpr (Lock.mem_line_of_holder hholder)
    rw [hlined.clients] at hin
    obtain ⟨e, he, rfl⟩ := mem_waiting.mp hin
    have hheld := hs.2 _ he
    rw [holdsRun, (Lock.heldBy_iff _ _).mpr hholder] at hheld
    cases hheld

theorem canMove_of_running {j : Job} {q : ModeParty}
    (hjq : (j, q) = (.generic, .generic) ∨ (j, q) = (.pollInit, .pollInit))
    (hrun : s.backlog.running q = true) (hh : s.mode.heldBy q = true) : s.canMove j = true := by
  rcases hjq with ⟨⟨⟩⟩ | ⟨⟨⟩⟩
  · obtain ⟨rest, hrest⟩ := Option.isSome_iff_exists.mp hrun
    have hw : s.generic.worker = some (.running rest) := Lane.rest?_eq_some_iff.mp hrest
    simp [canMove, Lane.canMove, hw, hh]
  · obtain ⟨rest, hrest⟩ := Option.isSome_iff_exists.mp hrun
    have hw : s.pollInit.worker = some (.running rest) := Lane.rest?_eq_some_iff.mp hrest
    simp [canMove, Lane.canMove, hw, hh]

theorem digital_rest?_of_atRest (hs : s.AtRest) : s.digital.rest? = none := by
  refine Lane.rest?_of_not_running fun rest hw => ?_
  have hcan := hs.not_canMove .digital
  rw [canMove, Lane.canMove, hw] at hcan
  cases hcan

/-- When everybody waits, nobody waits for the lock on the display configuration. -/
theorem not_running (h : s.backlog.InLine there) (hs : s.AtRest) (hheld : s.held = false)
    (q : ModeParty) : s.backlog.running q = false := by
  have hline : s.mode.line = [] := by
    refine h.mode.orderly.line_eq_nil.mpr ?_
    cases hholder : s.mode.holder with
    | none => exact hholder
    | some q =>
      have hh := (Lock.heldBy_iff s.mode q).mpr hholder
      have hrunning (hq : q.isRun = true) : s.backlog.running q = true := by
        have hcount := List.count_pos_iff.mpr (Lock.mem_line_of_holder hholder)
        have honce := h.mode.once hq
        cases hrun : s.backlog.running q with
        | true => rfl
        | false =>
          rw [hrun] at honce
          exact absurd honce hcount.ne'
      cases q with
      | outside =>
        rw [held, hholder] at hheld
        cases hheld
      | generic =>
        have hmove := canMove_of_running (.inl rfl) (hrunning rfl) hh
        rw [hs.not_canMove] at hmove
        cases hmove
      | pollInit =>
        have hmove := canMove_of_running (.inr rfl) (hrunning rfl) hh
        rw [hs.not_canMove] at hmove
        cases hmove
  cases hq : q.isRun with
  | false =>
    cases q with
    | outside => rfl
    | _ => cases hq
  | true =>
    have honce := h.mode.once hq
    rw [show s.backlog.mode.line = [] from hline, List.count_nil] at honce
    cases hrun : s.backlog.running q with
    | false => rfl
    | true =>
      rw [hrun] at honce
      cases honce

theorem not_queued_of_attended (h : s.backlog.InLine there) (hs : s.AtRest)
    (hstarted : s.started = true) (hheld : s.held = false) (hj : j ≠ .reenable)
    (hattended : (s.backlog.work j).Attended) : s.queued j = false := by
  rw [← Bool.not_eq_true, queued_eq]
  intro hp
  have hroused := hattended hp
  have hthere : (s.lane j).worker.isSome = true := by
    rw [← lane_backlog, (h.lanes j).worker, ← (h.lanes .digital).worker]
    exact hstarted
  have hmove := hs.not_canMove j
  obtain ⟨ready, hcan⟩ := s.canMove_eq j
  rw [hcan] at hmove
  rw [work_toLane] at hroused
  have hrest : (s.lane j).rest? = none := by
    have hgeneric := not_running h hs hheld .generic
    have hpollInit := not_running h hs hheld .pollInit
    cases j with
    | digital => exact digital_rest?_of_atRest hs
    | generic => exact Option.not_isSome_iff_eq_none.mp (Bool.not_eq_true _ ▸ hgeneric)
    | pollInit => exact Option.not_isSome_iff_eq_none.mp (Bool.not_eq_true _ ▸ hpollInit)
    | reenable => exact absurd rfl hj
  rcases hw : (s.lane j).worker with _ | _ | ⟨u, notified⟩ | _ | rest
  · rw [hw] at hthere
    cases hthere
  · rw [Lane.canMove, hw] at hmove
    cases hmove
  · rw [Lane.roused, hw] at hroused
    rw [Lane.canMove, hw] at hmove
    obtain rfl : notified = true := hroused
    cases hmove
  · exact not_claiming h hs j hw
  · rw [Lane.rest?_eq_some_iff.mpr hw] at hrest
    cases hrest

end Rest

theorem attended_ofSettings (settings : Settings) (connectors : ConnectorList ρ)
    (ports : Port → Option PulseHandler) (j : Job) :
    ((ofSettings settings connectors ports).backlog.work j).Attended := by
  cases j <;> exact Work.attended_of_not_pending rfl

variable [Probe ρ]

/-- An action stops the worker of the job after it has noticed that its item is pending, and before
it claims the run. Nobody has notified it again. -/
def Strands (s : Controller ρ) (j : Job) (a : Action) : Prop :=
  (s.lane j).worker = some .claiming ∧ ((s.act a).lane j).worker = none ∧
    (s.act a).queued j = true ∧ ((s.act a).lane j).permit = false

instance (s : Controller ρ) (j : Job) (a : Action) : Decidable (s.Strands j a) :=
  inferInstanceAs (Decidable (_ ∧ _ ∧ _ ∧ _))

section Runs

variable {s : Controller ρ} {a : Action} {j : Job}

theorem strands_of_unattended (hj : j ≠ .reenable) (h : (s.backlog.work j).Attended)
    (hn : ¬((s.act a).backlog.work j).Attended) : s.Strands j a := by
  cases hdrops : a.drops with
  | false =>
    refine absurd (Backlog.Steps.induction (P := fun b => (b.work j).Attended) ?_ (s.steps_act a) h)
      hn
    exact fun b b' hs hb => (hs.serves hj).attended hdrops hb
  | true =>
    have haccounted := Backlog.Steps.induction
      (P := fun b => (b.work j).Accounted ((s.lane j).worker = some .claiming))
      (fun b b' hs hb => (hs.serves hj).accounted hdrops hb) (s.steps_act a)
      (.inl ⟨h, fun hw => work_toLane s j ▸ hw⟩)
    rcases haccounted with ⟨hattended, -⟩ | ⟨hclaiming, hnone⟩
    · exact absurd hattended hn
    · obtain ⟨hp, hroused⟩ := Classical.not_imp.mp hn
      rw [work_toLane] at hnone hroused
      refine ⟨hclaiming, hnone, (queued_eq _ _).trans hp, ?_⟩
      rw [Lane.roused, hnone] at hroused
      exact Bool.not_eq_true _ ▸ hroused

/-- The run of the job was left behind at some time, and it has been pending ever since. -/
def LeftBehind (s : Controller ρ) (j : Job) (as : List Action) : Prop :=
  ∃ bs a cs, as = bs ++ a :: cs ∧ (s.run bs).Strands j a ∧
    ∀ cs', cs' <+: cs → (s.run (bs ++ a :: cs')).queued j = true

theorem leftBehind_of_unattended (hj : j ≠ .reenable) (h : (s.backlog.work j).Attended)
    {as : List Action} (hn : ¬((s.run as).backlog.work j).Attended) : s.LeftBehind j as := by
  obtain ⟨bs, a, cs, rfl, hbefore, hsince⟩ :=
    given_up (P := fun t => (t.backlog.work j).Attended) h hn
  have hlost := hsince [] List.nil_prefix
  rw [run_concat] at hlost
  refine ⟨bs, a, cs, rfl, strands_of_unattended hj hbefore hlost, fun cs' hcs' => ?_⟩
  rw [queued_eq]
  exact (Classical.not_imp.mp (hsince cs' hcs')).1

/-- A run that was left behind stays pending, whatever is queued or started, until it is
cancelled. -/
theorem queued_of_strands (hj : j ≠ .reenable) (h : s.Strands j a) {cs : List Action}
    (hcs : ∀ c ∈ cs, c.drops = false) : ((s.act a).run cs).queued j = true := by
  obtain ⟨-, hnone, hqueued, hpermit⟩ := h
  have hstart : ((s.act a).backlog.work j).pending = true ∧
      ((s.act a).backlog.work j).roused = false := by
    refine ⟨queued_eq _ j ▸ hqueued, ?_⟩
    rw [work_toLane, Lane.roused, hnone]
    exact hpermit
  have hkept : (((s.act a).run cs).backlog.work j).pending = true ∧
      (((s.act a).run cs).backlog.work j).roused = false := by
    generalize s.act a = t at hstart
    induction cs generalizing t with
    | nil => exact hstart
    | cons c cs ih =>
      refine ih (fun x hx => hcs x (List.mem_cons_of_mem c hx)) (t.act c) ?_
      have hc := hcs c List.mem_cons_self
      exact Backlog.Steps.induction
        (P := fun b => (b.work j).pending = true ∧ (b.work j).roused = false)
        (fun b b' hs hb => (hs.serves hj).unattended hc hb) (t.steps_act c) hstart
  rw [queued_eq]
  exact hkept.1

/-- When everybody waits, a run is pending just if it was left behind by a worker that was stopped
on its way to it, and such a run stays pending until it is cancelled. -/
theorem queued_iff_leftBehind (settings : Settings) (connectors : ConnectorList ρ)
    (ports : Port → Option PulseHandler) (as : List Action) (j : Job) :
    let s := ofSettings settings connectors ports
    ((s.run as).AtRest → (s.run as).started = true → (s.run as).held = false →
      ((s.run as).queued j = true ↔ s.LeftBehind j as)) ∧
    ∀ a cs, (s.run as).Strands j a → (∀ c ∈ cs, c.drops = false) →
      (((s.run as).act a).run cs).queued j = true := by
  intro s
  have hneeds {t : Controller ρ} (h : t.queued j = true) : j ≠ .reenable := by
    rintro rfl
    cases h
  refine ⟨fun hsettled hstarted hheld => ⟨fun hq => ?_, ?_⟩, fun a cs hstrands hcs => ?_⟩
  · have hj := hneeds hq
    obtain ⟨there, hline⟩ := Backlog.inLine_run
      ⟨false, Backlog.inLine_ofSettings settings connectors ports⟩ as
    refine leftBehind_of_unattended hj (attended_ofSettings settings connectors ports j)
      fun ha => ?_
    have hnot := not_queued_of_attended hline hsettled hstarted hheld hj ha
    rw [hq] at hnot
    cases hnot
  · rintro ⟨bs, a, cs, rfl, -, hsince⟩
    exact hsince cs (List.prefix_refl cs)
  · exact queued_of_strands (hneeds hstrands.2.2.1) hstrands hcs

end Runs

def restless : Connector Script :=
  .make "VGA-1" (some .crt) .unset false
    { answers := [], interrupt := ⟨.ofList [.crt], ∅⟩, raises := 1 }

/-- The probe runs while a shutdown waits for it. -/
def interrupted : List Action :=
  Action.boot ++ [.hold 0, .interrupt ⟨.ofList [.crt], ∅⟩, .move .generic true, .move .generic true,
    .release 0, .shutdown 0, .move .generic true, .move .generic true]

def restarted : List Action :=
  Action.boot ++ [.move .reenable true, .interrupt ⟨.ofList [.crt], ∅⟩]

/-- The pulse that arrived during the shutdown is never looked at. -/
theorem restarted_unprobed :
    let s := (ofSettings {} [restless] fun _ => none).run (interrupted ++ .resume 0 :: restarted)
    s.AtRest ∧ s.started = true ∧ s.mode.holder = none ∧ s.generic.pending = true := by
  decide +kernel

theorem queued_iff_leftBehind_restarted :
    let s := ofSettings {} [restless] fun _ => none
    s.LeftBehind .generic (interrupted ++ .resume 0 :: restarted) ∧
      (((s.run interrupted).act (.resume 0)).run restarted).queued .generic = true := by
  intro s
  constructor
  · exact ((queued_iff_leftBehind {} [restless] (fun _ => none)
      (interrupted ++ .resume 0 :: restarted) .generic).1 (by decide +kernel) (by decide +kernel)
      (by decide +kernel)).mp (by decide +kernel)
  · exact (queued_iff_leftBehind {} [restless] (fun _ => none) interrupted .generic).2 (.resume 0)
      restarted (by decide +kernel) (by decide)

end Controller

end HotplugDetect
