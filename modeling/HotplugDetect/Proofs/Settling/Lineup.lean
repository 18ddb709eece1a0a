import HotplugDetect.Proofs.Quiet.Exhausted

/-! # The line of the workers

Between two turns exactly the workers that can move stand in the line. A worker that becomes able to
move joins it, and none becomes unable to while somebody else acts.
-/

namespace HotplugDetect

variable {ρ : Type}

section Lanes

variable {β : Type} {now : Nat} {ready : β → Bool}

theorem Lane.canMove_notify {l : Lane β} (h : l.canMove now ready = true) :
    l.notify.canMove now ready = true := by
  rcases l with ⟨permit, run, _ | _ | ⟨u, _ | _⟩ | _ | rest⟩
  case some.parked.false => rfl
  all_goals exact h

theorem Lane.not_claiming_notify {l : Lane β} (h : l.worker ≠ some .claiming) :
    l.notify.worker ≠ some .claiming := by
  rcases l with ⟨permit, run, _ | _ | ⟨u, _ | _⟩ | _ | rest⟩
  case some.claiming => exact absurd rfl h
  all_goals exact nofun

theorem Lane.canMove_start {l : Lane β} (h : l.canMove now ready = true) :
    l.start.canMove now ready = true := by
  rcases l with ⟨permit, run, _ | station⟩
  · cases h
  · exact h

theorem Lane.canMove_run {l : Lane β} (h : l.worker ≠ some .claiming) (run : Lock Claimant) :
    ({ l with run } : Lane β).canMove now ready = l.canMove now ready := by
  rcases l with ⟨permit, old, _ | _ | ⟨u, notified⟩ | _ | rest⟩
  case some.claiming => exact absurd rfl h
  all_goals rfl

theorem Lane.canMove_of_not_ready {l : Lane β} (h : l.canMove now (fun _ => false) = true) :
    l.canMove now ready = true := by
  rcases l with ⟨permit, run, _ | _ | ⟨u, notified⟩ | _ | rest⟩
  case some.running => cases h
  all_goals exact h

theorem Work.canMove_queue {w : Work β} (h : w.canMove now ready = true) :
    w.queue.1.canMove now ready = true := by
  unfold queue
  split
  · exact h
  · exact Lane.canMove_notify h

theorem Lane.Patient.canMove_eq {l : Lane β} (h : l.Patient) (now' : Nat) :
    l.canMove now' ready = l.canMove now ready := by
  rcases l with ⟨permit, run, _ | _ | ⟨_ | u, notified⟩ | _ | rest⟩
  case some.parked.some => cases h
  all_goals rfl

theorem Lock.heldBy_request_of_ne {l : Lock ModeParty} {p q : ModeParty} (h : q ≠ p) :
    (l.request p).heldBy q = l.heldBy q := by
  unfold request heldBy
  split
  · rename_i hfree
    simp [hfree, h.symm]
  · rename_i hheld
    simp [hheld]

end Lanes

def ModeParty.job? : ModeParty → Option Job
  | generic => some .generic
  | pollInit => some .pollInit
  | outside _ => none

namespace Controller

/-- The worker of the job stands in the line just if it can move. -/
def Aligned (s : Controller ρ) (j : Job) : Prop := j ∈ s.ready ↔ s.canMove j = true

structure SameLine (s t : Controller ρ) : Prop where

  ready : t.ready = s.ready

  moves (j : Job) : t.canMove j = s.canMove j

variable {s t : Controller ρ} {j k : Job}

theorem SameLine.trans {u : Controller ρ} (h : s.SameLine t) (h' : t.SameLine u) : s.SameLine u :=
  ⟨h'.ready.trans h.ready, fun j => (h'.moves j).trans (h.moves j)⟩

theorem SameLine.aligned (h : s.SameLine t) (hs : s.Aligned j) : t.Aligned j := by
  unfold Aligned
  rw [h.ready, h.moves]
  exact hs

theorem canMove_rouse (s : Controller ρ) (j k : Job) : (s.rouse j).canMove k = s.canMove k := by
  obtain ⟨line, hline⟩ := s.rouse_eq j
  rw [hline]
  rfl

theorem aligned_rouse_self (h : j ∈ s.ready → s.canMove j = true) : (s.rouse j).Aligned j := by
  unfold Aligned
  rw [canMove_rouse]
  unfold rouse
  split
  · rename_i hmove
    simp [hmove.1]
  · rename_i hmove
    constructor
    · exact h
    · intro hcan
      by_contra hout
      exact hmove ⟨hcan, hout⟩

/-- Nobody is called in vain. -/
theorem canMove_of_mem_rouse (h : k ∈ s.ready → s.canMove k = true) (hin : k ∈ (s.rouse j).ready) :
    (s.rouse j).canMove k = true := by
  rw [canMove_rouse]
  unfold rouse at hin
  split at hin
  · rename_i hmove
    rcases List.mem_append.mp hin with hin | hin
    · exact h hin
    · rw [List.mem_singleton.mp hin]
      exact hmove.1
  · exact h hin

theorem aligned_rouse (h : s.Aligned k) (j : Job) : (s.rouse j).Aligned k := by
  by_cases he : k = j
  · subst he
    exact aligned_rouse_self h.mp
  · unfold Aligned
    rw [canMove_rouse]
    unfold rouse
    split
    · simp only [List.mem_append, List.mem_singleton, he, or_false]
      exact h
    · exact h

section Lanes

theorem canMove_withLane_of_ne (s : Controller ρ) (h : k ≠ j) (f : Lane Rest → Lane Rest) :
    (s.withLane j f).canMove k = s.canMove k := by
  cases j <;> cases k <;> first | rfl | exact absurd rfl h

theorem ready_withLane (s : Controller ρ) (j : Job) (f : Lane Rest → Lane Rest) :
    (s.withLane j f).ready = s.ready := by
  cases j <;> rfl

theorem aligned_withLane_of_ne (hs : s.Aligned k) (h : k ≠ j) (f : Lane Rest → Lane Rest) :
    (s.withLane j f).Aligned k := by
  unfold Aligned
  rw [ready_withLane, canMove_withLane_of_ne s h]
  exact hs

theorem aligned_queueDigital (hs : s.Aligned k) : s.queueDigital.Aligned k := by
  unfold queueDigital
  cases k with
  | digital => exact aligned_rouse_self fun hin => Work.canMove_queue (hs.mp hin)
  | _ => exact aligned_rouse (s := { s with digital := s.digital.queue.1 }) hs _

theorem aligned_queueGeneric (hs : s.Aligned k) : s.queueGeneric.Aligned k := by
  unfold queueGeneric
  cases k with
  | generic => exact aligned_rouse_self fun hin => Work.canMove_queue (hs.mp hin)
  | _ => exact aligned_rouse (s := { s with generic := s.generic.queue.1 }) hs _

theorem aligned_queuePollInit (hs : s.Aligned k) : s.queuePollInit.Aligned k := by
  unfold queuePollInit
  cases k with
  | pollInit => exact aligned_rouse_self fun hin => Work.canMove_queue (hs.mp hin)
  | _ => exact aligned_rouse (s := { s with pollInit := s.pollInit.queue.1 }) hs _

theorem aligned_scheduleReenable (hs : s.Aligned k) : s.scheduleReenable.Aligned k := by
  unfold scheduleReenable
  cases k with
  | reenable => exact aligned_rouse_self fun hin => Lane.canMove_notify (hs.mp hin)
  | _ =>
    exact aligned_rouse (s := { s with reenable := s.reenable.schedule _ }) hs _

end Lanes

section Mode

theorem canMove_withMode {mode : Lock ModeParty}
    (hgeneric : k = .generic → mode.heldBy .generic = s.mode.heldBy .generic)
    (hpollInit : k = .pollInit → mode.heldBy .pollInit = s.mode.heldBy .pollInit) :
    ({ s with mode } : Controller ρ).canMove k = s.canMove k := by
  cases k with
  | generic => simp only [canMove, hgeneric]
  | pollInit => simp only [canMove, hpollInit]
  | _ => rfl

theorem aligned_requestMode (hs : s.Aligned k) {q : ModeParty} (hq : q.job? ≠ some k) :
    (s.requestMode q).Aligned k := by
  have hmoves : (s.requestMode q).canMove k = s.canMove k := by
    refine canMove_withMode ?_ ?_
    · rintro rfl
      exact Lock.heldBy_request_of_ne fun he => hq (he ▸ rfl)
    · rintro rfl
      exact Lock.heldBy_request_of_ne fun he => hq (he ▸ rfl)
  unfold Aligned
  rw [hmoves]
  exact hs

theorem canMove_of_heldBy {q : ModeParty} (hheld : s.mode.heldBy q = true) (hq : q.job? ≠ some k)
    (h : s.canMove k = true) (mode : Lock ModeParty) :
    ({ s with mode } : Controller ρ).canMove k = true := by
  have hother {r : ModeParty} (hr : r.job? = some k) : s.mode.heldBy r = false := by
    rw [← Bool.not_eq_true]
    intro hheld'
    rw [Lock.heldBy_iff] at hheld hheld'
    cases hheld.symm.trans hheld'
    exact hq hr
  cases k with
  | generic =>
    rw [canMove, hother rfl] at h
    exact Lane.canMove_of_not_ready h
  | pollInit =>
    rw [canMove, hother rfl] at h
    exact Lane.canMove_of_not_ready h
  | _ => exact h

theorem aligned_releaseMode {q : ModeParty} (hheld : s.mode.heldBy q = true)
    (hq : q.job? ≠ some k) (hs : s.Aligned k) : s.releaseMode.Aligned k := by
  have hmoves (h : k ∈ s.ready) :
      ({ s with mode := s.mode.release } : Controller ρ).canMove k = true :=
    canMove_of_heldBy hheld hq (hs.mp h) _
  unfold releaseMode
  cases k with
  | generic => exact aligned_rouse (aligned_rouse_self hmoves) _
  | pollInit => exact aligned_rouse_self (canMove_of_mem_rouse hmoves)
  | _ => exact aligned_rouse (aligned_rouse (s := { s with mode := s.mode.release }) hs _) _

end Mode

section Interrupts

theorem sameLine_judge (s : Controller ρ) (p : Pin) (digital long : Bool) (d : Demand) :
    s.SameLine (s.judge p digital long d).1 := by
  have hdetect (t : Controller ρ) (d : Demand) : t.SameLine (t.detectStorm p long d).1 := by
    unfold detectStorm
    split <;> exact ⟨rfl, fun _ => rfl⟩
  unfold judge
  split
  · exact ⟨rfl, fun _ => rfl⟩
  · exact ⟨rfl, fun _ => rfl⟩
  · split
    · exact hdetect s d
    · have hrecorded : s.SameLine { s with eventPins := s.eventPins.insert p } :=
        ⟨rfl, fun _ => rfl⟩
      exact hrecorded.trans (hdetect _ _)

theorem sameLine_receiveAll (long : PinSet) (ps : List Pin) (s : Controller ρ) (d : Demand) :
    s.SameLine (s.receiveAll long d ps).1 := by
  induction ps generalizing s d with
  | nil => exact ⟨rfl, fun _ => rfl⟩
  | cons p ps ih =>
    have hreceived : s.SameLine (s.receive long p d).1 := by
      unfold receive
      split
      · refine SameLine.trans ?_ (sameLine_judge _ p true _ _)
        unfold keepPulse
        split <;> exact ⟨rfl, fun _ => rfl⟩
      · exact s.sameLine_judge p false true d
    exact hreceived.trans (ih _ _)

theorem sameLine_setupIrqs (s : Controller ρ) : s.SameLine s.setupIrqs := by
  unfold setupIrqs
  split <;> exact ⟨rfl, fun _ => rfl⟩

theorem aligned_answer (hs : s.Aligned k) (d : Demand) : (s.answer d).Aligned k := by
  have hsetup : (if d.storm then s.setupIrqs else s).Aligned k := by
    split
    · exact s.sameLine_setupIrqs.aligned hs
    · exact hs
  have hdigital {t : Controller ρ} (ht : t.Aligned k) :
      (if d.digital then t.queueDigital else t).Aligned k := by
    split
    · exact aligned_queueDigital ht
    · exact ht
  unfold answer
  simp only
  split
  · exact aligned_queueGeneric (hdigital hsetup)
  · exact hdigital hsetup

theorem aligned_interrupt (hs : s.Aligned k) (i : Interrupt) : (s.interrupt i).Aligned k :=
  aligned_answer ((s.sameLine_receiveAll i.long i.fired.toList {}).aligned hs) _

end Interrupts

section Passes

theorem aligned_moved (h : k ≠ j → s.Aligned k) :
    ({ s with ready := (if s.canMove j then [j] else []) ++ s.ready.filter (· ≠ j) } :
      Controller ρ).Aligned k := by
  show k ∈ (if s.canMove j then [j] else []) ++ s.ready.filter (· ≠ j) ↔ s.canMove k = true
  by_cases he : k = j
  · subst he
    cases s.canMove k <;> simp
  · have hiff := h he
    unfold Aligned at hiff
    rw [← hiff]
    cases s.canMove j <;> simp [he]

theorem aligned_deliver (hs : s.Aligned k) (long short : PortSet) (refused : PinSet)
    (ports : List Port) : (s.deliver long short refused ports).1.Aligned k :=
  deliver_induction (P := fun t => t.Aligned k) (fun _ _ ht => ht) (fun _ _ _ _ ht => ht)
    (fun _ i ht => aligned_interrupt ht i) long short refused ports s hs

theorem aligned_fallBack (hs : s.Aligned k) (refused : PinSet) :
    (s.fallBack refused).Aligned k := by
  unfold fallBack
  split
  · exact hs
  · exact aligned_queueGeneric (s := { s with eventPins := s.eventPins ∪ refused }) hs

theorem sameLine_reenablePass (s : Controller ρ) : s.SameLine s.reenablePass := by
  obtain ⟨connectors, table, trace, h⟩ := s.reenablePass_eq
  rw [h]
  exact ⟨rfl, fun _ => rfl⟩

theorem aligned_takeEvents (hs : s.Aligned k) : s.takeEvents.1.Aligned k := by
  unfold takeEvents
  simp only
  split
  · exact hs
  · refine aligned_scheduleReenable (SameLine.aligned ?_ hs)
    obtain ⟨trace, h⟩ := mitigate_eq ({ s.note .encoders with eventPins := ∅ } : Controller ρ)
    rw [h]
    exact ⟨rfl, fun _ => rfl⟩

theorem aligned_pollInitPass (hs : s.Aligned k) (hheld : s.mode.heldBy .pollInit = true)
    (hk : k ≠ .pollInit) (disabled : PinSet) : (s.pollInitPass disabled).Aligned k := by
  have hreleased {t : Controller ρ} (ht : s.SameLine t) (hmode : t.mode = s.mode) :
      t.releaseMode.Aligned k :=
    aligned_releaseMode (q := .pollInit) (by rw [hmode]; exact hheld)
      (fun he => hk (Option.some.inj he).symm) (ht.aligned hs)
  simp only [pollInitPass_closed, noteAll_eq]
  split <;> split
  all_goals exact hreleased ⟨rfl, fun _ => rfl⟩ rfl

theorem aligned_moveDigital (hs : s.Aligned k) (hk : k ≠ .digital) : s.moveDigital.Aligned k := by
  have hlane (w : Work Rest) : ({ s with digital := w } : Controller ρ).Aligned k := by
    cases k with
    | digital => exact absurd rfl hk
    | _ => exact hs
  unfold moveDigital
  split
  · split
    · exact aligned_withLane_of_ne (aligned_deliver hs _ _ ∅ Port.all) hk _
    · exact aligned_withLane_of_ne (aligned_fallBack hs _) hk _
  · split
    · exact hlane _
    · rename_i w _
      have htaken : ({ s with digital := w } : Controller ρ).takePulses.1.Aligned k := hlane w
      exact aligned_withLane_of_ne htaken hk _

theorem aligned_movePollInit (hs : s.Aligned k) (hk : k ≠ .pollInit) :
    s.movePollInit.Aligned k := by
  have hlane (w : Work Rest) : ({ s with pollInit := w } : Controller ρ).Aligned k := by
    cases k with
    | pollInit => exact absurd rfl hk
    | _ => exact hs
  unfold movePollInit
  split
  · split
    · rename_i hheld
      exact aligned_withLane_of_ne (aligned_pollInitPass hs hheld hk _) hk _
    · exact hs
  · split
    · exact hlane _
    · exact aligned_requestMode (aligned_withLane_of_ne (hlane _) hk _)
        fun he => hk (Option.some.inj he).symm

theorem aligned_moveReenable (hs : s.Aligned k) (hk : k ≠ .reenable) (timerFirst : Bool) :
    (s.moveReenable timerFirst).Aligned k := by
  have hlane (w : DelayedWork Rest) : ({ s with reenable := w } : Controller ρ).Aligned k := by
    cases k with
    | reenable => exact absurd rfl hk
    | _ => exact hs
  unfold moveReenable
  split
  · exact hlane _
  · refine aligned_withLane_of_ne ((sameLine_reenablePass _).aligned ?_) hk _
    exact aligned_withLane_of_ne (hlane _) hk _

end Passes

section Moves

variable [Probe ρ]

theorem aligned_probePass (hs : s.Aligned k) (hheld : s.mode.heldBy .generic = true)
    (hk : k ≠ .generic) (pins : PinSet) : (s.probePass pins).Aligned k := by
  have hprobed : (s.probeAll pins s.connectors).1.Aligned k :=
    probeAll_induction (P := fun t => t.Aligned k) (fun _ _ h => h)
      (fun _ i h => aligned_interrupt h i) pins _ s hs
  have hmode : (s.probeAll pins s.connectors).1.mode = s.mode :=
    (running_probeAll pins s.connectors).2
  unfold probePass
  generalize s.probeAll pins s.connectors = r at hprobed hmode
  have hreleased : ({ r.1 with connectors := r.2.1 } : Controller ρ).releaseMode.Aligned k :=
    aligned_releaseMode (q := .generic) (by rw [hmode]; exact hheld)
      (fun he => hk (Option.some.inj he).symm) hprobed
  simp only
  split
  · exact hreleased
  · exact hreleased

theorem aligned_moveGeneric (hs : s.Aligned k) (hk : k ≠ .generic) : s.moveGeneric.Aligned k := by
  have hlane (w : Work Rest) : ({ s with generic := w } : Controller ρ).Aligned k := by
    cases k with
    | generic => exact absurd rfl hk
    | _ => exact hs
  unfold moveGeneric
  split
  · split
    · rename_i hheld
      exact aligned_withLane_of_ne (aligned_probePass hs hheld hk _) hk _
    · exact hs
  · split
    · exact hlane _
    · exact aligned_requestMode (aligned_withLane_of_ne (aligned_takeEvents (hlane _)) hk _)
        fun he => hk (Option.some.inj he).symm

/-- After a move everybody stands in the line who can move, and nobody else. -/
theorem aligned_move (hs : ∀ k, s.Aligned k) (j : Job) (timerFirst : Bool) (k : Job) :
    (s.move j timerFirst).Aligned k := by
  cases j with
  | digital => exact aligned_moved fun hk => aligned_moveDigital (hs k) hk
  | generic => exact aligned_moved fun hk => aligned_moveGeneric (hs k) hk
  | pollInit => exact aligned_moved fun hk => aligned_movePollInit (hs k) hk
  | reenable => exact aligned_moved fun hk => aligned_moveReenable (hs k) hk timerFirst

end Moves

section Operations

theorem aligned_init (hs : s.Aligned k) : s.init.Aligned k := by
  have hreset : s.SameLine { s with table := s.table.reset, pollForced := false } :=
    ⟨rfl, fun _ => rfl⟩
  exact (sameLine_setupIrqs _).aligned (aligned_queuePollInit (hreset.aligned hs))

theorem aligned_forcePolling (hs : s.Aligned k) (on : Bool) : (s.forcePolling on).Aligned k := by
  have hforced : s.SameLine { s with pollForced := on } := ⟨rfl, fun _ => rfl⟩
  exact aligned_queuePollInit (hforced.aligned hs)

theorem aligned_raw (hs : s.Aligned k) (pinMask longMask : UInt32) :
    (s.raw pinMask longMask).Aligned k := by
  unfold raw
  simp only
  split
  · exact aligned_interrupt hs _
  · exact aligned_interrupt (s := s.note _) hs _

theorem aligned_advance (hc : s.backlog.Composed) (hs : s.Aligned k) (instant : Nat) :
    (s.advance instant).Aligned k := by
  have hlater (hk : k ≠ .reenable) :
      ({ s with now := max s.now instant } : Controller ρ).canMove k = s.canMove k := by
    cases k with
    | digital => exact hc.digital.canMove_eq _
    | generic => exact hc.generic.canMove_eq _
    | pollInit => exact hc.pollInit.canMove_eq _
    | reenable => exact absurd rfl hk
  unfold advance
  by_cases hk : k = .reenable
  · subst hk
    exact aligned_rouse_self fun hin => Lane.canMove_later (Nat.le_max_left _ _) (hs.mp hin)
  · refine aligned_rouse ?_ _
    unfold Aligned
    rw [hlater hk]
    exact hs

theorem aligned_withRun (hs : s.Aligned k) (hw : (s.lane j).worker ≠ some .claiming)
    (run : Lock Claimant → Lock Claimant) :
    (s.withLane j fun l => { l with run := run l.run }).Aligned k := by
  by_cases hk : k = j
  · subst hk
    have hmoves : (s.withLane k fun l => { l with run := run l.run }).canMove k = s.canMove k := by
      cases k <;> exact Lane.canMove_run hw _
    unfold Aligned
    rw [ready_withLane, hmoves]
    exact hs
  · exact aligned_withLane_of_ne hs hk _

theorem aligned_disarm (hs : s.Aligned k) (j : Job) : (s.disarm j).Aligned k := by
  cases j with
  | reenable =>
    show ({ s with reenable := s.reenable.disarm }.rouse .reenable).Aligned k
    cases k with
    | reenable => exact aligned_rouse_self fun hin => Lane.canMove_notify (hs.mp hin)
    | _ => exact aligned_rouse (s := { s with reenable := s.reenable.disarm }) hs _
  | _ => cases k <;> exact hs

theorem aligned_recoverNow (hs : s.Aligned k) (hw : s.reenable.worker ≠ some .claiming) :
    s.recoverNow.Aligned k := by
  have hdisarmed := aligned_disarm hs .reenable
  have hpassed : (if s.reenable.armed then (s.disarm .reenable).reenablePass
      else s.disarm .reenable).Aligned k := by
    split
    · exact (sameLine_reenablePass _).aligned hdisarmed
    · exact hdisarmed
  have hbacklog : (if s.reenable.armed then (s.disarm .reenable).reenablePass
      else s.disarm .reenable).backlog =
        { s.backlog with reenable := s.backlog.reenable.disarm } := by
    split
    · rw [backlog_reenablePass, backlog_disarm]
      rfl
    · rw [backlog_disarm]
      rfl
  unfold recoverNow
  simp only
  generalize (if s.reenable.armed then _ else _) = t at hpassed hbacklog
  have hidle : t.reenable.worker ≠ some .claiming := by
    rw [show t.reenable = s.reenable.disarm from congrArg Backlog.reenable hbacklog]
    exact Lane.not_claiming_notify hw
  exact aligned_rouse (aligned_withRun hpassed (j := .reenable) hidle Lock.release) _

theorem aligned_flush (hs : s.Aligned k) (hw : s.reenable.worker ≠ some .claiming) (client : Nat) :
    (s.flush client).Aligned k := by
  have hasked : (s.requestRun .reenable client).Aligned k :=
    aligned_withRun hs (j := .reenable) hw fun run => run.request (.client client)
  unfold flush
  simp only
  split
  · exact aligned_recoverNow hasked hw
  · exact hasked

theorem aligned_configure (hs : s.Aligned k) (hw : s.reenable.worker ≠ some .claiming)
    (client : Nat) (config : StormConfig) : (s.configure client config).Aligned k := by
  have hset : s.SameLine { s with table := { s.table with config }.clearCounts } :=
    ⟨rfl, fun _ => rfl⟩
  exact aligned_flush (hset.aligned hs) hw client

theorem canMove_withLane_start (s : Controller ρ) (h : s.canMove k = true) :
    (s.withLane k Lane.start).canMove k = true := by
  cases k with
  | digital => exact Lane.canMove_start (l := s.digital.toLane) h
  | generic => exact Lane.canMove_start (l := s.generic.toLane) h
  | pollInit => exact Lane.canMove_start (l := s.pollInit.toLane) h
  | reenable => exact Lane.canMove_start (l := s.reenable.toLane) h

theorem aligned_startWorkers (js : List Job) (hs : s.Aligned k) :
    (js.foldl (fun s j => (s.withLane j Lane.start).rouse j) s).Aligned k := by
  induction js generalizing s with
  | nil => exact hs
  | cons j js ih =>
    refine ih ?_
    by_cases hk : k = j
    · subst hk
      refine aligned_rouse_self fun hin => s.canMove_withLane_start ?_
      rw [ready_withLane] at hin
      exact hs.mp hin
    · exact aligned_rouse (aligned_withLane_of_ne hs hk _) _

end Operations

end Controller

end HotplugDetect
