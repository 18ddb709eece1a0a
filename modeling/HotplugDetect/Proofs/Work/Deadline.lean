import Mathlib.Data.List.Infix
import HotplugDetect.Proofs.Work.Alarm
import HotplugDetect.Proofs.Work.Unrest

/-! # Deadlines are met

A run starts when the deadline has come, and the deadline is then used up. In virtual time the clock
stops wherever the worker can go on, so that it passes an armed deadline only while somebody has the
run lock.
-/

namespace HotplugDetect

namespace DelayedBench

def Starts (b : DelayedBench) (a : Action) : Prop :=
  ∃ stop, (b.act a).runs = { start := b.now, stop } :: b.runs

/-- A client replaces the deadline, cancels it, or takes the item over. -/
inductive Displaces (b : DelayedBench) : Action → Prop

  | replaced (delay : Nat) : Displaces b (.schedule delay)

  | cancelled {client : Nat} : b.busy client = false → Displaces b (.cancel client)

  | taken {client : Nat} : b.busy client = false →
      (b.requestRun client).holdsRun client = true → Displaces b (.take client)

  /-- The client had to wait for the lock. -/
  | takenAfterwards {client : Nat} : b.visits.lookup client = some .taking →
      b.holdsRun client = true → Displaces b (.resume client)

/-- Neither a client nor a run in flight has the run lock. -/
def Vacant (b : DelayedBench) : Prop :=
  (∀ client, b.holdsRun client = false) ∧ b.work.rest? = none

/-- The clock goes on only while the worker waits, and it stops at the next alarm. -/
def onTime (b : DelayedBench) : Action → Bool
  | .advance instant => !b.canMove && b.alarm?.all (instant ≤ ·)
  | _ => true

def Punctual (b : DelayedBench) : List Action → Bool
  | [] => true
  | a :: as => b.onTime a && (b.act a).Punctual as

def Action.isMove : Action → Bool
  | .move _ _ => true
  | _ => false

section Deadlines

variable {b : DelayedBench} {a : Action} {d : Nat}

theorem act_cases (ha : a.isMove = false) :
    (∃ instant, a = .advance instant) ∨
      (∃ run visits, b.act a = { b with work := { b.work with run }, visits }) ∨
        b.Displaces a ∧ ∃ run deadline visits, b.act a =
          { b with work := { toLane := { b.work.toLane.notify with run }, deadline }, visits } := by
  have htaken {client : Nat} {b' : DelayedBench} {run : Lock Claimant}
      (hb : b'.work = { b.work with run }) : ∃ run deadline visits, b'.takeOver client =
        { b' with work := { toLane := { b.work.toLane.notify with run }, deadline }, visits } := by
    unfold takeOver
    simp only [releaseRun, DelayedWork.disarm, hb, Lane.notify_withRun]
    split
    all_goals exact ⟨_, _, _, rfl⟩
  cases a with
  | schedule delay => exact .inr (.inr ⟨.replaced delay, _, _, _, rfl⟩)
  | cancel client =>
    simp only [act]
    unfold cancel
    split
    · exact .inr (.inl ⟨_, _, rfl⟩)
    · rename_i hb
      simp only
      split
      all_goals exact .inr (.inr ⟨.cancelled (Bool.not_eq_true _ ▸ hb), _, _, _, rfl⟩)
  | take client =>
    simp only [act]
    unfold take
    split
    · exact .inr (.inl ⟨_, _, rfl⟩)
    · rename_i hb
      simp only
      split
      · rename_i hh
        exact .inr (.inr ⟨.taken (Bool.not_eq_true _ ▸ hb) hh, htaken rfl⟩)
      · exact .inr (.inl ⟨_, _, rfl⟩)
  | resume client =>
    simp only [act]
    unfold resume
    split
    · rename_i hh
      split
      · exact .inr (.inl ⟨_, _, rfl⟩)
      · rename_i hv
        exact .inr (.inr ⟨.takenAfterwards hv hh, htaken rfl⟩)
      · exact .inr (.inl ⟨_, _, rfl⟩)
    · exact .inr (.inl ⟨_, _, rfl⟩)
  | giveBack client =>
    simp only [act]
    unfold giveBack
    split
    all_goals exact .inr (.inl ⟨_, _, rfl⟩)
  | move length timerFirst => cases ha
  | advance instant => exact .inl ⟨instant, rfl⟩

theorem idle_act (hw : b.work.worker = some .idle) (ha : a.isMove = false) :
    (b.act a).work.worker = some .idle ∧ ((b.act a).work.permit = true ∨
      (b.act a).work.permit = b.work.permit ∧ (b.act a).work.deadline = b.work.deadline) := by
  rcases act_cases (b := b) ha with ⟨instant, rfl⟩ | ⟨run, visits, h⟩ | ⟨-, run, e, visits, h⟩
  · exact ⟨hw, .inr ⟨rfl, rfl⟩⟩
  · rw [h]
    exact ⟨hw, .inr ⟨rfl, rfl⟩⟩
  · simp [h, Lane.notify, hw]

/-- An idle worker is about to read the deadline and to wait. Whatever displaces the deadline in
between leaves a notification behind. -/
theorem noticed_run {e : Option Nat} (hw : b.work.worker = some .idle)
    (h : b.work.permit = true ∨ b.work.deadline = e) {as : List Action}
    (has : ∀ a ∈ as, a.isMove = false) :
    (b.run as).work.permit = true ∨ (b.run as).work.deadline = e := by
  induction as generalizing b with
  | nil => exact h
  | cons a as ih =>
    obtain ⟨hidle, hstep⟩ := idle_act hw (has a List.mem_cons_self)
    refine ih hidle ?_ fun x hx => has x (List.mem_cons_of_mem a hx)
    rcases hstep with hpermit | ⟨hpermit, hdeadline⟩
    · exact .inl hpermit
    · rwa [hpermit, hdeadline]

theorem move_cases (b : DelayedBench) (length : Nat) (timerFirst : Bool) :
    (∃ w, b.work.seek b.now timerFirst = (w, .looking) ∧
        b.act (.move length timerFirst) = { b with work := w }) ∨
      (∃ w, b.work.seek b.now timerFirst = (w, .claimed) ∧
        b.act (.move length timerFirst) = ({ b with work := w } : DelayedBench).beginRun length) ∨
      ∃ stop, b.work.worker = some (.running stop) ∧ stop ≤ b.now ∧
        b.act (.move length timerFirst) = b.endRun := by
  simp only [act]
  unfold move
  split
  · rename_i stop hw
    split
    · rename_i hstop
      exact .inr (.inr ⟨stop, hw, hstop, rfl⟩)
    · refine .inl ⟨b.work, ?_, rfl⟩
      simp [DelayedWork.seek, hw]
  · split
    · rename_i w hs
      exact .inr (.inl ⟨w, hs, rfl⟩)
    · rename_i w hs
      exact .inl ⟨w, hs, rfl⟩

theorem runs_beginRun (b : DelayedBench) (length : Nat) :
    ∃ stop, (b.beginRun length).runs = { start := b.now, stop } :: b.runs := by
  unfold beginRun
  simp only
  split
  · exact ⟨some b.now, rfl⟩
  · exact ⟨none, rfl⟩

@[simp] theorem deadline_beginRun (b : DelayedBench) (length : Nat) :
    (b.beginRun length).work.deadline = b.work.deadline := by
  unfold beginRun
  simp only
  split <;> rfl

@[simp] theorem now_beginRun (b : DelayedBench) (length : Nat) :
    (b.beginRun length).now = b.now := by
  unfold beginRun
  simp only
  split <;> rfl

/-- A run starts only when the deadline has come, and uses the deadline up. -/
theorem due_of_starts (h : b.Starts a) :
    (∃ d, b.work.deadline = some d ∧ d ≤ b.now) ∧ (b.act a).work.deadline = none := by
  obtain ⟨stop, hruns⟩ := h
  have hnot (hb : (b.act a).runs.length = b.runs.length) : False := by
    simp [hruns] at hb
  by_cases ha : a.isMove = false
  · refine (hnot ?_).elim
    rcases act_cases (b := b) ha with ⟨instant, rfl⟩ | ⟨run, visits, h⟩ | ⟨-, run, e, visits, h⟩
    · rfl
    · rw [h]
    · rw [h]
  · cases a with
    | move length timerFirst =>
      rcases b.move_cases length timerFirst with ⟨w, -, h⟩ | ⟨w, hs, h⟩ | ⟨stop, -, -, h⟩
      · exact (hnot (by rw [h])).elim
      · obtain ⟨-, hdue, rfl⟩ := DelayedWork.seek_claimed hs
        exact ⟨(b.work.due_iff b.now).mp hdue, by rw [h, deadline_beginRun]⟩
      · refine (hnot ?_).elim
        rw [h]
        unfold endRun RunRecord.close
        cases b.runs <;> rfl
    | _ => exact (ha rfl).elim

theorem deadline_act (hd : b.work.deadline = some d) (a : Action) :
    (b.act a).work.deadline = some d ∨ b.Starts a ∨ b.Displaces a := by
  by_cases ha : a.isMove = false
  · rcases act_cases (b := b) ha with ⟨instant, rfl⟩ | ⟨run, visits, h⟩ | ⟨hdis, -⟩
    · exact .inl hd
    · left
      rw [h]
      exact hd
    · exact .inr (.inr hdis)
  · cases a with
    | move length timerFirst =>
      rcases b.move_cases length timerFirst with ⟨w, hs, h⟩ | ⟨w, -, h⟩ | ⟨stop, -, -, h⟩
      · left
        rw [h]
        exact (DelayedWork.deadline_seek hs).trans hd
      · refine .inr (.inl ?_)
        rw [Starts, h]
        exact runs_beginRun _ _
      · left
        rw [h]
        exact hd
    | _ => exact (ha rfl).elim

theorem now_act (a : Action) : (b.act a).now = b.now ∨
    ∃ instant, a = .advance instant ∧ (b.act a).now = max b.now instant := by
  by_cases ha : a.isMove = false
  · rcases act_cases (b := b) ha with ⟨instant, rfl⟩ | ⟨run, visits, h⟩ | ⟨-, run, e, visits, h⟩
    · exact .inr ⟨instant, rfl, rfl⟩
    · exact .inl (by rw [h])
    · exact .inl (by rw [h])
  · cases a with
    | move length timerFirst =>
      rcases b.move_cases length timerFirst with ⟨w, -, h⟩ | ⟨w, -, h⟩ | ⟨stop, -, -, h⟩
      · exact .inl (by rw [h])
      · exact .inl (by rw [h, now_beginRun])
      · exact .inl (by rw [h]; rfl)
    | _ => exact (ha rfl).elim

end Deadlines

section Vacancy

variable {b : DelayedBench} {a : Action} {d : Nat}

/-- With nobody else at the lock, the worker waits for the deadline at most. -/
theorem Regular.waits_of_vacant (h : b.Regular) (hv : b.Vacant) :
    b.canMove = true ∨ b.work.worker = some (.parked b.work.deadline false) := by
  obtain ⟨ids, hl⟩ := h.lined
  have hplaced := hl.placed
  cases hw : b.work.worker with
  | none => exact absurd hw h.present
  | some place =>
    cases place with
    | idle => exact .inl (by simp [canMove, Lane.canMove, hw])
    | parked u notified =>
      cases notified with
      | true => exact .inl (by simp [canMove, Lane.canMove, hw])
      | false =>
        obtain rfl := h.alarm u hw
        exact .inr rfl
    | claiming =>
      rw [Lane.Placed, hw] at hplaced
      cases hholder : b.work.run.holder with
      | none =>
        rw [hl.orderly.line_eq_nil.mpr hholder] at hplaced
        cases hplaced
      | some holder =>
        cases holder with
        | worker => exact .inl (by simp [canMove, Lane.canMove, hw, Lock.heldBy, hholder])
        | client id =>
          have hnot := hv.1 id
          simp [holdsRun, Lock.heldBy, hholder] at hnot
    | running stop =>
      have hrest := hv.2
      rw [Lane.rest?_eq_some_iff.mpr hw] at hrest
      cases hrest

/-- The clock does not pass an armed deadline while nobody else is at the lock. -/
theorem Regular.le_of_onTime (h : b.Regular) (hv : b.Vacant) (hd : b.work.deadline = some d)
    {instant : Nat} (ht : b.onTime (.advance instant) = true) : b.now < d ∧ instant ≤ d := by
  simp only [onTime, Bool.and_eq_true, Bool.not_eq_true'] at ht
  obtain ⟨hm, halarm⟩ := ht
  rcases h.waits_of_vacant hv with hm' | hw
  · rw [hm] at hm'
    cases hm'
  · rw [hd] at hw
    constructor
    · simpa [canMove, Lane.canMove, hw] using hm
    · simpa [alarm?, Lane.alarm?, hw] using halarm

theorem Vacant.of_run (hv : b.Vacant) {b' : DelayedBench} (hw : b'.work.rest? = none)
    (hrun : b'.work.run = b.work.run ∨ b'.work.run = b.work.run.request .worker) : b'.Vacant := by
  refine ⟨fun client => ?_, hw⟩
  have hfree := hv.1 client
  rw [holdsRun] at hfree ⊢
  rcases hrun with hrun | hrun
  · rw [hrun, hfree]
  · rw [hrun]
    unfold Lock.request
    split
    · rfl
    · exact hfree

theorem Regular.canMove_of_due (h : b.Regular) (hv : b.Vacant) (hd : b.work.deadline = some d)
    (hle : d ≤ b.now) : b.work.canMove b.now (fun _ => true) = true := by
  rcases h.waits_of_vacant hv with hm | hw
  · rw [canMove, Lane.canMove] at hm
    rw [Lane.canMove]
    split at hm <;> simp_all
  · simp [Lane.canMove, hw, hd, hle]

/-- Once the deadline has come, nobody gets ahead of the worker without displacing the deadline. -/
theorem Regular.vacant_act (h : b.Regular) (hv : b.Vacant) (hd : b.work.deadline = some d)
    (hle : d ≤ b.now) (hs : ¬b.Starts a) (hdis : ¬b.Displaces a) : (b.act a).Vacant := by
  have hfree (client : Nat) : ¬b.holdsRun client = true := Bool.not_eq_true _ ▸ hv.1 client
  cases a with
  | schedule delay => exact absurd (.replaced delay) hdis
  | cancel client =>
    simp only [DelayedBench.act]
    unfold DelayedBench.cancel
    split
    · exact hv
    · rename_i hb
      exact absurd (.cancelled (Bool.not_eq_true _ ▸ hb)) hdis
  | take client =>
    simp only [DelayedBench.act]
    unfold DelayedBench.take
    split
    · exact hv
    · rename_i hb
      simp only
      split
      · rename_i hh
        exact absurd (.taken (Bool.not_eq_true _ ▸ hb) hh) hdis
      · rename_i hh
        cases hholder : b.work.run.holder with
        | none =>
          exact absurd (b.work.run.heldBy_request_of_free (.client client) hholder) hh
        | some holder =>
          refine ⟨fun c => ?_, hv.2⟩
          have hfree := hv.1 c
          have hasked := b.work.run.holder_request_of_held (.client client) holder hholder
          rw [holdsRun, Lock.heldBy, hholder] at hfree
          rw [holdsRun, Lock.heldBy]
          exact (congrArg (fun x => decide (x = some (.client c))) hasked).trans hfree
  | resume client =>
    simp only [DelayedBench.act]
    unfold DelayedBench.resume
    rw [if_neg (hfree client)]
    exact hv
  | giveBack client =>
    simp only [DelayedBench.act]
    unfold DelayedBench.giveBack
    rw [if_neg fun hc => hfree client (h.holding hc)]
    exact hv
  | move length timerFirst =>
    have hdue := (b.work.due_iff b.now).mpr ⟨d, hd, hle⟩
    rcases b.move_cases length timerFirst with ⟨w, hseek, hact⟩ | ⟨w, -, hact⟩ | ⟨stop, hw, -⟩
    · rw [hact]
      exact hv.of_run ((DelayedWork.rest?_of_seek hseek).trans hv.2)
        (DelayedWork.run_of_looking hseek hdue)
    · refine absurd ?_ hs
      rw [Starts, hact]
      exact runs_beginRun _ _
    · have hrest := hv.2
      rw [Lane.rest?_eq_some_iff.mpr hw] at hrest
      cases hrest
  | advance instant => exact hv

theorem Regular.starts_or_spends (h : b.Regular) (hv : b.Vacant) (hd : b.work.deadline = some d)
    (hle : d ≤ b.now) (ha : a.isMove = true) : b.Starts a ∨
      (b.act a).Vacant ∧ (b.act a).work.deadline = some d ∧ (b.act a).now = b.now ∧
        (b.act a).work.unrest b.now true < b.work.unrest b.now true := by
  by_cases hs : b.Starts a
  · exact .inl hs
  · right
    have hdis : ¬b.Displaces a := by
      intro hdis
      cases hdis <;> cases ha
    have hvacant := h.vacant_act hv hd hle hs hdis
    have hdue := (b.work.due_iff b.now).mpr ⟨d, hd, hle⟩
    cases a with
    | move length timerFirst =>
      rcases b.move_cases length timerFirst with ⟨w, hseek, hact⟩ | ⟨w, -, hact⟩ | ⟨stop, hw, -⟩
      · have hdeadline := DelayedWork.deadline_seek hseek
        have hdue' : w.due b.now = true := by
          rwa [DelayedWork.due, hdeadline]
        have hspent := DelayedWork.unrest_looking hseek hv.2 (h.canMove_of_due hv hd hle)
        rw [hdue, hdue'] at hspent
        rw [hact] at hvacant ⊢
        exact ⟨hvacant, hdeadline.trans hd, rfl, hspent⟩
      · refine absurd ?_ hs
        rw [Starts, hact]
        exact runs_beginRun _ _
      · have hrest := hv.2
        rw [Lane.rest?_eq_some_iff.mpr hw] at hrest
        cases hrest
    | _ => cases ha

end Vacancy

section Traces

variable {b : DelayedBench} {d T : Nat}

/-- A run that is due starts as soon as the worker has made a few moves. -/
theorem Regular.starts_of_moves {ms : List Action} (h : b.Regular) (hv : b.Vacant)
    (hd : b.work.deadline = some d) (hle : d ≤ b.now) (hms : ∀ a ∈ ms, a.isMove = true)
    (hlen : b.work.unrest b.now true < ms.length) :
    ∃ cs a ds, ms = cs ++ a :: ds ∧ (b.run cs).now = b.now ∧ (b.run cs).Starts a := by
  induction ms generalizing b with
  | nil => cases hlen
  | cons a ms ih =>
    rcases h.starts_or_spends hv hd hle (hms a List.mem_cons_self) with
      hstarts | ⟨hv', hd', hnow, hspent⟩
    · exact ⟨[], a, ms, rfl, rfl, hstarts⟩
    · rw [List.length_cons] at hlen
      obtain ⟨cs, x, ds, rfl, hthen, hstarts⟩ := ih (h.act a) hv' hd' (hnow ▸ hle)
        (fun x hx => hms x (List.mem_cons_of_mem a hx)) (hnow ▸ by omega)
      exact ⟨a :: cs, x, ds, rfl, hthen.trans hnow, hstarts⟩

/-- An armed deadline starts a run, is displaced, or finds somebody at the lock all the time. -/
theorem Regular.fate {bs : List Action} (h : b.Regular) (hp : b.Punctual bs = true)
    (hd : b.work.deadline = some d) (hT : d ≤ T) (hb : b.now ≤ T) (hlate : T < (b.run bs).now) :
    ∃ cs a ds, bs = cs ++ a :: ds ∧ (b.run cs).work.deadline = some d ∧ (b.run cs).now ≤ T ∧
      ((b.run cs).Starts a ∨ (b.run cs).Displaces a ∨
        (∃ instant, a = .advance instant ∧ T < instant) ∧ ¬(b.run cs).Vacant ∧
          ∀ cs', cs' <+: cs → (b.run cs').now = T → ¬(b.run cs').Vacant) := by
  induction bs generalizing b with
  | nil => exact absurd hb (Nat.not_le.mpr hlate)
  | cons a bs ih =>
    by_cases hs : b.Starts a
    · exact ⟨[], a, bs, rfl, hd, hb, .inl hs⟩
    by_cases hdis : b.Displaces a
    · exact ⟨[], a, bs, rfl, hd, hb, .inr (.inl hdis)⟩
    have hd' : (b.act a).work.deadline = some d :=
      (deadline_act hd a).resolve_right (not_or_intro hs hdis)
    rw [Punctual, Bool.and_eq_true] at hp
    by_cases hnow : (b.act a).now ≤ T
    · obtain ⟨cs, x, ds, rfl, hdx, hx, hfate⟩ := ih (h.act a) hp.2 hd' hnow hlate
      refine ⟨a :: cs, x, ds, rfl, hdx, hx, hfate.imp_right (.imp_right ?_)⟩
      rintro ⟨hpass, hvacant, hbefore⟩
      refine ⟨hpass, hvacant, fun cs' hcs' hT' hv => ?_⟩
      cases cs' with
      | nil =>
        -- A vacant lock would still be vacant after the first step.
        have hT' : b.now = T := hT'
        refine hbefore [] List.nil_prefix ?_ (h.vacant_act hv hd (hT'.symm ▸ hT) hs hdis)
        show (b.act a).now = T
        rcases b.now_act a with hsame | ⟨instant, -, hmax⟩
        · exact hsame.trans hT'
        · omega
      | cons y cs' =>
        obtain ⟨rfl, htail⟩ := List.cons_prefix_cons.mp hcs'
        exact hbefore cs' htail hT' hv
    · rcases b.now_act a with hsame | ⟨instant, rfl, hmax⟩
      · omega
      · have hfar : T < instant := by omega
        have hvacant : ¬b.Vacant := by
          intro hv
          have := (h.le_of_onTime hv hd hp.1).2
          omega
        refine ⟨[], _, bs, rfl, hd, hb, .inr (.inr ⟨⟨instant, rfl, hfar⟩, hvacant, ?_⟩)⟩
        intro cs' hcs' _
        obtain rfl := List.prefix_nil.mp hcs'
        exact hvacant

end Traces

/-- A sleeping worker sleeps until the deadline, and what displaces the deadline before the worker
sleeps notifies it. Runs start at deadlines only. An armed deadline that nobody displaces starts a
run at the first instant, from the deadline on, at which the lock is vacant. -/
theorem armed_deadline_met {b : DelayedBench} (hb : ∃ as, manned.run as = b) :
    (∀ u, b.work.worker = some (.parked u false) → u = b.work.deadline) ∧
    (∀ bs, b.work.worker = some .idle → (∀ a ∈ bs, a.isMove = false) →
      (b.run bs).work.permit = true ∨ (b.run bs).work.deadline = b.work.deadline) ∧
    (∀ a, b.Starts a →
      (∃ d, b.work.deadline = some d ∧ d ≤ b.now) ∧ (b.act a).work.deadline = none) ∧
    (∀ bs d T, b.Punctual bs = true → b.work.deadline = some d → d ≤ T → b.now ≤ T →
      T < (b.run bs).now →
      ∃ cs a ds, bs = cs ++ a :: ds ∧ (b.run cs).work.deadline = some d ∧ (b.run cs).now ≤ T ∧
        ((b.run cs).Starts a ∨ (b.run cs).Displaces a ∨
          (∃ instant, a = .advance instant ∧ T < instant) ∧ ¬(b.run cs).Vacant ∧
            ∀ cs', cs' <+: cs → (b.run cs').now = T → ¬(b.run cs').Vacant)) ∧
    (∀ ms d, b.work.deadline = some d → d ≤ b.now → b.Vacant → (∀ a ∈ ms, a.isMove = true) →
      8 ≤ ms.length →
      ∃ cs a ds, ms = cs ++ a :: ds ∧ (b.run cs).now = b.now ∧ (b.run cs).Starts a) := by
  obtain ⟨as, rfl⟩ := hb
  have h := regular_manned.run as
  refine ⟨h.alarm, ?_, fun a => due_of_starts, ?_, ?_⟩
  · intro bs hw hbs
    exact noticed_run hw (.inr rfl) hbs
  · intro bs d T hp hd hT hnow hlate
    exact h.fate hp hd hT hnow hlate
  · intro ms d hd hle hv hms hlen
    have hspent := (manned.run as).work.unrest_le (manned.run as).now true
    exact h.starts_of_moves hv hd hle hms (by omega)

/-- A deadline five milliseconds ahead, and a worker that has gone to sleep. -/
theorem armed_deadline_met_ahead :
    let b := manned.run [.schedule 5, .move 3 true, .move 3 true]
    let bs := [.advance 5, .move 3 true, .move 3 true, .advance 8]
    b.work.worker = some (.parked (some 5) false) ∧ some 5 = b.work.deadline ∧
      b.Punctual bs = true ∧ 5 < (b.run bs).now ∧
      (∃ cs a ds, bs = cs ++ a :: ds ∧ (b.run cs).work.deadline = some 5 ∧ (b.run cs).now ≤ 5 ∧
        ((b.run cs).Starts a ∨ (b.run cs).Displaces a ∨
          (∃ instant, a = .advance instant ∧ 5 < instant) ∧ ¬(b.run cs).Vacant ∧
            ∀ cs', cs' <+: cs → (b.run cs').now = 5 → ¬(b.run cs').Vacant)) ∧
      ∃ cs a ds, List.replicate 8 (.move 3 true) = cs ++ a :: ds ∧
        ((b.act (.advance 5)).run cs).now = 5 ∧ ((b.act (.advance 5)).run cs).Starts a := by
  have hb : ∃ as, manned.run as = manned.run [.schedule 5, .move 3 true, .move 3 true] := ⟨_, rfl⟩
  have hdue : ∃ as, manned.run as =
      (manned.run [.schedule 5, .move 3 true, .move 3 true]).act (.advance 5) :=
    ⟨[.schedule 5, .move 3 true, .move 3 true, .advance 5], rfl⟩
  obtain ⟨halarm, -, -, hfate, -⟩ := armed_deadline_met hb
  obtain ⟨-, -, -, -, hmoves⟩ := armed_deadline_met hdue
  refine ⟨by decide, halarm _ (by decide), by decide, by decide, ?_, ?_⟩
  · exact hfate _ 5 5 (by decide) (by decide) (by decide) (by decide) (by decide)
  · refine hmoves _ 5 (by decide) (by decide) ⟨fun _ => rfl, by decide⟩ ?_ (by decide)
    intro a ha
    rw [List.eq_of_mem_replicate ha]
    rfl

end DelayedBench

end HotplugDetect
