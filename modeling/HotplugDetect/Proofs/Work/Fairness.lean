import Mathlib.Data.Nat.Find
import Mathlib.Order.Monotone.Basic
import HotplugDetect.Proofs.Work.Wakeup

/-! # Fair schedules

In a fair schedule the worker moves again and again, the clock goes on, and a client that was handed
the run lock goes on some day. Along such a schedule a pending item is followed by a run, unless a
cancel drops it.
-/

namespace HotplugDetect.WorkBench

def course (σ : ℕ → Action) : ℕ → WorkBench
  | 0 => manned
  | n + 1 => (course σ n).act (σ n)

/-- Nobody that can go on is passed over for ever. -/
structure Fair (σ : ℕ → Action) : Prop where

  worker (n : ℕ) : ∃ m ≥ n, ∃ length, σ m = .move length

  clock (instant : ℕ) : ∃ n, instant ≤ (course σ n).now

  clients {n client : ℕ} : (course σ n).holdsRun client = true → ∃ m ≥ n, σ m = .resume client

def Starts (b : WorkBench) (a : Action) : Prop := (b.act a).runs.length = b.runs.length + 1

theorem regular_course (σ : ℕ → Action) (n : ℕ) : (course σ n).Regular := by
  induction n with
  | zero => exact regular_manned
  | succ n ih => exact ih.act (σ n)

section Steps

variable {b : WorkBench}

theorem length_close (now : Nat) (rs : List RunRecord) :
    (RunRecord.close now rs).length = rs.length := by
  cases rs <;> rfl

theorem length_runs_beginRun (b : WorkBench) (length : Nat) :
    (b.beginRun length).runs.length = b.runs.length + 1 := by
  unfold beginRun
  simp only
  split
  · exact length_close b.now ({ start := b.now } :: b.runs)
  · rfl

theorem worker_beginRun (b : WorkBench) (length : Nat) :
    (b.beginRun length).work.worker ≠ none := by
  unfold beginRun
  simp only
  split <;> exact Option.some_ne_none _

theorem pending_beginRun {length : Nat} (h : b.work.pending = false) :
    (b.beginRun length).work.pending = false := by
  unfold beginRun
  simp only
  split <;> exact h

theorem pending_cancel {client : Nat} (h : client ∉ b.cancelling) :
    (b.cancel client).work.pending = false := by
  unfold cancel
  rw [if_neg h]
  simp only
  split <;> rfl

/-- A pending run is started or cancelled, or else it stays pending. -/
theorem pending_act (hp : b.work.pending = true) (a : Action) :
    (b.act a).work.pending = true ∨ b.Starts a ∨ ∃ client, a = .cancel client := by
  cases a with
  | queue => exact .inl (b.work.pending_queue)
  | cancel client => exact .inr (.inr ⟨client, rfl⟩)
  | resume client =>
    left
    show (b.resume client).work.pending = true
    unfold resume
    split <;> exact hp
  | advance instant => exact .inl hp
  | move length =>
    unfold Starts
    show (b.move length).work.pending = true ∨ (b.move length).runs.length = _ ∨ _
    unfold move
    split
    · left
      split <;> exact hp
    · split
      · exact .inr (.inl (length_runs_beginRun _ _))
      · rename_i w hs
        left
        exact (Work.pending_looking hs).trans hp

theorem worker_act (hb : b.work.worker ≠ none) (a : Action) : (b.act a).work.worker ≠ none := by
  cases a with
  | queue => exact Work.worker_queue hb
  | cancel client =>
    show (b.cancel client).work.worker ≠ none
    unfold cancel
    split
    · exact hb
    · simp only
      split <;> exact hb
  | resume client =>
    show (b.resume client).work.worker ≠ none
    unfold resume
    split <;> exact hb
  | advance instant => exact hb
  | move length =>
    show (b.move length).work.worker ≠ none
    unfold move
    split
    · split
      · exact Option.some_ne_none _
      · exact hb
    · split
      · exact worker_beginRun _ _
      · rename_i w hs
        exact Work.present_of_seek hs hb

theorem claiming_of_move (h : b.work.Attended) (hp : b.work.pending = true)
    (hw : b.work.worker = some .idle ∨ ∃ u notified, b.work.worker = some (.parked u notified))
    (length : Nat) : (b.act (.move length)).work.worker = some .claiming := by
  have hroused := h hp
  show (b.move length).work.worker = some .claiming
  unfold move Work.seek
  rcases hw with hw | ⟨u, notified, hw⟩
  · rw [Lane.roused, hw] at hroused
    have hpermit : b.work.permit = true := hroused
    simp [hw, hpermit, Lane.ask]
  · rw [Lane.roused, hw] at hroused
    obtain rfl : notified = true := hroused
    simp [hw, Lane.ask]

theorem worker_of_pending (hp : b.work.pending = true) {a : Action}
    (ha : ∀ length, a ≠ .move length) (hpa : (b.act a).work.pending = true) :
    (b.act a).work.worker = b.work.worker := by
  cases a with
  | queue =>
    show b.work.queue.1.worker = _
    unfold Work.queue
    rw [if_pos hp]
  | cancel client =>
    by_cases hc : client ∈ b.cancelling
    · show (b.cancel client).work.worker = _
      unfold cancel
      rw [if_pos hc]
    · rw [show (b.act (.cancel client)).work.pending = false from pending_cancel hc] at hpa
      cases hpa
  | resume client =>
    show (b.resume client).work.worker = _
    unfold resume
    split <;> rfl
  | advance instant => rfl
  | move length => exact absurd rfl (ha length)

theorem worker_of_running {stop : Nat} (hp : b.work.pending = true)
    (hw : b.work.worker = some (.running stop)) {a : Action}
    (hpa : (b.act a).work.pending = true) :
    (b.act a).work.worker = some (.running stop) ∨ (b.act a).work.worker = some .idle := by
  cases a with
  | move length =>
    show (b.move length).work.worker = _ ∨ (b.move length).work.worker = _
    unfold move
    rw [hw]
    simp only
    split
    · exact .inr rfl
    · exact .inl hw
  | _ => exact .inl ((worker_of_pending hp (fun _ => by simp) hpa).trans hw)

theorem endRun_of_move {stop : Nat} (hw : b.work.worker = some (.running stop))
    (hstop : stop ≤ b.now) (length : Nat) :
    (b.act (.move length)).work.worker = some .idle := by
  show (b.move length).work.worker = _
  unfold move
  rw [hw]
  simp only
  rw [if_pos hstop]
  rfl

theorem pending_of_claim (hp : b.work.pending = true) (hw : b.work.worker = some .claiming)
    (hh : b.work.run.heldBy .worker = true) (length : Nat) :
    (b.act (.move length)).work.pending = false := by
  show (b.move length).work.pending = false
  unfold move Work.seek Work.claim
  rw [hw]
  simp only [hh, hp, if_true]
  exact pending_beginRun rfl

/-- A worker that claims a pending run keeps its place in the line until the head of the line has
given the lock back. -/
theorem line_of_claiming (hp : b.work.pending = true) (hw : b.work.worker = some .claiming)
    {a : Action} (hpa : (b.act a).work.pending = true) :
    (b.act a).work.worker = some .claiming ∧
      ((b.act a).work.run = b.work.run ∨
        (∃ client, b.work.run.holder = some (.client client)) ∧
          (b.act a).work.run = b.work.run.release) := by
  cases a with
  | move length =>
    have hno : b.work.run.heldBy .worker = false := by
      rw [← Bool.not_eq_true]
      intro hh
      rw [pending_of_claim hp hw hh] at hpa
      cases hpa
    have hsame : b.act (.move length) = b := by
      show b.move length = b
      unfold move Work.seek
      rw [hw]
      simp [hno]
    rw [hsame]
    exact ⟨hw, .inl rfl⟩
  | queue =>
    have hsame : b.work.queue.1 = b.work := by
      unfold Work.queue
      rw [if_pos hp]
    refine ⟨(worker_of_pending hp (fun _ => by simp) hpa).trans hw, .inl ?_⟩
    exact congrArg (fun w : Work Nat => w.run) hsame
  | cancel client =>
    refine ⟨(worker_of_pending hp (fun _ => by simp) hpa).trans hw, .inl ?_⟩
    by_cases hc : client ∈ b.cancelling
    · show (b.cancel client).work.run = _
      unfold cancel
      rw [if_pos hc]
    · rw [show (b.act (.cancel client)).work.pending = false from pending_cancel hc] at hpa
      cases hpa
  | resume client =>
    refine ⟨(worker_of_pending hp (fun _ => by simp) hpa).trans hw, ?_⟩
    show (b.resume client).work.run = _ ∨ _ ∧ (b.resume client).work.run = _
    unfold resume
    split
    · rename_i hr
      exact .inr ⟨⟨client, (Lock.heldBy_iff _ _).mp hr.2⟩, rfl⟩
    · exact .inl rfl
  | advance instant => exact ⟨hw, .inl rfl⟩

theorem release_of_resume (h : b.Regular) {client : Nat} (hh : b.holdsRun client = true) :
    (b.act (.resume client)).work.run = b.work.run.release := by
  have hmem : client ∈ b.cancelling := by
    rw [← h.lined.clients]
    exact Lane.mem_clients.mpr (Lock.mem_line_of_holder ((Lock.heldBy_iff _ _).mp hh))
  show (b.resume client).work.run = _
  unfold resume
  rw [if_pos ⟨hmem, hh⟩]
  rfl

end Steps

section Courses

variable {σ : ℕ → Action}

theorem worker_course (σ : ℕ → Action) (n : ℕ) : (course σ n).work.worker ≠ none := by
  induction n with
  | zero => exact Option.some_ne_none _
  | succ n ih => exact worker_act ih (σ n)

theorem now_le_act (b : WorkBench) (a : Action) : b.now ≤ (b.act a).now := by
  cases a with
  | queue => exact le_rfl
  | cancel client =>
    show b.now ≤ (b.cancel client).now
    unfold cancel
    split
    · exact le_rfl
    · simp only
      split <;> exact le_rfl
  | resume client =>
    show b.now ≤ (b.resume client).now
    unfold resume
    split <;> exact le_rfl
  | move length =>
    show b.now ≤ (b.move length).now
    unfold move
    split
    · split <;> exact le_rfl
    · split
      · unfold beginRun
        simp only
        split <;> exact le_rfl
      · exact le_rfl
  | advance instant => exact Nat.le_max_left _ _

theorem monotone_now (σ : ℕ → Action) : Monotone fun n => (course σ n).now :=
  monotone_nat_of_le_succ fun n => now_le_act (course σ n) (σ n)

theorem Fair.next_move (hf : Fair σ) (n : ℕ) :
    ∃ m ≥ n, (∃ length, σ m = .move length) ∧
      ∀ i, n ≤ i → i < m → ∀ length, σ i ≠ .move length := by
  classical
  have hex : ∃ m, n ≤ m ∧ ∃ length, σ m = .move length := hf.worker n
  obtain ⟨hle, hmove⟩ := Nat.find_spec hex
  refine ⟨Nat.find hex, hle, hmove, fun i hi hlt length heq => ?_⟩
  exact Nat.find_min hex hlt ⟨hi, length, heq⟩

section Pending

/-! From some moment on, the item stays pending. -/

variable {n : ℕ} (hp : ∀ m ≥ n, (course σ m).work.pending = true)

include hp

theorem worker_until {k m : ℕ} (hk : n ≤ k) (hm : k ≤ m)
    (hno : ∀ i, k ≤ i → i < m → ∀ length, σ i ≠ .move length) :
    (course σ m).work.worker = (course σ k).work.worker := by
  induction m, hm using Nat.le_induction with
  | base => rfl
  | succ m hm ih =>
    rw [← ih fun i hi hlt => hno i hi (Nat.lt_succ_of_lt hlt)]
    exact worker_of_pending (hp m (hk.trans hm)) (hno m hm (Nat.lt_succ_self m))
      (hp (m + 1) (hk.trans (Nat.le_succ_of_le hm)))

theorem Fair.claims_of_waiting (hf : Fair σ) {k : ℕ} (hk : n ≤ k)
    (hw : (course σ k).work.worker = some .idle ∨
      ∃ u notified, (course σ k).work.worker = some (.parked u notified)) :
    ∃ m ≥ k, (course σ m).work.worker = some .claiming := by
  obtain ⟨m, hm, ⟨length, hmove⟩, hno⟩ := hf.next_move k
  rw [← worker_until hp hk hm hno] at hw
  refine ⟨m + 1, Nat.le_succ_of_le hm, ?_⟩
  rw [course, hmove]
  exact claiming_of_move (regular_course σ m).attended (hp m (hk.trans hm)) hw length

theorem Fair.waits_of_running (hf : Fair σ) {k stop : ℕ} (hk : n ≤ k)
    (hw : (course σ k).work.worker = some (.running stop)) :
    ∃ m ≥ k, (course σ m).work.worker = some .idle := by
  by_contra hnever
  push Not at hnever
  have hrunning : ∀ m ≥ k, (course σ m).work.worker = some (.running stop) := by
    intro m hm
    induction m, hm using Nat.le_induction with
    | base => exact hw
    | succ m hm ih =>
      have hstep := worker_of_running (hp m (hk.trans hm)) ih (a := σ m)
        (hp (m + 1) (hk.trans (Nat.le_succ_of_le hm)))
      exact hstep.resolve_right (hnever (m + 1) (Nat.le_succ_of_le hm))
  obtain ⟨i, hi⟩ := hf.clock stop
  obtain ⟨m, hm, length, hmove⟩ := hf.worker (max k i)
  have hkm : k ≤ m := (Nat.le_max_left k i).trans hm
  have hstop : stop ≤ (course σ m).now :=
    hi.trans (monotone_now σ ((Nat.le_max_right k i).trans hm))
  have hidle : (course σ (m + 1)).work.worker = some .idle := by
    rw [course, hmove]
    exact endRun_of_move (hrunning m hkm) hstop length
  exact hnever (m + 1) (Nat.le_succ_of_le hkm) hidle

/-- While the head of the line does not give the lock back, the line stays as it is. -/
theorem line_until {k m : ℕ} (hk : n ≤ k) (hm : k ≤ m)
    (hw : (course σ k).work.worker = some .claiming) :
    (course σ m).work.worker = some .claiming ∧
        (course σ m).work.run = (course σ k).work.run ∨
      ∃ i ≥ k, (∃ client, (course σ k).work.run.holder = some (.client client)) ∧
        (course σ i).work.worker = some .claiming ∧
          (course σ i).work.run = (course σ k).work.run.release := by
  induction m, hm using Nat.le_induction with
  | base => exact .inl ⟨hw, rfl⟩
  | succ m hm ih =>
    rcases ih with ⟨hwm, hrun⟩ | hgiven
    · obtain ⟨hw', hrun' | ⟨hclient, hrun'⟩⟩ :=
        line_of_claiming (hp m (hk.trans hm)) hwm (a := σ m)
          (hp (m + 1) (hk.trans (Nat.le_succ_of_le hm)))
      · exact .inl ⟨hw', hrun'.trans hrun⟩
      · rw [hrun] at hclient hrun'
        exact .inr ⟨m + 1, Nat.le_succ_of_le hm, hclient, hw', hrun'⟩
    · exact .inr hgiven

/-- The line in front of a claiming worker gets shorter until the worker is its head. -/
theorem Fair.not_claiming (hf : Fair σ) {k : ℕ} (hk : n ≤ k) :
    (course σ k).work.worker ≠ some .claiming := by
  intro hw
  generalize hlen : (course σ k).work.run.line.length = len
  induction len generalizing k with
  | zero =>
    have hplaced := (regular_course σ k).lined.placed
    rw [Lane.Placed, hw, List.length_eq_zero_iff.mp hlen] at hplaced
    cases hplaced
  | succ len ih =>
    obtain ⟨holder, hholder⟩ : ∃ holder, (course σ k).work.run.holder = some holder := by
      refine Option.ne_none_iff_exists'.mp fun hnone => ?_
      rw [(regular_course σ k).lined.orderly.line_eq_nil.mpr hnone] at hlen
      cases hlen
    have hreleased : (course σ k).work.run.release.line.length = len := by
      rw [Lock.line_of_holder hholder, List.length_cons] at hlen
      rw [Lock.line_release]
      exact Nat.succ.inj hlen
    cases holder with
    | worker =>
      obtain ⟨m, hm, length, hmove⟩ := hf.worker k
      rcases line_until hp hk hm hw with ⟨hwm, hrun⟩ | ⟨i, -, ⟨client, hclient⟩, -⟩
      · have hh : (course σ m).work.run.heldBy .worker = true := by
          rw [hrun]
          exact (Lock.heldBy_iff _ _).mpr hholder
        have hclaimed := pending_of_claim (hp m (hk.trans hm)) hwm hh length
        rw [← hmove] at hclaimed
        have hpending := hp (m + 1) (hk.trans (Nat.le_succ_of_le hm))
        rw [course, hclaimed] at hpending
        cases hpending
      · rw [hholder] at hclient
        cases hclient
    | client client =>
      have hh : (course σ k).holdsRun client = true := (Lock.heldBy_iff _ _).mpr hholder
      obtain ⟨m, hm, hres⟩ := hf.clients hh
      rcases line_until hp hk hm hw with ⟨hwm, hrun⟩ | ⟨i, hi, -, hwi, hrun⟩
      · have hnext := hp (m + 1) (hk.trans (Nat.le_succ_of_le hm))
        obtain ⟨hw', -⟩ := line_of_claiming (hp m (hk.trans hm)) hwm (a := σ m) hnext
        have hgiven : (course σ (m + 1)).work.run = (course σ k).work.run.release := by
          rw [← hrun, course, hres]
          refine release_of_resume (regular_course σ m) ?_
          rw [holdsRun, hrun]
          exact hh
        exact ih (hk.trans (Nat.le_succ_of_le hm)) hw' (by rw [hgiven, hreleased])
      · exact ih (hk.trans hi) hwi (by rw [hrun, hreleased])

/-- An item does not stay pending for ever. -/
theorem Fair.not_pending_forever (hf : Fair σ) : False := by
  have hwaiting {k : ℕ} (hk : n ≤ k)
      (hw : (course σ k).work.worker = some .idle ∨
        ∃ u notified, (course σ k).work.worker = some (.parked u notified)) : False := by
    obtain ⟨m, hm, hclaims⟩ := hf.claims_of_waiting hp hk hw
    exact hf.not_claiming hp (hk.trans hm) hclaims
  cases hw : (course σ n).work.worker with
  | none => exact worker_course σ n hw
  | some station =>
    cases station with
    | idle => exact hwaiting le_rfl (.inl hw)
    | parked u notified => exact hwaiting le_rfl (.inr ⟨u, notified, hw⟩)
    | claiming => exact hf.not_claiming hp le_rfl hw
    | running stop =>
      obtain ⟨m, hm, hidle⟩ := hf.waits_of_running hp le_rfl hw
      exact hwaiting hm (.inl hidle)

end Pending

/-- In a fair schedule an item stays pending until a run starts or a cancel drops it. -/
theorem Fair.pending_until (hf : Fair σ) {n : ℕ}
    (hpending : (course σ n).work.pending = true) :
    ∃ m ≥ n, (∀ i, n ≤ i → i ≤ m → (course σ i).work.pending = true) ∧
      (course σ (m + 1)).work.pending = false ∧
        ((course σ m).Starts (σ m) ∨ ∃ client, σ m = .cancel client) := by
  classical
  have hex : ∃ m, n ≤ m ∧ (course σ m).work.pending = false := by
    by_contra hnever
    push Not at hnever
    exact hf.not_pending_forever fun m hm => Bool.ne_false_iff.mp (hnever m hm)
  obtain ⟨hle, hdropped⟩ := Nat.find_spec hex
  have hbefore : ∀ i, n ≤ i → i < Nat.find hex → (course σ i).work.pending = true := by
    intro i hi hlt
    exact Bool.ne_false_iff.mp fun hfalse => Nat.find_min hex hlt ⟨hi, hfalse⟩
  generalize Nat.find hex = k at hle hdropped hbefore
  cases k with
  | zero =>
    obtain rfl : n = 0 := Nat.le_zero.mp hle
    rw [hpending] at hdropped
    cases hdropped
  | succ m =>
    have hnm : n ≤ m := by
      by_contra hlt
      obtain rfl : n = m + 1 := by omega
      rw [hpending] at hdropped
      cases hdropped
    refine ⟨m, hnm, fun i hi him => hbefore i hi (Nat.lt_succ_of_le him), hdropped, ?_⟩
    have hm := hbefore m hnm (Nat.lt_succ_self m)
    refine (pending_act hm (σ m)).resolve_left fun hkept => ?_
    rw [course, hkept] at hdropped
    cases hdropped

/-- A parked worker without a notification has no pending item. What was queued stays pending until
a run starts or a cancel drops it, and one of the two happens. -/
theorem queued_work_wakes_worker :
    (∀ as u, (manned.run as).work.worker = some (.parked u false) →
      (manned.run as).work.pending = false) ∧
    ∀ σ n, Fair σ → σ n = .queue →
      ∃ m > n, (∀ i, n < i → i ≤ m → (course σ i).work.pending = true) ∧
        (course σ (m + 1)).work.pending = false ∧
          ((course σ m).Starts (σ m) ∨ ∃ client, σ m = .cancel client) := by
  constructor
  · intro as u hw
    have hattended := (regular_manned.run as).attended
    rw [← Bool.not_eq_true]
    intro hp
    have hroused := hattended hp
    rw [Lane.roused, hw] at hroused
    cases hroused
  · intro σ n hf hqueue
    have hpending : (course σ (n + 1)).work.pending = true := by
      rw [course, hqueue]
      exact Work.pending_queue _
    exact hf.pending_until hpending

def rota (n : ℕ) : Action :=
  if n % 3 = 0 then .queue else if n % 3 = 1 then .move 5 else .advance n

theorem cancelling_rota (n : ℕ) : (course rota n).cancelling = [] := by
  induction n with
  | zero => rfl
  | succ n ih =>
    rw [course, rota]
    split
    · exact ih
    · split
      · show (move _ 5).cancelling = []
        unfold move
        split
        · split <;> exact ih
        · split
          · unfold beginRun
            simp only
            split <;> exact ih
          · exact ih
      · exact ih

theorem fair_rota : Fair rota where
  worker n := ⟨3 * n + 1, by omega, 5, by simp [rota]⟩
  clock instant := by
    refine ⟨3 * instant + 2 + 1, ?_⟩
    have hadvance : rota (3 * instant + 2) = .advance (3 * instant + 2) := by simp [rota]
    rw [course, hadvance]
    exact (by omega : instant ≤ 3 * instant + 2).trans (Nat.le_max_right _ _)
  clients {n client} hh := by
    have hmem := Lock.mem_line_of_holder ((Lock.heldBy_iff _ _).mp hh)
    rw [← Lane.mem_clients, (regular_course rota n).lined.clients, cancelling_rota] at hmem
    cases hmem

theorem queued_work_wakes_worker_rota :
    (manned.run [.queue, .move 0, .move 0, .move 0]).work.pending = false ∧
      ∃ m > 0, (∀ i, 0 < i → i ≤ m → (course rota i).work.pending = true) ∧
        (course rota (m + 1)).work.pending = false ∧
          ((course rota m).Starts (rota m) ∨ ∃ client, rota m = .cancel client) :=
  ⟨queued_work_wakes_worker.1 _ none (by decide), queued_work_wakes_worker.2 rota 0 fair_rota rfl⟩

end Courses

end HotplugDetect.WorkBench
