import Mathlib.Data.List.Induction
import HotplugDetect.Proofs.Work.Fairness

/-! # Requests and runs

A request to queue the item is accepted unless one is pending. Every accepted request is used up
by one run or dropped by one cancel, and the runs come one after the other. What is requested
before the next run starts leads to that run and to no other one.
-/

namespace HotplugDetect.WorkBench

/-- The item is queued and was not pending before. -/
def accepts (b : WorkBench) : Action → Bool
  | .queue => b.work.queue.2
  | _ => false

def discards (b : WorkBench) : Action → Bool
  | .cancel client => client ∉ b.cancelling && b.work.pending
  | _ => false

def tally (kind : WorkBench → Action → Bool) (b : WorkBench) : List Action → Nat
  | [] => 0
  | a :: as => (kind b a).toNat + (b.act a).tally kind as

section Balance

variable {b : WorkBench}

theorem balance_move (b : WorkBench) (length : Nat) :
    b.runs.length + b.work.pending.toNat =
      (b.move length).runs.length + (b.move length).work.pending.toNat := by
  unfold move
  split
  · split
    · rw [endRun, length_close]
    · rfl
  · split
    · rename_i w hs
      obtain ⟨-, hp, rfl⟩ := Work.seek_claimed hs
      rw [length_runs_beginRun, pending_beginRun rfl, hp]
      rfl
    · rename_i w hs
      rw [Work.pending_looking hs]

theorem runs_cancel (b : WorkBench) (client : Nat) : (b.cancel client).runs = b.runs := by
  unfold cancel
  split
  · rfl
  · simp only
    split <;> rfl

/-- What an action adds to the requests, it adds to those that are used up or pending. -/
theorem balance_act (b : WorkBench) (a : Action) :
    b.runs.length + b.work.pending.toNat + (b.accepts a).toNat =
      (b.act a).runs.length + (b.act a).work.pending.toNat + (b.discards a).toNat := by
  cases a with
  | queue =>
    show _ + (b.work.queue.2).toNat = _ + (b.work.queue.1.pending).toNat + 0
    cases hp : b.work.pending <;> simp [act, Work.queue, hp]
  | cancel client =>
    show _ + 0 = (b.cancel client).runs.length + (b.cancel client).work.pending.toNat + _
    rw [runs_cancel]
    by_cases hc : client ∈ b.cancelling
    · simp [cancel, discards, hc]
    · rw [pending_cancel hc, discards, decide_eq_true hc, Bool.true_and, Bool.toNat_false]
      omega
  | resume client =>
    show _ = (b.resume client).runs.length + (b.resume client).work.pending.toNat
    unfold resume
    split <;> rfl
  | move length => exact b.balance_move length
  | advance instant => rfl

theorem balance_run (b : WorkBench) (as : List Action) :
    b.runs.length + b.work.pending.toNat + b.tally accepts as =
      (b.run as).runs.length + (b.run as).work.pending.toNat + b.tally discards as := by
  induction as generalizing b with
  | nil => rfl
  | cons a as ih =>
    have hact := b.balance_act a
    have hrest := ih (b.act a)
    simp only [tally]
    show _ = ((b.act a).run as).runs.length + ((b.act a).run as).work.pending.toNat + _
    omega

theorem length_runs_le_act (b : WorkBench) (a : Action) :
    b.runs.length ≤ (b.act a).runs.length := by
  cases a with
  | queue => exact le_rfl
  | cancel client => exact (congrArg List.length (b.runs_cancel client)).ge
  | resume client =>
    show _ ≤ (b.resume client).runs.length
    unfold resume
    split <;> exact le_rfl
  | move length =>
    show _ ≤ (b.move length).runs.length
    unfold move
    split
    · split
      · rw [endRun, length_close]
      · exact le_rfl
    · split
      · rw [length_runs_beginRun]
        exact Nat.le_succ _
      · exact le_rfl
  | advance instant => exact le_rfl

theorem idle_act (hp : b.work.pending = false) {a : Action} (ha : b.accepts a = false) :
    (b.act a).work.pending = false ∧ (b.act a).runs.length = b.runs.length := by
  have hbalance := b.balance_act a
  have hle := b.length_runs_le_act a
  rw [hp, ha] at hbalance
  cases hpending : (b.act a).work.pending with
  | false =>
    rw [hpending, Bool.toNat_false] at hbalance
    exact ⟨rfl, by omega⟩
  | true =>
    rw [hpending, Bool.toNat_true, Bool.toNat_false] at hbalance
    omega

theorem idle_run (hp : b.work.pending = false) {as : List Action}
    (has : b.tally accepts as = 0) : (b.run as).runs.length = b.runs.length := by
  induction as generalizing b with
  | nil => rfl
  | cons a as ih =>
    obtain ⟨ha, hrest⟩ := Nat.add_eq_zero_iff.mp has
    obtain ⟨hpending, hruns⟩ := idle_act hp (Bool.toNat_eq_zero.mp ha)
    exact (ih hpending hrest).trans hruns

/-- As long as a request is pending and not cancelled, others are not accepted and no run starts. -/
theorem length_runs_of_pending (hp : b.work.pending = true) {a : Action}
    (hc : ∀ client, a ≠ .cancel client) (hpa : (b.act a).work.pending = true) :
    (b.act a).runs.length = b.runs.length := by
  have haccepts : b.accepts a = false := by
    cases a with
    | queue => simp [accepts, Work.queue, hp]
    | _ => rfl
  have hdiscards : b.discards a = false := by
    cases a with
    | cancel client => exact absurd rfl (hc client)
    | _ => rfl
  have hbalance := b.balance_act a
  rw [hp, hpa, haccepts, hdiscards] at hbalance
  omega

end Balance

/-- The runs so far came one after the other, and all of them are over unless one is in flight. -/
structure Sequential (b : WorkBench) : Prop where

  apart : b.runs.Pairwise fun later earlier =>
    ∃ stop, earlier.stop = some stop ∧ stop ≤ later.start

  past {r : RunRecord} : r ∈ b.runs →
    r.start ≤ b.now ∧ ∀ stop, r.stop = some stop → r.start ≤ stop ∧ stop ≤ b.now

  ended {r : RunRecord} : b.work.rest? = none → r ∈ b.runs → ∃ stop, r.stop = some stop

namespace Sequential

variable {b : WorkBench}

theorem of_same (h : b.Sequential) {b' : WorkBench} (hruns : b'.runs = b.runs)
    (hnow : b.now ≤ b'.now) (hrest : b'.work.rest? = b.work.rest?) : b'.Sequential where
  apart := hruns ▸ h.apart
  past hr := by
    rw [hruns] at hr
    obtain ⟨hstart, hstop⟩ := h.past hr
    exact ⟨hstart.trans hnow, fun stop hs => ⟨(hstop stop hs).1, (hstop stop hs).2.trans hnow⟩⟩
  ended hnone hr := by
    rw [hruns] at hr
    exact h.ended (hrest ▸ hnone) hr

theorem endRun (h : b.Sequential) : b.endRun.Sequential := by
  have hruns : b.endRun.runs = RunRecord.close b.now b.runs := rfl
  rcases hb : b.runs with _ | ⟨r, rs⟩
  · rw [hb] at hruns
    constructor
    · rw [hruns]
      exact List.Pairwise.nil
    · intro r hr
      rw [hruns] at hr
      cases hr
    · intro r _ hr
      rw [hruns] at hr
      cases hr
  · rw [hb] at hruns
    have happart := h.apart
    rw [hb, List.pairwise_cons] at happart
    have hmem {x : RunRecord} (hx : x ∈ rs) : x ∈ b.runs := hb ▸ List.mem_cons_of_mem r hx
    have hstart := (h.past (hb ▸ List.mem_cons_self : r ∈ b.runs)).1
    constructor
    · rw [hruns]
      exact List.pairwise_cons.mpr happart
    · intro x hx
      rw [hruns] at hx
      rcases List.mem_cons.mp hx with rfl | hx
      · refine ⟨hstart, fun stop hs => ?_⟩
        obtain rfl : b.now = stop := Option.some_inj.mp hs
        exact ⟨hstart, le_rfl⟩
      · exact h.past (hmem hx)
    · intro x _ hx
      rw [hruns] at hx
      rcases List.mem_cons.mp hx with rfl | hx
      · exact ⟨b.now, rfl⟩
      · obtain ⟨stop, hs, -⟩ := happart.1 x hx
        exact ⟨stop, hs⟩

theorem beginRun (h : b.Sequential) (hnone : b.work.rest? = none) (length : Nat) :
    (b.beginRun length).Sequential := by
  have hbegun : ({ b with
      work := { b.work with worker := some (.running (wakeUp b.now length)) }
      runs := { start := b.now } :: b.runs } : WorkBench).Sequential := by
    constructor
    · refine List.pairwise_cons.mpr ⟨fun r hr => ?_, h.apart⟩
      obtain ⟨stop, hs⟩ := h.ended hnone hr
      exact ⟨stop, hs, ((h.past hr).2 stop hs).2⟩
    · intro r hr
      rcases List.mem_cons.mp hr with rfl | hr
      · exact ⟨le_rfl, nofun⟩
      · exact h.past hr
    · exact nofun
  unfold WorkBench.beginRun
  simp only
  split
  · exact hbegun.endRun
  · exact hbegun

theorem move (h : b.Sequential) (length : Nat) : (b.move length).Sequential := by
  unfold WorkBench.move
  split
  · split
    · exact h.endRun
    · exact h
  · rename_i hw
    have hnone : b.work.rest? = none := Lane.rest?_of_not_running hw
    split
    · rename_i w hs
      have hrest : w.rest? = b.work.rest? := Work.rest?_of_seek hs
      have hsought : ({ b with work := w } : WorkBench).Sequential := h.of_same rfl le_rfl hrest
      exact hsought.beginRun (hrest.trans hnone) length
    · rename_i w hs
      exact h.of_same rfl le_rfl (Work.rest?_of_seek hs)

theorem act (h : b.Sequential) (a : Action) : (b.act a).Sequential := by
  cases a with
  | queue => exact h.of_same rfl le_rfl (Work.rest?_queue b.work)
  | cancel client =>
    show (b.cancel client).Sequential
    unfold cancel
    split
    · exact h
    · simp only
      split
      · exact h.of_same rfl le_rfl rfl
      · exact h.of_same rfl le_rfl rfl
  | resume client =>
    show (b.resume client).Sequential
    unfold resume
    split
    · exact h.of_same rfl le_rfl rfl
    · exact h
  | move length => exact h.move length
  | advance instant => exact h.of_same rfl (Nat.le_max_left _ _) rfl

theorem run (h : b.Sequential) (as : List Action) : (b.run as).Sequential := by
  induction as generalizing b with
  | nil => exact h
  | cons a as ih => exact ih (h.act a)

end Sequential

theorem sequential_manned : manned.Sequential := ⟨List.Pairwise.nil, nofun, nofun⟩

theorem Regular.rest?_of_holder {b : WorkBench} (h : b.Regular) {client : Nat}
    (hh : b.work.run.holder = some (.client client)) : b.work.rest? = none := by
  refine Lane.rest?_of_not_running fun stop hw => ?_
  have hplaced := h.lined.placed
  rw [Lane.Placed, hw, hh] at hplaced
  cases hplaced.1

theorem Regular.rest?_of_granted {b : WorkBench} (h : b.Regular) {client : Nat}
    (hclient : client ∉ b.cancelling) (hh : (b.requestRun client).holdsRun client = true) :
    b.work.rest? = none := by
  have hfree : b.work.run = {} := by
    refine h.lined.orderly.eq_empty_of_request (fun hm => hclient ?_) hh
    rw [← h.lined.clients]
    exact Lane.mem_clients.mpr hm
  refine Lane.rest?_of_not_running fun stop hw => ?_
  have hplaced := h.lined.placed
  rw [Lane.Placed, hw, hfree] at hplaced
  cases hplaced.1

section Courses

variable {σ : ℕ → Action}

/-- Requests that are not cancelled lead to the next run, and the runs after it need new
requests. -/
theorem Fair.one_further_run (hf : Fair σ) {k : ℕ} (hqueue : σ k = .queue)
    (hkept : ∀ i ≥ k, ∀ client, σ i ≠ .cancel client) :
    ∃ m > k, (course σ m).Starts (σ m) ∧
      (∀ i, k ≤ i → i ≤ m → (course σ i).runs.length = (course σ k).runs.length) ∧
        ∀ j > m, (∀ i, m < i → i < j → σ i ≠ .queue) →
          (course σ j).runs.length = (course σ k).runs.length + 1 := by
  have hpending : (course σ (k + 1)).work.pending = true := by
    rw [course, hqueue]
    exact Work.pending_queue _
  obtain ⟨m, hm, hbefore, hafter, hstarts⟩ := hf.pending_until hpending
  have hstarts : (course σ m).Starts (σ m) := by
    refine hstarts.resolve_right ?_
    rintro ⟨client, hc⟩
    exact hkept m (by omega) client hc
  have hnone : ∀ i, k ≤ i → i ≤ m → (course σ i).runs.length = (course σ k).runs.length := by
    intro i hi him
    induction i, hi using Nat.le_induction with
    | base => rfl
    | succ i hi ih =>
      rw [← ih (by omega)]
      rcases Nat.eq_or_lt_of_le hi with rfl | hlt
      · rw [course, hqueue]
        rfl
      · exact length_runs_of_pending (hbefore i hlt (by omega)) (hkept i hi)
          (hbefore (i + 1) (by omega) him)
  have hnext : (course σ (m + 1)).runs.length = (course σ k).runs.length + 1 := by
    rw [← hnone m (by omega) le_rfl]
    exact hstarts
  refine ⟨m, hm, hstarts, hnone, fun j hj hno => ?_⟩
  have hidle : (course σ j).work.pending = false ∧
      (course σ j).runs.length = (course σ k).runs.length + 1 := by
    induction j, hj using Nat.le_induction with
    | base => exact ⟨hafter, hnext⟩
    | succ j hj ih =>
      obtain ⟨hp, hruns⟩ := ih fun i hi hij => hno i hi (by omega)
      have haccepts : (course σ j).accepts (σ j) = false := by
        unfold accepts
        split
        · rename_i hq
          exact absurd hq (hno j hj (Nat.lt_succ_self j))
        · rfl
      obtain ⟨hp', hruns'⟩ := idle_act hp haccepts
      exact ⟨hp', hruns'.trans hruns⟩
  exact hidle.2

/-- Every accepted request is used up by a run, dropped by a cancel, or pending. Runs come one
after the other. Requests that are not cancelled lead to one more run, whether one is in flight or
not. After a cancel no run starts without a new request, and no run is in flight when the cancel
has the run lock. -/
theorem requests_accounted :
    (∀ as, manned.tally accepts as = (manned.run as).runs.length + manned.tally discards as +
      (manned.run as).work.pending.toNat) ∧
    (∀ as, ((manned.run as).runs.Pairwise fun later earlier =>
        ∃ stop, earlier.stop = some stop ∧ stop ≤ later.start) ∧
      ∀ r ∈ (manned.run as).runs, ∀ stop, r.stop = some stop → r.start ≤ stop) ∧
    (∀ σ k, Fair σ → σ k = .queue → (∀ i ≥ k, ∀ client, σ i ≠ .cancel client) →
      ∃ m > k, (course σ m).Starts (σ m) ∧
        (∀ i, k ≤ i → i ≤ m → (course σ i).runs.length = (course σ k).runs.length) ∧
          ∀ j > m, (∀ i, m < i → i < j → σ i ≠ .queue) →
            (course σ j).runs.length = (course σ k).runs.length + 1) ∧
    (∀ as client cs, client ∉ (manned.run as).cancelling →
      ((manned.run as).act (.cancel client)).tally accepts cs = 0 →
        (((manned.run as).act (.cancel client)).run cs).runs.length =
          (manned.run as).runs.length) ∧
    ∀ as client, (manned.run as).holdsRun client = true ∨
        client ∉ (manned.run as).cancelling ∧
          ((manned.run as).requestRun client).holdsRun client = true →
      (manned.run as).work.rest? = none := by
  refine ⟨fun as => ?_, fun as => ?_, fun σ k hf hqueue hkept => hf.one_further_run hqueue hkept,
    fun as client cs hclient hcs => ?_, fun as client hheld => ?_⟩
  · have hbalance := manned.balance_run as
    have hnone : manned.runs.length + manned.work.pending.toNat = 0 := rfl
    omega
  · have hsequential := sequential_manned.run as
    exact ⟨hsequential.apart, fun r hr stop hs => ((hsequential.past hr).2 stop hs).1⟩
  · have hpending : ((manned.run as).act (.cancel client)).work.pending = false :=
      pending_cancel hclient
    exact (idle_run hpending hcs).trans (congrArg List.length ((manned.run as).runs_cancel client))
  · have hregular := regular_manned.run as
    rcases hheld with hh | ⟨hclient, hh⟩
    · exact hregular.rest?_of_holder ((Lock.heldBy_iff _ _).mp hh)
    · exact hregular.rest?_of_granted hclient hh

/-- A client waits for a run in flight and is handed the lock when the run ends. -/
def handingOver : List Action :=
  [.queue, .move 5, .move 5, .cancel 0, .advance 5, .move 5]

theorem requests_accounted_rota :
    (∀ r ∈ (manned.run handingOver).runs, ∀ stop, r.stop = some stop → r.start ≤ stop) ∧
    ((course rota 6).work.rest? = some 7 ∧
      ∃ m > 6, (course rota m).Starts (rota m) ∧
        (∀ i, 6 ≤ i → i ≤ m → (course rota i).runs.length = (course rota 6).runs.length) ∧
          ∀ j > m, (∀ i, m < i → i < j → rota i ≠ .queue) →
            (course rota j).runs.length = (course rota 6).runs.length + 1) ∧
    (((manned.run [.queue]).act (.cancel 0)).run [.move 5, .move 5]).runs.length = 0 ∧
    (manned.run handingOver).work.rest? = none := by
  obtain ⟨-, hsequential, hfurther, hcancel, hheld⟩ := requests_accounted
  refine ⟨(hsequential handingOver).2, ⟨by decide, hfurther rota 6 fair_rota rfl ?_⟩,
    hcancel [.queue] 0 [.move 5, .move 5] (by decide) (by decide),
    hheld handingOver 0 (.inl (by decide))⟩
  intro i _ client
  unfold rota
  split
  · exact nofun
  · split <;> exact nofun

end Courses

end HotplugDetect.WorkBench
