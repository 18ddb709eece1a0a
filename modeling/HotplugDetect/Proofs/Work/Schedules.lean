import HotplugDetect.Proofs.Work.Deadline
import HotplugDetect.Proofs.Work.Requests

/-! # Deadlines and what uses them up

Arming a delayed item is paid back once: the deadline is replaced, claimed by a run, taken over by
a client, dropped by a cancel, or still there. Runs and clients that keep the item exclude each
other, and a run never comes before the deadline that it claims.
-/

namespace HotplugDetect

namespace DelayedBench

/-- How an armed deadline is used up. -/
inductive Use
  | replaced
  /-- A run of the worker has begun. -/
  | claimed
  /-- A client has taken the item over. -/
  | taken
  /-- A client has cancelled the item. -/
  | dropped
  deriving DecidableEq

def keeps (b : DelayedBench) (client : Nat) : Bool := b.visits.lookup client = some .holding

def Action.client? : Action → Option Nat
  | .cancel client => some client
  | .take client => some client
  | .resume client => some client
  | .giveBack client => some client
  | _ => none

def gains (b : DelayedBench) (a : Action) : Bool :=
  a.client?.any fun client => !b.keeps client && (b.act a).keeps client

def begins (b : DelayedBench) (a : Action) : Bool := b.runs.length < (b.act a).runs.length

/-- A client moves an armed deadline or drops it. A client that is busy cannot cancel. -/
def displaces? (b : DelayedBench) : Action → Option Use
  | .schedule _ => some .replaced
  | .cancel client => if b.busy client then none else some .dropped
  | _ => none

/-- What an action uses a deadline up for. -/
def use? (b : DelayedBench) (a : Action) : Option Use :=
  if b.begins a then some .claimed
  else if b.gains a then some .taken
  else if b.work.armed then b.displaces? a
  else none

def uses (u : Use) (b : DelayedBench) (a : Action) : Bool := b.use? a = some u

def arms (_ : DelayedBench) : Action → Bool
  | .schedule _ => true
  | _ => false

def tally (kind : DelayedBench → Action → Bool) (b : DelayedBench) : List Action → Nat
  | [] => 0
  | a :: as => (kind b a).toNat + (b.act a).tally kind as

/-- What becomes of the deadline in a run, and when. -/
def fate (b : DelayedBench) : List Action → Option (Use × Nat)
  | [] => none
  | a :: as =>
    match b.use? a with
    | some u => some (u, b.now)
    | none => (b.act a).fate as

section Uses

variable {b : DelayedBench} {a : Action}

theorem runs_of_not_isMove (ha : a.isMove = false) : (b.act a).runs = b.runs := by
  rcases act_cases (b := b) ha with ⟨instant, rfl⟩ | ⟨run, visits, h⟩ | ⟨-, run, e, visits, h⟩
  · rfl
  · rw [h]
  · rw [h]

theorem begins_of_starts (h : b.Starts a) : b.begins a = true := by
  obtain ⟨stop, hruns⟩ := h
  simp [begins, hruns]

theorem starts_or_same (b : DelayedBench) (a : Action) :
    b.Starts a ∨ (b.act a).runs.length = b.runs.length := by
  by_cases ha : a.isMove = false
  · exact .inr (congrArg List.length (runs_of_not_isMove ha))
  · cases a with
    | move length timerFirst =>
      rcases b.move_cases length timerFirst with ⟨w, -, h⟩ | ⟨w, -, h⟩ | ⟨stop, -, -, h⟩
      · exact .inr (by rw [h])
      · refine .inl ?_
        rw [Starts, h]
        exact runs_beginRun _ _
      · refine .inr ?_
        rw [h]
        exact WorkBench.length_close _ _
    | _ => exact (ha rfl).elim

theorem begins_iff : b.begins a = true ↔ b.Starts a := by
  refine ⟨fun h => ?_, begins_of_starts⟩
  refine (b.starts_or_same a).resolve_right fun hsame => ?_
  simp [begins, hsame] at h

theorem length_runs_act (b : DelayedBench) (a : Action) :
    (b.act a).runs.length = b.runs.length + (b.begins a).toNat := by
  rcases b.starts_or_same a with h | h
  · rw [begins_of_starts h]
    obtain ⟨stop, hruns⟩ := h
    rw [hruns]
    rfl
  · simp [begins, h]

theorem not_begins_of_not_isMove (ha : a.isMove = false) : b.begins a = false := by
  simp [begins, runs_of_not_isMove ha]

theorem takeOver_keeps {client : Nat} (hv : b.visits.lookup client = none) :
    (b.takeOver client).keeps client = b.work.armed ∧
      (b.takeOver client).work.deadline = none := by
  unfold takeOver
  simp only
  split
  · rename_i harmed
    refine ⟨?_, rfl⟩
    rw [harmed, keeps, List.lookup_append, hv]
    simp
  · rename_i harmed
    refine ⟨?_, rfl⟩
    rw [Bool.eq_false_iff.mpr harmed]
    simp [keeps, releaseRun, hv]

theorem lookup_of_not_busy {client : Nat} (hb : b.busy client = false) :
    b.visits.lookup client = none := by
  simpa [busy] using hb

theorem deadline_of_unarmed (h : b.work.armed = false) : b.work.deadline = none := by
  simpa [DelayedWork.armed] using h

theorem deadline_take (client : Nat) :
    (b.gains (.take client) = true → b.work.armed = true) ∧
      (b.act (.take client)).work.deadline =
        if b.gains (.take client) then none else b.work.deadline := by
  simp only [gains, Action.client?, Option.any_some, act]
  unfold take
  split
  · simp
  · rename_i hb
    have hv := lookup_of_not_busy (Bool.not_eq_true _ ▸ hb)
    have hout : b.keeps client = false := by simp [keeps, hv]
    simp only
    split
    · obtain ⟨hkeeps, hdeadline⟩ := takeOver_keeps (b := b.requestRun client) hv
      rw [hkeeps, hdeadline, hout]
      cases harmed : b.work.armed with
      | true =>
        have hasked : (b.requestRun client).work.armed = true := harmed
        simp [hasked]
      | false =>
        have hasked : (b.requestRun client).work.armed = false := harmed
        simp [hasked, deadline_of_unarmed harmed]
    · have hwaits : ({ b.requestRun client with
          visits := (b.requestRun client).visits ++ [(client, .taking)] } : DelayedBench).keeps
            client = false := by
        show decide ((b.visits ++ [(client, Visit.taking)]).lookup client = some .holding) = false
        simp [List.lookup_append, hv]
      rw [hwaits]
      simp [requestRun]

theorem deadline_resume (client : Nat) :
    (b.gains (.resume client) = true → b.work.armed = true) ∧
      (b.act (.resume client)).work.deadline =
        if b.gains (.resume client) then none else b.work.deadline := by
  have hleft : (b.leave client).visits.lookup client = none := by simp [lookup_leave]
  simp only [gains, Action.client?, Option.any_some, act]
  unfold resume
  split
  · split
    · rename_i hv
      have hgone : ((b.leave client).releaseRun).keeps client = false := by
        show decide ((b.leave client).visits.lookup client = some .holding) = false
        simp [hleft]
      rw [hgone]
      simp [releaseRun, leave]
    · rename_i hv
      have hout : b.keeps client = false := by simp [keeps, hv]
      obtain ⟨hkeeps, hdeadline⟩ := takeOver_keeps hleft
      rw [hkeeps, hdeadline, hout]
      cases harmed : b.work.armed with
      | true => simp [leave, harmed]
      | false =>
        have hnone := deadline_of_unarmed harmed
        simp [leave, DelayedWork.armed, hnone]
    · simp
  · simp

theorem gains_cancel (client : Nat) : b.gains (.cancel client) = false := by
  simp only [gains, Action.client?, Option.any_some, act]
  unfold cancel
  split
  · simp
  · rename_i hb
    have hv := lookup_of_not_busy (Bool.not_eq_true _ ▸ hb)
    simp only
    split
    · simp [keeps, releaseRun, requestRun, hv]
    · simp [keeps, requestRun, hv, List.lookup_append]

theorem deadline_cancel (client : Nat) : (b.act (.cancel client)).work.deadline =
    if b.busy client then b.work.deadline else none := by
  simp only [act]
  unfold cancel
  split
  · rfl
  · simp only
    split <;> rfl

theorem gains_giveBack (client : Nat) : b.gains (.giveBack client) = false := by
  simp only [gains, Action.client?, Option.any_some, act]
  unfold giveBack
  split
  · rename_i hv
    simp [keeps, hv]
  · simp

theorem deadline_giveBack (client : Nat) :
    (b.act (.giveBack client)).work.deadline = b.work.deadline := by
  simp only [act]
  unfold giveBack
  split <;> rfl

theorem deadline_move (length : Nat) (timerFirst : Bool)
    (hs : ¬b.Starts (.move length timerFirst)) :
    (b.act (.move length timerFirst)).work.deadline = b.work.deadline := by
  rcases b.move_cases length timerFirst with ⟨w, hw, h⟩ | ⟨w, -, h⟩ | ⟨stop, -, -, h⟩
  · rw [h]
    exact DelayedWork.deadline_seek hw
  · refine absurd ?_ hs
    rw [Starts, h]
    exact runs_beginRun _ _
  · rw [h]
    rfl

theorem use?_schedule (delay : Nat) :
    b.use? (.schedule delay) = if b.work.armed then some .replaced else none := by
  rw [use?, not_begins_of_not_isMove rfl]
  simp [gains, Action.client?, displaces?]

theorem displaces?_ne_claimed : b.displaces? a ≠ some .claimed := by
  cases a with
  | cancel client =>
    rw [displaces?]
    split <;> exact nofun
  | _ => exact nofun

theorem armed_of_use {u : Use} (h : b.use? a = some u) :
    ∃ d, b.work.deadline = some d ∧ (u = .claimed → d ≤ b.now) := by
  unfold use? at h
  split at h
  · rename_i hs
    obtain ⟨⟨d, hd, hle⟩, -⟩ := due_of_starts (begins_iff.mp hs)
    exact ⟨d, hd, fun _ => hle⟩
  · split at h
    · rename_i hg
      cases h
      have harmed : b.work.armed = true := by
        cases a with
        | take client => exact (deadline_take client).1 hg
        | resume client => exact (deadline_resume client).1 hg
        | cancel client => cases (gains_cancel client).symm.trans hg
        | giveBack client => cases (gains_giveBack client).symm.trans hg
        | _ => cases hg
      obtain ⟨d, hd⟩ := Option.isSome_iff_exists.mp harmed
      exact ⟨d, hd, nofun⟩
    · split at h
      · rename_i harmed
        obtain ⟨d, hd⟩ := Option.isSome_iff_exists.mp harmed
        refine ⟨d, hd, ?_⟩
        rintro rfl
        exact absurd h displaces?_ne_claimed
      · cases h

theorem deadline_of_use (ha : b.arms a = false) : (b.act a).work.deadline =
    if (b.use? a).isSome then none else b.work.deadline := by
  have hclient (hm : a.isMove = false) (hd : b.displaces? a = none)
      (hact : (b.act a).work.deadline = if b.gains a then none else b.work.deadline) :
      (b.act a).work.deadline = if (b.use? a).isSome then none else b.work.deadline := by
    rw [hact, use?, not_begins_of_not_isMove hm, hd]
    cases b.gains a <;> simp
  cases a with
  | schedule delay => cases ha
  | cancel client =>
    rw [deadline_cancel, use?, not_begins_of_not_isMove rfl, gains_cancel]
    cases harmed : b.work.armed <;> cases hbusy : b.busy client <;>
      simp [displaces?, harmed, hbusy, deadline_of_unarmed]
  | take client => exact hclient rfl rfl (deadline_take client).2
  | resume client => exact hclient rfl rfl (deadline_resume client).2
  | giveBack client =>
    refine hclient rfl rfl ?_
    rw [deadline_giveBack, gains_giveBack]
    rfl
  | move length timerFirst =>
    cases hs : b.begins (.move length timerFirst) with
    | true =>
      rw [(due_of_starts (begins_iff.mp hs)).2, use?, if_pos hs]
      rfl
    | false =>
      rw [deadline_move length timerFirst (by simp [← begins_iff, hs]), use?, hs]
      simp [gains, Action.client?, displaces?]
  | advance instant => exact hclient rfl rfl rfl

end Uses

section Balance

variable {b : DelayedBench}

/-- An action arms the item once or not at all, and uses up one deadline at most. -/
theorem balance_act (b : DelayedBench) (a : Action) :
    b.work.armed.toNat + (b.arms a).toNat =
      (b.act a).work.armed.toNat + (b.use? a).isSome.toNat := by
  cases ha : b.arms a with
  | false =>
    cases hu : b.use? a with
    | none =>
      have hdeadline := deadline_of_use ha
      rw [hu] at hdeadline
      rw [DelayedWork.armed, DelayedWork.armed, hdeadline]
      rfl
    | some u =>
      have hdeadline := deadline_of_use ha
      obtain ⟨d, hd, -⟩ := armed_of_use hu
      rw [hu] at hdeadline
      rw [DelayedWork.armed, DelayedWork.armed, hdeadline, hd]
      rfl
  | true =>
    cases a with
    | schedule delay =>
      rw [use?_schedule, act]
      cases b.work.armed <;> rfl
    | _ => cases ha

theorem isSome_use (b : DelayedBench) (a : Action) : (b.use? a).isSome.toNat =
    (b.uses .replaced a).toNat + (b.uses .claimed a).toNat + (b.uses .taken a).toNat +
      (b.uses .dropped a).toNat := by
  unfold uses
  cases b.use? a with
  | none => rfl
  | some u => cases u <;> rfl

theorem uses_claimed (b : DelayedBench) (a : Action) : b.uses .claimed a = b.begins a := by
  unfold uses use?
  cases b.begins a with
  | true => rfl
  | false =>
    have hne := displaces?_ne_claimed (b := b) (a := a)
    cases b.gains a <;> cases b.work.armed <;> simp [hne]

theorem uses_taken (b : DelayedBench) (a : Action) : b.uses .taken a = b.gains a := by
  have hne : b.displaces? a ≠ some .taken := by
    cases a with
    | cancel client =>
      rw [displaces?]
      split <;> exact nofun
    | _ => exact nofun
  unfold uses use?
  cases hs : b.begins a with
  | true =>
    cases a with
    | move length timerFirst => rfl
    | _ => cases (not_begins_of_not_isMove rfl).symm.trans hs
  | false => cases b.gains a <;> cases b.work.armed <;> simp [hne]

theorem length_runs_run (b : DelayedBench) (as : List Action) :
    (b.run as).runs.length = b.runs.length + b.tally begins as := by
  induction as generalizing b with
  | nil => rfl
  | cons a as ih =>
    have hact := b.length_runs_act a
    have hrest := ih (b.act a)
    simp only [tally]
    show ((b.act a).run as).runs.length = _
    omega

theorem balance_run (b : DelayedBench) (as : List Action) :
    b.work.armed.toNat + b.tally arms as = b.tally (uses .replaced) as +
      b.tally begins as + b.tally gains as + b.tally (uses .dropped) as +
        (b.run as).work.armed.toNat := by
  induction as generalizing b with
  | nil => simp [tally, run]
  | cons a as ih =>
    have hact := b.balance_act a
    have hone := b.isSome_use a
    rw [uses_claimed, uses_taken] at hone
    have hrest := ih (b.act a)
    simp only [tally]
    show _ = _ + ((b.act a).run as).work.armed.toNat
    omega

theorem now_le_run (b : DelayedBench) (as : List Action) : b.now ≤ (b.run as).now := by
  induction as generalizing b with
  | nil => exact le_rfl
  | cons a as ih =>
    refine le_trans ?_ (ih (b.act a))
    rcases b.now_act a with h | ⟨instant, -, h⟩
    · exact h.ge
    · exact h ▸ Nat.le_max_left _ _

/-- Until it is used up an armed deadline stays, and a run uses it up when it has come. -/
theorem fate_of_armed {d : Nat} (hd : b.work.deadline = some d) (as : List Action) :
    (b.fate as = none → (b.run as).work.deadline = some d) ∧
      ∀ instant, b.fate as = some (.claimed, instant) → d ≤ instant := by
  induction as generalizing b with
  | nil => exact ⟨fun _ => hd, nofun⟩
  | cons a as ih =>
    rw [fate]
    cases hu : b.use? a with
    | some u =>
      refine ⟨nofun, fun instant h => ?_⟩
      obtain ⟨rfl, rfl⟩ := Prod.mk.inj (Option.some_inj.mp h)
      obtain ⟨e, he, hle⟩ := armed_of_use hu
      rw [hd] at he
      cases he
      exact hle rfl
    | none =>
      refine ih ?_
      have harms : b.arms a = false := by
        cases a with
        | schedule delay =>
          rw [use?_schedule, DelayedWork.armed, hd] at hu
          cases hu
        | _ => rfl
      rw [deadline_of_use harms, hu]
      exact hd

theorem run_append (b : DelayedBench) (as cs : List Action) :
    b.run (as ++ cs) = (b.run as).run cs := List.foldl_append

theorem fate_concat (b : DelayedBench) (as : List Action) (a : Action) (h : b.fate as = none) :
    b.fate (as ++ [a]) = ((b.run as).use? a).map fun u => (u, (b.run as).now) := by
  induction as generalizing b with
  | nil =>
    show b.fate [a] = (b.use? a).map fun u => (u, b.now)
    rw [fate]
    cases b.use? a <;> rfl
  | cons c as ih =>
    cases hu : b.use? c with
    | some u => simp [fate, hu] at h
    | none =>
      have hrest : (b.act c).fate as = none := by simpa [fate, hu] using h
      rw [List.cons_append, fate, hu]
      exact ih (b.act c) hrest

/-- An armed deadline was armed once and was not used up since. -/
theorem source_of_armed {as : List Action} (h : (manned.run as).work.armed = true) :
    ∃ bs delay cs, as = bs ++ .schedule delay :: cs ∧
      ((manned.run bs).act (.schedule delay)).fate cs = none := by
  induction as using List.reverseRecOn with
  | nil => cases h
  | append_singleton as a ih =>
    rw [run_append] at h
    cases ha : (manned.run as).arms a with
    | true =>
      cases a with
      | schedule delay => exact ⟨as, delay, [], rfl, rfl⟩
      | _ => cases ha
    | false =>
      have hdeadline := deadline_of_use ha
      cases hu : (manned.run as).use? a with
      | some u =>
        have hnone : ((manned.run as).act a).work.deadline = none := by simpa [hu] using hdeadline
        have h : (((manned.run as).act a).work.deadline).isSome = true := h
        rw [hnone] at h
        cases h
      | none =>
        have hkept : ((manned.run as).act a).work.deadline = (manned.run as).work.deadline := by
          simpa [hu] using hdeadline
        have harmed : (manned.run as).work.armed = true := by
          rw [DelayedWork.armed, ← hkept]
          exact h
        obtain ⟨bs, delay, cs, rfl, hfate⟩ := ih harmed
        rw [run_append] at hu
        have hkept := fate_concat _ _ a hfate
        exact ⟨bs, delay, cs ++ [a], by simp, hkept.trans (congrArg (Option.map _) hu)⟩

/-- Before its deadline has come an item starts no run, unless it is armed again. -/
theorem length_runs_of_early {d : Nat} (hd : b.work.deadline = none ∨ b.work.deadline = some d)
    {as : List Action} (has : ∀ a ∈ as, b.arms a = false) (hearly : (b.run as).now < d) :
    (b.run as).runs.length = b.runs.length := by
  induction as generalizing b with
  | nil => rfl
  | cons a as ih =>
    have ha := has a List.mem_cons_self
    have hnow : b.now < d := lt_of_le_of_lt (b.now_le_run (a :: as)) hearly
    have hu : b.begins a = false := by
      rw [Bool.eq_false_iff]
      intro hs
      obtain ⟨e, he, hle⟩ := (due_of_starts (begins_iff.mp hs)).1
      rcases hd with hd | hd
      · rw [hd] at he
        cases he
      · rw [hd] at he
        cases he
        omega
    have hd' : (b.act a).work.deadline = none ∨ (b.act a).work.deadline = some d := by
      rw [deadline_of_use ha]
      split
      · exact .inl rfl
      · exact hd
    have hrest := ih hd' (fun x hx => has x (List.mem_cons_of_mem a hx)) hearly
    have hact := b.length_runs_act a
    rw [hu] at hact
    exact hrest.trans hact

end Balance

section Exclusion

variable {b : DelayedBench}

/-- The bench with its runs, without the deadline and the clients. -/
def timeline (b : DelayedBench) : WorkBench where
  work := { toLane := b.work.toLane }
  now := b.now
  runs := b.runs

theorem timeline_beginRun (b : DelayedBench) (length : Nat) :
    (b.beginRun length).timeline = b.timeline.beginRun length := by
  unfold beginRun WorkBench.beginRun
  simp only
  split <;> rfl

theorem Sequential.act (h : b.timeline.Sequential) (a : Action) :
    (b.act a).timeline.Sequential := by
  by_cases ha : a.isMove = false
  · rcases act_cases (b := b) ha with ⟨instant, rfl⟩ | ⟨run, visits, hact⟩ |
      ⟨-, run, e, visits, hact⟩
    · exact h.of_same rfl (Nat.le_max_left _ _) rfl
    · rw [hact]
      exact h.of_same rfl le_rfl rfl
    · rw [hact]
      exact h.of_same rfl le_rfl (Lane.rest?_notify b.work.toLane)
  · cases a with
    | move length timerFirst =>
      rcases b.move_cases length timerFirst with ⟨w, hs, hact⟩ | ⟨w, hs, hact⟩ |
        ⟨stop, -, -, hact⟩
      · rw [hact]
        exact h.of_same rfl le_rfl (DelayedWork.rest?_of_seek hs)
      · obtain ⟨hw, -, rfl⟩ := DelayedWork.seek_claimed hs
        have hnone : b.work.rest? = none := Lane.rest?_of_not_running (by simp [hw])
        rw [hact, timeline_beginRun]
        exact WorkBench.Sequential.beginRun (h.of_same rfl le_rfl rfl) hnone length
      · rw [hact]
        exact h.endRun
    | _ => exact (ha rfl).elim

theorem sequential_run (as : List Action) : (manned.run as).timeline.Sequential := by
  induction as using List.reverseRecOn with
  | nil => exact ⟨List.Pairwise.nil, nofun, nofun⟩
  | append_singleton as a ih =>
    rw [run_append]
    exact Sequential.act ih a

theorem keeps_iff {client : Nat} :
    b.keeps client = true ↔ b.visits.lookup client = some .holding := decide_eq_true_iff

/-- Whoever keeps the item has the run lock for itself. -/
theorem Regular.alone (h : b.Regular) {client : Nat} (hk : b.keeps client = true) :
    b.work.rest? = none ∧ ∀ c, b.keeps c = true → c = client := by
  have hheld := h.holding (keeps_iff.mp hk)
  refine ⟨?_, fun c hc => eq_of_holdsRun hheld (h.holding (keeps_iff.mp hc))⟩
  obtain ⟨ids, hl⟩ := h.lined
  refine Lane.rest?_of_not_running fun stop hw => ?_
  have hplaced := hl.placed
  rw [Lane.Placed, hw] at hplaced
  rw [holdsRun, Lock.heldBy_iff, hplaced.1] at hheld
  cases hheld

theorem Regular.alone_of_begins (h : b.Regular) {a : Action} (ha : b.begins a = true) :
    b.work.rest? = none ∧ ∀ client, b.keeps client = false := by
  cases hm : a.isMove with
  | false => cases (not_begins_of_not_isMove hm).symm.trans ha
  | true =>
    cases a with
    | move length timerFirst =>
      rcases b.move_cases length timerFirst with ⟨w, -, hact⟩ | ⟨w, hs, -⟩ | ⟨stop, -, -, hact⟩
      · simp [begins, hact] at ha
      · have hhead := DelayedWork.holder_of_claimed hs
        obtain ⟨hw, -, rfl⟩ := DelayedWork.seek_claimed hs
        refine ⟨Lane.rest?_of_not_running (by simp [hw]), fun client => ?_⟩
        rw [Bool.eq_false_iff]
        intro hk
        have hheld := h.holding (keeps_iff.mp hk)
        cases ((Lock.heldBy_iff _ _).mp hheld).symm.trans hhead
      · have hsame : b.endRun.runs.length = b.runs.length := WorkBench.length_close _ _
        simp [begins, hact, hsame] at ha
    | _ => cases hm

end Exclusion

/-- The arming of an item is replaced, claimed by a run that does not come before the deadline,
taken over, dropped, or not used up yet, and whatever is used up was armed just once. Runs come
one after the other, and never while a client keeps the item. A deadline that was moved is not
claimed at the old instant, whatever the worker was waiting for. -/
theorem schedules_accounted :
    (∀ as, manned.tally arms as = manned.tally (uses .replaced) as + (manned.run as).runs.length +
      manned.tally gains as + manned.tally (uses .dropped) as +
        (manned.run as).work.armed.toNat) ∧
    (∀ as delay cs, let b := (manned.run as).act (.schedule delay)
      let d := (manned.run as).now + delay
      (b.fate cs = none → (b.run cs).work.deadline = some d) ∧
        ∀ instant, b.fate cs = some (.claimed, instant) → d ≤ instant) ∧
    (∀ as a u, (manned.run as).use? a = some u → ∃ bs delay cs,
      as = bs ++ .schedule delay :: cs ∧
        ((manned.run bs).act (.schedule delay)).fate (cs ++ [a]) =
          some (u, (manned.run as).now)) ∧
    (∀ as, let b := manned.run as
      (b.runs.Pairwise fun later earlier => ∃ stop, earlier.stop = some stop ∧ stop ≤ later.start) ∧
        (∀ client, b.keeps client = true →
          b.work.rest? = none ∧ ∀ c, b.keeps c = true → c = client) ∧
        ∀ a, b.begins a = true → b.work.rest? = none ∧ ∀ client, b.keeps client = false) ∧
    ∀ as delay cs, let b := (manned.run as).act (.schedule delay)
      (∀ a ∈ cs, b.arms a = false) → (b.run cs).now < (manned.run as).now + delay →
        (b.run cs).runs.length = (manned.run as).runs.length := by
  refine ⟨fun as => ?_, fun as delay cs => fate_of_armed rfl cs, fun as a u hu => ?_,
    fun as => ⟨(sequential_run as).apart, fun client => (regular_manned.run as).alone, fun a =>
      (regular_manned.run as).alone_of_begins⟩, fun as delay cs hcs hearly => ?_⟩
  · have hbalance := manned.balance_run as
    have hruns := manned.length_runs_run as
    have hnone : manned.work.armed.toNat = 0 ∧ manned.runs.length = 0 := ⟨rfl, rfl⟩
    omega
  · obtain ⟨d, hd, -⟩ := armed_of_use hu
    obtain ⟨bs, delay, cs, rfl, hfate⟩ := source_of_armed (Option.isSome_iff_exists.mpr ⟨d, hd⟩)
    refine ⟨bs, delay, cs, rfl, ?_⟩
    rw [run_append] at hu ⊢
    exact (fate_concat _ cs a hfate).trans (congrArg (Option.map _) hu)
  · exact length_runs_of_early (.inr rfl) hcs hearly

/-- The worker has slept until the deadline and waits for a client that keeps the item. The
deadline is moved before the client gives the item back. -/
def outrun : List Action :=
  [.schedule 0, .take 7, .schedule 5, .move 3 true, .move 3 true, .move 3 true, .advance 5,
    .move 3 true]

theorem schedules_accounted_outrun :
    (manned.run outrun).work.worker = some .claiming ∧ (manned.run outrun).keeps 7 = true ∧
    (manned.run outrun).work.rest? = none ∧
    (((manned.run outrun).act (.schedule 4)).run [.giveBack 7, .move 3 true, .move 3 true,
      .move 3 true, .advance 8]).runs.length = 0 ∧
    ((manned.run outrun).act (.schedule 4)).fate [.giveBack 7, .move 3 true, .move 3 true,
      .move 3 true, .advance 9, .move 3 true, .move 3 true] = some (.claimed, 9) ∧
    (manned.run outrun).now + 4 ≤ 9 := by
  obtain ⟨-, hfate, -, halone, hearly⟩ := schedules_accounted
  have hclaimed : ((manned.run outrun).act (.schedule 4)).fate [.giveBack 7, .move 3 true,
      .move 3 true, .move 3 true, .advance 9, .move 3 true, .move 3 true] =
        some (.claimed, 9) := by decide
  exact ⟨by decide, by decide, ((halone outrun).2.1 7 (by decide)).1,
    hearly outrun 4 _ (by decide) (by decide), hclaimed, (hfate outrun 4 _).2 9 hclaimed⟩

end DelayedBench

end HotplugDetect
