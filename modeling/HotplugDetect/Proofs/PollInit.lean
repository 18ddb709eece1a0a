import HotplugDetect.Controller.Script
import HotplugDetect.Proofs.Backlog.Kept
import HotplugDetect.Proofs.Quiet.Exhausted

/-! # One poll-init run for many requests

An initialization and a change of the forced polling both ask for a poll-init run. What was asked
for before the worker got to run is done by one run, which knows the last request alone and sets
every poll mode anew, whatever it was before. A further run finds nothing to change.
-/

namespace HotplugDetect

variable {ρ : Type}

/-- The mode that a connector gets, and whether it is polled only because its pin delivers no
interrupts. -/
def pollChoice (hasHotplug forced : Bool) (disabled : Pin → Bool) (preference : PollMode)
    (multiStream : Bool) (pin : Option Pin) : PollMode × Bool :=
  if multiStream then (preference, false)
  else
    let own :=
      if preference = .unset && hasHotplug && pin.isSome then
        if forced then .connectDisconnect else .hpd
      else preference
    if own = .hpd && pin.any disabled then (.connectDisconnect, true) else (own, false)

/-- An operation that leads up to a poll-init run. -/
inductive Preparation
  | init
  | forcePolling (on : Bool)
  | start

def Action.moves (j : Job) (n : Nat) : List Action := List.replicate n (.move j true)

theorem Action.moves_succ (j : Job) (n : Nat) : moves j (n + 1) = .move j true :: moves j n := rfl

namespace Preparation

def action : Preparation → Action
  | init => .init
  | forcePolling on => .forcePolling on
  | start => .start

/-- Whether polling is forced afterwards, if that is set at all. -/
def forces? : Preparation → Option Bool
  | init => some false
  | forcePolling on => some on
  | start => none

def lastForced (ps : List Preparation) : Option Bool := (ps.filterMap forces?).getLast?

theorem lastForced_concat (ps : List Preparation) (x : Preparation) :
    lastForced (ps ++ [x]) = x.forces?.or (lastForced ps) := by
  unfold lastForced
  rw [List.filterMap_append]
  cases hx : x.forces? with
  | none => simp [hx]
  | some on => simp [hx]

end Preparation

namespace Connector

variable (c : Connector ρ) (hasHotplug forced : Bool) (disabled : Pin → Bool)

/-- What becomes of a connector does not depend on its present mode. -/
def choice : PollMode × Bool :=
  pollChoice hasHotplug forced disabled c.preference c.multiStream c.pin

theorem choice_eq (pins : PinSet) :
    c.choice hasHotplug forced pins.contains =
      (if c.staysPolling hasHotplug forced pins then .connectDisconnect
        else c.initialMode hasHotplug forced,
      c.staysPolling hasHotplug forced pins) := by
  unfold choice pollChoice staysPolling initialMode
  cases c.multiStream with
  | true => rfl
  | false =>
    simp only [Bool.not_false, Bool.true_and, Bool.false_eq_true, if_false]
    generalize (if (decide (c.preference = .unset) && hasHotplug && c.pin.isSome) = true then
      if forced = true then PollMode.connectDisconnect else .hpd else c.preference) = own
    show (if (decide (own = .hpd) && c.isOn pins) = true then _ else _) = _
    cases decide (own = .hpd) && c.isOn pins <;> rfl

theorem reinitialized_eq (pins : PinSet) :
    c.reinitialized hasHotplug forced pins =
      { c with polled := (c.choice hasHotplug forced pins.contains).1 } := by
  rw [choice_eq]
  rfl

theorem staysPolling_eq (pins : PinSet) :
    c.staysPolling hasHotplug forced pins = (c.choice hasHotplug forced pins.contains).2 := by
  rw [choice_eq]

end Connector

namespace Work

variable {β : Type}

/-- No run is in flight, nobody else is at the run lock, and a pending run is going to be found as
soon as there is a worker. -/
def watchful (w : Work β) : Bool :=
  match w.worker with
  | none => w.run = {} && (!w.pending || w.permit)
  | some .idle => w.run = {} && (!w.pending || w.permit)
  | some (.parked _ notified) => w.run = {} && (!w.pending || notified)
  | some .claiming => w.run = ⟨some .worker, []⟩
  | some (.running _) => false

theorem watchful_of_attended {w : Work β} (h : w.Lined []) (ha : w.Attended)
    (hr : w.rest? = none) : w.watchful = true := by
  have hclaimed : w.worker = some .claiming → w.run = ⟨some .worker, []⟩ := by
    intro hw
    have hplaced := h.placed
    rw [Lane.Placed, hw] at hplaced
    have hholder : w.run.holder = some .worker := by
      by_contra hne
      rw [h.run_eq_empty hne] at hplaced
      cases hplaced
    have hqueue : w.run.queue = [] := by
      refine List.eq_nil_iff_forall_not_mem.mpr fun x hx => ?_
      cases x with
      | worker => exact h.not_mem_queue hholder hx
      | client id =>
        have hid : id ∈ w.clients := by
          rw [Lane.mem_clients, Lock.line_of_holder hholder]
          exact List.mem_cons_of_mem _ hx
        rw [h.clients] at hid
        cases hid
    rw [← hholder, ← hqueue]
  have hfree (hout : .worker ∉ w.run.line) : w.run = {} :=
    h.run_eq_empty fun hh => hout (Lock.mem_line_of_holder hh)
  have hplaced := h.placed
  have hroused := ha
  rcases w with ⟨⟨permit, run, _ | _ | ⟨alarm, notified⟩ | _ | rest⟩, pending⟩
  case some.claiming => exact decide_eq_true (hclaimed rfl)
  case some.running => cases hr
  all_goals
    obtain rfl : run = {} := hfree hplaced
    cases pending with
    | false => rfl
    | true => exact hroused rfl

theorem watchful_queue {w : Work β} (h : w.watchful = true) : w.queue.1.watchful = true := by
  unfold queue
  split
  · exact h
  · rcases w with ⟨⟨permit, run, _ | _ | ⟨alarm, _ | _⟩ | _ | rest⟩, pending⟩ <;>
      simp_all [watchful, Lane.notify]

theorem watchful_start {w : Work β} (h : w.watchful = true) :
    ({ w with toLane := w.toLane.start } : Work β).watchful = true := by
  rcases w with ⟨⟨permit, run, _ | station⟩, pending⟩
  · exact h
  · exact h

theorem seek_of_not_pending {w : Work β} (h : w.watchful = true) (hp : w.pending = false) :
    w.seek.2 = .looking ∧ w.seek.1.watchful = true ∧ w.seek.1.pending = false := by
  rcases w with ⟨⟨permit, run, _ | _ | ⟨alarm, notified⟩ | _ | rest⟩, pending⟩
  · exact ⟨rfl, h, hp⟩
  · obtain rfl : pending = false := hp
    obtain rfl : run = {} := by simpa [watchful] using h
    cases permit <;> exact ⟨rfl, rfl, rfl⟩
  · obtain rfl : pending = false := hp
    obtain rfl : run = {} := by simpa [watchful] using h
    cases notified <;> exact ⟨rfl, rfl, rfl⟩
  · obtain rfl : pending = false := hp
    obtain rfl : run = ⟨some .worker, []⟩ := by simpa [watchful] using h
    exact ⟨rfl, rfl, rfl⟩
  · cases h

theorem seek_of_pending {w : Work β} (h : w.watchful = true) (hp : w.pending = true)
    (hw : w.worker.isSome = true) (hc : w.worker ≠ some .claiming) :
    w.seek.2 = .looking ∧ w.seek.1.watchful = true ∧ w.seek.1.pending = true ∧
      w.seek.1.worker = some .claiming := by
  rcases w with ⟨⟨permit, run, _ | _ | ⟨alarm, notified⟩ | _ | rest⟩, pending⟩
  · cases hw
  · obtain rfl : pending = true := hp
    obtain ⟨rfl, rfl⟩ : run = {} ∧ permit = true := by simpa [watchful] using h
    exact ⟨rfl, rfl, rfl, rfl⟩
  · obtain rfl : pending = true := hp
    obtain ⟨rfl, rfl⟩ : run = {} ∧ notified = true := by simpa [watchful] using h
    exact ⟨rfl, rfl, rfl, rfl⟩
  · exact absurd rfl hc
  · cases h

theorem seek_of_claiming {w : Work β} (h : w.watchful = true) (hp : w.pending = true)
    (hc : w.worker = some .claiming) : w.seek = ({ w with pending := false }, .claimed) := by
  rcases w with ⟨⟨permit, run, worker⟩, pending⟩
  obtain rfl : pending = true := hp
  obtain rfl : worker = some .claiming := hc
  obtain rfl : run = ⟨some .worker, []⟩ := by simpa [watchful] using h
  rfl

theorem watchful_finish {w : Work β} (h : w.watchful = true) (hp : w.pending = false)
    (hc : w.worker = some .claiming) (rest : β) :
    ({ w with toLane := (w.toLane.begin rest).finish } : Work β).watchful = true := by
  rcases w with ⟨⟨permit, run, worker⟩, pending⟩
  obtain rfl : pending = false := hp
  obtain rfl : worker = some .claiming := hc
  obtain rfl : run = ⟨some .worker, []⟩ := by simpa [watchful] using h
  rfl

theorem isSome_worker_seek {w : Work β} (h : w.watchful = true) (hw : w.worker.isSome = true) :
    w.seek.1.worker.isSome = true := by
  rcases w with ⟨⟨permit, run, _ | _ | ⟨alarm, notified⟩ | _ | rest⟩, pending⟩
  · cases hw
  · cases permit <;> rfl
  · cases notified <;> rfl
  · obtain rfl : run = ⟨some .worker, []⟩ := by simpa [watchful] using h
    cases pending <;> rfl
  · cases h

theorem rest?_of_watchful {w : Work β} (h : w.watchful = true) : w.rest? = none := by
  rcases w with ⟨⟨permit, run, _ | _ | ⟨alarm, notified⟩ | _ | rest⟩, pending⟩
  · rfl
  · rfl
  · rfl
  · rfl
  · cases h

end Work

namespace Controller

section Moves

variable [Probe ρ] {s : Controller ρ}

theorem act_pollInit_of_looking (hr : s.pollInit.rest? = none) (hs : s.pollInit.seek.2 = .looking)
    (timerFirst : Bool) : ∃ line, s.act (.move .pollInit timerFirst) =
      { s with pollInit := s.pollInit.seek.1, ready := line } := by
  have hmove : s.movePollInit = { s with pollInit := s.pollInit.seek.1 } := by
    unfold movePollInit
    split
    · rename_i disabled hw
      rw [Lane.rest?, hw] at hr
      cases hr
    · split
      · rename_i w hw
        rw [hw]
      · rename_i w hw
        rw [hw] at hs
        cases hs
  show ∃ line, s.move .pollInit timerFirst = _
  unfold move
  simp only [hmove]
  exact ⟨_, rfl⟩

theorem act_pollInit_of_claimed {w : Work Rest} (hr : s.pollInit.rest? = none)
    (hs : s.pollInit.seek = (w, .claimed)) (timerFirst : Bool) :
    ∃ line, s.act (.move .pollInit timerFirst) =
      { s with
        pollInit := { w with toLane := w.toLane.begin { pins := s.table.pinsIn .disabled } }
        mode := s.mode.request .pollInit
        ready := line } := by
  have hmove : s.movePollInit =
      { s with
        pollInit := { w with toLane := w.toLane.begin { pins := s.table.pinsIn .disabled } }
        mode := s.mode.request .pollInit } := by
    unfold movePollInit
    split
    · rename_i disabled hw
      rw [Lane.rest?, hw] at hr
      cases hr
    · rw [hs]
      rfl
  show ∃ line, s.move .pollInit timerFirst = _
  unfold move
  simp only [hmove]
  exact ⟨_, rfl⟩

omit [Probe ρ] in
theorem calls_noteAll (s : Controller ρ) (ms : List Message) : (s.noteAll ms).calls = s.calls := by
  rw [noteAll_eq]
  simp [calls]

omit [Probe ρ] in
theorem calls_pollInitPass (s : Controller ρ) (disabled : PinSet) :
    (s.pollInitPass disabled).calls =
      (if s.pollForced then [] else [.irqEvent]) ++
        (if s.pollForced || s.connectors.any
            (·.staysPolling s.caps.hasHotplug s.pollForced disabled) then [.pollEnable] else []) ++
          s.calls := by
  rw [pollInitPass_closed]
  simp only
  generalize (s.connectors.filter _).map _ = messages
  generalize s.connectors.any _ = strands
  generalize s.connectors.map _ = connectors
  have hpolled : (if s.pollForced || strands then
        ({ s.noteAll messages with connectors } : Controller ρ).call .pollEnable
      else { s.noteAll messages with connectors }).calls =
        (if s.pollForced || strands then [.pollEnable] else []) ++ s.calls := by
    rw [← s.calls_noteAll messages]
    split <;> rfl
  split
  · exact (outward_calls.releaseMode _).trans hpolled
  · exact congrArg (.irqEvent :: ·) ((outward_calls.releaseMode _).trans hpolled)

/-- The worker has the lock and makes its run. -/
theorem act_pollInit_of_running {rest : Rest}
    (hw : s.pollInit.worker = some (.running rest)) (hm : s.mode.heldBy .pollInit = true)
    (timerFirst : Bool) :
    (∃ line ts, s.act (.move .pollInit timerFirst) =
      { s with
        connectors :=
          s.connectors.map (·.reinitialized s.caps.hasHotplug s.pollForced rest.pins)
        pollInit := { s.pollInit with toLane := s.pollInit.toLane.finish }
        mode := s.mode.release
        ready := line
        trace := ts }) ∧
    (s.act (.move .pollInit timerFirst)).calls =
      (if s.pollForced then [] else [.irqEvent]) ++
        (if s.pollForced || s.connectors.any
            (·.staysPolling s.caps.hasHotplug s.pollForced rest.pins) then [.pollEnable] else []) ++
          s.calls := by
  obtain ⟨line, ts, hpass⟩ := s.pollInitPass_eq_with rest.pins
  have hcalls := s.calls_pollInitPass rest.pins
  have hmove : s.movePollInit = (s.pollInitPass rest.pins).finishRun .pollInit := by
    unfold movePollInit
    rw [hw]
    exact if_pos hm
  constructor
  · show ∃ line ts, s.move .pollInit timerFirst = _
    unfold move
    simp only [hmove, hpass]
    exact ⟨_, ts, rfl⟩
  · rw [← hcalls]
    show s.movePollInit.calls = _
    rw [hmove]
    rfl

end Moves

section Turns

def chosen (s : Controller ρ) : ConnectorList ρ :=
  s.connectors.map fun c =>
    { c with
      polled := (c.choice s.caps.hasHotplug s.pollForced (s.table.state · = .disabled)).1 }

/-- The calls of a poll-init run, last one first. -/
def choiceCalls (s : Controller ρ) : List Call :=
  (if s.pollForced then [] else [.irqEvent]) ++
    if s.pollForced || s.connectors.any fun c =>
        (c.choice s.caps.hasHotplug s.pollForced (s.table.state · = .disabled)).2 then
      [.pollEnable]
    else []

theorem contains_disabled (s : Controller ρ) :
    (s.table.pinsIn .disabled).contains = fun p => decide (s.table.state p = .disabled) :=
  funext fun p => s.table.contains_pinsIn .disabled p

theorem chosen_eq (s : Controller ρ) :
    s.connectors.map (·.reinitialized s.caps.hasHotplug s.pollForced
      (s.table.pinsIn .disabled)) = s.chosen := by
  unfold chosen
  refine List.map_congr_left fun c _ => ?_
  rw [Connector.reinitialized_eq, contains_disabled]

theorem choiceCalls_eq (s : Controller ρ) :
    ((if s.pollForced then [] else [.irqEvent]) ++
      if s.pollForced || s.connectors.any (·.staysPolling s.caps.hasHotplug s.pollForced
        (s.table.pinsIn .disabled)) then [.pollEnable] else []) = s.choiceCalls := by
  unfold choiceCalls
  simp only [Connector.staysPolling_eq, contains_disabled]

theorem chosen_of_chosen {s u : Controller ρ} (hconnectors : u.connectors = s.chosen)
    (hcaps : u.caps = s.caps) (hforced : u.pollForced = s.pollForced)
    (hdisabled : ∀ p, u.table.state p = .disabled ↔ s.table.state p = .disabled) :
    u.chosen = u.connectors := by
  have hpins : (fun p => decide (u.table.state p = .disabled)) =
      fun p => decide (s.table.state p = .disabled) :=
    funext fun p => decide_eq_decide.mpr (hdisabled p)
  rw [chosen, hcaps, hforced, hpins, hconnectors, chosen, List.map_map]
  rfl

variable [Probe ρ] {s : Controller ρ}

def pollInitRuns (s : Controller ρ) (as : List Action) : Nat :=
  (s.trail as).countP fun x => (x.1.endedReading x.2).isSome

theorem pollInitRuns_cons (s : Controller ρ) (a : Action) (as : List Action) :
    s.pollInitRuns (a :: as) =
      (s.act a).pollInitRuns as + if (s.endedReading a).isSome then 1 else 0 :=
  List.countP_cons

omit [Probe ρ] in
theorem endedReading_of_watchful (h : s.pollInit.watchful = true) (timerFirst : Bool) :
    s.endedReading (.move .pollInit timerFirst) = none := by
  unfold endedReading
  rw [Work.rest?_of_watchful h]
  exact ite_self _

theorem run_of_not_pending (h : s.pollInit.watchful = true) (hp : s.pollInit.pending = false)
    (n : Nat) :
    ∃ w line, s.run (Action.moves .pollInit n) = { s with pollInit := w, ready := line } ∧
      w.watchful = true ∧ w.pending = false ∧
        (s.pollInit.worker.isSome = true → w.worker.isSome = true) ∧
          s.pollInitRuns (Action.moves .pollInit n) = 0 := by
  induction n generalizing s with
  | zero => exact ⟨s.pollInit, s.ready, rfl, h, hp, id, rfl⟩
  | succ n ih =>
    obtain ⟨hlooking, hseek, hpending⟩ := Work.seek_of_not_pending h hp
    obtain ⟨line, hact⟩ := act_pollInit_of_looking (Work.rest?_of_watchful h) hlooking true
    obtain ⟨w, line', hrun, hw, hwp, hworker, hruns⟩ :=
      ih (s := { s with pollInit := s.pollInit.seek.1, ready := line }) hseek hpending
    refine ⟨w, line', ?_, hw, hwp, fun hs => hworker (Work.isSome_worker_seek h hs), ?_⟩
    · rw [Action.moves_succ, run, List.foldl_cons, hact]
      exact hrun
    · rw [Action.moves_succ, pollInitRuns_cons, endedReading_of_watchful h, hact, hruns]
      rfl

/-- In a number of moves the worker makes one poll-init run. Every connector gets the mode of its
choice, and nothing else changes. -/
def ServedIn (s : Controller ρ) (n : Nat) : Prop :=
  ∃ w line ts,
    s.run (Action.moves .pollInit n) =
        { s with connectors := s.chosen, pollInit := w, ready := line, trace := ts } ∧
      w.watchful = true ∧ w.pending = false ∧ w.worker.isSome = true ∧
        (s.run (Action.moves .pollInit n)).calls = s.choiceCalls ++ s.calls ∧
          s.pollInitRuns (Action.moves .pollInit n) = 1

theorem act_act_of_claiming (h : s.pollInit.watchful = true) (hp : s.pollInit.pending = true)
    (hc : s.pollInit.worker = some .claiming) (hm : s.mode = {}) :
    let running := s.act (.move .pollInit true)
    let done := running.act (.move .pollInit true)
    (∃ w line ts,
      done = { s with connectors := s.chosen, pollInit := w, ready := line, trace := ts } ∧
        w.watchful = true ∧ w.pending = false ∧ w.worker.isSome = true) ∧
      done.calls = s.choiceCalls ++ s.calls ∧
        (running.endedReading (.move .pollInit true)).isSome = true := by
  intro running done
  have hseek := Work.seek_of_claiming h hp hc
  generalize htaken : ({ s.pollInit with pending := false } : Work Rest) = taken at hseek
  have hwatchful : taken.watchful = true := by
    rw [← htaken, Work.watchful, hc]
    rwa [Work.watchful, hc] at h
  have hpending : taken.pending = false := by rw [← htaken]
  have hclaiming : taken.worker = some .claiming := by rw [← htaken, ← hc]
  obtain ⟨line, hclaim⟩ := act_pollInit_of_claimed (Work.rest?_of_watchful h) hseek true
  rw [hm] at hclaim
  have hlock : running.mode.heldBy .pollInit = true := by
    rw [show running = _ from hclaim]
    rfl
  have hworker :
      running.pollInit.worker = some (.running { pins := s.table.pinsIn .disabled }) := by
    rw [show running = _ from hclaim]
    rfl
  obtain ⟨⟨line', ts, hpass⟩, hcalls⟩ := act_pollInit_of_running hworker hlock true
  refine ⟨⟨_, line', ts, ?_,
    Work.watchful_finish hwatchful hpending hclaiming { pins := s.table.pinsIn .disabled },
    hpending, rfl⟩,
    ?_, ?_⟩
  · have hmode : (({} : Lock ModeParty).request .pollInit).release = s.mode := by
      rw [hm]
      rfl
    rw [show done = _ from hpass, ← chosen_eq]
    simp only [show running = _ from hclaim, hmode]
  · rw [show done.calls = _ from hcalls, show running = _ from hclaim, ← choiceCalls_eq]
    rfl
  · rw [endedReading, if_pos hlock, Lane.rest?, hworker]
    rfl

theorem servedIn_of_claiming (h : s.pollInit.watchful = true) (hp : s.pollInit.pending = true)
    (hc : s.pollInit.worker = some .claiming) (hm : s.mode = {}) (n : Nat) :
    s.ServedIn (n + 2) := by
  obtain ⟨⟨w, line, ts, hdone, hwatchful, hpending, hworker⟩, hcalls, hreading⟩ :=
    act_act_of_claiming h hp hc hm
  generalize hrunning : s.act (.move .pollInit true) = running at *
  generalize hstate : running.act (.move .pollInit true) = done at *
  subst hdone
  obtain ⟨w', line', hrest, hw, hwp, hstays, hruns⟩ := run_of_not_pending
    (s := { s with connectors := s.chosen, pollInit := w, ready := line, trace := ts })
    hwatchful hpending n
  have hrun : s.run (Action.moves .pollInit (n + 2)) =
      { s with connectors := s.chosen, pollInit := w', ready := line', trace := ts } := by
    rw [Action.moves_succ, Action.moves_succ, run, List.foldl_cons, List.foldl_cons, hrunning,
      hstate]
    exact hrest
  refine ⟨w', line', ts, hrun, hw, hwp, hstays hworker, ?_, ?_⟩
  · rw [hrun]
    exact hcalls
  · rw [Action.moves_succ, Action.moves_succ, pollInitRuns_cons, endedReading_of_watchful h,
      hrunning, pollInitRuns_cons, hreading, hstate, hruns]
    rfl

theorem servedIn_of_pending (h : s.pollInit.watchful = true) (hp : s.pollInit.pending = true)
    (hw : s.pollInit.worker.isSome = true) (hm : s.mode = {}) {n : Nat} (hn : 3 ≤ n) :
    s.ServedIn n := by
  obtain ⟨n, rfl⟩ := Nat.exists_eq_add_of_le' hn
  by_cases hc : s.pollInit.worker = some .claiming
  · exact servedIn_of_claiming h hp hc hm (n + 1)
  · obtain ⟨hlooking, hseek, hpending, hclaiming⟩ := Work.seek_of_pending h hp hw hc
    obtain ⟨line, hact⟩ := act_pollInit_of_looking (Work.rest?_of_watchful h) hlooking true
    obtain ⟨w, line', ts, hrun, hserved, hwp, hworker, hcalls, hruns⟩ :=
      servedIn_of_claiming (s := { s with pollInit := s.pollInit.seek.1, ready := line })
        hseek hpending hclaiming hm n
    have hmove : s.run (Action.moves .pollInit (n + 3)) =
        ({ s with pollInit := s.pollInit.seek.1, ready := line } : Controller ρ).run
          (Action.moves .pollInit (n + 2)) := by
      rw [Action.moves_succ, run, List.foldl_cons, hact]
      rfl
    refine ⟨w, line', ts, hmove.trans hrun, hserved, hwp, hworker, ?_, ?_⟩
    · rw [hmove]
      exact hcalls
    · rw [Action.moves_succ, pollInitRuns_cons, endedReading_of_watchful h, hact]
      exact hruns

end Turns

section Preparations

structure Prepared (s : Controller ρ) (last : Option Bool) (t : Controller ρ) : Prop where

  connectors : t.connectors = s.connectors

  caps : t.caps = s.caps

  mode : t.mode = s.mode

  watchful : t.pollInit.watchful = true

  worker : s.pollInit.worker.isSome = true → t.pollInit.worker.isSome = true

  requested {forced : Bool} : last = some forced →
    t.pollForced = forced ∧ t.pollInit.pending = true

variable {s t : Controller ρ} {last : Option Bool}

theorem Prepared.queued (h : s.Prepared last t) (table : PinTable) (forced : Bool)
    (line : List Job) (ts : List Event) :
    s.Prepared (some forced)
      { t with
        table, pollForced := forced, pollInit := t.pollInit.queue.1, ready := line
        trace := ts } where
  connectors := h.connectors
  caps := h.caps
  mode := h.mode
  watchful := Work.watchful_queue h.watchful
  worker hs := by
    rw [Work.isSome_worker_queue]
    exact h.worker hs
  requested hforced := ⟨Option.some_inj.mp hforced, t.pollInit.pending_queue⟩

theorem Prepared.startLane (h : s.Prepared last t) (j : Job) :
    s.Prepared last ((t.withLane j Lane.start).rouse j) := by
  obtain ⟨line, hrouse⟩ := (t.withLane j Lane.start).rouse_eq j
  rw [hrouse]
  cases j with
  | pollInit =>
    exact ⟨h.connectors, h.caps, h.mode, Work.watchful_start h.watchful,
      fun _ => Option.isSome_or.trans (Bool.or_true _), h.requested⟩
  | _ => exact ⟨h.connectors, h.caps, h.mode, h.watchful, h.worker, h.requested⟩

theorem Prepared.startLanes (h : s.Prepared last t) (js : List Job) :
    s.Prepared last (js.foldl (fun s j => (s.withLane j Lane.start).rouse j) t) := by
  induction js generalizing t with
  | nil => exact h
  | cons j js ih => exact ih (h.startLane j)

variable [Probe ρ]

theorem Prepared.act (h : s.Prepared last t) (x : Preparation) :
    s.Prepared (x.forces?.or last) (t.act x.action) := by
  cases x with
  | init =>
    obtain ⟨line, hqueued⟩ := ({ t with
      table := t.table.reset, pollForced := false
      pollInit := t.pollInit.queue.1 } : Controller ρ).rouse_eq .pollInit
    have hinit : t.init = setupIrqs { t with
        table := t.table.reset, pollForced := false
        pollInit := t.pollInit.queue.1, ready := line } :=
      congrArg setupIrqs hqueued
    show s.Prepared (some false) t.init
    rw [hinit, setupIrqs]
    split
    · exact h.queued _ false line _
    · exact h.queued _ false line _
  | forcePolling on =>
    obtain ⟨line, hqueued⟩ := ({ t with
      pollForced := on, pollInit := t.pollInit.queue.1 } : Controller ρ).rouse_eq .pollInit
    have hforce : t.forcePolling on =
        { t with pollForced := on, pollInit := t.pollInit.queue.1, ready := line } := hqueued
    show s.Prepared (some on) (t.forcePolling on)
    rw [hforce]
    exact h.queued _ on line _
  | start =>
    show s.Prepared last ((t.start true).toOption.getD t)
    unfold start
    simp only [Bool.not_true, Bool.false_eq_true, if_false]
    split
    · exact h
    · have hlanes := h.startLanes Job.all
      exact ⟨hlanes.connectors, hlanes.caps, hlanes.mode, hlanes.watchful, hlanes.worker,
        hlanes.requested⟩

theorem prepared_run (h : s.pollInit.watchful = true) (xs : List Preparation) :
    s.Prepared (Preparation.lastForced xs) (s.run (xs.map Preparation.action)) := by
  induction xs using List.reverseRecOn with
  | nil => exact ⟨rfl, rfl, rfl, h, id, nofun⟩
  | append_singleton xs x ih =>
    rw [List.map_append, List.map_singleton, run_concat, Preparation.lastForced_concat]
    exact ih.act x

end Preparations

/-- Whatever happened to a controller that was not shut down, its poll-init item is watchful as long
as no run is in flight and no client waits for one. -/
theorem watchful_run [Probe ρ] (settings : Settings) (connectors : ConnectorList ρ)
    (ports : Port → Option PulseHandler) {as : List Action}
    (has : ∀ client, .shutdown client ∉ as) :
    let s := (ofSettings settings connectors ports).run as
    s.pollInit.rest? = none → (∀ x ∈ s.errands, x.2.job ≠ .pollInit) →
      s.pollInit.watchful = true := by
  intro s hrest hclients
  obtain ⟨there, hline⟩ := Backlog.inLine_run
    ⟨false, Backlog.inLine_ofSettings settings connectors ports⟩ as
  have hlined : s.pollInit.Lined (waiting s.errands .pollInit) :=
    (hline.lanes .pollInit).lined
  have hnobody : waiting s.errands .pollInit = [] := by
    refine List.eq_nil_iff_forall_not_mem.mpr fun client hin => ?_
    obtain ⟨e, he, hjob⟩ := mem_waiting.mp hin
    exact hclients _ he hjob
  rw [hnobody] at hlined
  exact Work.watchful_of_attended hlined
    (attended_run settings connectors ports has (j := .pollInit) (by decide)) hrest

/-- The run that follows on requests, however many and after whatever modes, gives every connector
the mode that its own data, the last request and the disabled pins call for, and makes the calls
that go with it. A further run changes no mode. -/
theorem poll_init_forgets_history [Probe ρ] (s : Controller ρ) (hmode : s.mode = {})
    (hwatchful : s.pollInit.watchful = true) (xs : List Preparation) (forced : Bool)
    (hlast : Preparation.lastForced xs = some forced) :
    let t := s.run (xs.map Preparation.action)
    t.pollInit.worker.isSome = true → ∀ n, 3 ≤ n →
      let u := t.run (Action.moves .pollInit n)
      let choice (c : Connector ρ) := pollChoice s.caps.hasHotplug forced
        (t.table.state · = .disabled) c.preference c.multiStream c.pin
      u.connectors = s.connectors.map (fun c => { c with polled := (choice c).1 }) ∧
        t.pollInitRuns (Action.moves .pollInit n) = 1 ∧
        u.calls = (if forced then [] else [.irqEvent]) ++
          (if forced || s.connectors.any (fun c => (choice c).2) then [.pollEnable] else []) ++
            t.calls ∧
        (∃ w line ts, u =
          { t with connectors := u.connectors, pollInit := w, ready := line, trace := ts }) ∧
        ∀ ys, Preparation.lastForced ys = some forced →
          let v := u.run (ys.map Preparation.action)
          (∀ p, v.table.state p = .disabled ↔ t.table.state p = .disabled) →
            ∀ m, 3 ≤ m → (v.run (Action.moves .pollInit m)).connectors = u.connectors := by
  intro t hworker n hn u choice
  have ht := prepared_run hwatchful xs
  obtain ⟨hforced, hpending⟩ := ht.requested hlast
  obtain ⟨w, line, ts, hrun, hw, hwp, hstays, hcalls, hruns⟩ :=
    servedIn_of_pending ht.watchful hpending hworker (ht.mode.trans hmode) hn
  have hchosen : t.chosen = s.connectors.map (fun c => { c with polled := (choice c).1 }) := by
    rw [chosen, ht.caps, hforced, ht.connectors]
    rfl
  have hchoice : t.choiceCalls = (if forced then [] else [.irqEvent]) ++
      if forced || s.connectors.any (fun c => (choice c).2) then [.pollEnable] else [] := by
    rw [choiceCalls, ht.caps, hforced, ht.connectors]
    rfl
  have hu : u = { t with connectors := t.chosen, pollInit := w, ready := line, trace := ts } :=
    hrun
  have hconnectors : u.connectors = t.chosen := by rw [hu]
  refine ⟨hconnectors.trans hchosen, hruns, by rw [← hchoice]; exact hcalls,
    ⟨w, line, ts, by rw [hconnectors]; exact hu⟩, ?_⟩
  intro ys hys v hdisabled m hm
  have hv : u.Prepared (some forced) v := by
    rw [← hys]
    exact prepared_run (by rw [hu]; exact hw) ys
  obtain ⟨hforced', hpending'⟩ := hv.requested rfl
  have hidle : v.mode = {} := by
    rw [hv.mode, hu]
    exact ht.mode.trans hmode
  obtain ⟨w', line', ts', hrun', -⟩ := servedIn_of_pending hv.watchful hpending'
    (hv.worker (by rw [hu]; exact hstays)) hidle hm
  rw [hrun', ← hv.connectors]
  refine chosen_of_chosen (hv.connectors.trans hconnectors) ?_ (hforced'.trans hforced.symm)
    hdisabled
  rw [hv.caps, hu]

/-- Polling is forced and let go again before the workers start, while one pin is disabled. -/
theorem poll_init_forgets_forced_polling :
    let connector (pin : Option Pin) (multiStream : Bool) : Connector Script :=
      .make "DP-1" pin .unset multiStream ⟨[true], ⟨∅, ∅⟩, 0⟩
    let s := (ofSettings {} [connector (some .portB) false, connector (some .portC) false,
      connector (some .portB) true, connector none false] fun _ => none).act (.disable .portB)
    let xs : List Preparation := [.forcePolling true, .start, .forcePolling false]
    let u := (s.run (xs.map Preparation.action)).run (Action.moves .pollInit 5)
    u.connectors.map Connector.polled = [.connectDisconnect, .hpd, .unset, .unset] ∧
      u.calls = [.irqEvent, .pollEnable] := by
  intro connector s xs u
  obtain ⟨hmodes, -, hcalls, -, -⟩ :=
    poll_init_forgets_history s rfl rfl xs false rfl (by decide) 5 (by decide)
  exact ⟨(congrArg (List.map Connector.polled) hmodes).trans (by decide), hcalls.trans (by decide)⟩

end Controller

end HotplugDetect
