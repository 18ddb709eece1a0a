import HotplugDetect.Controller.Script
import HotplugDetect.Proofs.Backlog.Basic
import HotplugDetect.Proofs.Backlog.Turns
import HotplugDetect.Proofs.Work.Wakeup

/-! # Recorded events are queued

Whatever was recorded, the work that takes it up is pending. A cancellation could break this if it
had to wait for a run of the digital ports, but on one thread it never finds such a run.
-/

namespace HotplugDetect

variable {ρ : Type}

section Lanes

variable {β : Type}

theorem Lane.Lined.run_eq_empty {l : Lane β} (h : l.Lined []) (hw : l.run.holder ≠ some .worker) :
    l.run = {} := by
  have hnone : l.run.holder = none := by
    rcases hholder : l.run.holder with _ | _ | id
    · rfl
    · exact absurd hholder hw
    · have hid := Lane.mem_clients.mpr (Lock.mem_line_of_holder hholder)
      rw [h.clients] at hid
      cases hid
  have hqueue := h.orderly hnone
  rcases hl : l.run with ⟨holder, queue⟩
  rw [hl] at hnone hqueue
  obtain rfl : holder = none := hnone
  obtain rfl : queue = [] := hqueue
  rfl

theorem Lane.Lined.run_of_not_canMove {l : Lane β} (h : l.Lined []) {now : Nat}
    (hm : l.canMove now (fun _ => true) = false) : l.run = {} := by
  refine h.run_eq_empty fun hh => ?_
  have hp := h.placed
  have hin := Lock.mem_line_of_holder hh
  rcases l with ⟨permit, run, _ | _ | ⟨u, notified⟩ | _ | rest⟩
  · exact hp hin
  · exact hp hin
  · exact hp hin
  · rw [Lane.canMove, (Lock.heldBy_iff _ _).mpr hh] at hm
    cases hm
  · cases hm

theorem Lane.Lined.rest?_of_free {l : Lane β} {ids : List Nat} (h : l.Lined ids)
    (hfree : l.run = {}) : l.rest? = none := by
  refine Lane.rest?_of_not_running fun rest hw => ?_
  have hp := h.placed
  rw [Lane.Placed, hw, hfree] at hp
  cases hp.1

theorem Lane.run_stop_of_free {l : Lane β} (h : l.run = {}) : l.stop.run = {} := by
  rcases l with ⟨permit, run, _ | _ | ⟨u, notified⟩ | _ | rest⟩ <;>
    obtain rfl : run = {} := h <;> rfl

/-- No client waits at the run lock, and the lock is free unless the worker has the thread. -/
structure Lane.Unqueued (engaged : Prop) (l : Lane β) : Prop where

  lined : l.Lined []

  free : ¬engaged → l.run = {}

namespace Lane.Unqueued

variable {l : Lane β} {engaged : Prop}

theorem engage (h : l.Lined []) (he : engaged) : l.Unqueued engaged := ⟨h, fun hn => absurd he hn⟩

theorem notify (h : l.Unqueued engaged) : l.notify.Unqueued engaged where
  lined := h.lined.notify
  free hn := by rw [run_notify, h.free hn]

theorem start (h : l.Unqueued engaged) : l.start.Unqueued engaged := ⟨h.lined.start, h.free⟩

theorem stop (h : l.Unqueued engaged) (hn : ¬engaged) : l.stop.Unqueued engaged :=
  ⟨h.lined.stop, fun _ => Lane.run_stop_of_free (h.free hn)⟩

end Lane.Unqueued

theorem Work.unqueued_queue {w : Work β} {engaged : Prop} (h : w.Unqueued engaged) :
    w.queue.1.Unqueued engaged := by
  unfold queue
  split
  · exact h
  · exact h.notify

end Lanes

namespace Backlog

def Clear (b : Backlog) : Job → Prop
  | .digital => b.longPorts = ∅ ∧ b.shortPorts = ∅
  | .generic => b.eventPins = ∅
  | .pollInit => True
  | .reenable => True

theorem Clear.withLane {b : Backlog} {k : Job} (h : b.Clear k) {j : Job}
    {f : Lane Rest → Lane Rest} : (b.withLane j f).Clear k := by
  cases j <;> cases k <;> exact h

/-- A cancellation that waits for a run that may be long; the jobs after it come in order. -/
def Waiting (e : Errand) : Prop :=
  ∃ j rest stop, e = .cancel j rest stop ∧ j.prompt = false ∧ j :: rest <:+ Job.all

/-- What holds on one thread while the worker `busy` has it. -/
structure Kept (busy : Option Job) (b : Backlog) : Prop where

  digitalLane : b.digital.Unqueued (busy = some .digital)

  reenableLane : b.reenable.Unqueued (busy = some .reenable)

  errands {x : Nat × Errand} : x ∈ b.errands → Waiting x.2

  digital : b.digital.pending = false → b.Clear .digital

  generic : b.generic.pending = false → b.Clear .generic

namespace Kept

variable {b b' : Backlog} {busy : Option Job}

theorem unqueued (h : b.Kept busy) {j : Job} (hj : j.prompt = true) :
    (b.lane j).Unqueued (busy = some j) := by
  cases j with
  | digital => exact h.digitalLane
  | generic => cases hj
  | pollInit => cases hj
  | reenable => exact h.reenableLane

theorem engage (h : b.Kept none) (busy : Option Job) : b.Kept busy :=
  { h with
    digitalLane := ⟨h.digitalLane.lined, fun _ => h.digitalLane.free nofun⟩
    reenableLane := ⟨h.reenableLane.lined, fun _ => h.reenableLane.free nofun⟩ }

theorem disengage {j : Job} (h : b.Kept (some j)) (hj : j.prompt = true → (b.lane j).run = {}) :
    b.Kept none where
  digitalLane := by
    refine ⟨h.digitalLane.lined, fun _ => ?_⟩
    by_cases hd : j = .digital
    · subst hd
      exact hj rfl
    · exact h.digitalLane.free fun he => hd (Option.some_inj.mp he)
  reenableLane := by
    refine ⟨h.reenableLane.lined, fun _ => ?_⟩
    by_cases hd : j = .reenable
    · subst hd
      exact hj rfl
    · exact h.reenableLane.free fun he => hd (Option.some_inj.mp he)
  errands := h.errands
  digital := h.digital
  generic := h.generic

theorem interrupted (h : b.Kept busy) (hi : b.Interrupted b') : b'.Kept busy where
  digitalLane := by
    rcases hi.digital with hd | ⟨hd, -, -⟩
    · rw [hd]
      exact Work.unqueued_queue h.digitalLane
    · rw [hd]
      exact h.digitalLane
  reenableLane := by
    rw [hi.rest]
    exact h.reenableLane
  errands hx := by
    rw [hi.rest] at hx
    exact h.errands hx
  digital hp := by
    rcases hi.digital with hd | ⟨hd, hlong, hshort⟩
    · rw [hd, Work.pending_queue] at hp
      cases hp
    · rw [hd] at hp
      rw [Clear, hlong, hshort]
      exact h.digital hp
  generic hp := by
    rcases hi.generic with hd | ⟨hd, hpins⟩
    · rw [hd, Work.pending_queue] at hp
      cases hp
    · rw [hd] at hp
      rw [Clear, hpins]
      exact h.generic hp

theorem withGeneric (h : b.Kept busy) {generic : Work Rest} {pins : PinSet}
    (hp : generic.pending = false → pins = ∅) (pollInit : Work Rest) (mode : Lock ModeParty) :
    ({ b with generic, eventPins := pins, pollInit, mode } : Backlog).Kept busy :=
  ⟨h.digitalLane, h.reenableLane, h.errands, h.digital, hp⟩

theorem withLane (h : b.Kept busy) {j : Job} (hj : j.prompt = false)
    (f : Lane Rest → Lane Rest) : (b.withLane j f).Kept busy := by
  cases j with
  | digital => cases hj
  | generic => exact ⟨h.digitalLane, h.reenableLane, h.errands, h.digital, h.generic⟩
  | pollInit => exact ⟨h.digitalLane, h.reenableLane, h.errands, h.digital, h.generic⟩
  | reenable => cases hj

theorem withReenable (h : b.Kept busy) {w : DelayedWork Rest}
    (hw : w.Unqueued (busy = some .reenable)) :
    ({ b with reenable := w } : Backlog).Kept busy :=
  ⟨h.digitalLane, hw, h.errands, h.digital, h.generic⟩

theorem withDigital (h : b.Kept busy) {w : Work Rest}
    (hw : w.Unqueued (busy = some .digital)) (hp : w.pending = false → b.Clear .digital) :
    ({ b with digital := w } : Backlog).Kept busy :=
  ⟨hw, h.reenableLane, h.errands, hp, h.generic⟩

theorem drained (h : b.Kept busy) {w : Work Rest} (hw : w.Unqueued (busy = some .digital)) :
    ({ b with longPorts := ∅, shortPorts := ∅, digital := w } : Backlog).Kept busy :=
  ⟨hw, h.reenableLane, h.errands, fun _ => ⟨rfl, rfl⟩, h.generic⟩

theorem withErrands (h : b.Kept busy) {es : List (Nat × Errand)}
    (hes : ∀ x ∈ es, x ∈ b.errands ∨ Waiting x.2) :
    ({ b with errands := es } : Backlog).Kept busy :=
  ⟨h.digitalLane, h.reenableLane, fun hx => (hes _ hx).elim h.errands id, h.digital, h.generic⟩

end Kept

end Backlog

namespace Controller

section Moves

variable {s : Controller ρ}

theorem kept_moveDigital (h : s.backlog.Kept (some .digital)) :
    s.moveDigital.backlog.Kept (some .digital) := by
  -- The worker has its run lock in all of the run.
  have hholder {t : Controller ρ} (ht : t.backlog.Kept (some .digital)) {rest : Rest}
      (hrest : t.digital.rest? = some rest) : t.digital.run.holder = some .worker := by
    have hp := ht.digitalLane.lined.placed
    rw [Lane.Placed, show t.backlog.digital.worker = _ from Lane.rest?_eq_some_iff.mp hrest] at hp
    exact hp.1
  unfold moveDigital
  split
  · rename_i rest hw
    have hrest := Lane.rest?_eq_some_iff.mpr hw
    split
    · rename_i long short htaken
      have hdelivered : (s.deliver long short ∅ Port.all).1.backlog.Kept (some .digital) :=
        deliver_induction (P := fun t => t.backlog.Kept (some .digital)) (fun _ _ ht => ht)
          (fun _ _ _ _ ht => ht) (fun t i ht => ht.interrupted (t.interrupted_interrupt i))
          long short
          ∅ Port.all s h
      have hflight := (running_deliver s long short ∅ Port.all).trans hrest
      simp only
      rw [backlog_beginRun]
      exact hdelivered.withDigital
        (.engage (hdelivered.digitalLane.lined.begin (hholder hdelivered hflight) _) rfl)
        hdelivered.digital
    · have hdone := h.withDigital (w := { s.digital with toLane := s.digital.toLane.finish })
        (.engage (h.digitalLane.lined.finish (hholder h hrest)) rfl) h.digital
      rw [backlog_finishRun, backlog_fallBack]
      split
      · exact hdone
      · refine hdone.withGeneric (fun hp => ?_) _ _
        rw [Work.pending_queue] at hp
        cases hp
  · split
    · rename_i w hs
      exact h.withDigital (.engage (Work.lined_of_seek hs h.digitalLane.lined) rfl) fun hp =>
        h.digital ((Work.pending_looking hs).symm.trans hp)
    · rename_i w hs
      have hlined := Work.lined_of_seek hs h.digitalLane.lined
      exact h.drained (.engage (hlined.begin (Work.holder_of_claimed hs).1 _) rfl)

theorem kept_probePass [Probe ρ] {busy : Option Job} (h : s.backlog.Kept busy) (pins : PinSet) :
    (s.probePass pins).backlog.Kept busy := by
  have hprobed : (s.probeAll pins s.connectors).1.backlog.Kept busy :=
    probeAll_induction (P := fun t => t.backlog.Kept busy) (fun _ _ ht => ht)
      (fun t i ht => ht.interrupted (t.interrupted_interrupt i)) pins s.connectors s h
  rw [backlog_probePass]
  exact hprobed.withGeneric hprobed.generic _ _

theorem kept_moveGeneric [Probe ρ] (h : s.backlog.Kept (some .generic)) :
    s.moveGeneric.backlog.Kept (some .generic) := by
  unfold moveGeneric
  split
  · rename_i rest hw
    split
    · rw [backlog_finishRun]
      exact (kept_probePass h rest.pins).withLane rfl _
    · exact h
  · split
    · rename_i w hs
      exact h.withGeneric (fun hp => h.generic ((Work.pending_looking hs).symm.trans hp)) _ _
    · rename_i w hs
      have htake := backlog_takeEvents ({ s with generic := w } : Controller ρ)
      simp only [backlog_requestMode, backlog_beginRun, htake]
      have hrearmed : ({ s.backlog with
          reenable :=
            if (s.table.pinsIn .autoDisabled).isEmpty then s.reenable
            else s.reenable.schedule (s.now + s.reenableDelay) } :
          Backlog).Kept (some .generic) := by
        refine h.withReenable ?_
        split
        · exact h.reenableLane
        · exact h.reenableLane.notify
      exact hrearmed.withGeneric (fun _ => rfl) _ _

theorem kept_movePollInit (h : s.backlog.Kept (some .pollInit)) :
    s.movePollInit.backlog.Kept (some .pollInit) := by
  unfold movePollInit
  split
  · rename_i disabled hw
    split
    · rw [backlog_finishRun, backlog_pollInitPass]
      exact h.withGeneric h.generic _ _
    · exact h
  · split
    · exact h.withGeneric h.generic _ _
    · exact h.withGeneric h.generic _ _

theorem kept_moveReenable (h : s.backlog.Kept (some .reenable)) (timerFirst : Bool) :
    (s.moveReenable timerFirst).backlog.Kept (some .reenable) := by
  unfold moveReenable
  split
  · rename_i w hs
    exact h.withReenable (.engage (DelayedWork.lined_of_seek hs h.reenableLane.lined) rfl)
  · rename_i w hs
    have hlined := DelayedWork.lined_of_seek hs h.reenableLane.lined
    have hh := DelayedWork.holder_of_claimed hs
    have hdone := (hlined.begin hh {}).finish hh
    rw [backlog_finishRun, backlog_reenablePass]
    exact h.withReenable (.engage hdone rfl)

theorem kept_move [Probe ρ] {j : Job} (h : s.backlog.Kept (some j)) (timerFirst : Bool) :
    (s.move j timerFirst).backlog.Kept (some j) := by
  cases j with
  | digital => exact kept_moveDigital h
  | generic => exact kept_moveGeneric h
  | pollInit => exact kept_movePollInit h
  | reenable => exact kept_moveReenable h timerFirst

theorem kept_of_not_canMove {j : Job} (h : s.backlog.Kept (some j)) (hm : s.canMove j = false) :
    s.backlog.Kept none := by
  refine h.disengage fun hj => ?_
  cases j with
  | digital => exact h.digitalLane.lined.run_of_not_canMove hm
  | generic => cases hj
  | pollInit => cases hj
  | reenable => exact h.reenableLane.lined.run_of_not_canMove hm

end Moves

section Errands

variable {s : Controller ρ}

theorem kept_disarm {busy : Option Job} (h : s.backlog.Kept busy) {j : Job}
    (hc : s.backlog.Clear j) : (s.disarm j).backlog.Kept busy := by
  cases j with
  | digital => exact h.withDigital h.digitalLane fun _ => hc
  | generic => exact h.withGeneric (fun _ => hc) _ _
  | pollInit => exact h.withGeneric (fun hp => h.generic hp) _ _
  | reenable =>
    rw [plain_backlog.disarmReenable]
    exact h.withReenable h.reenableLane.notify

theorem clear_disarm {j k : Job} (hc : s.backlog.Clear k) : (s.disarm j).backlog.Clear k := by
  cases j with
  | reenable =>
    rw [plain_backlog.disarmReenable]
    cases k <;> exact hc
  | _ => cases k <;> exact hc

theorem kept_stopWorkers (h : s.backlog.Kept none) : s.stopWorkers.backlog.Kept none := by
  rw [backlog_stopWorkers]
  exact ⟨h.digitalLane.stop nofun, h.reenableLane.stop nofun, h.errands, h.digital, h.generic⟩

theorem holdsRun_of_free {j : Job} (hfree : (s.lane j).run = {}) (client : Nat) :
    (s.requestRun j client).holdsRun j client = true := by
  have hrun : ((s.requestRun j client).lane j).run = (s.lane j).run.request (.client client) := by
    cases j <;> rfl
  rw [holdsRun, hrun, hfree]
  exact Lock.heldBy_request_of_free _ _ rfl

theorem backlog_releaseRun_of_free {j : Job} (hfree : (s.lane j).run = {}) (client : Nat) :
    ((s.requestRun j client).releaseRun j).backlog = s.backlog := by
  rw [backlog_releaseRun, backlog_requestRun, Backlog.withLane_withLane]
  refine Backlog.withLane_of_eq ?_
  rw [lane_backlog, hfree]
  exact congrArg (fun run => { s.lane j with run }) hfree.symm

theorem kept_cancelJobs (client : Nat) (stop : Bool) {js : List Job} (hjs : js <:+ Job.all)
    (h : s.backlog.Kept none) (hc : ∀ j ∈ js, s.backlog.Clear j) :
    (s.cancelJobs client stop js).backlog.Kept none := by
  induction js generalizing s with
  | nil =>
    unfold cancelJobs
    split
    · have hfree := h.digitalLane.free (Option.some_ne_none Job.digital).symm
      rw [stopAll_of_idle (h.digitalLane.lined.rest?_of_free hfree)]
      exact kept_stopWorkers h
    · exact h
  | cons j js ih =>
    have hrest : js <:+ Job.all := (List.suffix_cons j js).trans hjs
    have hdisarmed := kept_disarm h (hc j List.mem_cons_self)
    have hclear : ∀ k ∈ js, (s.disarm j).backlog.Clear k :=
      fun k hk => clear_disarm (hc k (List.mem_cons_of_mem j hk))
    unfold cancelJobs
    simp only
    cases hj : j.prompt with
    | true =>
      have hfree : ((s.disarm j).lane j).run = {} := by
        rw [← lane_backlog]
        exact (hdisarmed.unqueued hj).free (Option.some_ne_none j).symm
      have hsame := backlog_releaseRun_of_free hfree client
      rw [if_pos (holdsRun_of_free hfree client)]
      exact ih hrest (hsame ▸ hdisarmed) (fun k hk => hsame ▸ hclear k hk)
    | false =>
      have hasked : ((s.disarm j).requestRun j client).backlog.Kept none := by
        rw [backlog_requestRun]
        exact hdisarmed.withLane hj _
      split
      · refine ih hrest ?_ ?_
        · rw [backlog_releaseRun]
          exact hasked.withLane hj _
        · intro k hk
          rw [backlog_releaseRun, backlog_requestRun]
          exact (hclear k hk).withLane.withLane
      · refine hasked.withErrands fun x hx => ?_
        rcases List.mem_append.mp hx with hx | hx
        · exact .inl hx
        · obtain rfl := List.mem_singleton.mp hx
          exact .inr ⟨j, js, stop, rfl, hj, hjs⟩

theorem kept_recoverNow (h : s.backlog.Kept none) (client : Nat) :
    (s.requestRun .reenable client).recoverNow.backlog.Kept none := by
  have hlined := h.reenableLane.lined.request client
  have hrun : s.reenable.run = {} := h.reenableLane.free nofun
  have hgranted : (s.reenable.run.request (.client client)).holder = some (.client client) := by
    rw [hrun]
    rfl
  have hnotified (l : Lane Rest) (hl : l.run = s.reenable.run.request (.client client)) :
      l.notify.run.holder = some (.client client) := by
    rw [Lane.run_notify, hl, hgranted]
  rw [backlog_recoverNow, backlog_requestRun]
  refine ⟨h.digitalLane, ⟨hlined.notify.release (hnotified _ rfl), fun _ => ?_⟩, h.errands,
    h.digital, h.generic⟩
  show Lock.release (Lane.notify _).run = {}
  rw [Lane.run_notify]
  show (s.reenable.run.request _).release = {}
  rw [hrun]
  rfl

theorem kept_flush (h : s.backlog.Kept none) (client : Nat) :
    (s.flush client).backlog.Kept none := by
  have hfree : (s.lane .reenable).run = {} := h.reenableLane.free nofun
  unfold flush
  simp only
  rw [if_pos (holdsRun_of_free hfree client)]
  exact kept_recoverNow h client

theorem kept_configure (h : s.backlog.Kept none) (client : Nat) (config : StormConfig) :
    (s.configure client config).backlog.Kept none := by
  have hcleared : ({ s with table := { s.table with config }.clearCounts } :
      Controller ρ).backlog.Kept none := h
  unfold configure
  exact kept_flush hcleared client

theorem kept_withoutErrand (h : s.backlog.Kept none) (client : Nat) :
    (s.withoutErrand client).backlog.Kept none :=
  h.withErrands fun _ hx => .inl (List.mem_of_mem_filter hx)

theorem late_of_suffix {j k : Job} {rest : List Job} (hs : j :: rest <:+ Job.all)
    (hj : j.prompt = false) (hk : k ∈ rest) : k = .pollInit ∨ k = .reenable := by
  simp only [Job.all, List.suffix_cons_iff, List.cons.injEq, List.suffix_nil, reduceCtorEq,
    or_false] at hs
  rcases hs with ⟨rfl, rfl⟩ | ⟨rfl, rfl⟩ | ⟨rfl, rfl⟩ | ⟨rfl, rfl⟩
  · cases hj
  · simpa using hk
  · exact .inr (List.mem_singleton.mp hk)
  · cases hj

theorem kept_resume (h : s.backlog.Kept none) (client : Nat) :
    (s.resume client).backlog.Kept none := by
  unfold resume
  split
  · rename_i j rest stop he
    split
    · obtain ⟨j', rest', stop', heq, hj, hsuffix⟩ := h.errands (mem_of_lookup he)
      cases heq
      have hrest : rest <:+ Job.all := (List.suffix_cons j rest).trans hsuffix
      refine kept_cancelJobs client stop hrest ?_ fun k hk => ?_
      · rw [backlog_releaseRun]
        exact (kept_withoutErrand h client).withLane hj _
      · rcases late_of_suffix hsuffix hj hk with rfl | rfl <;> trivial
    · exact h
  · rename_i he
    obtain ⟨j, rest, stop, heq, -, -⟩ := h.errands (mem_of_lookup he)
    cases heq
  · exact h

theorem kept_abandon (h : s.backlog.Kept none) (client : Nat) :
    (s.abandon client).backlog.Kept none := by
  unfold abandon
  split
  · rename_i e he
    obtain ⟨j, rest, stop, rfl, hj, -⟩ := h.errands (mem_of_lookup he)
    rw [plain_backlog.rouse, backlog_withLane]
    exact (kept_withoutErrand h client).withLane hj _
  · exact h

/-- A cancellation forgets what was recorded before it drops the work. -/
theorem kept_cancel (h : s.backlog.Kept none) (client : Nat) (stop : Bool) :
    (({ s with longPorts := ∅, shortPorts := ∅, eventPins := ∅ } : Controller ρ).cancelJobs client
      stop Job.all).backlog.Kept none := by
  have hcleared : ({ s with longPorts := ∅, shortPorts := ∅, eventPins := ∅ } :
      Controller ρ).backlog.Kept none :=
    ⟨h.digitalLane, h.reenableLane, h.errands, fun _ => ⟨rfl, rfl⟩, fun _ => rfl⟩
  refine kept_cancelJobs client stop (List.suffix_refl _) hcleared fun j _ => ?_
  cases j
  · exact ⟨rfl, rfl⟩
  · rfl
  · trivial
  · trivial

theorem kept_start (h : s.backlog.Kept none) :
    ((s.start true).toOption.getD s).backlog.Kept none := by
  unfold start
  split
  · exact h
  · split
    · exact h
    · show (Controller.backlog (List.foldl _ s Job.all)).Kept none
      rw [backlog_startWorkers]
      exact ⟨h.digitalLane.start, h.reenableLane.start, h.errands, h.digital, h.generic⟩

end Errands

section Runs

variable [Probe ρ] {s : Controller ρ}

theorem kept_turn {j : Job} (h : s.backlog.Kept (some j)) (timerFirst : Bool) :
    (s.act (.move j timerFirst)).backlog.Kept (s.keepsThread (.move j timerFirst)) := by
  have hmoved : (s.move j timerFirst).backlog.Kept (some j) := kept_move h timerFirst
  show (s.move j timerFirst).backlog.Kept
    (if (s.move j timerFirst).canMove j then some j else none)
  split
  · exact hmoved
  · rename_i hm
    exact kept_of_not_canMove hmoved (Bool.not_eq_true _ ▸ hm)

theorem kept_act_of_free (h : s.backlog.Kept none) (a : Action) :
    (s.act a).backlog.Kept (s.keepsThread a) := by
  cases a with
  | interrupt i => exact h.interrupted (s.interrupted_interrupt i)
  | raw pinMask longMask => exact h.interrupted (s.interrupted_raw pinMask longMask)
  | init =>
    rw [act, backlog_init]
    exact h.withGeneric h.generic _ _
  | forcePolling on =>
    rw [act, backlog_forcePolling]
    exact h.withGeneric h.generic _ _
  | setIrqs on => exact h
  | disable p => exact h
  | enable p => exact h
  | setThreshold client k =>
    show (s.setThreshold client k).backlog.Kept none
    unfold setThreshold
    split
    · exact h
    · exact kept_configure (s := s.note _) h client _
  | setShortStorms client k =>
    show (s.setShortStorms client k).backlog.Kept none
    unfold setShortStorms
    split
    · exact h
    · exact kept_configure (s := s.note _) h client _
  | cancelAll client =>
    show (s.cancelAll client).backlog.Kept none
    unfold cancelAll
    split
    · exact h
    · exact kept_cancel h client false
  | shutdown client =>
    show (s.shutdown client).backlog.Kept none
    unfold shutdown
    split
    · exact h
    · exact kept_cancel h client true
  | resume client => exact kept_resume h client
  | abandon client => exact kept_abandon h client
  | start => exact kept_start h
  | hold party =>
    rw [act, backlog_hold]
    exact h.withGeneric h.generic _ _
  | release party =>
    rw [act, backlog_release]
    exact h.withGeneric h.generic _ _
  | move j timerFirst => exact kept_turn (h.engage _) timerFirst
  | giveWay => exact h
  | advance instant =>
    rw [act, backlog_advance]
    exact h

/-- On one thread every action keeps what was recorded queued. -/
theorem kept_act {busy : Option Job} (h : s.backlog.Kept busy) {a : Action}
    (ha : mayFollow busy a = true) : (s.act a).backlog.Kept (s.keepsThread a) := by
  cases busy with
  | none => exact kept_act_of_free h a
  | some j =>
    cases a with
    | move k timerFirst =>
      obtain rfl : k = j := of_decide_eq_true ha
      exact kept_turn h timerFirst
    | giveWay =>
      have hj : j.prompt = false := by simpa [mayFollow] using ha
      exact h.disengage fun hp => absurd hp (by rw [hj]; decide)
    | _ => cases ha

omit [Probe ρ] in
theorem kept_ofSettings (settings : Settings) (connectors : ConnectorList ρ)
    (ports : Port → Option PulseHandler) :
    (ofSettings settings connectors ports).backlog.Kept none where
  digitalLane := ⟨⟨Lock.orderly_empty, List.not_mem_nil, rfl⟩, fun _ => rfl⟩
  reenableLane := ⟨⟨Lock.orderly_empty, List.not_mem_nil, rfl⟩, fun _ => rfl⟩
  errands := nofun
  digital _ := ⟨rfl, rfl⟩
  generic _ := rfl

theorem kept_of_schedulingPoint (settings : Settings) (connectors : ConnectorList ρ)
    (ports : Port → Option PulseHandler) {as : List Action}
    (has : (ofSettings settings connectors ports).SchedulingPoint as) :
    ((ofSettings settings connectors ports).run as).backlog.Kept none :=
  has.2 ▸ oneThreaded_induction (P := fun busy s => s.backlog.Kept busy)
    (fun _ _ _ h ha => kept_act h ha) (kept_ofSettings settings connectors ports) has.1

/-- At a scheduling point no digital run is in flight. -/
theorem digital_rest?_of_schedulingPoint (settings : Settings) (connectors : ConnectorList ρ)
    (ports : Port → Option PulseHandler) {as : List Action}
    (has : (ofSettings settings connectors ports).SchedulingPoint as) :
    ((ofSettings settings connectors ports).run as).digital.rest? = none :=
  let hlane := (kept_of_schedulingPoint settings connectors ports has).digitalLane
  hlane.lined.rest?_of_free (hlane.free nofun)

/-- At every scheduling point, the work for what was recorded is pending. -/
theorem queued_of_recorded (settings : Settings) (connectors : ConnectorList ρ)
    (ports : Port → Option PulseHandler) (as : List Action)
    (has : (ofSettings settings connectors ports).SchedulingPoint as) :
    let s := (ofSettings settings connectors ports).run as
    (s.longPorts ≠ ∅ ∨ s.shortPorts ≠ ∅ → s.digital.pending = true) ∧
      (s.eventPins ≠ ∅ → s.generic.pending = true) := by
  have hkept := kept_of_schedulingPoint settings connectors ports has
  constructor
  · intro hrecorded
    by_contra hp
    obtain ⟨hlong, hshort⟩ := hkept.digital (Bool.not_eq_true _ ▸ hp)
    exact hrecorded.elim (· hlong) (· hshort)
  · intro hrecorded
    by_contra hp
    exact hrecorded (hkept.generic (Bool.not_eq_true _ ▸ hp))

end Runs

/-- A run is cancelled, and then a port and a pin without a port fire. -/
theorem queued_of_recorded_anew :
    let ports : Port → Option PulseHandler :=
      fun port => if port = .C then some ⟨[], fun _ => true⟩ else none
    let both : Interrupt := ⟨.ofList [.portB, .portC], .ofList [.portC]⟩
    let s : Controller Script := ofSettings {} [] ports
    let as : List Action := [.start, .interrupt both, .move .generic true, .move .generic true,
      .move .generic true, .move .generic true, .cancelAll 0, .interrupt both]
    (s.run as).digital.pending = true ∧ (s.run as).generic.pending = true := by
  intro ports both s as
  have hpoint : s.SchedulingPoint as := by decide
  obtain ⟨hports, hpins⟩ := queued_of_recorded {} [] ports as hpoint
  exact ⟨hports (.inl (by decide)), hpins (by decide)⟩

end Controller

end HotplugDetect
