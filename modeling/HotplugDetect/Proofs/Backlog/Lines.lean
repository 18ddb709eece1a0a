import Mathlib.Data.List.Nodup
import HotplugDetect.Proofs.Backlog.Steps

/-! # Who waits for which lock

In every state, whatever the order of the actions was, the line at the run lock of a job is made up
of its worker and of the clients whose errands wait there. The line at the lock on the display
configuration is made up of the runs in flight and of outside parties.
-/

namespace HotplugDetect

variable {ρ : Type}

section Lanes

variable {β : Type}

/-- The line at a run lock, and whether there is a worker. -/
structure Lane.Staffed (l : Lane β) (ids : List Nat) (there : Bool) : Prop where

  lined : l.Lined ids

  worker : l.worker.isSome = there

namespace Lane.Staffed

variable {l : Lane β} {ids : List Nat} {there : Bool}

theorem notify (h : l.Staffed ids there) : l.notify.Staffed ids there :=
  ⟨h.lined.notify, l.isSome_worker_notify.trans h.worker⟩

theorem start (h : l.Staffed ids there) : l.start.Staffed ids true :=
  ⟨h.lined.start, by rcases l with ⟨permit, run, _ | _⟩ <;> rfl⟩

theorem stop (h : l.Staffed ids there) : l.stop.Staffed ids false :=
  ⟨h.lined.stop, by rcases l with ⟨permit, run, _ | _ | _ | _ | rest⟩ <;> rfl⟩

theorem request (h : l.Staffed ids there) (id : Nat) :
    ({ l with run := l.run.request (.client id) } : Lane β).Staffed (ids ++ [id]) there :=
  ⟨h.lined.request id, h.worker⟩

theorem release (h : l.Staffed ids there) {id : Nat} (hh : l.run.holder = some (.client id)) :
    ({ l with run := l.run.release } : Lane β).Staffed ids.tail there :=
  ⟨h.lined.release hh, h.worker⟩

theorem leave (h : l.Staffed ids there) (id : Nat) :
    ({ l with run := l.run.leave (.client id) } : Lane β).Staffed (ids.erase id) there :=
  ⟨h.lined.leave id, h.worker⟩

theorem begin (h : l.Staffed ids there) (hh : l.run.holder = some .worker)
    (hthere : there = true) (rest : β) : (l.begin rest).Staffed ids there :=
  ⟨h.lined.begin hh rest, hthere.symm⟩

theorem ends (h : l.Staffed ids there) {rest : β} (hw : l.worker = some (.running rest)) :
    l.finish.Staffed ids there := by
  have hp := h.lined.placed
  rw [Lane.Placed, hw] at hp
  have hthere := h.worker
  rw [hw] at hthere
  exact ⟨h.lined.finish hp.1, hthere⟩

theorem run_of_granted (h : l.Staffed ids there) {id : Nat} (hid : id ∉ ids)
    (hr : (l.run.request (.client id)).heldBy (.client id) = true) : l.run = {} := by
  refine h.lined.orderly.eq_empty_of_request (fun hin => hid ?_) hr
  rw [← h.lined.clients]
  exact Lane.mem_clients.mpr hin

end Lane.Staffed

theorem Work.staffed_queue {w : Work β} {ids : List Nat} {there : Bool}
    (h : w.Staffed ids there) : w.queue.1.Staffed ids there :=
  ⟨lined_queue h.lined, w.isSome_worker_queue.trans h.worker⟩

theorem Work.staffed_of_seek {w w' : Work β} {m : Moved} (hs : w.seek = (w', m)) {ids : List Nat}
    {there : Bool} (h : w.Staffed ids there) : w'.Staffed ids there :=
  ⟨lined_of_seek hs h.lined, (worker_of_seek hs).trans h.worker⟩

theorem Work.staffed_of_claimed {w w' : Work β} (hs : w.seek = (w', .claimed)) {ids : List Nat}
    {there : Bool} (h : w.Staffed ids there) (rest : β) :
    (w'.toLane.begin rest).Staffed ids there := by
  have hthere : there = true := by
    rw [← h.worker, (seek_claimed hs).1]
    rfl
  exact (staffed_of_seek hs h).begin (holder_of_claimed hs).1 hthere rest

theorem DelayedWork.staffed_of_seek {w w' : DelayedWork β} {now : Nat} {timerFirst : Bool}
    {m : Moved} (hs : w.seek now timerFirst = (w', m)) {ids : List Nat} {there : Bool}
    (h : w.Staffed ids there) : w'.Staffed ids there :=
  ⟨lined_of_seek hs h.lined, (worker_of_seek hs).trans h.worker⟩

end Lanes

/-- The run of a worker asks for the lock, not somebody from outside. -/
def ModeParty.isRun : ModeParty → Bool
  | .outside _ => false
  | _ => true

/-- The line at the lock on the display configuration, where `running` tells which jobs have a run
in flight. -/
structure Lock.Shared (l : Lock ModeParty) (running : ModeParty → Bool) : Prop where

  orderly : l.Orderly

  once {q : ModeParty} : q.isRun = true → l.line.count q = (running q).toNat

namespace Lock.Shared

variable {l : Lock ModeParty} {running running' : ModeParty → Bool} {q : ModeParty}

theorem enter (h : l.Shared running) (hout : running q = false)
    (hin : running' q = true) (hrest : ∀ r, r ≠ q → running' r = running r) :
    (l.request q).Shared running' where
  orderly := l.orderly_request q
  once {r} hr := by
    rw [h.orderly.line_request, List.count_append, h.once hr]
    by_cases he : r = q
    · subst he
      rw [hout, hin, List.count_singleton_self]
      rfl
    · rw [hrest r he, List.count_eq_zero_of_not_mem (by simpa using he), Nat.add_zero]

theorem exit (h : l.Shared running) (hh : l.holder = some q)
    (hout : running' q = false) (hrest : ∀ r, r ≠ q → running' r = running r) :
    l.release.Shared running' where
  orderly := l.orderly_release
  once {r} hr := by
    have hcount := h.once hr
    rw [Lock.line_of_holder hh] at hcount
    rw [Lock.line_release]
    by_cases he : r = q
    · subst he
      have hle := (running r).toNat_le
      rw [List.count_cons_self] at hcount
      rw [hout, Bool.toNat_false]
      omega
    · rw [List.count_cons_of_ne (Ne.symm he)] at hcount
      rw [hcount, hrest r he]

theorem leave (h : l.Shared running) (hout : running' q = false)
    (hrest : ∀ r, r ≠ q → running' r = running r) : (l.leave q).Shared running' where
  orderly := h.orderly.leave q
  once {r} hr := by
    rw [Lock.line_leave]
    by_cases he : r = q
    · subst he
      have hle := (running r).toNat_le
      rw [List.count_erase_self, h.once hr, hout, Bool.toNat_false]
      omega
    · rw [List.count_erase_of_ne he, h.once hr, hrest r he]

theorem hold (h : l.Shared running) (id : Nat) : (l.request (.outside id)).Shared running where
  orderly := l.orderly_request _
  once {r} hr := by
    have hne : r ≠ .outside id := by
      rintro rfl
      cases hr
    rw [h.orderly.line_request, List.count_append, h.once hr,
      List.count_eq_zero_of_not_mem (by simpa using hne), Nat.add_zero]

theorem release (h : l.Shared running) (id : Nat) :
    (l.leave (.outside id)).Shared running where
  orderly := h.orderly.leave _
  once {r} hr := by
    have hne : r ≠ .outside id := by
      rintro rfl
      cases hr
    rw [Lock.line_leave, List.count_erase_of_ne hne, h.once hr]

end Lock.Shared

section Errands

def waiting (es : List (Nat × Errand)) (j : Job) : List Nat :=
  (es.filter (·.2.job = j)).map (·.1)

variable {es : List (Nat × Errand)} {client : Nat} {e : Errand} {j : Job}

theorem mem_waiting : client ∈ waiting es j ↔ ∃ e, (client, e) ∈ es ∧ e.job = j := by
  simp [waiting]

theorem nodup_waiting (h : (es.map (·.1)).Nodup) (j : Job) : (waiting es j).Nodup :=
  h.sublist (List.filter_sublist.map _)

theorem waiting_append (es : List (Nat × Errand)) (client : Nat) (e : Errand) (j : Job) :
    waiting (es ++ [(client, e)]) j =
      waiting es j ++ if e.job = j then [client] else [] := by
  unfold waiting
  rw [List.filter_append, List.map_append]
  by_cases h : e.job = j
  · simp [h]
  · simp [h]

theorem waiting_filter (es : List (Nat × Errand)) (client : Nat) (j : Job) :
    waiting (es.filter (·.1 != client)) j = (waiting es j).filter (· != client) := by
  unfold waiting
  rw [List.filter_map, List.filter_filter, List.filter_filter]
  simp only [Function.comp_def, Bool.and_comm]

theorem not_mem_of_fresh (h : es.lookup client = none) : client ∉ es.map (·.1) := by
  intro hin
  obtain ⟨x, hx, rfl⟩ := List.mem_map.mp hin
  have hne := List.lookup_eq_none_iff.mp h x hx
  simp at hne

theorem not_mem_waiting_of_fresh (h : es.lookup client = none) (j : Job) :
    client ∉ waiting es j := by
  intro hin
  obtain ⟨e, he, -⟩ := mem_waiting.mp hin
  exact not_mem_of_fresh h (List.mem_map_of_mem he)

theorem not_mem_waiting_of_ne (hes : (es.map (·.1)).Nodup) (he : (client, e) ∈ es)
    (hj : j ≠ e.job) : client ∉ waiting es j := by
  intro hin
  obtain ⟨e', he', rfl⟩ := mem_waiting.mp hin
  have heq := List.inj_on_of_nodup_map hes he he' rfl
  exact hj (congrArg (fun x => x.2.job) heq).symm

theorem nodup_append (hes : (es.map (·.1)).Nodup) (h : es.lookup client = none) (e : Errand) :
    ((es ++ [(client, e)]).map (·.1)).Nodup := by
  rw [List.map_append, List.nodup_append_comm]
  exact List.nodup_cons.mpr ⟨not_mem_of_fresh h, hes⟩

theorem nodup_filter (hes : (es.map (·.1)).Nodup) (client : Nat) :
    ((es.filter (·.1 != client)).map (·.1)).Nodup :=
  hes.sublist (List.filter_sublist.map _)

end Errands

namespace Backlog

def running (b : Backlog) : ModeParty → Bool
  | .generic => (b.lane .generic).rest?.isSome
  | .pollInit => (b.lane .pollInit).rest?.isSome
  | .outside _ => false

/-- Everybody is in the lines where they belong, and the workers come and go together. -/
structure InLine (b : Backlog) (there : Bool) : Prop where

  lanes (j : Job) : (b.lane j).Staffed (waiting b.errands j) there

  clients : (b.errands.map (·.1)).Nodup

  mode : b.mode.Shared b.running

section Clients

variable {b b' : Backlog} {there : Bool} {j : Job}

theorem lane_withLane_of_ne (b : Backlog) {j k : Job} (h : k ≠ j)
    (f : Lane Rest → Lane Rest) : (b.withLane j f).lane k = b.lane k := by
  cases j <;> cases k <;> first | rfl | exact absurd rfl h

theorem rest?_withLane (b : Backlog) (j k : Job) {f : Lane Rest → Lane Rest}
    (hf : ∀ l, (f l).rest? = l.rest?) : ((b.withLane j f).lane k).rest? = (b.lane k).rest? := by
  by_cases h : k = j
  · subst h
    rw [Controller.lane_withLane, hf]
  · rw [lane_withLane_of_ne b h]

theorem running_eq (h : ∀ k, (b'.lane k).rest? = (b.lane k).rest?) : b'.running = b.running := by
  funext q
  cases q with
  | generic => exact congrArg Option.isSome (h .generic)
  | pollInit => exact congrArg Option.isSome (h .pollInit)
  | outside _ => rfl

theorem InLine.client (h : b.InLine there) {f : Lane Rest → Lane Rest}
    (hf : ∀ l, (f l).rest? = l.rest?) {es : List (Nat × Errand)} (hes : (es.map (·.1)).Nodup)
    (hj : (f (b.lane j)).Staffed (waiting es j) there)
    (hk : ∀ k, k ≠ j → waiting es k = waiting b.errands k) :
    ({ b.withLane j f with errands := es } : Backlog).InLine there := by
  have hlane (k : Job) : ({ b.withLane j f with errands := es } : Backlog).lane k =
      (b.withLane j f).lane k := by
    cases k <;> rfl
  have hrest (k : Job) : (({ b.withLane j f with errands := es } : Backlog).lane k).rest? =
      (b.lane k).rest? := by
    rw [hlane, rest?_withLane b j k hf]
  have hmode : (b.withLane j f).mode = b.mode := by
    cases j <;> rfl
  refine ⟨fun k => ?_, hes, ?_⟩
  · rw [hlane]
    by_cases he : k = j
    · subst he
      rwa [Controller.lane_withLane]
    · rw [lane_withLane_of_ne b he]
      exact hk k he ▸ h.lanes k
  · rw [running_eq hrest]
    exact hmode ▸ h.mode

theorem InLine.passes (h : b.InLine there) {client : Nat}
    (hfresh : b.errands.lookup client = none)
    (hr : ((b.lane j).run.request (.client client)).heldBy (.client client) = true) :
    (b.withLane j fun l => { l with run := (l.run.request (.client client)).release }).InLine
      there := by
  have hrun := (h.lanes j).run_of_granted (not_mem_waiting_of_fresh hfresh j) hr
  rw [withLane_of_eq]
  · exact h
  · rw [hrun]
    exact congrArg (fun run => { b.lane j with run }) hrun.symm

theorem InLine.waits (h : b.InLine there) {client : Nat} (e : Errand)
    (hfresh : b.errands.lookup client = none) :
    ({ (b.withLane e.job fun l => { l with run := l.run.request (.client client) }) with
      errands := b.errands ++ [(client, e)] } : Backlog).InLine there := by
  refine h.client ?_ (nodup_append h.clients hfresh e) ?_ fun k hk => ?_
  · exact fun _ => rfl
  · rw [waiting_append, if_pos rfl]
    exact (h.lanes e.job).request client
  · rw [waiting_append, if_neg hk.symm, List.append_nil]

theorem waiting_filter_of_ne (h : b.InLine there) {client : Nat} {e : Errand}
    (he : b.errands.lookup client = some e) {k : Job} (hk : k ≠ e.job) :
    waiting (b.errands.filter (·.1 != client)) k = waiting b.errands k := by
  rw [waiting_filter, List.filter_eq_self]
  intro x hx
  rw [bne_iff_ne]
  rintro rfl
  exact not_mem_waiting_of_ne h.clients (mem_of_lookup he) hk hx

theorem InLine.resumes (h : b.InLine there) {client : Nat} {e : Errand}
    (he : b.errands.lookup client = some e)
    (hh : (b.lane e.job).run.heldBy (.client client) = true) :
    ({ (b.withLane e.job fun l => { l with run := l.run.release }) with
      errands := b.errands.filter (·.1 != client) } : Backlog).InLine there := by
  rw [Lock.heldBy_iff] at hh
  refine h.client ?_ (nodup_filter h.clients client) ?_
    fun k hk => waiting_filter_of_ne h he hk
  · exact fun _ => rfl
  · have hclients := (h.lanes e.job).lined.clients
    have hnodup := nodup_waiting h.clients e.job
    have hreleased := (h.lanes e.job).release hh
    rw [Lane.clients, Lock.line_of_holder hh] at hclients
    have hline : waiting b.errands e.job =
        client :: (b.lane e.job).run.queue.filterMap Claimant.client? := hclients.symm
    rw [hline] at hnodup hreleased
    rw [waiting_filter, hline, List.filter_cons_of_neg (by simp), List.filter_eq_self.mpr]
    · exact hreleased
    · intro x hx
      rw [bne_iff_ne]
      rintro rfl
      exact (List.nodup_cons.mp hnodup).1 hx

theorem InLine.leaves (h : b.InLine there) {client : Nat} {e : Errand}
    (he : b.errands.lookup client = some e) :
    ({ (b.withLane e.job fun l => { l with run := l.run.leave (.client client) }) with
      errands := b.errands.filter (·.1 != client) } : Backlog).InLine there := by
  refine h.client ?_ (nodup_filter h.clients client) ?_
    fun k hk => waiting_filter_of_ne h he hk
  · exact fun _ => rfl
  · rw [waiting_filter, ← (nodup_waiting h.clients e.job).erase_eq_filter]
    exact (h.lanes e.job).leave client

end Clients

section Steps

variable {b b' : Backlog} {there : Bool}

theorem InLine.interrupted (h : b.InLine there) (hi : b.Interrupted b') : b'.InLine there := by
  have hpollInit : b'.pollInit = b.pollInit := by rw [hi.rest]
  have hreenable : b'.reenable = b.reenable := by rw [hi.rest]
  have hmode : b'.mode = b.mode := by rw [hi.rest]
  have herrands : b'.errands = b.errands := by rw [hi.rest]
  have hdigital : b'.digital.Staffed (waiting b.errands .digital) there := by
    rcases hi.digital with hd | ⟨hd, -, -⟩
    · rw [hd]
      exact Work.staffed_queue (h.lanes .digital)
    · rw [hd]
      exact h.lanes .digital
  have hgeneric : b'.generic.Staffed (waiting b.errands .generic) there := by
    rcases hi.generic with hg | ⟨hg, -⟩
    · rw [hg]
      exact Work.staffed_queue (h.lanes .generic)
    · rw [hg]
      exact h.lanes .generic
  refine ⟨fun k => ?_, ?_, ?_⟩
  · rw [herrands]
    cases k with
    | digital => exact hdigital
    | generic => exact hgeneric
    | pollInit =>
      show b'.pollInit.Staffed _ _
      rw [hpollInit]
      exact h.lanes .pollInit
    | reenable =>
      show b'.reenable.Staffed _ _
      rw [hreenable]
      exact h.lanes .reenable
  · rw [herrands]
    exact h.clients
  · rw [hmode, running_eq hi.rest?_lane]
    exact h.mode

theorem InLine.withDigital (h : b.InLine there) {w : Work Rest}
    (hw : w.Staffed (waiting b.errands .digital) there) (longPorts shortPorts : PortSet)
    (eventPins : PinSet) :
    ({ b with longPorts, shortPorts, eventPins, digital := w } : Backlog).InLine there where
  lanes
    | .digital => hw
    | .generic => h.lanes .generic
    | .pollInit => h.lanes .pollInit
    | .reenable => h.lanes .reenable
  clients := h.clients
  mode := h.mode

theorem InLine.withGeneric (h : b.InLine there) {w : Work Rest}
    (hw : w.Staffed (waiting b.errands .generic) there) {mode : Lock ModeParty}
    (hm : mode.Shared ({ b with generic := w } : Backlog).running) (eventPins : PinSet) :
    ({ b with eventPins, generic := w, mode } : Backlog).InLine there where
  lanes
    | .digital => h.lanes .digital
    | .generic => hw
    | .pollInit => h.lanes .pollInit
    | .reenable => h.lanes .reenable
  clients := h.clients
  mode := running_eq (fun k => by cases k <;> rfl) ▸ hm

theorem InLine.withPollInit (h : b.InLine there) {w : Work Rest}
    (hw : w.Staffed (waiting b.errands .pollInit) there) {mode : Lock ModeParty}
    (hm : mode.Shared ({ b with pollInit := w } : Backlog).running) :
    ({ b with pollInit := w, mode } : Backlog).InLine there where
  lanes
    | .digital => h.lanes .digital
    | .generic => h.lanes .generic
    | .pollInit => hw
    | .reenable => h.lanes .reenable
  clients := h.clients
  mode := running_eq (fun k => by cases k <;> rfl) ▸ hm

theorem InLine.withReenable (h : b.InLine there) {w : DelayedWork Rest}
    (hw : w.Staffed (waiting b.errands .reenable) there) :
    ({ b with reenable := w } : Backlog).InLine there where
  lanes
    | .digital => h.lanes .digital
    | .generic => h.lanes .generic
    | .pollInit => h.lanes .pollInit
    | .reenable => hw
  clients := h.clients
  mode := h.mode

theorem InLine.shared_of_rest? (h : b.InLine there)
    (hr : ∀ k, (b'.lane k).rest? = (b.lane k).rest?) : b.mode.Shared b'.running :=
  (running_eq hr).symm ▸ h.mode

theorem InLine.starts (h : b.InLine there) :
    ({ b with
      digital := { b.digital with toLane := b.digital.toLane.start }
      generic := { b.generic with toLane := b.generic.toLane.start }
      pollInit := { b.pollInit with toLane := b.pollInit.toLane.start }
      reenable := { b.reenable with toLane := b.reenable.toLane.start } } : Backlog).InLine
      true where
  lanes
    | .digital => (h.lanes .digital).start
    | .generic => (h.lanes .generic).start
    | .pollInit => (h.lanes .pollInit).start
    | .reenable => (h.lanes .reenable).start
  clients := h.clients
  mode := h.shared_of_rest? fun k => by cases k <;> exact Lane.rest?_start _

theorem InLine.stops (h : b.InLine there) :
    ({ b with
      digital := { b.digital with toLane := b.digital.toLane.stop }
      generic := { b.generic with toLane := b.generic.toLane.stop }
      pollInit := { b.pollInit with toLane := b.pollInit.toLane.stop }
      reenable := { b.reenable with toLane := b.reenable.toLane.stop }
      mode := (b.mode.leave .generic).leave .pollInit } : Backlog).InLine false where
  lanes
    | .digital => (h.lanes .digital).stop
    | .generic => (h.lanes .generic).stop
    | .pollInit => (h.lanes .pollInit).stop
    | .reenable => (h.lanes .reenable).stop
  clients := h.clients
  mode := by
    have hgeneric : (b.mode.leave .generic).Shared fun q =>
        if q = .generic then false else b.running q :=
      h.mode.leave (if_pos rfl) fun r hr => if_neg hr
    refine hgeneric.leave (congrArg Option.isSome (Lane.rest?_stop _)) fun r hr => ?_
    cases r with
    | generic => exact congrArg Option.isSome (Lane.rest?_stop _)
    | pollInit => exact absurd rfl hr
    | outside _ => rfl

theorem InLine.takes (h : b.InLine there) {w : Work Rest} {reenable : DelayedWork Rest}
    {rest : Rest} (hs : b.generic.seek = (w, .claimed))
    (harmed : reenable = b.reenable ∨ ∃ instant, reenable = b.reenable.schedule instant) :
    ({ b with
      eventPins := ∅
      generic := { w with toLane := w.toLane.begin rest }
      reenable
      mode := b.mode.request .generic } : Backlog).InLine there := by
  have hrearmed : ({ b with reenable } : Backlog).InLine there := by
    refine h.withReenable ?_
    rcases harmed with rfl | ⟨instant, rfl⟩
    · exact h.lanes .reenable
    · exact (h.lanes .reenable).notify
  refine hrearmed.withGeneric (Work.staffed_of_claimed hs (h.lanes .generic) rest) ?_ ∅
  refine h.mode.enter ?_ rfl fun r hr => ?_
  · show (b.generic.rest?).isSome = false
    rw [Lane.rest?_of_not_running fun rest hw => ?_]
    · rfl
    · rw [(Work.seek_claimed hs).1] at hw
      cases hw
  · cases r with
    | generic => exact absurd rfl hr
    | _ => rfl

theorem InLine.reads (h : b.InLine there) {w : Work Rest} {rest : Rest}
    (hs : b.pollInit.seek = (w, .claimed)) :
    ({ b with
      pollInit := { w with toLane := w.toLane.begin rest }
      mode := b.mode.request .pollInit } : Backlog).InLine there := by
  refine h.withPollInit (Work.staffed_of_claimed hs (h.lanes .pollInit) rest) ?_
  refine h.mode.enter ?_ rfl fun r hr => ?_
  · show (b.pollInit.rest?).isSome = false
    rw [Lane.rest?_of_not_running fun rest hw => ?_]
    · rfl
    · rw [(Work.seek_claimed hs).1] at hw
      cases hw
  · cases r with
    | pollInit => exact absurd rfl hr
    | _ => rfl

theorem InLine.probed (h : b.InLine there) {rest : Rest}
    (hw : b.generic.worker = some (.running rest)) (hheld : b.mode.heldBy .generic = true) :
    ({ b with
      generic := { b.generic with toLane := b.generic.toLane.finish }
      mode := b.mode.release } : Backlog).InLine there := by
  refine h.withGeneric ((h.lanes .generic).ends hw) ?_ b.eventPins
  refine h.mode.exit ((Lock.heldBy_iff _ _).mp hheld) rfl fun r hr => ?_
  cases r with
  | generic => exact absurd rfl hr
  | _ => rfl

theorem InLine.reinitialized (h : b.InLine there) {rest : Rest}
    (hw : b.pollInit.worker = some (.running rest))
    (hheld : b.mode.heldBy .pollInit = true) :
    ({ b with
      pollInit := { b.pollInit with toLane := b.pollInit.toLane.finish }
      mode := b.mode.release } : Backlog).InLine there := by
  refine h.withPollInit ((h.lanes .pollInit).ends hw) ?_
  refine h.mode.exit ((Lock.heldBy_iff _ _).mp hheld) rfl fun r hr => ?_
  cases r with
  | pollInit => exact absurd rfl hr
  | _ => rfl

theorem InLine.drains (h : b.InLine there) {w : Work Rest} (hs : b.digital.seek = (w, .claimed))
    (rest : Rest) :
    ({ b with
      longPorts := ∅
      shortPorts := ∅
      digital := { w with toLane := w.toLane.begin rest } } : Backlog).InLine there :=
  h.withDigital (w := { w with toLane := w.toLane.begin rest })
    (Work.staffed_of_claimed hs (h.lanes .digital) rest) ∅ ∅ b.eventPins

theorem InLine.delivers (h : b.InLine there) {rest : Rest}
    (hw : b.digital.worker = some (.running rest)) (rest' : Rest) :
    ({ b with digital := { b.digital with toLane := b.digital.toLane.begin rest' } } :
      Backlog).InLine there := by
  have hd := h.lanes .digital
  have hplaced := hd.lined.placed
  rw [Lane.Placed, show (b.lane .digital).worker = _ from hw] at hplaced
  have hthere : there = true := hd.worker.symm.trans (congrArg Option.isSome hw)
  exact h.withDigital (w := { b.digital with toLane := b.digital.toLane.begin rest' })
    (hd.begin hplaced.1 hthere rest') _ _ _

theorem InLine.fallsBack (h : b.InLine there) {rest : Rest} {generic : Work Rest} {pins : PinSet}
    (hw : b.digital.worker = some (.running rest))
    (hrefused : generic = b.generic ∨ generic = b.generic.queue.1) :
    ({ b with
      eventPins := pins
      digital := { b.digital with toLane := b.digital.toLane.finish }
      generic } : Backlog).InLine there := by
  have hdone := h.withDigital (w := { b.digital with toLane := b.digital.toLane.finish })
    ((h.lanes .digital).ends hw) b.longPorts b.shortPorts pins
  rcases hrefused with rfl | rfl
  · exact hdone
  · refine hdone.withGeneric (Work.staffed_queue (h.lanes .generic)) ?_ pins
    refine hdone.shared_of_rest? fun k => ?_
    cases k with
    | generic => exact Work.rest?_queue _
    | _ => rfl

theorem InLine.recovers (h : b.InLine there) {w : DelayedWork Rest} {now : Nat}
    {timerFirst : Bool} (hs : b.reenable.seek now timerFirst = (w, .claimed)) :
    ({ b with reenable := { w with toLane := (w.toLane.begin {}).finish } } : Backlog).InLine
      there := by
  have hw := DelayedWork.staffed_of_seek hs (h.lanes .reenable)
  have hthere : there = true := by
    rw [← (h.lanes .reenable).worker]
    show b.reenable.worker.isSome = true
    rw [(DelayedWork.seek_claimed hs).1]
    rfl
  exact h.withReenable ((hw.begin (DelayedWork.holder_of_claimed hs) hthere {}).ends rfl)

theorem InLine.disarms (h : b.InLine there) (j : Job) : (b.disarm j).InLine there := by
  cases j with
  | digital => exact h.withDigital (w := b.digital.disarm) (h.lanes .digital) _ _ _
  | generic => exact h.withGeneric (w := b.generic.disarm) (h.lanes .generic) h.mode _
  | pollInit => exact h.withPollInit (w := b.pollInit.disarm) (h.lanes .pollInit) h.mode
  | reenable => exact h.withReenable (h.lanes .reenable).notify

/-- Every step keeps everybody in line, and the workers stay unless work is dropped. -/
theorem InLine.step {a : Action} (h : b.InLine there) (hs : Step a b b') :
    ∃ there', b'.InLine there' ∧ (a.drops = false → there = true → there' = true) := by
  have hkept (h' : b'.InLine there) :
      ∃ there', b'.InLine there' ∧ (a.drops = false → there = true → there' = true) :=
    ⟨there, h', fun _ hthere => hthere⟩
  cases hs with
  | interrupted _ hi => exact hkept (h.interrupted hi)
  | queuesPollInit =>
    refine hkept (h.withPollInit (Work.staffed_queue (h.lanes .pollInit)) ?_)
    refine h.shared_of_rest? fun k => ?_
    cases k with
    | pollInit => exact Work.rest?_queue _
    | _ => rfl
  | digitalLooks _ hseek =>
    exact hkept (h.withDigital (Work.staffed_of_seek hseek (h.lanes .digital)) _ _ _)
  | genericLooks _ hseek =>
    refine hkept (h.withGeneric (Work.staffed_of_seek hseek (h.lanes .generic)) ?_ _)
    refine h.shared_of_rest? fun k => ?_
    cases k with
    | generic => exact Work.rest?_of_seek hseek
    | _ => rfl
  | pollInitLooks _ hseek =>
    refine hkept (h.withPollInit (Work.staffed_of_seek hseek (h.lanes .pollInit)) ?_)
    refine h.shared_of_rest? fun k => ?_
    cases k with
    | pollInit => exact Work.rest?_of_seek hseek
    | _ => rfl
  | reenableLooks _ hseek =>
    exact hkept (h.withReenable (DelayedWork.staffed_of_seek hseek (h.lanes .reenable)))
  | drains _ hseek =>
    exact hkept (h.drains hseek _)
  | delivers _ hw _ => exact hkept (h.delivers hw _)
  | fallsBack _ hw _ hrefused =>
    exact hkept (h.fallsBack hw (hrefused.imp (·.1) (·.1)))
  | takes _ hseek harmed => exact hkept (h.takes hseek harmed)
  | probed _ hw hheld => exact hkept (h.probed hw hheld)
  | reads _ hseek => exact hkept (h.reads hseek)
  | reinitialized _ hw hheld => exact hkept (h.reinitialized hw hheld)
  | recovers _ hseek => exact hkept (h.recovers hseek)
  | forgets => exact hkept (h.withDigital (h.lanes .digital) ∅ ∅ ∅)
  | disarms j _ => exact hkept (h.disarms j)
  | passes hfresh hr => exact hkept (h.passes hfresh hr)
  | waits hfresh _ => exact hkept (h.waits _ hfresh)
  | resumes he hh => exact hkept (h.resumes he hh)
  | leaves he => exact hkept (h.leaves he)
  | starts _ => exact ⟨true, h.starts, fun _ _ => rfl⟩
  | stops _ hdrops =>
    refine ⟨false, h.stops, fun hstays => ?_⟩
    rw [hdrops] at hstays
    cases hstays
  | holds => exact hkept ⟨h.lanes, h.clients, h.mode.hold _⟩
  | releases party => exact hkept ⟨h.lanes, h.clients, h.mode.release party⟩

theorem inLine_ofSettings (settings : Settings) (connectors : ConnectorList ρ)
    (ports : Port → Option PulseHandler) :
    (Controller.ofSettings settings connectors ports).backlog.InLine false where
  lanes j := by
    cases j <;> exact ⟨⟨Lock.orderly_empty, List.not_mem_nil, rfl⟩, rfl⟩
  clients := List.nodup_nil
  mode := ⟨Lock.orderly_empty, fun {q} _ => by cases q <;> rfl⟩

theorem inLine_run [Probe ρ] {s : Controller ρ} (h : ∃ there, s.backlog.InLine there)
    (as : List Action) : ∃ there, (s.run as).backlog.InLine there := by
  induction as generalizing s with
  | nil => exact h
  | cons a as ih =>
    refine ih (Steps.induction (P := fun b => ∃ there, b.InLine there) ?_ (s.steps_act a) h)
    rintro b b' hs ⟨there, hb⟩
    obtain ⟨there', hb', -⟩ := hb.step hs
    exact ⟨there', hb'⟩

end Steps

end Backlog

end HotplugDetect
