import HotplugDetect.Work.Item

/-! # The line at a lock

The holder of a lock and the parties that wait for it stand in one line. A request joins the line at
its end, and a release takes the head of the line away.
-/

namespace HotplugDetect

namespace Lock

variable {α : Type}

/-- Nobody waits for a lock that is free. -/
def Orderly (l : Lock α) : Prop := l.holder = none → l.queue = []

theorem orderly_empty : ({} : Lock α).Orderly := fun _ => rfl

theorem orderly_request (l : Lock α) (a : α) : (l.request a).Orderly := by
  unfold request
  split
  · intro hn
    cases hn
  · rename_i b hb
    intro hn
    rw [hb] at hn
    cases hn

theorem Orderly.line_request {l : Lock α} (h : l.Orderly) (a : α) :
    (l.request a).line = l.line ++ [a] := by
  unfold Lock.request line
  split
  · rename_i hn
    simp [hn, h hn]
  · simp

theorem orderly_release (l : Lock α) : l.release.Orderly := by
  intro h
  have hq : l.queue = [] := List.head?_eq_none_iff.mp h
  rw [release, hq]
  rfl

theorem line_release (l : Lock α) : l.release.line = l.queue := by
  unfold release line
  cases l.queue <;> rfl

theorem Orderly.line_eq_nil {l : Lock α} (h : l.Orderly) : l.line = [] ↔ l.holder = none := by
  constructor
  · intro hl
    rw [line, List.append_eq_nil_iff, Option.toList_eq_nil_iff] at hl
    exact hl.1
  · intro hn
    rw [line, hn, h hn]
    rfl

theorem line_of_holder {l : Lock α} {a : α} (h : l.holder = some a) : l.line = a :: l.queue := by
  rw [line, h]
  rfl

theorem mem_line_of_holder {l : Lock α} {a : α} (h : l.holder = some a) : a ∈ l.line := by
  rw [line_of_holder h]
  exact List.mem_cons_self

theorem heldBy_iff [DecidableEq α] (l : Lock α) (a : α) :
    l.heldBy a = true ↔ l.holder = some a := by
  simp [heldBy]

theorem Orderly.leave [DecidableEq α] {l : Lock α} (h : l.Orderly) (a : α) :
    (l.leave a).Orderly := by
  unfold Lock.leave
  split
  · exact l.orderly_release
  · intro hn
    have hq : l.queue = [] := h hn
    rw [hq]
    rfl

theorem line_leave [DecidableEq α] (l : Lock α) (a : α) : (l.leave a).line = l.line.erase a := by
  unfold Lock.leave
  split
  · rename_i hh
    rw [heldBy_iff] at hh
    rw [line_release, line_of_holder hh, List.erase_cons_head]
  · rename_i hh
    rw [heldBy_iff] at hh
    rcases l with ⟨_ | b, queue⟩
    · rfl
    · have hne : b ≠ a := fun he => hh (congrArg some he)
      exact (List.erase_cons_tail (by simpa using hne)).symm

theorem Orderly.eq_empty_of_request [DecidableEq α] {l : Lock α} (h : l.Orderly) {a : α}
    (ha : a ∉ l.line) (hr : (l.request a).heldBy a = true) : l = {} := by
  rw [heldBy_iff] at hr
  unfold Lock.request at hr
  split at hr
  · rename_i hn
    rcases l with ⟨holder, queue⟩
    obtain rfl : holder = none := hn
    obtain rfl : queue = [] := h rfl
    rfl
  · have hl : l.holder = some a := hr
    exact absurd (mem_line_of_holder hl) ha

end Lock

namespace Claimant

def client? : Claimant → Option Nat
  | worker => none
  | client id => some id

theorem filterMap_erase_worker (line : List Claimant) :
    (line.erase .worker).filterMap client? = line.filterMap client? := by
  induction line with
  | nil => rfl
  | cons x line ih =>
    cases x with
    | worker => rfl
    | client id =>
      rw [List.erase_cons_tail (by simp)]
      exact congrArg (id :: ·) ih

theorem filterMap_erase_client (line : List Claimant) (id : Nat) :
    (line.erase (.client id)).filterMap client? = (line.filterMap client?).erase id := by
  induction line with
  | nil => rfl
  | cons x line ih =>
    cases x with
    | worker =>
      rw [List.erase_cons_tail (by simp)]
      exact ih
    | client id' =>
      by_cases he : id' = id
      · rw [he, List.erase_cons_head]
        simp [client?]
      · rw [List.erase_cons_tail (by simpa using he)]
        have htail : ((.client id' :: line).filterMap client?).erase id =
            id' :: (line.filterMap client?).erase id := List.erase_cons_tail (by simpa using he)
        rw [htail, ← ih]
        rfl

end Claimant

namespace Lane

variable {β : Type}

theorem rest?_eq_some_iff {l : Lane β} {rest : β} :
    l.rest? = some rest ↔ l.worker = some (.running rest) := by
  rcases l with ⟨permit, run, _ | _ | _ | _ | r⟩ <;> simp [rest?]

theorem rest?_of_not_running {l : Lane β} (h : ∀ rest, l.worker ≠ some (.running rest)) :
    l.rest? = none :=
  Option.eq_none_iff_forall_ne_some.mpr fun rest hr => h rest (rest?_eq_some_iff.mp hr)

@[simp] theorem rest?_notify (l : Lane β) : l.notify.rest? = l.rest? := by
  rcases l with ⟨permit, run, _ | _ | ⟨u, _ | _⟩ | _ | rest⟩ <;> rfl

theorem notify_withRun (l : Lane β) (run : Lock Claimant) :
    ({ l with run } : Lane β).notify = { l.notify with run } := by
  rcases l with ⟨permit, _, _ | _ | ⟨u, _ | _⟩ | _ | rest⟩ <;> rfl

@[simp] theorem isSome_worker_notify (l : Lane β) :
    l.notify.worker.isSome = l.worker.isSome := by
  rcases l with ⟨permit, run, _ | _ | ⟨u, _ | _⟩ | _ | rest⟩ <;> rfl

@[simp] theorem rest?_start (l : Lane β) : l.start.rest? = l.rest? := by
  rcases l with ⟨permit, run, _ | _⟩ <;> rfl

@[simp] theorem rest?_stop (l : Lane β) : l.stop.rest? = none := by
  rcases l with ⟨permit, run, _ | _ | _ | _ | rest⟩ <;> rfl

/-- Where the worker stands in the line at the run lock: at its head in a run, somewhere while it
claims one, and nowhere else. -/
def Placed (l : Lane β) : Prop :=
  match l.worker with
  | some .claiming => l.run.line.count .worker = 1
  | some (.running _) => l.run.holder = some .worker ∧ .worker ∉ l.run.queue
  | _ => .worker ∉ l.run.line

def clients (l : Lane β) : List Nat :=
  l.run.line.filterMap fun
    | .worker => none
    | .client id => some id

theorem mem_clients {l : Lane β} {id : Nat} : id ∈ l.clients ↔ .client id ∈ l.run.line := by
  unfold clients
  rw [List.mem_filterMap]
  constructor
  · rintro ⟨_ | id', hm, heq⟩
    · cases heq
    · cases heq
      exact hm
  · intro hm
    exact ⟨_, hm, rfl⟩

/-- The worker and the clients `ids`, in this order, make up the line at the run lock. -/
structure Lined (l : Lane β) (ids : List Nat) : Prop where

  orderly : l.run.Orderly

  placed : l.Placed

  clients : l.clients = ids

namespace Lined

variable {l : Lane β} {ids : List Nat}

theorem notify (h : l.Lined ids) : l.notify.Lined ids where
  orderly := by rw [run_notify]; exact h.orderly
  placed := by
    have hp := h.placed
    rcases l with ⟨permit, run, _ | _ | ⟨u, _ | _⟩ | _ | rest⟩ <;> exact hp
  clients := by
    have hc := h.clients
    unfold Lane.clients at hc ⊢
    rwa [run_notify]

theorem start (h : l.Lined ids) : l.start.Lined ids where
  orderly := h.orderly
  placed := by
    have hp := h.placed
    rcases l with ⟨permit, run, _ | _⟩ <;> exact hp
  clients := h.clients

theorem request (h : l.Lined ids) (id : Nat) :
    ({ l with run := l.run.request (.client id) } : Lane β).Lined (ids ++ [id]) where
  orderly := l.run.orderly_request _
  placed := by
    have hp := h.placed
    have hline := h.orderly.line_request (.client id)
    rcases l with ⟨permit, run, _ | _ | _ | _ | rest⟩
    · simpa [Placed, hline] using hp
    · simpa [Placed, hline] using hp
    · simpa [Placed, hline] using hp
    · simpa [Placed, hline, List.count_append] using hp
    · obtain ⟨hh, hq⟩ : run.holder = some .worker ∧ Claimant.worker ∉ run.queue := hp
      refine ⟨run.holder_request_of_held _ _ hh, ?_⟩
      simp [Lock.request, hh, hq]
  clients := by
    unfold Lane.clients
    rw [h.orderly.line_request, List.filterMap_append]
    exact congrArg (· ++ [id]) h.clients

theorem release (h : l.Lined ids) {id : Nat} (hh : l.run.holder = some (.client id)) :
    ({ l with run := l.run.release } : Lane β).Lined ids.tail where
  orderly := l.run.orderly_release
  placed := by
    have hp := h.placed
    have hline := Lock.line_of_holder hh
    have hrel := l.run.line_release
    rcases l with ⟨permit, run, _ | _ | _ | _ | rest⟩
    · simpa [Placed, hline, hrel] using hp
    · simpa [Placed, hline, hrel] using hp
    · simpa [Placed, hline, hrel] using hp
    · simpa [Placed, hline, hrel] using hp
    · obtain ⟨hw, -⟩ : run.holder = some .worker ∧ Claimant.worker ∉ run.queue := hp
      rw [hw] at hh
      cases hh
  clients := by
    rw [← h.clients]
    unfold Lane.clients
    rw [l.run.line_release, Lock.line_of_holder hh]
    rfl

theorem ask (h : l.Lined ids) (hw : .worker ∉ l.run.line) : l.ask.Lined ids where
  orderly := l.run.orderly_request _
  placed := by
    have hline := h.orderly.line_request .worker
    show (l.run.request .worker).line.count .worker = 1
    rw [hline, List.count_append, List.count_eq_zero_of_not_mem hw]
    rfl
  clients := by
    unfold Lane.clients Lane.ask
    rw [h.orderly.line_request, List.filterMap_append]
    exact (List.append_nil _).trans h.clients

theorem not_mem_queue (h : l.Lined ids) (hh : l.run.holder = some .worker) :
    .worker ∉ l.run.queue := by
  have hp := h.placed
  have hline := Lock.line_of_holder hh
  rcases l with ⟨permit, run, _ | _ | _ | _ | rest⟩
  · exact absurd (Lock.mem_line_of_holder hh) hp
  · exact absurd (Lock.mem_line_of_holder hh) hp
  · exact absurd (Lock.mem_line_of_holder hh) hp
  · have hcount : run.line.count .worker = 1 := hp
    rw [hline, List.count_cons_self] at hcount
    exact List.count_eq_zero.mp (Nat.succ.inj hcount)
  · exact hp.2

theorem begin (h : l.Lined ids) (hh : l.run.holder = some .worker) (rest : β) :
    (l.begin rest).Lined ids where
  orderly := h.orderly
  placed := ⟨hh, h.not_mem_queue hh⟩
  clients := h.clients

theorem finish (h : l.Lined ids) (hh : l.run.holder = some .worker) : l.finish.Lined ids where
  orderly := l.run.orderly_release
  placed := by
    show .worker ∉ l.run.release.line
    rw [l.run.line_release]
    exact h.not_mem_queue hh
  clients := by
    rw [← h.clients]
    unfold Lane.clients Lane.finish
    rw [l.run.line_release, Lock.line_of_holder hh]
    rfl

theorem stop (h : l.Lined ids) : l.stop.Lined ids := by
  have hp := h.placed
  have hc := h.clients
  have hleave (hcount : l.run.line.count .worker = 1) :
      ({ l with worker := none, run := l.run.leave .worker } : Lane β).Lined ids := by
    refine ⟨h.orderly.leave _, ?_, ?_⟩
    · show .worker ∉ (l.run.leave .worker).line
      rw [Lock.line_leave, ← List.count_eq_zero, List.count_erase_self, hcount]
    · unfold Lane.clients at hc ⊢
      rw [Lock.line_leave, ← hc]
      exact Claimant.filterMap_erase_worker l.run.line
  rcases l with ⟨permit, run, _ | _ | ⟨u, notified⟩ | _ | rest⟩
  · exact h
  · exact ⟨h.orderly, hp, hc⟩
  · exact ⟨h.orderly, hp, hc⟩
  · exact hleave hp
  · refine hleave ?_
    rw [Lock.line_of_holder hp.1, List.count_cons_self, List.count_eq_zero.mpr hp.2]

theorem leave (h : l.Lined ids) (id : Nat) :
    ({ l with run := l.run.leave (.client id) } : Lane β).Lined (ids.erase id) where
  orderly := h.orderly.leave _
  placed := by
    have hp := h.placed
    have hline := l.run.line_leave (.client id)
    rcases l with ⟨permit, run, _ | _ | _ | _ | rest⟩
    · exact fun hin => hp (List.mem_of_mem_erase (hline ▸ hin))
    · exact fun hin => hp (List.mem_of_mem_erase (hline ▸ hin))
    · exact fun hin => hp (List.mem_of_mem_erase (hline ▸ hin))
    · have hcount : run.line.count .worker = 1 := hp
      show (run.leave (.client id)).line.count .worker = 1
      rw [hline, List.count_erase_of_ne (by simp), hcount]
    · obtain ⟨hh, hq⟩ : run.holder = some .worker ∧ Claimant.worker ∉ run.queue := hp
      have hleave :
          run.leave (.client id) = { run with queue := run.queue.erase (.client id) } := by
        simp [Lock.leave, Lock.heldBy, hh]
      show (run.leave _).holder = _ ∧ _ ∉ (run.leave _).queue
      rw [hleave]
      exact ⟨hh, fun hin => hq (List.mem_of_mem_erase hin)⟩
  clients := by
    have hc := h.clients
    unfold Lane.clients at hc ⊢
    rw [Lock.line_leave, ← hc]
    exact Claimant.filterMap_erase_client l.run.line id

end Lined

end Lane

variable {β : Type}

@[simp] theorem Work.rest?_queue (w : Work β) : w.queue.1.rest? = w.rest? := by
  unfold queue
  split
  · rfl
  · exact Lane.rest?_notify w.toLane

@[simp] theorem Work.isSome_worker_queue (w : Work β) :
    w.queue.1.worker.isSome = w.worker.isSome := by
  unfold queue
  split
  · rfl
  · exact w.toLane.isSome_worker_notify

theorem Work.lined_queue {w : Work β} {ids : List Nat} (h : w.Lined ids) :
    w.queue.1.Lined ids := by
  unfold queue
  split
  · exact h
  · exact h.notify

/-- What a move of the worker on its way to a run comes to. -/
inductive Work.Seeks (w : Work β) : Work β → Moved → Prop

  | consumes (idle : w.worker = some .idle) (kept : w.permit = true) :
      Seeks w { w with toLane := { w.toLane with permit := false }.ask } .looking

  | parks (idle : w.worker = some .idle) (alone : w.permit = false) :
      Seeks w { w with worker := some (.parked none false) } .looking

  | wakes {u : Option Nat} (notified : w.worker = some (.parked u true)) :
      Seeks w { w with toLane := w.toLane.ask } .looking

  | claims (claiming : w.worker = some .claiming) (head : w.run.holder = some .worker)
      (pending : w.pending = true) : Seeks w { w with pending := false } .claimed

  /-- A cancel came first. -/
  | withdraws (claiming : w.worker = some .claiming) (head : w.run.holder = some .worker)
      (dropped : w.pending = false) : Seeks w { w with toLane := w.toLane.finish } .looking

  | waits : Seeks w w .looking

theorem Work.seeks {w w' : Work β} {m : Moved} (h : w.seek = (w', m)) : w.Seeks w' m := by
  rcases w with ⟨⟨permit, run, _ | _ | ⟨u, _ | _⟩ | _ | rest⟩, pending⟩
  · cases h
    exact .waits
  · simp only [seek] at h
    split at h
    · rename_i hp
      cases h
      exact .consumes rfl hp
    · rename_i hp
      cases h
      exact .parks rfl (Bool.not_eq_true _ ▸ hp)
  · cases h
    exact .waits
  · cases h
    exact .wakes rfl
  · simp only [seek, claim] at h
    split at h
    · rename_i hh
      rw [Lock.heldBy_iff] at hh
      split at h
      · rename_i hp
        cases h
        exact .claims rfl hh hp
      · rename_i hp
        cases h
        exact .withdraws rfl hh (Bool.not_eq_true _ ▸ hp)
    · cases h
      exact .waits
  · cases h
    exact .waits

theorem Work.seek_claimed {w w' : Work β} (h : w.seek = (w', .claimed)) :
    w.worker = some .claiming ∧ w.pending = true ∧ w' = { w with pending := false } := by
  cases seeks h with
  | claims hw _ hp => exact ⟨hw, hp, rfl⟩

theorem Work.holder_of_claimed {w w' : Work β} (h : w.seek = (w', .claimed)) :
    w'.run.holder = some .worker ∧ w'.pending = false := by
  cases seeks h with
  | claims _ hh _ => exact ⟨hh, rfl⟩

theorem Work.pending_looking {w w' : Work β} (h : w.seek = (w', .looking)) :
    w'.pending = w.pending := by
  cases seeks h <;> rfl

theorem Work.lined_of_seek {w w' : Work β} {m : Moved} (hs : w.seek = (w', m)) {ids : List Nat}
    (h : w.Lined ids) : w'.Lined ids := by
  have hp := h.placed
  rw [Lane.Placed] at hp
  cases seeks hs with
  | consumes hw =>
    rw [hw] at hp
    refine Lane.Lined.ask (l := { w.toLane with permit := false }) ⟨h.orderly, ?_, h.clients⟩ hp
    simpa only [Lane.Placed, hw] using hp
  | parks hw =>
    rw [hw] at hp
    exact ⟨h.orderly, hp, h.clients⟩
  | wakes hw =>
    rw [hw] at hp
    exact h.ask hp
  | claims => exact ⟨h.orderly, h.placed, h.clients⟩
  | withdraws _ hh => exact h.finish hh
  | waits => exact h

theorem Work.rest?_of_seek {w w' : Work β} {m : Moved} (h : w.seek = (w', m)) :
    w'.rest? = w.rest? := by
  cases seeks h with
  | claims => rfl
  | waits => rfl
  | _ => simp_all [Lane.rest?, Lane.ask, Lane.finish]

theorem Work.worker_of_seek {w w' : Work β} {m : Moved} (h : w.seek = (w', m)) :
    w'.worker.isSome = w.worker.isSome := by
  cases seeks h with
  | claims => rfl
  | waits => rfl
  | _ => simp_all [Lane.ask, Lane.finish]

end HotplugDetect
