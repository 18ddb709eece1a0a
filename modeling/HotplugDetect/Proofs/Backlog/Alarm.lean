import HotplugDetect.Proofs.Backlog.Kept
import HotplugDetect.Proofs.Recovery

/-! # The alarm of the recovery

The worker of the recovery sleeps until the deadline and is notified whenever the deadline changes.
Where time passes only while every worker waits, it is never late.
-/

namespace HotplugDetect

variable {ρ : Type}

section Workers

variable {β : Type}

/-- A waiting worker has set its alarm to the deadline. -/
theorem DelayedWork.alarm_eq_deadline {w : DelayedWork β} (hw : w.Unqueued False)
    (hset : w.Set) (hthere : w.worker.isSome = true) {now : Nat}
    (hm : w.canMove now (fun _ => true) = false) : w.toLane.alarm? = w.deadline := by
  have hplaced := hw.lined.placed
  have hfree := hw.free not_false
  rcases w with ⟨⟨permit, run, _ | _ | ⟨u, _ | _⟩ | _ | rest⟩, deadline⟩
  · cases hthere
  · cases hm
  · exact hset u rfl
  · cases hm
  · obtain rfl : run = {} := hfree
    cases hplaced
  · cases hm

end Workers

/-- What holds as long as nothing is cancelled: whoever arms the recovery finds its worker there,
and no operation is left waiting. -/
structure Backlog.Alert (b : Backlog) : Prop where

  set : b.reenable.Set

  manned : b.generic.worker.isSome = true ∨ b.reenable.deadline.isSome = true →
    b.reenable.worker.isSome = true

  errands : b.errands = []

theorem Backlog.Alert.congr {b b' : Backlog} (h : b.Alert) (hreenable : b'.reenable = b.reenable)
    (hgeneric : b'.generic.worker.isSome = b.generic.worker.isSome)
    (herrands : b'.errands = b.errands) : b'.Alert where
  set := by
    rw [hreenable]
    exact h.set
  manned := by
    rw [hreenable, hgeneric]
    exact h.manned
  errands := herrands.trans h.errands

theorem Backlog.Alert.interrupted {b b' : Backlog} (h : b.Alert) (hi : b.Interrupted b') :
    b'.Alert := by
  have hgeneric : b'.generic.worker.isSome = b.generic.worker.isSome := by
    rcases hi.generic with hg | ⟨hg, -⟩
    · rw [hg, Work.isSome_worker_queue]
    · rw [hg]
  exact h.congr (by rw [hi.rest]) hgeneric (by rw [hi.rest])

def Action.cancels : Action → Bool
  | .cancelAll _ => true
  | .shutdown _ => true
  | _ => false

namespace Controller

variable {s : Controller ρ}

section Moves

theorem alert_moveDigital (h : s.backlog.Alert) : s.moveDigital.backlog.Alert := by
  unfold moveDigital
  split
  · split
    · rename_i long short _
      have hdelivered : (s.deliver long short ∅ Port.all).1.backlog.Alert :=
        deliver_induction (P := fun t => t.backlog.Alert) (fun _ _ ht => ht) (fun _ _ _ _ ht => ht)
          (fun t i ht => ht.interrupted (t.interrupted_interrupt i)) long short ∅ Port.all s h
      simp only
      rw [backlog_beginRun]
      exact hdelivered.congr rfl rfl rfl
    · rw [backlog_finishRun, backlog_fallBack]
      split
      · exact h.congr rfl rfl rfl
      · exact h.congr rfl (Work.isSome_worker_queue _) rfl
  · split <;> exact h.congr rfl rfl rfl

theorem reenable_probePass [Probe ρ] (s : Controller ρ) (pins : PinSet) :
    (s.probePass pins).reenable = s.reenable ∧ (s.probePass pins).errands = s.errands := by
  have hprobed : (s.probeAll pins s.connectors).1.reenable = s.reenable ∧
      (s.probeAll pins s.connectors).1.errands = s.errands := by
    refine probeAll_induction (P := fun t => t.reenable = s.reenable ∧ t.errands = s.errands)
      (fun _ _ ht => ht) (fun t i ht => ?_) pins s.connectors s ⟨rfl, rfl⟩
    have hi := (t.interrupted_interrupt i).rest
    exact ⟨(congrArg Backlog.reenable hi).trans ht.1, (congrArg Backlog.errands hi).trans ht.2⟩
  have hpass := s.backlog_probePass pins
  exact ⟨(congrArg Backlog.reenable hpass).trans hprobed.1,
    (congrArg Backlog.errands hpass).trans hprobed.2⟩

theorem alert_moveGeneric [Probe ρ] (h : s.backlog.Alert) : s.moveGeneric.backlog.Alert := by
  have hmanned (hw : s.generic.worker.isSome = true) : s.reenable.worker.isSome = true :=
    h.manned (.inl hw)
  unfold moveGeneric
  split
  · rename_i rest hw
    split
    · obtain ⟨hreenable, herrands⟩ := s.reenable_probePass rest.pins
      rw [backlog_finishRun]
      refine ⟨?_, fun _ => ?_, herrands.trans h.errands⟩
      · show DelayedWork.Set (s.probePass rest.pins).reenable
        rw [hreenable]
        exact h.set
      · show (s.probePass rest.pins).reenable.worker.isSome = true
        rw [hreenable]
        exact hmanned (by rw [hw]; rfl)
    · exact h
  · split
    · rename_i w hs
      refine ⟨h.set, ?_, h.errands⟩
      show w.worker.isSome = true ∨ _ → _
      rw [Work.worker_of_seek hs]
      exact h.manned
    · rename_i w hs
      obtain ⟨hw, -, rfl⟩ := Work.seek_claimed hs
      have htake := backlog_takeEvents
        ({ s with generic := { s.generic with pending := false } } : Controller ρ)
      have hthere := hmanned (by rw [hw]; rfl)
      simp only [backlog_requestMode, backlog_beginRun, htake]
      refine ⟨?_, fun _ => ?_, h.errands⟩
      · show DelayedWork.Set (if _ then s.reenable else _)
        split
        · exact h.set
        · exact s.reenable.set_schedule _
      · show (if _ then s.reenable else s.reenable.schedule _ : DelayedWork Rest).worker.isSome =
          true
        split
        · exact hthere
        · exact s.reenable.toLane.isSome_worker_notify.trans hthere

theorem alert_movePollInit (h : s.backlog.Alert) : s.movePollInit.backlog.Alert := by
  unfold movePollInit
  split
  · split
    · rw [backlog_finishRun, backlog_pollInitPass]
      exact h.congr rfl rfl rfl
    · exact h
  · split <;> exact h.congr rfl rfl rfl

theorem alert_moveReenable (h : s.backlog.Alert) (timerFirst : Bool) :
    (s.moveReenable timerFirst).backlog.Alert := by
  unfold moveReenable
  split
  · rename_i w hs
    refine ⟨h.set.of_seek hs, ?_, h.errands⟩
    show _ ∨ w.deadline.isSome = true → w.worker.isSome = true
    rw [DelayedWork.deadline_seek hs, DelayedWork.worker_of_seek hs]
    exact h.manned
  · rw [backlog_finishRun, backlog_reenablePass]
    exact ⟨nofun, fun _ => rfl, h.errands⟩

theorem alert_move [Probe ρ] (h : s.backlog.Alert) (j : Job) (timerFirst : Bool) :
    (s.move j timerFirst).backlog.Alert := by
  cases j with
  | digital => exact alert_moveDigital h
  | generic => exact alert_moveGeneric h
  | pollInit => exact alert_movePollInit h
  | reenable => exact alert_moveReenable h timerFirst

end Moves

section Operations

theorem alert_flush (h : s.backlog.Alert) (hfree : s.reenable.run = {}) (client : Nat) :
    (s.flush client).backlog.Alert := by
  unfold flush
  simp only
  rw [if_pos (holdsRun_of_free (s := s) (j := .reenable) hfree client), backlog_recoverNow,
    backlog_requestRun]
  refine ⟨fun u hu => absurd hu (Lane.worker_notify_ne _ u), ?_, h.errands⟩
  rintro (hg | hd)
  · exact (Lane.isSome_worker_notify _).trans (h.manned (.inl hg))
  · cases hd

theorem errand?_eq_none (h : s.backlog.Alert) (client : Nat) : s.errand? client = none := by
  have herrands : s.errands = [] := h.errands
  rw [errand?, herrands]
  rfl

theorem act_resume [Probe ρ] (h : s.backlog.Alert) (client : Nat) :
    s.act (.resume client) = s := by
  show s.resume client = s
  unfold resume
  rw [errand?_eq_none h]

theorem act_abandon [Probe ρ] (h : s.backlog.Alert) (client : Nat) :
    s.act (.abandon client) = s := by
  show s.abandon client = s
  unfold abandon
  rw [errand?_eq_none h]

theorem alert_start (h : s.backlog.Alert) : ((s.start true).toOption.getD s).backlog.Alert := by
  unfold start
  split
  · exact h
  · split
    · exact h
    · show (Controller.backlog (List.foldl _ s Job.all)).Alert
      rw [backlog_startWorkers]
      refine ⟨fun u hu => h.set u ?_, fun _ => ?_, h.errands⟩
      · show s.reenable.worker = some (.parked u false)
        have hstarted : s.reenable.worker.or (some .idle) = some (.parked u false) := hu
        cases hw : s.reenable.worker with
        | none =>
          rw [hw] at hstarted
          cases hstarted
        | some place => rwa [hw] at hstarted
      · show (s.reenable.worker.or (some .idle)).isSome = true
        rw [Option.isSome_or]
        exact Bool.or_true _

theorem alert_act_of_free [Probe ρ] (hk : s.backlog.Kept none) (h : s.backlog.Alert) {a : Action}
    (hc : a.cancels = false) : (s.act a).backlog.Alert := by
  have hconfigured (t : Controller ρ) (ht : t.backlog = s.backlog) (client : Nat)
      (config : StormConfig) : (t.configure client config).backlog.Alert := by
    have hb : ({ t with table := { t.table with config }.clearCounts } :
        Controller ρ).backlog = s.backlog := ht
    have hfree : s.reenable.run = {} := hk.reenableLane.free nofun
    unfold configure
    exact alert_flush (hb ▸ h) ((congrArg (·.reenable.run) hb).trans hfree) client
  cases a with
  | interrupt i => exact h.interrupted (s.interrupted_interrupt i)
  | raw pinMask longMask => exact h.interrupted (s.interrupted_raw pinMask longMask)
  | init =>
    rw [act, backlog_init]
    exact h.congr rfl rfl rfl
  | forcePolling on =>
    rw [act, backlog_forcePolling]
    exact h.congr rfl rfl rfl
  | setIrqs on => exact h
  | disable p => exact h
  | enable p => exact h
  | setThreshold client k =>
    show (s.setThreshold client k).backlog.Alert
    unfold setThreshold
    split
    · exact h
    · exact hconfigured (s.note _) rfl client _
  | setShortStorms client k =>
    show (s.setShortStorms client k).backlog.Alert
    unfold setShortStorms
    split
    · exact h
    · exact hconfigured (s.note _) rfl client _
  | cancelAll client => cases hc
  | shutdown client => cases hc
  | resume client =>
    rw [act_resume h]
    exact h
  | abandon client =>
    rw [act_abandon h]
    exact h
  | start => exact alert_start h
  | hold party =>
    rw [act, backlog_hold]
    exact h.congr rfl rfl rfl
  | release party =>
    rw [act, backlog_release]
    exact h.congr rfl rfl rfl
  | move j timerFirst => exact alert_move h j timerFirst
  | giveWay => exact h
  | advance instant =>
    rw [act, backlog_advance]
    exact h

/-- On one thread every action but a cancellation keeps the recovery guarded. -/
theorem alert_act [Probe ρ] {busy : Option Job} (hk : s.backlog.Kept busy) (h : s.backlog.Alert)
    {a : Action} (ha : mayFollow busy a = true) (hc : a.cancels = false) :
    (s.act a).backlog.Alert := by
  cases busy with
  | none => exact alert_act_of_free hk h hc
  | some j =>
    cases a with
    | move k timerFirst => exact alert_move h k timerFirst
    | giveWay => exact h
    | _ => cases ha

end Operations

section Clock

/-- The clock of the executor goes on only while every worker waits, and it stops at the next
alarm. -/
def onTime (s : Controller ρ) : Action → Bool
  | .advance instant => Job.all.all (fun j => !s.canMove j) && s.alarm?.all (instant ≤ ·)
  | _ => true

def Punctual [Probe ρ] (s : Controller ρ) : List Action → Bool
  | [] => true
  | a :: as => s.onTime a && (s.act a).Punctual as

theorem punctual_concat [Probe ρ] (s : Controller ρ) (as : List Action) (a : Action) :
    s.Punctual (as ++ [a]) = (s.Punctual as && (s.run as).onTime a) := by
  induction as generalizing s with
  | nil => exact Bool.and_true _
  | cons b as ih => simp only [List.cons_append, Punctual, ih, Bool.and_assoc, run, List.foldl_cons]

theorem Effect.now_eq [Probe ρ] {a : Action} {w : Watch} (he : s.Effect a w)
    (ha : ∀ instant, a ≠ .advance instant) : w.now = s.watch.now := by
  cases he with
  | interrupts _ =>
    obtain ⟨stats, h⟩ := fixed_foldl_interrupted (s.interruptsOf a) s.watch
    rw [h]
  | advance instant => exact absurd rfl (ha instant)
  | _ => rfl

theorem now_move [Probe ρ] {s : Controller ρ} (j : Job) (timerFirst : Bool) :
    (s.move j timerFirst).now = s.now :=
  (s.effect_move j timerFirst).now_eq nofun

/-- The deadline is never in the past. -/
theorem now_le_deadline_act [Probe ρ] {busy : Option Job} (hk : s.backlog.Kept busy)
    (h : s.backlog.Alert) (hnow : ∀ d, s.watch.deadline = some d → s.watch.now ≤ d) {a : Action}
    (ha : mayFollow busy a = true) (ht : s.onTime a = true) {d : Nat}
    (hd : (s.act a).watch.deadline = some d) : (s.act a).watch.now ≤ d := by
  have he := s.effect_act a
  by_cases hadvance : ∃ instant, a = .advance instant
  · obtain ⟨instant, rfl⟩ := hadvance
    obtain rfl : busy = none := by
      cases busy with
      | none => rfl
      | some j => cases ha
    have hw : (s.act (.advance instant)).watch =
        { s.watch with now := max s.watch.now instant } := by
      exact plain_watch.advance s instant
    rw [hw] at hd ⊢
    obtain ⟨hwaiting, halarm⟩ := Bool.and_eq_true_iff.mp ht
    have hm : s.canMove .reenable = false := by
      simpa using List.all_eq_true.mp hwaiting .reenable (by decide)
    have hthere : s.reenable.worker.isSome = true :=
      h.manned (.inr (Option.isSome_iff_exists.mpr ⟨d, hd⟩))
    have hfree : s.reenable.run = {} := hk.reenableLane.free (Option.some_ne_none _).symm
    have heq : s.alarm? = some d :=
      (DelayedWork.alarm_eq_deadline (w := s.reenable)
        ⟨hk.reenableLane.lined, fun _ => hfree⟩ h.set hthere hm).trans hd
    rw [heq] at halarm
    exact max_le (hnow d hd) (of_decide_eq_true halarm)
  · rw [he.now_eq fun instant ha => hadvance ⟨instant, ha⟩]
    rcases he.deadline hd with hd | rfl
    · exact hnow d hd
    · exact Nat.le_add_right _ _

end Clock

end Controller

end HotplugDetect
