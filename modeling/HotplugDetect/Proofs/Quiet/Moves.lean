import HotplugDetect.Proofs.Backlog.Lines
import HotplugDetect.Proofs.Dispatch.Stride

/-! # A controller that is left alone

No operation is called and no interrupt arrives. The workers still move, the clock goes on, and
operations in progress go on or are given up. A move does one of a few things to the backlog then,
and only the runs of the workers call a collaborator.
-/

namespace HotplugDetect

variable {ρ : Type}

/-- Actions other than interrupts and calls of operations. The outside party is no client. -/
def Action.background : Action → Bool
  | .resume _ | .abandon _ | .hold _ | .release _ | .move _ _ | .giveWay | .advance _ => true
  | _ => false

namespace Backlog

/-- A run of the job is pending, or the recovery is armed. -/
def wanted (b : Backlog) : Job → Bool
  | .digital => b.digital.pending
  | .generic => b.generic.pending
  | .pollInit => b.pollInit.pending
  | .reenable => b.reenable.armed

theorem wanted_withLane (b : Backlog) (j k : Job) (f : Lane Rest → Lane Rest) :
    (b.withLane j f).wanted k = b.wanted k := by
  cases j <;> cases k <;> rfl

theorem wanted_disarm (b : Backlog) (j k : Job) :
    (b.disarm j).wanted k = (b.wanted k && k ≠ j) := by
  cases j <;> cases k <;> simp [disarm, wanted, Work.disarm, DelayedWork.disarm, DelayedWork.armed]

/-- A move of a worker during which no interrupt arrives. -/
inductive Moves (now : Nat) (b : Backlog) : Job → Backlog → Prop

  | digitalLooks {w : Work Rest} (seek : b.digital.seek = (w, .looking))
      (idle : b.digital.rest? = none) : Moves now b .digital { b with digital := w }

  | drains {w : Work Rest} (seek : b.digital.seek = (w, .claimed)) :
      Moves now b .digital { b with
        longPorts := ∅
        shortPorts := ∅
        digital := { w with
          toLane := w.toLane.begin { pulses := some (b.longPorts, b.shortPorts) } } }

  | delivers {rest : Rest} {pulses : PortSet × PortSet} {refused : PinSet}
      (running : b.digital.worker = some (.running rest)) (taken : rest.pulses = some pulses) :
      Moves now b .digital { b with
        digital := { b.digital with toLane := b.digital.toLane.begin { pins := refused } } }

  | fallsBack {rest : Rest} (running : b.digital.worker = some (.running rest))
      (done : rest.pulses = none) :
      Moves now b .digital { b with
        eventPins := b.eventPins ∪ rest.pins
        digital := { b.digital with toLane := b.digital.toLane.finish }
        generic := if rest.pins.isEmpty then b.generic else b.generic.queue.1 }

  | genericLooks {w : Work Rest} (seek : b.generic.seek = (w, .looking))
      (idle : b.generic.rest? = none) : Moves now b .generic { b with generic := w }

  | takes {w : Work Rest} {reenable : DelayedWork Rest}
      (seek : b.generic.seek = (w, .claimed))
      (armed : reenable = b.reenable ∨ ∃ instant, reenable = b.reenable.schedule instant) :
      Moves now b .generic { b with
        eventPins := ∅
        generic := { w with toLane := w.toLane.begin { pins := b.eventPins } }
        reenable
        mode := b.mode.request .generic }

  | probes {rest : Rest} (running : b.generic.worker = some (.running rest))
      (held : b.mode.heldBy .generic = true) :
      Moves now b .generic { b with
        generic := { b.generic with toLane := b.generic.toLane.finish }
        mode := b.mode.release }

  | genericWaits {rest : Rest} (running : b.generic.worker = some (.running rest))
      (held : b.mode.heldBy .generic = false) : Moves now b .generic b

  | pollInitLooks {w : Work Rest} (seek : b.pollInit.seek = (w, .looking))
      (idle : b.pollInit.rest? = none) : Moves now b .pollInit { b with pollInit := w }

  | reads {w : Work Rest} {disabled : PinSet} (seek : b.pollInit.seek = (w, .claimed)) :
      Moves now b .pollInit { b with
        pollInit := { w with toLane := w.toLane.begin { pins := disabled } }
        mode := b.mode.request .pollInit }

  | reinitializes {rest : Rest} (running : b.pollInit.worker = some (.running rest))
      (held : b.mode.heldBy .pollInit = true) :
      Moves now b .pollInit { b with
        pollInit := { b.pollInit with toLane := b.pollInit.toLane.finish }
        mode := b.mode.release }

  | pollInitWaits {rest : Rest} (running : b.pollInit.worker = some (.running rest))
      (held : b.mode.heldBy .pollInit = false) : Moves now b .pollInit b

  | reenableLooks {w : DelayedWork Rest} {timerFirst : Bool}
      (seek : b.reenable.seek now timerFirst = (w, .looking)) :
      Moves now b .reenable { b with reenable := w }

  | recovers {w : DelayedWork Rest} {timerFirst : Bool}
      (seek : b.reenable.seek now timerFirst = (w, .claimed)) :
      Moves now b .reenable { b with reenable := { w with toLane := w.toLane.past {} } }

theorem InLine.rest?_of_holder {b : Backlog} {there : Bool} {j : Job} (h : b.InLine there)
    (hh : (b.lane j).run.holder ≠ some .worker) : (b.lane j).rest? = none := by
  refine Lane.rest?_of_not_running fun rest hw => ?_
  have hplaced := (h.lanes j).lined.placed
  rw [Lane.Placed, hw] at hplaced
  exact hh hplaced.1

theorem rest?_disarm (b : Backlog) (j k : Job) :
    ((b.disarm j).lane k).rest? = (b.lane k).rest? := by
  cases j with
  | reenable =>
    cases k with
    | reenable => exact Lane.rest?_notify _
    | _ => rfl
  | _ => cases k <;> rfl

namespace Moves

variable {now : Nat} {b b' : Backlog} {j k : Job}

theorem errands (h : b.Moves now j b') : b'.errands = b.errands := by
  cases h <;> rfl

theorem rest?_of_ne (h : b.Moves now j b') (hk : k ≠ j) :
    (b'.lane k).rest? = (b.lane k).rest? := by
  cases h with
  | fallsBack _ _ =>
    cases k with
    | digital => exact absurd rfl hk
    | generic =>
      show Lane.rest? (ite _ _ _ : Work Rest).toLane = _
      split
      · rfl
      · exact Work.rest?_queue _
    | _ => rfl
  | takes _ harmed =>
    cases k with
    | generic => exact absurd rfl hk
    | reenable =>
      rcases harmed with rfl | ⟨instant, rfl⟩
      · rfl
      · exact Lane.rest?_notify _
    | _ => rfl
  | _ => cases k <;> first | rfl | exact absurd rfl hk

/-- A run does not come to be in flight unless somebody asked for it. -/
theorem rest?_eq_none (h : b.Moves now j b') (hrest : (b.lane k).rest? = none)
    (hw : b.wanted k = false) : (b'.lane k).rest? = none := by
  by_cases hk : k = j
  · subst hk
    cases h with
    | digitalLooks hs => exact (Work.rest?_of_seek hs).trans hrest
    | drains hs =>
      obtain ⟨-, hp, -⟩ := Work.seek_claimed hs
      exact absurd (hw.symm.trans hp) Bool.false_ne_true
    | delivers hrunning =>
      rw [lane, Lane.rest?_eq_some_iff.mpr hrunning] at hrest
      cases hrest
    | fallsBack => rfl
    | genericLooks hs => exact (Work.rest?_of_seek hs).trans hrest
    | takes hs =>
      obtain ⟨-, hp, -⟩ := Work.seek_claimed hs
      exact absurd (hw.symm.trans hp) Bool.false_ne_true
    | probes => rfl
    | genericWaits => exact hrest
    | pollInitLooks hs => exact (Work.rest?_of_seek hs).trans hrest
    | reads hs =>
      obtain ⟨-, hp, -⟩ := Work.seek_claimed hs
      exact absurd (hw.symm.trans hp) Bool.false_ne_true
    | reinitializes => rfl
    | pollInitWaits => exact hrest
    | reenableLooks hs => exact (DelayedWork.rest?_of_seek hs).trans hrest
    | recovers => rfl
  · exact (h.rest?_of_ne hk).trans hrest

/-- A digital run in flight may ask for a generic one, and a pending generic run for a recovery. -/
theorem wanted (h : b.Moves now j b') (hw : b'.wanted k = true) :
    b.wanted k = true ∨ (k = .generic ∧ b.digital.rest?.isSome = true) ∨
      (k = .reenable ∧ b.wanted .generic = true) := by
  cases h with
  | digitalLooks hs =>
    cases k with
    | digital => exact .inl ((Work.pending_looking hs).symm.trans hw)
    | _ => exact .inl hw
  | drains hs =>
    obtain ⟨-, hp, -⟩ := Work.seek_claimed hs
    cases k with
    | digital => exact .inl hp
    | _ => exact .inl hw
  | fallsBack hrunning =>
    cases k with
    | generic => exact .inr (.inl ⟨rfl, by rw [Lane.rest?_eq_some_iff.mpr hrunning]; rfl⟩)
    | _ => exact .inl hw
  | genericLooks hs =>
    cases k with
    | generic => exact .inl ((Work.pending_looking hs).symm.trans hw)
    | _ => exact .inl hw
  | takes hs =>
    obtain ⟨-, hp, -⟩ := Work.seek_claimed hs
    cases k with
    | generic => exact .inl hp
    | reenable => exact .inr (.inr ⟨rfl, hp⟩)
    | _ => exact .inl hw
  | pollInitLooks hs =>
    cases k with
    | pollInit => exact .inl ((Work.pending_looking hs).symm.trans hw)
    | _ => exact .inl hw
  | reads hs =>
    obtain ⟨-, hp, -⟩ := Work.seek_claimed hs
    cases k with
    | pollInit => exact .inl hp
    | _ => exact .inl hw
  | reenableLooks hs =>
    cases k with
    | reenable => exact .inl ((congrArg Option.isSome (DelayedWork.deadline_seek hs)).symm.trans hw)
    | _ => exact .inl hw
  | recovers hs =>
    obtain ⟨-, -, rfl⟩ := DelayedWork.seek_claimed hs
    cases k with
    | reenable => cases hw
    | _ => exact .inl hw
  | _ => cases k <;> exact .inl hw

end Moves

/-- No pin is recorded and no digital run begins. -/
structure Fades (b b' : Backlog) : Prop where

  pins : b'.eventPins = b.eventPins ∨ b'.eventPins = ∅

  rest : b'.digital.rest? = b.digital.rest? ∨ b'.digital.rest? = none

namespace Fades

variable {b b' : Backlog}

theorem refl (b : Backlog) : b.Fades b := ⟨.inl rfl, .inl rfl⟩

theorem trans {b'' : Backlog} (h : b.Fades b') (h' : b'.Fades b'') : b.Fades b'' where
  pins := by
    rcases h'.pins with hp | hp
    · exact hp ▸ h.pins
    · exact .inr hp
  rest := by
    rcases h'.rest with hr | hr
    · exact hr ▸ h.rest
    · exact .inr hr

theorem withLane (b : Backlog) (j : Job) {f : Lane Rest → Lane Rest}
    (hf : ∀ l, (f l).rest? = l.rest?) : b.Fades (b.withLane j f) := by
  cases j with
  | digital => exact ⟨.inl rfl, .inl (hf _)⟩
  | _ => exact ⟨.inl rfl, .inl rfl⟩

theorem withErrands (h : b.Fades b') (errands : List (Nat × Errand)) :
    b.Fades { b' with errands } := ⟨h.pins, h.rest⟩

theorem of_step {a : Action} (ha : a.drops = true) (hs : Step a b b') : b.Fades b' := by
  have hmove {j : Job} : ¬∃ timerFirst, a = .move j timerFirst := by
    rintro ⟨timerFirst, rfl⟩
    cases ha
  cases hs with
  | interrupted hdrops =>
    rw [ha] at hdrops
    cases hdrops
  | queuesPollInit => exact ⟨.inl rfl, .inl rfl⟩
  | digitalLooks hm => exact absurd hm hmove
  | genericLooks => exact ⟨.inl rfl, .inl rfl⟩
  | pollInitLooks => exact ⟨.inl rfl, .inl rfl⟩
  | reenableLooks => exact ⟨.inl rfl, .inl rfl⟩
  | drains hm => exact absurd hm hmove
  | delivers hm => exact absurd hm hmove
  | fallsBack hm => exact absurd hm hmove
  | takes => exact ⟨.inr rfl, .inl rfl⟩
  | probed => exact ⟨.inl rfl, .inl rfl⟩
  | reads => exact ⟨.inl rfl, .inl rfl⟩
  | reinitialized => exact ⟨.inl rfl, .inl rfl⟩
  | recovers => exact ⟨.inl rfl, .inl rfl⟩
  | forgets => exact ⟨.inr rfl, .inl rfl⟩
  | disarms j => cases j <;> exact ⟨.inl rfl, .inl rfl⟩
  | passes => exact withLane b _ fun _ => rfl
  | waits =>
    refine (withLane b _ ?_).withErrands _
    exact fun _ => rfl
  | resumes =>
    refine (withLane b _ ?_).withErrands _
    exact fun _ => rfl
  | leaves =>
    refine (withLane b _ ?_).withErrands _
    exact fun _ => rfl
  | starts => exact ⟨.inl rfl, .inl (Lane.rest?_start _)⟩
  | stops => exact ⟨.inl rfl, .inr (Lane.rest?_stop _)⟩
  | holds => exact ⟨.inl rfl, .inl rfl⟩
  | releases => exact ⟨.inl rfl, .inl rfl⟩

theorem of_moves {now : Nat} {j : Job} (hm : b.Moves now j b') (hj : j ≠ .digital) :
    b.Fades b' := by
  cases hm with
  | takes => exact ⟨.inr rfl, .inl rfl⟩
  | _ => first | exact absurd rfl hj | exact ⟨.inl rfl, .inl rfl⟩

end Fades

end Backlog

section Strides

variable [Probe ρ]

/-- Apart from poll-init runs, the moves are the strides. -/
theorem Stride.moves {now : Nat} {b b' : Backlog} {g g' : Ledger ρ} {j : Job}
    (h : Stride now b g j b' g') (hj : j ≠ .pollInit) : b.Moves now j b' := by
  cases h with
  | digitalLooks seek idle => exact .digitalLooks seek idle
  | drains seek => exact .drains seek
  | delivers running taken => exact .delivers running taken
  | fallsBack running done => exact .fallsBack running done
  | genericLooks seek idle => exact .genericLooks seek idle
  | takes seek armed => exact .takes seek armed
  | waits running held => exact .genericWaits running held
  | probes running held => exact .probes running held
  | pollInitLooks => exact absurd rfl hj
  | reenableLooks seek => exact .reenableLooks seek
  | recovers seek => exact .recovers seek

end Strides

namespace Controller

def calls (s : Controller ρ) : List Call :=
  s.trace.filterMap fun
    | .call c => some c
    | .note _ => none

theorem moves_movePollInit (s : Controller ρ) :
    s.backlog.Moves s.now .pollInit s.movePollInit.backlog := by
  unfold movePollInit
  split
  · rename_i disabled hw
    split
    · rename_i hm
      rw [backlog_finishRun, backlog_pollInitPass]
      exact .reinitializes hw hm
    · rename_i hm
      exact .pollInitWaits hw (Bool.not_eq_true _ ▸ hm)
  · rename_i hidle
    split
    · rename_i w hs
      exact .pollInitLooks hs (Lane.rest?_of_not_running hidle)
    · rename_i w hs
      exact .reads hs

section Moves

variable [Probe ρ] {s : Controller ρ}

theorem moves_move {j : Job} {timerFirst : Bool} (h : s.interruptsOf (.move j timerFirst) = []) :
    s.backlog.Moves s.now j (s.move j timerFirst).backlog := by
  cases j with
  | digital => exact (s.stride_moveDigital h).moves (by decide)
  | generic => exact (s.stride_moveGeneric h).moves (by decide)
  | pollInit => exact s.moves_movePollInit
  | reenable => exact (s.stride_moveReenable timerFirst).moves (by decide)

/-- Nothing but background actions, and no interrupt arrives in their course. -/
def LeftAlone (s : Controller ρ) : List Action → Bool
  | [] => true
  | a :: as => a.background && (s.interruptsOf a).isEmpty && (s.act a).LeftAlone as

theorem leftAlone_cons {a : Action} {as : List Action} :
    s.LeftAlone (a :: as) = true ↔
      a.background = true ∧ s.interruptsOf a = [] ∧ (s.act a).LeftAlone as = true := by
  simp [LeftAlone, and_assoc]

end Moves

section Operations

variable {s : Controller ρ} {client : Nat}

/-- What the steps of a cancellation keep, the cancellation keeps. -/
theorem cancelJobs_induction {P : Controller ρ → Prop} {stop : Bool}
    (hdisarm : ∀ s j, P s → P (s.disarm j)) (hrequest : ∀ s j, P s → P (s.requestRun j client))
    (hrelease : ∀ s j, P s → P (s.releaseRun j))
    (hwait : ∀ s j rest, P s → P (s.withErrand client (.cancel j rest stop)))
    (hstop : ∀ s, stop = true → P s → P s.stopWorkers) {s : Controller ρ} (h : P s)
    (js : List Job) : P (s.cancelJobs client stop js) := by
  induction js generalizing s with
  | nil =>
    unfold cancelJobs
    split
    · rename_i hs
      unfold stopAll
      simp only
      split
      · exact hs ▸ hwait _ .digital [] (hrequest s .digital h)
      · exact hstop s hs h
    · exact h
  | cons j js ih =>
    have hasked := hrequest _ j (hdisarm s j h)
    unfold cancelJobs
    simp only
    split
    · exact ih (hrelease _ j hasked)
    · exact hwait _ j js hasked

/-- An errand that goes on has been handed its lock. -/
theorem resume_cases (s : Controller ρ) (client : Nat) :
    s.resume client = s ∨
      (∃ j rest stop, s.errand? client = some (.cancel j rest stop) ∧
        s.holdsRun j client = true ∧ s.resume client =
          ((s.withoutErrand client).releaseRun j).cancelJobs client stop rest) ∨
      s.errand? client = some .flush ∧ s.holdsRun .reenable client = true ∧
        s.resume client = (s.withoutErrand client).recoverNow := by
  unfold resume
  split
  · rename_i j rest stop he
    split
    · rename_i hh
      exact .inr (.inl ⟨j, rest, stop, he, hh, rfl⟩)
    · exact .inl rfl
  · rename_i he
    split
    · rename_i hh
      exact .inr (.inr ⟨he, hh, rfl⟩)
    · exact .inl rfl
  · exact .inl rfl

theorem backlog_released (s : Controller ρ) (client : Nat) (j : Job) :
    ((s.withoutErrand client).releaseRun j).backlog =
      { (s.backlog.withLane j fun l => { l with run := l.run.release }) with
        errands := s.errands.filter (·.1 != client) } := by
  rw [backlog_releaseRun, backlog_withoutErrand, withErrands_withLane]
  rfl

theorem backlog_abandon {s : Controller ρ} {e : Errand} (he : s.errand? client = some e) :
    (s.abandon client).backlog = { (s.backlog.withLane e.job fun l =>
      { l with run := l.run.leave (.client client) }) with
        errands := s.errands.filter (·.1 != client) } := by
  unfold abandon
  rw [he]
  simp only
  rw [plain_backlog.rouse, backlog_withLane, backlog_withoutErrand, withErrands_withLane]
  rfl

theorem abandon_of_none {s : Controller ρ} (h : s.errand? client = none) :
    s.abandon client = s := by
  unfold abandon
  rw [h]

end Operations

section Lookups

variable {client c : Nat}

theorem lookup_filter_of_ne (es : List (Nat × Errand)) (h : c ≠ client) :
    (es.filter (·.1 != client)).lookup c = es.lookup c := by
  induction es with
  | nil => rfl
  | cons x es ih =>
    obtain ⟨k, e⟩ := x
    by_cases hk : k = client
    · subst hk
      rw [List.filter_cons_of_neg (by simp), ih, List.lookup_cons, beq_false_of_ne h]
    · rw [List.filter_cons_of_pos (by simp [hk]), List.lookup_cons, List.lookup_cons, ih]

theorem errand?_of_backlog {s t : Controller ρ} (h : t.backlog.errands = s.backlog.errands)
    (c : Nat) :
    t.errand? c = s.errand? c :=
  congrArg (List.lookup c) h

theorem errand?_disarm (s : Controller ρ) (j : Job) (c : Nat) :
    (s.disarm j).errand? c = s.errand? c :=
  errand?_of_backlog (by rw [backlog_disarm, errands_disarm]) c

theorem errand?_requestRun (s : Controller ρ) (j : Job) (client c : Nat) :
    (s.requestRun j client).errand? c = s.errand? c :=
  errand?_of_backlog (by rw [backlog_requestRun, errands_withLane]) c

theorem errand?_releaseRun (s : Controller ρ) (j : Job) (c : Nat) :
    (s.releaseRun j).errand? c = s.errand? c :=
  errand?_of_backlog (by rw [backlog_releaseRun, errands_withLane]) c

theorem errand?_withErrand (s : Controller ρ) (e : Errand) (h : c ≠ client) :
    (s.withErrand client e).errand? c = s.errand? c := by
  show (s.errands ++ [(client, e)]).lookup c = s.errands.lookup c
  rw [List.lookup_append, List.lookup_cons, beq_false_of_ne h]
  exact Option.or_none

theorem errand?_withoutErrand (s : Controller ρ) (h : c ≠ client) :
    (s.withoutErrand client).errand? c = s.errand? c :=
  lookup_filter_of_ne s.errands h

theorem errand?_stopWorkers (s : Controller ρ) (c : Nat) : s.stopWorkers.errand? c = s.errand? c :=
  errand?_of_backlog (by rw [backlog_stopWorkers]) c

theorem errand?_cancelJobs (s : Controller ρ) (stop : Bool) (js : List Job) (h : c ≠ client) :
    (s.cancelJobs client stop js).errand? c = s.errand? c := by
  refine cancelJobs_induction (P := fun t => t.errand? c = s.errand? c) ?_ ?_ ?_ ?_ ?_ rfl js
  · exact fun t j ht => (t.errand?_disarm j c).trans ht
  · exact fun t j ht => (t.errand?_requestRun j client c).trans ht
  · exact fun t j ht => (t.errand?_releaseRun j c).trans ht
  · exact fun t j rest ht => (t.errand?_withErrand _ h).trans ht
  · exact fun t _ ht => (t.errand?_stopWorkers c).trans ht

theorem errands_recoverNow (s : Controller ρ) : s.recoverNow.errands = s.errands := by
  have h := congrArg Backlog.errands s.backlog_recoverNow_eq
  rwa [errands_withLane, errands_disarm] at h

theorem errand?_resume (s : Controller ρ) (h : c ≠ client) :
    (s.resume client).errand? c = s.errand? c := by
  rcases s.resume_cases client with hr | ⟨j, rest, stop, -, -, hr⟩ | ⟨-, -, hr⟩
  · rw [hr]
  · rw [hr, errand?_cancelJobs _ _ _ h, errand?_releaseRun, errand?_withoutErrand _ h]
  · rw [hr, errand?, errands_recoverNow]
    exact s.errand?_withoutErrand h

theorem errand?_abandon (s : Controller ρ) (h : c ≠ client) :
    (s.abandon client).errand? c = s.errand? c := by
  cases he : s.errand? client with
  | none => rw [abandon_of_none he]
  | some e =>
    have herrands := congrArg Backlog.errands (backlog_abandon he)
    show (s.abandon client).backlog.errands.lookup c = _
    rw [herrands]
    exact lookup_filter_of_ne s.errands h

theorem errand?_act [Probe ρ] {s : Controller ρ} {a : Action} (ha : a.background = true)
    (hi : s.interruptsOf a = []) {c : Nat} (hresume : a ≠ .resume c) (habandon : a ≠ .abandon c) :
    (s.act a).errand? c = s.errand? c := by
  cases a with
  | resume client => exact s.errand?_resume fun he => hresume (congrArg _ he.symm)
  | abandon client => exact s.errand?_abandon fun he => habandon (congrArg _ he.symm)
  | hold party => exact errand?_of_backlog (by rw [act, backlog_hold]) c
  | release party => exact errand?_of_backlog (by rw [act, backlog_release]) c
  | move j timerFirst => exact errand?_of_backlog (moves_move hi).errands c
  | giveWay => rfl
  | advance instant => exact errand?_of_backlog (by rw [act, backlog_advance]) c
  | _ => cases ha

/-- In the background only a move of its own worker may begin a digital run. -/
theorem fades_act [Probe ρ] {s : Controller ρ} {a : Action} (ha : a.background = true)
    (hi : s.interruptsOf a = []) (hm : ∀ timerFirst, a ≠ .move .digital timerFirst) :
    s.backlog.Fades (s.act a).backlog := by
  have hsteps {client : Nat} {b : Backlog} (hs : Backlog.Steps (.resume client) s.backlog b) :
      s.backlog.Fades b :=
    Backlog.Steps.induction (P := fun b => s.backlog.Fades b)
      (fun _ _ hs hb => hb.trans (.of_step rfl hs)) hs (.refl _)
  cases a with
  | resume client => exact hsteps (s.steps_resume client)
  | abandon client => exact hsteps (s.steps_abandon (a := .resume client) client)
  | hold party =>
    rw [act, backlog_hold]
    exact ⟨.inl rfl, .inl rfl⟩
  | release party =>
    rw [act, backlog_release]
    exact ⟨.inl rfl, .inl rfl⟩
  | move j timerFirst =>
    refine .of_moves (moves_move hi) ?_
    rintro rfl
    exact hm timerFirst rfl
  | giveWay => exact .refl _
  | advance instant =>
    rw [act, backlog_advance]
    exact .refl _
  | _ => cases ha

end Lookups

section Wiring

/-- How the pins are wired, and how the digital ports answer. -/
def wiring (s : Controller ρ) : PlatformCaps × (Port → Option PulseHandler) :=
  (s.caps, s.digitalPorts)

theorem outward_wiring : Outward (wiring (ρ := ρ)) :=
  ⟨⟨fun _ _ => rfl, fun _ _ _ => rfl⟩, fun _ _ _ _ _ _ _ _ _ _ _ _ => rfl, fun _ _ _ => rfl⟩

theorem silent_wiring : Silent (wiring (ρ := ρ)) := ⟨fun _ _ => rfl, fun _ _ => rfl⟩

theorem wiring_interrupt (s : Controller ρ) (i : Interrupt) :
    (s.interrupt i).wiring = s.wiring := by
  rw [(s.struck_interrupt i).eq]
  rfl

theorem wiring_reenablePass (s : Controller ρ) : s.reenablePass.wiring = s.wiring := by
  obtain ⟨connectors, table, trace, h⟩ := s.reenablePass_eq
  rw [h]
  rfl

theorem wiring_probePass [Probe ρ] (s : Controller ρ) (pins : PinSet) :
    (s.probePass pins).wiring = s.wiring := by
  rw [silent_wiring.probePass]
  exact probeAll_induction (P := fun t => t.wiring = s.wiring) (fun _ _ ht => ht)
    (fun t i ht => (t.wiring_interrupt i).trans ht) pins s.connectors s rfl

theorem wiring_recoverNow (s : Controller ρ) : s.recoverNow.wiring = s.wiring := by
  rw [recoverNow, outward_wiring.releaseRun]
  split
  · rw [wiring_reenablePass, outward_wiring.disarm]
  · rw [outward_wiring.disarm]

theorem wiring_flush (s : Controller ρ) (client : Nat) : (s.flush client).wiring = s.wiring := by
  have hasked := outward_wiring.requestRun s .reenable client
  unfold flush
  simp only
  split
  · exact (wiring_recoverNow _).trans hasked
  · exact hasked

theorem wiring_move [Probe ρ] {s : Controller ρ} {j : Job} (hj : j ≠ .digital)
    (timerFirst : Bool) : (s.move j timerFirst).wiring = s.wiring := by
  cases j with
  | digital => exact absurd rfl hj
  | generic =>
    show s.moveGeneric.wiring = s.wiring
    unfold moveGeneric
    split
    · split
      · rw [outward_wiring.finishRun, wiring_probePass]
      · rfl
    · split
      · rfl
      · rename_i w _
        obtain ⟨_, _, _, _, htaken⟩ := ({ s with generic := w } : Controller ρ).takeEvents_eq
        simp only
        rw [outward_wiring.requestMode, outward_wiring.beginRun, htaken]
        rfl
  | pollInit =>
    show s.movePollInit.wiring = s.wiring
    unfold movePollInit
    split
    · split
      · rw [outward_wiring.finishRun, silent_wiring.pollInitPass]
        rfl
      · rfl
    · split
      · rfl
      · rw [outward_wiring.requestMode, outward_wiring.beginRun]
        rfl
  | reenable =>
    show (s.moveReenable timerFirst).wiring = s.wiring
    unfold moveReenable
    split
    · rfl
    · rw [outward_wiring.finishRun, wiring_reenablePass, outward_wiring.beginRun]
      rfl

/-- Only a digital run hears from the ports. -/
theorem wiring_act [Probe ρ] {s : Controller ρ} {a : Action}
    (hm : ∀ timerFirst, a ≠ .move .digital timerFirst) : (s.act a).wiring = s.wiring := by
  cases a with
  | interrupt i => exact s.wiring_interrupt i
  | raw pinMask longMask =>
    simp only [act, raw]
    split
    · exact s.wiring_interrupt _
    · exact (s.note _).wiring_interrupt _
  | init =>
    simp only [act, init]
    rw [silent_wiring.setupIrqs, outward_wiring.queuePollInit]
    rfl
  | forcePolling on => exact outward_wiring.queuePollInit { s with pollForced := on }
  | setThreshold client k =>
    simp only [act, setThreshold]
    split
    · rfl
    · exact wiring_flush _ client
  | setShortStorms client k =>
    simp only [act, setShortStorms]
    split
    · rfl
    · exact wiring_flush _ client
  | cancelAll client =>
    simp only [act, cancelAll]
    split
    · rfl
    · exact outward_wiring.cancelJobs _ client false Job.all
  | shutdown client =>
    simp only [act, shutdown]
    split
    · rfl
    · exact outward_wiring.cancelJobs _ client true Job.all
  | start => exact outward_wiring.start s
  | resume client =>
    rcases s.resume_cases client with hr | ⟨j, rest, stop, -, -, hr⟩ | ⟨-, -, hr⟩
    · rw [act, hr]
    · rw [act, hr, outward_wiring.cancelJobs, outward_wiring.releaseRun]
      rfl
    · rw [act, hr, wiring_recoverNow]
      rfl
  | abandon client => exact outward_wiring.abandon s client
  | hold party => exact outward_wiring.hold s party
  | release party => exact outward_wiring.release s party
  | move j timerFirst => exact wiring_move (fun hj => hm timerFirst (hj ▸ rfl)) timerFirst
  | advance instant => exact outward_wiring.advance s instant
  | _ => rfl

end Wiring

section Calls

variable (s : Controller ρ)

theorem outward_calls : Outward (calls (ρ := ρ)) :=
  ⟨⟨fun _ _ => rfl, fun _ _ _ => rfl⟩, fun _ _ _ _ _ _ _ _ _ _ _ _ => rfl, fun _ _ _ => rfl⟩

theorem calls_recoverNow (h : s.reenable.armed = false) : s.recoverNow.calls = s.calls := by
  simp only [recoverNow, h, Bool.false_eq_true, if_false]
  exact (outward_calls.releaseRun _ .reenable).trans (outward_calls.disarm s .reenable)

theorem calls_resume (h : s.reenable.armed = false) (client : Nat) :
    (s.resume client).calls = s.calls := by
  rcases s.resume_cases client with hr | ⟨j, rest, stop, -, -, hr⟩ | ⟨-, -, hr⟩
  · rw [hr]
  · rw [hr, outward_calls.cancelJobs, outward_calls.releaseRun]
    rfl
  · rw [hr, calls_recoverNow (s.withoutErrand client) h]
    rfl

theorem calls_advance (instant : Nat) : (s.advance instant).calls = s.calls :=
  outward_calls.advance s instant

theorem calls_move [Probe ρ] {j : Job} (hw : s.backlog.wanted j = false)
    (hr : (s.lane j).rest? = none) (timerFirst : Bool) : (s.move j timerFirst).calls = s.calls := by
  have hidle {rest : Rest} : (s.lane j).worker ≠ some (.running rest) := by
    intro hrunning
    rw [Lane.rest?_eq_some_iff.mpr hrunning] at hr
    cases hr
  have hclaimed {w w' : Work Rest} (hs : w.seek = (w', .claimed)) (hp : w.pending = false) :
      False := by
    rw [(Work.seek_claimed hs).2.1] at hp
    cases hp
  cases j with
  | digital =>
    show s.moveDigital.calls = s.calls
    unfold moveDigital
    split
    · rename_i rest hrunning
      exact absurd hrunning hidle
    · split
      · rfl
      · rename_i w hs
        exact (hclaimed hs hw).elim
  | generic =>
    show s.moveGeneric.calls = s.calls
    unfold moveGeneric
    split
    · rename_i pins hrunning
      exact absurd hrunning hidle
    · split
      · rfl
      · rename_i w hs
        exact (hclaimed hs hw).elim
  | pollInit =>
    show s.movePollInit.calls = s.calls
    unfold movePollInit
    split
    · rename_i disabled hrunning
      exact absurd hrunning hidle
    · split
      · rfl
      · rename_i w hs
        exact (hclaimed hs hw).elim
  | reenable =>
    show (s.moveReenable timerFirst).calls = s.calls
    unfold moveReenable
    split
    · rfl
    · rename_i w hs
      obtain ⟨d, hd, -⟩ := (s.reenable.due_iff s.now).mp (DelayedWork.seek_claimed hs).2.1
      rw [show s.backlog.wanted .reenable = s.reenable.deadline.isSome from rfl, hd] at hw
      cases hw

end Calls

end Controller

end HotplugDetect
