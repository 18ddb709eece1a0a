import HotplugDetect.Proofs.Quiet.Moves
import HotplugDetect.Proofs.Starvation

/-! # The runs that may still begin

A controller that is left alone makes the runs that are pending. A digital run, also one in flight,
may leave refused pulses to one more generic run, and a generic run that hands a storm over arms one
more recovery. A recovery asks for nothing.
-/

namespace HotplugDetect

variable {ρ : Type}

theorem Work.seek_running {β : Type} {w : Work β} {rest : β}
    (h : w.worker = some (.running rest)) : w.seek = (w, .looking) := by
  rw [seek, h]

namespace Backlog

def claims (b : Backlog) (now : Nat) (timerFirst : Bool) : Job → Bool
  | .digital => b.digital.seek.2 = .claimed
  | .generic => b.generic.seek.2 = .claimed
  | .pollInit => b.pollInit.seek.2 = .claimed
  | .reenable => (b.reenable.seek now timerFirst).2 = .claimed

/-- The runs of an item that are pending or may be asked for by others. -/
def owed (b : Backlog) : Job → Nat
  | .digital => b.digital.pending.toNat
  | .generic =>
    b.generic.pending.toNat + b.digital.pending.toNat + b.digital.rest?.isSome.toNat
  | .pollInit => b.pollInit.pending.toNat
  | .reenable => 0

section Owed

variable {b b' : Backlog} {j k : Job}

theorem owed_le (h : ∀ j, b'.wanted j = true → b.wanted j = true) (hf : b.Fades b') (j : Job) :
    b'.owed j ≤ b.owed j := by
  have hrest : b'.digital.rest?.isSome.toNat ≤ b.digital.rest?.isSome.toNat := by
    rcases hf.rest with hr | hr
    · rw [hr]
    · rw [hr]
      exact Nat.zero_le _
  have hle (k : Job) : (b'.wanted k).toNat ≤ (b.wanted k).toNat := by
    cases hk : b'.wanted k with
    | false => exact Nat.zero_le _
    | true => rw [h k hk]
  cases j with
  | digital => exact hle .digital
  | generic => exact Nat.add_le_add (Nat.add_le_add (hle .generic) (hle .digital)) hrest
  | pollInit => exact hle .pollInit
  | reenable => exact le_rfl

/-- A run that is claimed was owed, and it leads to another one only in its own place. -/
theorem Moves.owed {now : Nat} (hm : b.Moves now j b') (timerFirst : Bool) (hk : k ≠ .reenable) :
    (decide (j = k) && b.claims now timerFirst j).toNat + b'.owed k ≤ b.owed k := by
  cases hm with
  | digitalLooks hs =>
    have hp := Work.pending_looking hs
    have hr := Work.rest?_of_seek hs
    cases k <;> simp [Backlog.owed, claims, hs, hp, hr]
  | drains hs =>
    obtain ⟨hw, hp, rfl⟩ := Work.seek_claimed hs
    have hidle : b.digital.rest? = none := Lane.rest?_of_not_running fun rest hr => by
      rw [hw] at hr
      cases hr
    have hrunning : (b.digital.begin { pulses := some (b.longPorts, b.shortPorts) }).rest?.isSome =
        true := rfl
    cases k with
    | digital => simp [Backlog.owed, claims, hs, hp]
    | generic => simp [Backlog.owed, hp, hidle, hrunning]
    | pollInit => simp [Backlog.owed]
    | reenable => exact absurd rfl hk
  | @delivers _ _ refused hw =>
    have hr := Lane.rest?_eq_some_iff.mpr hw
    have hrunning : (b.digital.begin { pins := refused }).rest?.isSome = true := rfl
    cases k <;> simp [Backlog.owed, claims, Work.seek_running hw, hr, hrunning]
  | @fallsBack rest hw =>
    have hr := Lane.rest?_eq_some_iff.mpr hw
    have hover : b.digital.finish.rest? = none := rfl
    have hgeneric : (if rest.pins.isEmpty then b.generic
        else b.generic.queue.1).pending.toNat ≤ b.generic.pending.toNat + 1 := by
      split
      · exact Nat.le_succ _
      · exact (Bool.toNat_le _).trans (Nat.le_add_left 1 _)
    cases k with
    | generic =>
      simp only [Backlog.owed, hr, hover, reduceCtorEq, decide_false, Bool.false_and,
        Option.isSome_some, Option.isSome_none, Bool.toNat_true, Bool.toNat_false]
      omega
    | _ => simp [Backlog.owed, claims, Work.seek_running hw]
  | genericLooks hs =>
    have hp := Work.pending_looking hs
    cases k <;> simp [Backlog.owed, claims, hs, hp]
  | takes hs =>
    obtain ⟨-, hp, rfl⟩ := Work.seek_claimed hs
    cases k with
    | reenable => exact absurd rfl hk
    | generic =>
      simp only [Backlog.owed, claims, hs, hp, decide_true, Bool.and_self, Bool.toNat_true,
        Bool.toNat_false]
      omega
    | _ => simp [Backlog.owed]
  | probes hw => cases k <;> simp [Backlog.owed, claims, Work.seek_running hw]
  | genericWaits hw => cases k <;> simp [Backlog.owed, claims, Work.seek_running hw]
  | pollInitLooks hs =>
    have hp := Work.pending_looking hs
    cases k <;> simp [Backlog.owed, claims, hs, hp]
  | reads hs =>
    obtain ⟨-, hp, rfl⟩ := Work.seek_claimed hs
    cases k <;> simp [Backlog.owed, claims, hs, hp]
  | reinitializes hw => cases k <;> simp [Backlog.owed, claims, Work.seek_running hw]
  | pollInitWaits hw => cases k <;> simp [Backlog.owed, claims, Work.seek_running hw]
  | reenableLooks =>
    cases k with
    | reenable => exact absurd rfl hk
    | _ => simp [Backlog.owed]
  | recovers =>
    cases k with
    | reenable => exact absurd rfl hk
    | _ => simp [Backlog.owed]

end Owed

end Backlog

namespace Watch

/-- The recovery that is armed, and the one that a storm arms when it is handed over. -/
def recoveries (w : Watch) : Nat :=
  w.deadline.isSome.toNat + (Pin.all.any fun p => (w.stats p).state = .autoDisabled).toNat

theorem storming_iff (w : Watch) : (Pin.all.any fun p => (w.stats p).state = .autoDisabled) = true ↔
    ∃ p, (w.stats p).state = .autoDisabled := by
  simp [Pin.mem_all]

theorem recoveries_le_two (w : Watch) : w.recoveries ≤ 2 :=
  Nat.add_le_add (Bool.toNat_le _) (Bool.toNat_le _)

theorem recoveries_le {w w' : Watch} (hd : w'.deadline.isSome = true → w.deadline.isSome = true)
    (hs : ∀ p, (w'.stats p).state = .autoDisabled → (w.stats p).state = .autoDisabled) :
    w'.recoveries ≤ w.recoveries := by
  have htoNat {x y : Bool} (h : x = true → y = true) : x.toNat ≤ y.toNat := by
    cases x with
    | false => exact Nat.zero_le _
    | true => rw [h rfl]
  refine Nat.add_le_add (htoNat hd) (htoNat ?_)
  rw [storming_iff, storming_iff]
  exact Exists.imp hs

theorem state_recovered {w : Watch} {p : Pin} (h : (w.recovered.stats p).state = .autoDisabled) :
    (w.stats p).state = .autoDisabled := by
  rcases w.stats_recovered p with ⟨-, hp⟩ | ⟨-, hp⟩
  · rwa [hp] at h
  · rw [hp] at h
    cases h

theorem recoveries_recovered_lt {w : Watch} (h : w.deadline.isSome = true) :
    (w.dropping true false).recovered.recoveries < w.recoveries := by
  have hle : (w.dropping true false).recovered.recoveries ≤ (w.dropping true false).recoveries :=
    recoveries_le id fun _ => state_recovered
  refine hle.trans_lt ?_
  show 0 + _ < w.deadline.isSome.toNat + _
  rw [h]
  exact Nat.add_lt_add_right Nat.one_pos _

/-- A storm that is handed over is traded for a recovery. -/
theorem recoveries_mitigated {w : Watch} (h : (w.pinsIn .autoDisabled).isEmpty = false) :
    w.mitigated.recoveries ≤ w.recoveries := by
  have hbefore := w.storming_iff.mpr (exists_of_isEmpty_pinsIn h)
  have hafter : (Pin.all.any fun p => (w.mitigated.stats p).state = .autoDisabled) = false := by
    rw [← Bool.not_eq_true, storming_iff]
    rintro ⟨p, hp⟩
    rcases (w.stats p).handedOver_cases with ⟨hn, hx⟩ | ⟨-, hx⟩
    · exact hn ((congrArg PinStats.state hx).symm.trans hp)
    · exact absurd ((congrArg PinStats.state hx).symm.trans hp) nofun
  rw [recoveries, recoveries, hbefore, hafter]
  exact Nat.le_add_left 1 _

end Watch

namespace Controller

/-- The job of which a run begins in a background action. A client may make the run of an armed
recovery itself. -/
def begins (s : Controller ρ) : Action → Option Job
  | .move j timerFirst => if s.backlog.claims s.now timerFirst j then some j else none
  | .resume client =>
    if s.errand? client = some .flush ∧ s.holdsRun .reenable client = true ∧
      s.reenable.armed = true then some .reenable else none
  | _ => none

/-- The runs of a job that may still begin. -/
def credit (s : Controller ρ) : Job → Nat
  | .reenable => s.watch.recoveries
  | j => s.backlog.owed j

theorem credit_of_ne {s : Controller ρ} {j : Job} (hj : j ≠ .reenable) :
    s.credit j = s.backlog.owed j := by
  cases j with
  | reenable => exact absurd rfl hj
  | _ => rfl

theorem wanted_cancelJobs {s : Controller ρ} {client : Nat} {stop : Bool} {js : List Job} {j : Job}
    (h : (s.cancelJobs client stop js).backlog.wanted j = true) : s.backlog.wanted j = true := by
  revert h
  refine cancelJobs_induction (P := fun t => t.backlog.wanted j = true → s.backlog.wanted j = true)
    ?_ ?_ ?_ ?_ ?_ id js
  · intro t k ht h
    rw [backlog_disarm, Backlog.wanted_disarm] at h
    exact ht (Bool.and_eq_true_iff.mp h).1
  · intro t k ht h
    rw [backlog_requestRun, Backlog.wanted_withLane] at h
    exact ht h
  · intro t k ht h
    rw [backlog_releaseRun, Backlog.wanted_withLane] at h
    exact ht h
  · intro t k rest ht h
    cases j <;> exact ht h
  · intro t _ ht h
    rw [backlog_stopWorkers] at h
    cases j <;> exact ht h

variable [Probe ρ] {s : Controller ρ} {a : Action} {j : Job}

/-- Apart from moves, nothing in the background asks for a run. -/
theorem wanted_act (ha : a.background = true) (hm : ∀ j timerFirst, a ≠ .move j timerFirst)
    (h : (s.act a).backlog.wanted j = true) : s.backlog.wanted j = true := by
  cases a with
  | resume client =>
    rcases s.resume_cases client with hr | ⟨k, rest, stop, -, -, hr⟩ | ⟨-, -, hr⟩
    · rwa [act, hr] at h
    · rw [act, hr] at h
      have hreleased := wanted_cancelJobs h
      rw [backlog_releaseRun, Backlog.wanted_withLane] at hreleased
      cases j <;> exact hreleased
    · rw [act, hr, backlog_recoverNow_eq, Backlog.wanted_withLane, Backlog.wanted_disarm] at h
      have hdisarmed := (Bool.and_eq_true_iff.mp h).1
      cases j <;> exact hdisarmed
  | abandon client =>
    cases he : s.errand? client with
    | none => rwa [act, abandon_of_none he] at h
    | some e =>
      rw [act, backlog_abandon he] at h
      rw [← Backlog.wanted_withLane _ e.job]
      cases j <;> exact h
  | hold party =>
    rw [act, backlog_hold] at h
    cases j <;> exact h
  | release party =>
    rw [act, backlog_release] at h
    cases j <;> exact h
  | move k timerFirst => exact absurd rfl (hm k timerFirst)
  | giveWay => exact h
  | advance instant => rwa [act, backlog_advance] at h
  | _ => cases ha

theorem recoveries_of_begins (h : s.begins a = some .reenable) :
    (s.act a).watch.recoveries < s.watch.recoveries := by
  cases a with
  | move k timerFirst =>
    simp only [begins] at h
    split at h
    · rename_i hc
      cases h
      have hclaimed : (s.reenable.seek s.now timerFirst).2 = .claimed := of_decide_eq_true hc
      have hseek : s.reenable.seek s.now timerFirst =
          ((s.reenable.seek s.now timerFirst).1, .claimed) := Prod.ext rfl hclaimed
      obtain ⟨d, hd, -⟩ := (s.reenable.due_iff s.now).mp (DelayedWork.seek_claimed hseek).2.1
      have hw : (s.act (.move .reenable timerFirst)).watch =
          (s.watch.dropping true false).recovered := watch_claim_reenable hclaimed
      rw [hw]
      exact Watch.recoveries_recovered_lt (Option.isSome_iff_exists.mpr ⟨d, hd⟩)
    · cases h
  | resume client =>
    simp only [begins] at h
    split at h
    · rename_i hflush
      obtain ⟨he, hh, harmed⟩ := hflush
      have hw : (s.act (.resume client)).watch = (s.watch.dropping true false).recovered := by
        simp only [act, resume, he, hh, if_true]
        rw [watch_recoverNow]
        exact if_pos harmed
      rw [hw]
      exact Watch.recoveries_recovered_lt harmed
    · cases h
  | _ => cases h

theorem recoveries_act (ha : a.background = true) (hi : s.interruptsOf a = []) :
    (s.act a).watch.recoveries ≤ s.watch.recoveries := by
  have hknob (x : Nat × StormConfig) : s.knob? a ≠ some x := by
    cases a <;> simp [Action.background, knob?] at ha ⊢
  have he := s.effect_act a
  generalize hw : (s.act a).watch = w at he
  cases he with
  | interrupts =>
    rw [hi]
    exact le_rfl
  | mitigation hclaimed =>
    rw [watch_claim_generic hclaimed] at hw
    split at hw
    · rw [← hw]
    · rename_i hstorm
      exact Watch.recoveries_mitigated (Bool.not_eq_true _ ▸ hstorm)
  | recovery =>
    exact Watch.recoveries_le (absurd · Bool.false_ne_true) fun _ => Watch.state_recovered
  | flush =>
    exact Watch.recoveries_le (absurd · Bool.false_ne_true) fun _ => Watch.state_recovered
  | configuration hk => exact absurd hk (hknob _)
  | knob hk => exact absurd hk (hknob _)
  | cancellation recovery =>
    refine Watch.recoveries_le (fun hd => ?_) fun _ => id
    cases recovery with
    | true => cases hd
    | false => exact hd
  | glimpse => exact le_rfl
  | reinitialization => exact le_rfl
  | advance => exact le_rfl
  | _ => cases ha

/-- A run that begins in the background is one of those that could. -/
theorem credit_act (ha : a.background = true) (hi : s.interruptsOf a = []) (j : Job) :
    (decide (s.begins a = some j)).toNat + (s.act a).credit j ≤ s.credit j := by
  by_cases hj : j = .reenable
  · subst hj
    by_cases hb : s.begins a = some .reenable
    · rw [decide_eq_true hb, Nat.add_comm]
      exact recoveries_of_begins hb
    · rw [decide_eq_false hb]
      exact (Nat.zero_add _).trans_le (recoveries_act ha hi)
  rw [credit_of_ne hj, credit_of_ne hj]
  by_cases hm : ∃ k timerFirst, a = .move k timerFirst
  · obtain ⟨k, timerFirst, rfl⟩ := hm
    have hmoves := (moves_move hi).owed timerFirst hj
    have hbegins : decide (s.begins (.move k timerFirst) = some j) =
        (decide (k = j) && s.backlog.claims s.now timerFirst k) := by
      by_cases hc : s.backlog.claims s.now timerFirst k = true <;> simp [begins, hc]
    rw [hbegins]
    exact hmoves
  · push Not at hm
    have hnone : s.begins a ≠ some j := by
      cases a with
      | move k timerFirst => exact absurd rfl (hm k timerFirst)
      | resume client =>
        simp only [begins]
        split
        · exact fun h => hj (Option.some.inj h).symm
        · simp
      | _ => simp [begins]
    rw [decide_eq_false hnone]
    exact (Nat.zero_add _).trans_le
      (Backlog.owed_le (fun _ => wanted_act ha hm) (fades_act ha hi (hm .digital)) j)

/-- The runs of a job that begin in the course of a run. -/
def begun (s : Controller ρ) (as : List Action) (j : Job) : Nat :=
  (s.trail as).countP fun x => x.1.begins x.2 = some j

theorem begun_cons (s : Controller ρ) (a : Action) (as : List Action) (j : Job) :
    s.begun (a :: as) j = (s.act a).begun as j + (decide (s.begins a = some j)).toNat := by
  unfold begun
  rw [trail, List.countP_cons]
  cases decide (s.begins a = some j) <;> rfl

/-- As long as a controller is left alone, its credit shrinks with every run. -/
theorem begun_credit_le {as : List Action} (has : s.LeftAlone as = true) (j : Job) :
    s.begun as j + (s.run as).credit j ≤ s.credit j := by
  induction as generalizing s with
  | nil => exact (Nat.zero_add _).le
  | cons a as ih =>
    obtain ⟨ha, hi, has⟩ := leftAlone_cons.mp has
    have hstep := credit_act ha hi j
    have hrest := ih has
    rw [begun_cons]
    show _ + ((s.act a).run as).credit j ≤ _
    omega

theorem begun_le {as : List Action} (has : s.LeftAlone as = true) :
    s.begun as .digital ≤ 1 ∧ s.begun as .pollInit ≤ 1 ∧ s.begun as .reenable ≤ 2 ∧
      s.begun as .generic ≤ 3 ∧ (s.digital.rest? = none → s.begun as .generic ≤ 2) := by
  have hpending : s.generic.pending.toNat + s.digital.pending.toNat ≤ 2 :=
    Nat.add_le_add (Bool.toNat_le _) (Bool.toNat_le _)
  have hle (j : Job) : s.begun as j ≤ s.credit j :=
    (Nat.le_add_right _ _).trans (begun_credit_le has j)
  have hgeneric : s.begun as .generic ≤ 2 + s.digital.rest?.isSome.toNat :=
    (hle .generic).trans (Nat.add_le_add_right hpending _)
  refine ⟨(hle .digital).trans (Bool.toNat_le _), (hle .pollInit).trans (Bool.toNat_le _),
    (hle .reenable).trans s.watch.recoveries_le_two,
    hgeneric.trans (Nat.add_le_add_left (Bool.toNat_le _) 2), fun hidle => ?_⟩
  rwa [hidle] at hgeneric

end Controller

end HotplugDetect
