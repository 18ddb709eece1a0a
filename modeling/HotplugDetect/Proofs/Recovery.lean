import HotplugDetect.Controller.Script
import HotplugDetect.Proofs.Lifecycle

/-! # The delay of the recovery

One deadline serves all pins. Every mitigation replaces it by a later one and nothing else moves it,
so that no pin comes back by the timer before its own storm is a full delay old.
-/

namespace HotplugDetect

variable {ρ : Type}

namespace Controller

section Deadline

variable [Probe ρ]

/-- Only a mitigation moves the deadline, and it moves it a full delay ahead. -/
theorem Effect.deadline {s : Controller ρ} {a : Action} {w : Watch} (he : s.Effect a w) {d : Nat}
    (hd : w.deadline = some d) :
    s.watch.deadline = some d ∨ d = s.watch.now + s.watch.reenableDelay := by
  cases he with
  | interrupts _ =>
    obtain ⟨stats, h⟩ := fixed_foldl_interrupted (s.interruptsOf a) s.watch
    rw [h] at hd
    exact .inl hd
  | mitigation _ => exact .inr (Option.some_inj.mp hd).symm
  | recovery _ _ _ => cases hd
  | knob _ _ => cases hd
  | flush _ => cases hd
  | cancellation recovery run _ =>
    cases recovery with
    | true => cases hd
    | false => exact .inl hd
  | _ => exact .inl hd

end Deadline

section Delay

variable [Probe ρ]

/-- The instant at which a storm on the pin was last handed over to polling in a run. -/
def lastMitigation (p : Pin) (s : Controller ρ) (as : List Action) : Option Nat :=
  ((s.trail as).reverse.find? fun x => x.1.mitigates p x.2).map (·.1.now)

theorem lastMitigation_concat (p : Pin) (s : Controller ρ) (as : List Action) (a : Action) :
    lastMitigation p s (as ++ [a]) =
      if (s.run as).mitigates p a then some (s.run as).now else lastMitigation p s as := by
  unfold lastMitigation
  rw [trail_concat, List.reverse_concat, List.find?_cons]
  split
  · rename_i h
    rw [if_pos h, Option.map_some]
  · rename_i h
    rw [h, if_neg Bool.false_ne_true]

/-- The recovery is due no earlier than a full delay after the last storm on the pin. -/
def Timely (w : Watch) (p : Pin) (last : Option Nat) : Prop :=
  (w.stats p).mitigated = true →
    ∃ t, last = some t ∧ t ≤ w.now ∧ ∀ d, w.deadline = some d → t + w.reenableDelay ≤ d

theorem Timely.act {s : Controller ρ} {p : Pin} {last : Option Nat} (h : Timely s.watch p last)
    (hs : s.watch.Sound) (a : Action) :
    Timely (s.act a).watch p (if s.mitigates p a then some s.now else last) := by
  intro hm
  have he := s.effect_act a
  obtain ⟨-, hdelay, -, -⟩ := he.fixed
  have hnow := he.now_le
  rw [hdelay]
  rcases he.mitigated hs hm with hbefore | ⟨ha, ⟨timerFirst, rfl⟩, hd⟩
  · have hstate : s.table.state p = .disabled := hs p hbefore
    have hn := not_mitigates (by rw [hstate]; decide) a
    obtain ⟨t, hlast, ht, hle⟩ := h hbefore
    refine ⟨t, by simp [hn, hlast], ht.trans hnow, fun d hd => ?_⟩
    rcases he.deadline hd with hd | rfl
    · exact hle d hd
    · exact Nat.add_le_add_right ht _
  · have hy := mitigates_move ha hm
    refine ⟨s.now, if_pos hy, hnow, fun d hd' => ?_⟩
    rw [hd, Option.some_inj] at hd'
    exact hd'.le

theorem timely_run {s : Controller ρ} {p : Pin} (h : Timely s.watch p none) (hs : s.watch.Sound)
    (as : List Action) : Timely (s.run as).watch p (lastMitigation p s as) := by
  induction as using List.reverseRecOn with
  | nil => exact h
  | append_singleton as a ih =>
    rw [run_concat, lastMitigation_concat]
    exact ih.act (sound_run hs as) a

omit [Probe ρ] in
theorem timely_ofSettings (settings : Settings) (connectors : ConnectorList ρ)
    (ports : Port → Option PulseHandler) (p : Pin) :
    Timely (ofSettings settings connectors ports).watch p none := by
  intro hm
  rw [stats_ofSettings] at hm
  cases hm

theorem due_of_recovered {s : Controller ρ} {timerFirst : Bool} {p : Pin}
    (hbefore : s.table.state p ≠ .enabled)
    (hafter : (s.act (.move .reenable timerFirst)).table.state p = .enabled) :
    (s.watch.stats p).mitigated = true ∧
      ∃ d, s.watch.deadline = some d ∧ d ≤ s.watch.now := by
  have he := s.effect_act (.move .reenable timerFirst)
  generalize hw : (s.act (.move .reenable timerFirst)).watch = w at he
  have hstate : (w.stats p).state = .enabled := by
    rw [← hw]
    exact hafter
  cases he with
  | interrupts _ => exact absurd hstate hbefore
  | recovery _ hd hle =>
    rcases phase_recovered (s.watch.dropping true false) p with hp | ⟨-, hp, -⟩
    · exact absurd ((congrArg Prod.fst hp).symm.trans hstate) hbefore
    · exact ⟨congrArg Prod.snd hp, _, hd, hle⟩
  | configuration h => cases h
  | knob h _ => cases h
  | cancellation _ _ h => cases h

/-- A pin that the timer brings back has been left to polling for the whole delay. -/
theorem recovers_after_delay (settings : Settings) (connectors : ConnectorList ρ)
    (ports : Port → Option PulseHandler) (as : List Action) (timerFirst : Bool) (p : Pin)
    (hbefore : ((ofSettings settings connectors ports).run as).table.state p ≠ .enabled)
    (hafter : (((ofSettings settings connectors ports).run as).act
      (.move .reenable timerFirst)).table.state p = .enabled) :
    ∃ t, lastMitigation p (ofSettings settings connectors ports) as = some t ∧
      t + settings.storm.reenableDelay.toNat ≤
        ((ofSettings settings connectors ports).run as).now := by
  have htimely := timely_run (timely_ofSettings settings connectors ports p)
    (sound_ofSettings settings connectors ports) as
  obtain ⟨-, hdelay, -, -⟩ := fixed_run (ofSettings settings connectors ports) as
  obtain ⟨hm, d, hd, hle⟩ := due_of_recovered hbefore hafter
  obtain ⟨t, hlast, -, hdue⟩ := htimely hm
  rw [hdelay] at hdue
  exact ⟨t, hlast, (hdue d hd).trans hle⟩

end Delay

/-- One storm on one pin, and its recovery. -/
theorem recovers_after_delay_once :
    let storm : Interrupt := ⟨.ofList [.portB], .ofList [.portB]⟩
    let s : Controller Script := ofSettings {} [] fun _ => none
    let as : List Action := [.start, .move .generic true] ++
      List.replicate 6 (.interrupt storm) ++
      [.advance 7, .move .generic true, .move .generic true, .advance 120007,
        .move .reenable true]
    ∃ t, lastMitigation .portB s as = some t ∧ t + 120000 ≤ (s.run as).now :=
  recovers_after_delay {} [] (fun _ => none) _ true .portB (by decide) (by decide)

end Controller

end HotplugDetect
