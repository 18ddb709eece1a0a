import Mathlib.Data.List.Induction
import Mathlib.Order.MinMax
import HotplugDetect.Proofs.Storm.Detector

/-! # The exact counts behind the detector

The reference keeps the pulses of a window as a list and adds up their weights without a bound. The
detector keeps the start of the window and one register, and yet both tell the same storms.
-/

namespace HotplugDetect

/-- A pulse on a pin, shown to the detector at some instant. The clock need not be monotone. -/
structure Observation where
  pin : Pin
  long : Bool
  instant : Nat
  deriving DecidableEq

namespace Observation

def weight (x : Observation) : Nat := if x.long then 10 else 1

def counted (c : StormConfig) (x : Observation) : Bool := x.long || c.shortStorms

def load (w : List Observation) : Nat := (w.map weight).sum

/-- The first pulse of a window opened it. A pulse before its opener or a full period after it opens
another one. -/
def opens (period : Nat) (w : List Observation) (x : Observation) : Bool :=
  match w with
  | [] => true
  | opener :: _ => x.instant < opener.instant || opener.instant + period ≤ x.instant

def extend (period : Nat) (w : List Observation) (x : Observation) : List Observation :=
  if opens period w x then [x] else w ++ [x]

/-- The counted pulses on a pin since the one that opened the current window. -/
def window (c : StormConfig) (p : Pin) (xs : List Observation) : List Observation :=
  (xs.filter fun x => x.pin = p && x.counted c).foldl (extend c.period) []

theorem window_concat (c : StormConfig) (p : Pin) (xs : List Observation) (x : Observation) :
    window c p (xs ++ [x]) =
      if x.pin = p ∧ x.counted c = true then extend c.period (window c p xs) x
      else window c p xs := by
  unfold window
  rw [List.filter_append, List.foldl_append]
  by_cases hx : x.pin = p ∧ x.counted c = true
  · simp [hx]
  · have hout : (x.pin = p && x.counted c) = false := by simpa using hx
    rw [List.filter_cons_of_neg (by simp [hout]), if_neg hx]
    rfl

theorem load_extend (period : Nat) (w : List Observation) (x : Observation) :
    load (extend period w x) = (if opens period w x then 0 else load w) + x.weight := by
  unfold extend
  split <;> simp [load]

end Observation

namespace PinStats

open Observation

/-- The register of a pin holds the weight of its window, as far as it can. -/
structure Mirrors (s : PinStats) (w : List Observation) : Prop where

  start : s.windowStart = w.head?.map Observation.instant

  count : s.count.toNat = min (load w) (UInt32.size - 1)

theorem Mirrors.inWindow {s : PinStats} {w : List Observation} (h : s.Mirrors w) (period : Nat)
    (x : Observation) : s.inWindow period x.instant = !opens period w x := by
  unfold PinStats.inWindow
  rw [h.start]
  cases w with
  | nil => rfl
  | cons opener w =>
    show (decide (opener.instant ≤ x.instant) && decide (x.instant < opener.instant + period)) = _
    rw [Bool.eq_iff_iff]
    simp [opens]

/-- The window of the detector moves with that of the reference. -/
theorem Mirrors.openWindow {s : PinStats} {w : List Observation} (h : s.Mirrors w) (period : Nat)
    (x : Observation) :
    (s.openWindow period x.instant).windowStart =
        (extend period w x).head?.map Observation.instant ∧
      (s.openWindow period x.instant).count.toNat =
        if opens period w x then 0 else min (load w) (UInt32.size - 1) := by
  unfold PinStats.openWindow extend
  rw [h.inWindow]
  cases ho : opens period w x with
  | true => exact ⟨rfl, rfl⟩
  | false =>
    refine ⟨?_, h.count⟩
    cases w with
    | nil => cases ho
    | cons opener w => exact h.start

theorem Mirrors.observe {s : PinStats} {w : List Observation} (h : s.Mirrors w) {c : StormConfig}
    {x : Observation} (hc : c.counts x.long = true) :
    (s.observe c x.long x.instant).1.Mirrors (extend c.period w x) ∧
      ((s.observe c x.long x.instant).2 = .storm ↔
        c.threshold.toNat < min (load (extend c.period w x)) (UInt32.size - 1)) := by
  obtain ⟨hstart, hbefore⟩ := h.openWindow c.period x
  have hweight : (pulseWeight x.long).toNat = x.weight := by
    unfold pulseWeight weight
    split <;> rfl
  have hcount : (addSaturating (s.openWindow c.period x.instant).count
      (pulseWeight x.long)).toNat = min (load (extend c.period w x)) (UInt32.size - 1) := by
    rw [toNat_addSaturating, hbefore, hweight, load_extend]
    split <;> omega
  unfold PinStats.observe
  rw [if_pos hc, ← hcount, ← UInt32.lt_iff_toNat_lt]
  simp only
  split
  · rename_i hstorm
    exact ⟨⟨hstart, hcount⟩, fun _ => hstorm, fun _ => rfl⟩
  · rename_i hcalm
    exact ⟨⟨hstart, hcount⟩, nofun, fun hstorm => absurd hstorm hcalm⟩

theorem observe_uncounted (s : PinStats) {c : StormConfig} {long : Bool}
    (hc : c.counts long = false) (now : Nat) : s.observe c long now = (s, .ignored) := by
  unfold observe
  rw [hc]
  rfl

end PinStats

namespace PinTable

open Observation

def observeAll (t : PinTable) (xs : List Observation) : PinTable :=
  xs.foldl (fun t x => (t.observe x.pin x.long x.instant).1) t

theorem observeAll_concat (t : PinTable) (xs : List Observation) (x : Observation) :
    t.observeAll (xs ++ [x]) = ((t.observeAll xs).observe x.pin x.long x.instant).1 := by
  rw [observeAll, List.foldl_append]
  rfl

@[simp] theorem config_observeAll (t : PinTable) (xs : List Observation) :
    (t.observeAll xs).config = t.config := by
  induction xs using List.reverseRecOn with
  | nil => rfl
  | append_singleton xs x ih => rw [observeAll_concat, config_observe, ih]

@[simp] theorem config_ofConfig (c : StormConfig) : (ofConfig c).config = c := rfl

theorem observe_snd (t : PinTable) (p : Pin) (long : Bool) (now : Nat) :
    (t.observe p long now).2 = ((t.get p).observe t.config long now).2 := rfl

theorem get_observeAll_of_zero {c : StormConfig} (h : c.threshold = 0) (xs : List Observation)
    (p : Pin) : ((ofConfig c).observeAll xs).get p = {} := by
  have hc (long : Bool) : c.counts long = false := by simp [StormConfig.counts, h]
  induction xs using List.reverseRecOn with
  | nil => exact get_ofConfig c p
  | append_singleton xs x ih =>
    rw [observeAll_concat, get_observe, config_observeAll, config_ofConfig]
    split
    · rename_i hp
      rw [PinStats.observe_uncounted _ (hc x.long), ← hp, ih]
    · exact ih

theorem counts_iff {c : StormConfig} (h : c.threshold ≠ 0) (x : Observation) :
    c.counts x.long = x.counted c := by
  simp [StormConfig.counts, counted, h]

theorem ne_largest_iff (n : UInt32) : n ≠ 0xFFFFFFFF ↔ n.toNat < UInt32.size - 1 := by
  have hlt := n.toNat_lt
  rw [ne_eq, ← UInt32.toNat_inj]
  show ¬n.toNat = 4294967295 ↔ n.toNat < 4294967296 - 1
  omega

/-- Every register mirrors the window of its pin. -/
theorem mirrors_observeAll {c : StormConfig} (h : c.threshold ≠ 0) (xs : List Observation)
    (p : Pin) : (((ofConfig c).observeAll xs).get p).Mirrors (window c p xs) := by
  induction xs using List.reverseRecOn with
  | nil =>
    rw [show ((ofConfig c).observeAll []).get p = {} from get_ofConfig c p]
    exact ⟨rfl, rfl⟩
  | append_singleton xs x ih =>
    rw [observeAll_concat, get_observe, config_observeAll, config_ofConfig, window_concat]
    by_cases hp : p = x.pin
    · subst hp
      rw [if_pos rfl]
      cases hc : c.counts x.long with
      | true =>
        rw [if_pos ⟨rfl, counts_iff h x ▸ hc⟩]
        exact (ih.observe hc).1
      | false =>
        have hout : ¬(x.pin = x.pin ∧ x.counted c = true) := by
          rw [← counts_iff h x, hc]
          simp
        rw [if_neg hout, PinStats.observe_uncounted _ hc]
        exact ih
    · rw [if_neg hp, if_neg fun hx => hp hx.1.symm]
      exact ih

/-- The detector tells a storm just if the exact weight of the window exceeds the threshold, and it
keeps the start of the window and its weight, whatever was shown to it in whatever order. A
threshold of zero turns it off, and the largest one is never exceeded. -/
theorem observe_exact (c : StormConfig) (xs : List Observation) :
    let t := (ofConfig c).observeAll xs
    (∀ x, (t.observe x.pin x.long x.instant).2 = .storm ↔
      c.threshold ≠ 0 ∧ c.threshold ≠ 0xFFFFFFFF ∧ x.counted c = true ∧
        c.threshold.toNat < load (window c x.pin (xs ++ [x]))) ∧
      ∀ p,
        (t.get p).windowStart =
            (if c.threshold = 0 then none else (window c p xs).head?.map Observation.instant) ∧
          (t.get p).count.toNat =
            if c.threshold = 0 then 0 else min (load (window c p xs)) (UInt32.size - 1) := by
  intro t
  by_cases hzero : c.threshold = 0
  · refine ⟨fun x => ?_, fun p => ?_⟩
    · have hc : c.counts x.long = false := by simp [StormConfig.counts, hzero]
      rw [observe_snd, config_observeAll, config_ofConfig, PinStats.observe_uncounted _ hc]
      exact iff_of_false (by simp) fun hx => hx.1 hzero
    · rw [if_pos hzero, if_pos hzero, show t.get p = {} from get_observeAll_of_zero hzero xs p]
      exact ⟨rfl, rfl⟩
  · refine ⟨fun x => ?_, fun p => ?_⟩
    · have hmirrors := mirrors_observeAll hzero xs x.pin
      rw [observe_snd, config_observeAll, config_ofConfig, window_concat, ← counts_iff hzero x,
        ne_largest_iff]
      cases hc : c.counts x.long with
      | true =>
        rw [(hmirrors.observe hc).2, if_pos ⟨rfl, rfl⟩, lt_min_iff]
        constructor
        · rintro ⟨hload, hmax⟩
          exact ⟨hzero, hmax, rfl, hload⟩
        · rintro ⟨-, hmax, -, hload⟩
          exact ⟨hload, hmax⟩
      | false =>
        rw [PinStats.observe_uncounted _ hc]
        refine iff_of_false (by simp) fun hx => ?_
        cases hx.2.2.1
    · have hmirrors := mirrors_observeAll hzero xs p
      rw [if_neg hzero, if_neg hzero]
      exact ⟨hmirrors.start, hmirrors.count⟩

/-- With detection off, a long pulse has its weight in the reference, and the register stays
empty. -/
theorem unregistered_at_zero :
    let c : StormConfig := { threshold := 0 }
    let xs : List Observation := [⟨.crt, true, 0⟩]
    let s := ((ofConfig c).observeAll xs).get .crt
    s.count.toNat = 0 ∧ s.windowStart = none ∧
      min (load (window c .crt xs)) (UInt32.size - 1) = 10 ∧
        (window c .crt xs).head?.map Observation.instant = some 0 := by
  decide

end PinTable

end HotplugDetect
