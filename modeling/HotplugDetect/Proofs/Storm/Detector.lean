import HotplugDetect.Proofs.Watch.Basic

/-! # The storm detector and the pulses it was shown

The window of the detector starts with some pulse and is forgotten as a whole. Within one window the
counter is at most the exact weight of the pulses, and a full interval meets at most two windows, so
that it lets through at most twice the threshold.
-/

namespace HotplugDetect

/-- A pulse on a pin, as it was received. -/
structure Pulse where
  instant : Nat
  long : Bool
  /-- The threshold in force. -/
  threshold : Nat
  /-- The pin was enabled, and short pulses count if this is one. -/
  counted : Bool
  /-- The pulse put an enabled pin into a storm. -/
  storm : Bool
  deriving DecidableEq

namespace Pulse

def weight (x : Pulse) : Nat := if x.long then 10 else 1

/-- The exact weight of the counted pulses from one instant on and before another one. -/
def load (h : List Pulse) (a b : Nat) : Nat :=
  ((h.filter fun x => x.counted && a ≤ x.instant && x.instant < b).map weight).sum

/-- Every storm is backed by the pulses of one window up to the storm. A window holds its first
instant even if it has no length. -/
def Justified (period : Nat) (h : List Pulse) : Prop :=
  ∀ before x after, h = before ++ x :: after → x.storm = true →
    ∃ start, start ≤ x.instant ∧ (x.instant < start + period ∨ start = x.instant) ∧
      x.threshold < load (before ++ [x]) start (x.instant + 1)

/-- The exact weight of the counted pulses in an interval that were let through. -/
def admitted (h : List Pulse) (a b : Nat) : Nat := load (h.filter fun x => !x.storm) a b

theorem load_append (h k : List Pulse) (a b : Nat) :
    load (h ++ k) a b = load h a b + load k a b := by
  simp [load]

theorem load_singleton (x : Pulse) (a b : Nat) :
    load [x] a b =
      if x.counted = true ∧ a ≤ x.instant ∧ x.instant < b then x.weight else 0 := by
  unfold load
  by_cases hx : x.counted = true ∧ a ≤ x.instant ∧ x.instant < b
  · simp [hx]
  · have hf : (x.counted && a ≤ x.instant && x.instant < b) = false := by
      rw [← Bool.not_eq_true]
      simpa [and_assoc] using hx
    rw [List.filter_cons_of_neg (by simp [hf]), if_neg hx]
    rfl

theorem load_le_load (h : List Pulse) (a : Nat) {b c : Nat} (hbc : b ≤ c) :
    load h a b ≤ load h a c := by
  induction h with
  | nil => exact le_rfl
  | cons x h ih =>
    have hx : load [x] a b ≤ load [x] a c := by
      rw [load_singleton, load_singleton]
      split
      · rename_i hb
        rw [if_pos ⟨hb.1, hb.2.1, hb.2.2.trans_le hbc⟩]
      · exact Nat.zero_le _
    have happend (d : Nat) : load (x :: h) a d = load [x] a d + load h a d :=
      load_append [x] h a d
    rw [happend, happend]
    exact Nat.add_le_add hx ih

theorem admitted_concat (h : List Pulse) (x : Pulse) (a b : Nat) :
    admitted (h ++ [x]) a b = admitted h a b + if x.storm then 0 else load [x] a b := by
  unfold admitted
  rw [List.filter_append, load_append]
  cases hx : x.storm with
  | true => simp [hx, load]
  | false => simp [hx]

theorem admitted_concat_of_not_counted (h : List Pulse) {x : Pulse} (hx : x.counted = false)
    (a b : Nat) : admitted (h ++ [x]) a b = admitted h a b := by
  rw [admitted_concat, load_singleton]
  simp [hx]

theorem justified_nil (period : Nat) : Justified period [] := by
  intro before x after h
  simp at h

theorem Justified.concat {period : Nat} {h : List Pulse} (hj : Justified period h) {x : Pulse}
    (hx : x.storm = true → ∃ start, start ≤ x.instant ∧
      (x.instant < start + period ∨ start = x.instant) ∧
        x.threshold < load (h ++ [x]) start (x.instant + 1)) :
    Justified period (h ++ [x]) := by
  intro before y after heq hs
  rcases List.eq_nil_or_concat after with rfl | ⟨rest, z, rfl⟩
  · obtain ⟨rfl, hxy⟩ := List.append_inj' heq rfl
    obtain rfl : x = y := by simpa using hxy
    exact hx hs
  · rw [List.concat_eq_append, ← List.cons_append, ← List.append_assoc] at heq
    exact hj before y rest (List.append_inj' heq rfl).1 hs

end Pulse

theorem toNat_addSaturating (a b : UInt32) :
    (addSaturating a b).toNat = min (a.toNat + b.toNat) (UInt32.size - 1) := by
  unfold addSaturating
  split
  · rename_i h
    rw [UInt32.toNat_add, Nat.mod_eq_of_lt h, Nat.min_eq_left (Nat.le_sub_one_of_lt h)]
  · rename_i h
    rw [Nat.min_eq_right (by omega)]
    rfl

namespace PinStats

def shown (x : PinStats) (c : StormConfig) (long : Bool) (now : Nat) : Pulse where
  instant := now
  long
  threshold := c.threshold.toNat
  counted := x.state = .enabled && (long || c.shortStorms)
  storm := x.state = .enabled && (x.pulsed c long now).state = .autoDisabled

@[simp] theorem instant_shown (x : PinStats) (c : StormConfig) (long : Bool) (now : Nat) :
    (x.shown c long now).instant = now := rfl

theorem storm_shown_iff (x : PinStats) (c : StormConfig) (long : Bool) (now : Nat) :
    (x.shown c long now).storm = true ↔
      x.state = .enabled ∧ (x.pulsed c long now).state = .autoDisabled := by
  simp [shown]

theorem counted_shown {x : PinStats} {c : StormConfig} {long : Bool} (hx : x.state = .enabled)
    (hc : c.counts long = true) (now : Nat) : (x.shown c long now).counted = true := by
  simp only [StormConfig.counts, Bool.and_eq_true] at hc
  simpa [shown, hx] using hc.2

/-- A pulse is added to the window that holds its instant, or else opens a new one. -/
theorem observe_counted (x : PinStats) {c : StormConfig} {long : Bool} (h : c.counts long = true)
    (now : Nat) :
    ∃ start before, (x.observe c long now).1.windowStart = some start ∧
      (x.observe c long now).1.count.toNat =
        min (before + (x.shown c long now).weight) (UInt32.size - 1) ∧
      ((x.observe c long now).1.state =
        if c.threshold.toNat < (x.observe c long now).1.count.toNat then .autoDisabled
        else x.state) ∧
      (x.windowStart = some start ∧ before = x.count.toNat ∧ start ≤ now ∧
          now < start + c.period ∨
        start = now ∧ before = 0 ∧
          ∀ v, x.windowStart = some v → v ≤ now → v + c.period ≤ now) := by
  have hweight : (pulseWeight long).toNat = (x.shown c long now).weight := by
    cases long <;> rfl
  have hadd (y : PinStats) (hy : x.openWindow c.period now = y) :
      (x.observe c long now).1.windowStart = y.windowStart ∧
        (x.observe c long now).1.count.toNat =
          min (y.count.toNat + (x.shown c long now).weight) (UInt32.size - 1) ∧
        (x.observe c long now).1.state =
          if c.threshold.toNat < (x.observe c long now).1.count.toNat then .autoDisabled
          else y.state := by
    rw [← hweight, ← toNat_addSaturating]
    unfold observe
    rw [if_pos h, hy]
    simp only [UInt32.lt_iff_toNat_lt]
    split <;> simp
  by_cases hw : x.inWindow c.period now = true
  · obtain ⟨hstart, hcount, hstate⟩ := hadd x (if_pos hw)
    unfold inWindow at hw
    split at hw
    · cases hw
    · rename_i start hs
      simp only [Bool.and_eq_true, decide_eq_true_eq] at hw
      exact ⟨start, x.count.toNat, hstart.trans hs, hcount, hstate, .inl ⟨hs, rfl, hw.1, hw.2⟩⟩
  · obtain ⟨hstart, hcount, hstate⟩ := hadd _ (if_neg hw)
    refine ⟨now, 0, hstart, hcount, hstate, .inr ⟨rfl, rfl, ?_⟩⟩
    intro v hv hle
    rw [inWindow, hv] at hw
    simpa [hle] using hw

/-- A counted pulse declares a storm if it takes the counter above the threshold. -/
theorem storm_shown_counted {x : PinStats} {c : StormConfig} {long : Bool}
    (hx : x.state = .enabled) (hc : c.counts long = true) (now : Nat) :
    (x.shown c long now).storm = true ↔
      c.threshold.toNat < (x.observe c long now).1.count.toNat := by
  obtain ⟨-, -, -, -, hstate, -⟩ := x.observe_counted hc now
  have hp : x.pulsed c long now = (x.observe c long now).1 := if_pos hx
  rw [storm_shown_iff, hp, hstate]
  split
  · rename_i ht
    simp [hx, ht]
  · rename_i ht
    simp [hx, ht]

theorem pulsed_cases (x : PinStats) (c : StormConfig) (long : Bool) (now : Nat) :
    (x.state = .enabled ∧ c.counts long = true ∧ x.pulsed c long now = (x.observe c long now).1) ∨
      (x.pulsed c long now = x ∧
        ((x.shown c long now).counted = false ∨ c.threshold.toNat = 0)) := by
  unfold pulsed
  by_cases hx : x.state = .enabled
  · by_cases hc : c.counts long = true
    · exact .inl ⟨hx, hc, if_pos hx⟩
    · right
      constructor
      · rw [if_pos hx, observe, if_neg hc]
      · by_cases ht : c.threshold = 0
        · exact .inr (congrArg UInt32.toNat ht)
        · left
          simpa [StormConfig.counts, shown, hx, ht] using hc
  · right
    constructor
    · exact if_neg hx
    · left
      simp [shown, hx]

/-- The counter is backed by the pulses of its window. -/
def Explained (x : PinStats) (h : List Pulse) (now : Nat) : Prop :=
  ∀ start, x.windowStart = some start →
    start ≤ now ∧ x.count.toNat ≤ Pulse.load h start (now + 1)

theorem Explained.later {x : PinStats} {h : List Pulse} {now later : Nat}
    (he : x.Explained h now) (hle : now ≤ later) : x.Explained h later := by
  intro start hs
  obtain ⟨hstart, hcount⟩ := he start hs
  exact ⟨hstart.trans hle, hcount.trans (Pulse.load_le_load h start (Nat.succ_le_succ hle))⟩

theorem Explained.kept {x y : PinStats} {h : List Pulse} {now : Nat} (he : x.Explained h now)
    (hstart : y.windowStart = x.windowStart) (hcount : y.count.toNat ≤ x.count.toNat) :
    y.Explained h now := by
  intro start hs
  obtain ⟨hle, hb⟩ := he start (hstart ▸ hs)
  exact ⟨hle, hcount.trans hb⟩

theorem Explained.pulsed {x : PinStats} {h : List Pulse} {now : Nat} (he : x.Explained h now)
    (c : StormConfig) (long : Bool) :
    (x.pulsed c long now).Explained (h ++ [x.shown c long now]) now := by
  rcases x.pulsed_cases c long now with ⟨hx, hc, hp⟩ | ⟨hp, -⟩
  · rw [hp]
    obtain ⟨start, before, hstart, hcount, -, hwindow⟩ := x.observe_counted hc now
    have hcounted := counted_shown hx hc now
    have hload : Pulse.load [x.shown c long now] start (now + 1) =
        if start ≤ now then (x.shown c long now).weight else 0 := by
      rw [Pulse.load_singleton]
      simp [hcounted]
    intro v hv
    obtain rfl : start = v := by simpa [hstart] using hv
    rw [hcount, Pulse.load_append, hload]
    rcases hwindow with ⟨hs, rfl, hle, -⟩ | ⟨rfl, rfl, -⟩
    · obtain ⟨-, hb⟩ := he start hs
      rw [if_pos hle]
      exact ⟨hle, by omega⟩
    · rw [if_pos le_rfl]
      exact ⟨le_rfl, by omega⟩
  · rw [hp]
    intro start hs
    obtain ⟨hle, hb⟩ := he start hs
    rw [Pulse.load_append]
    exact ⟨hle, hb.trans (Nat.le_add_right _ _)⟩

/-- A storm means more than the threshold within one window. -/
theorem Explained.storm {x : PinStats} {h : List Pulse} {now : Nat} (he : x.Explained h now)
    (c : StormConfig) (long : Bool) (hs : (x.shown c long now).storm = true) :
    ∃ start, start ≤ now ∧ (now < start + c.period ∨ start = now) ∧
      c.threshold.toNat < Pulse.load (h ++ [x.shown c long now]) start (now + 1) := by
  have hp := he.pulsed c long
  rcases x.pulsed_cases c long now with ⟨hx, hc, hobs⟩ | ⟨hobs, -⟩
  · rw [hobs] at hp
    obtain ⟨start, before, hstart, -, -, hwindow⟩ := x.observe_counted hc now
    obtain ⟨hle, hb⟩ := hp start hstart
    have ht := (storm_shown_counted hx hc now).mp hs
    refine ⟨start, hle, ?_, ht.trans_le hb⟩
    rcases hwindow with ⟨-, -, -, hlt⟩ | ⟨hnow, -, -⟩
    · exact .inl hlt
    · exact .inr hnow
  · obtain ⟨hx, hstorm⟩ := (x.storm_shown_iff c long now).mp hs
    rw [hobs, hx] at hstorm
    cases hstorm

/-- A counted pulse is let through if the counter stays within the threshold. -/
theorem admitted_counted (x : PinStats) {c : StormConfig} {long : Bool} (hx : x.state = .enabled)
    (hc : c.counts long = true) (h : List Pulse) (now a b : Nat) :
    Pulse.admitted (h ++ [x.shown c long now]) a b = Pulse.admitted h a b +
      if (x.observe c long now).1.count.toNat ≤ c.threshold.toNat ∧ a ≤ now ∧ now < b
      then (x.shown c long now).weight else 0 := by
  rw [Pulse.admitted_concat, Pulse.load_singleton]
  have hstorm := storm_shown_counted hx hc now
  by_cases ht : c.threshold.toNat < (x.observe c long now).1.count.toNat
  · rw [if_pos (hstorm.mpr ht), if_neg (by omega)]
  · rw [if_neg (mt hstorm.mp ht), counted_shown hx hc now]
    simp [Nat.not_lt.mp ht]

/-- What was let through in an interval of full length, as long as the threshold is the same: one
threshold's worth in a window from before the interval, and one more in a window of its own. -/
structure Limited (x : PinStats) (threshold period a : Nat) (h : List Pulse) (now : Nat) :
    Prop where
  opened : ∀ start, x.windowStart = some start → start ≤ now
  total : Pulse.admitted h a (a + period) ≤ 2 * threshold
  before : now < a → Pulse.admitted h a (a + period) = 0
  second : now < a + period → (∃ start, x.windowStart = some start ∧ a ≤ start) →
    Pulse.admitted h a (a + period) ≤ threshold + x.count.toNat
  first : now < a + period → (∀ start, x.windowStart = some start → start < a) →
    Pulse.admitted h a (a + period) ≤ threshold ∧ Pulse.admitted h a (a + period) ≤ x.count.toNat

theorem limited_nil {x : PinStats} {now : Nat}
    (hopened : ∀ start, x.windowStart = some start → start ≤ now) (threshold period a : Nat) :
    x.Limited threshold period a [] now where
  opened := hopened
  total := Nat.zero_le _
  before _ := rfl
  second _ _ := Nat.zero_le _
  first _ _ := ⟨Nat.zero_le _, Nat.zero_le _⟩

theorem Limited.later {x : PinStats} {threshold period a : Nat} {h : List Pulse} {now later : Nat}
    (hl : x.Limited threshold period a h now) (hle : now ≤ later) :
    x.Limited threshold period a h later where
  opened start hs := (hl.opened start hs).trans hle
  total := hl.total
  before hlt := hl.before (hle.trans_lt hlt)
  second hlt := hl.second (hle.trans_lt hlt)
  first hlt := hl.first (hle.trans_lt hlt)

theorem Limited.kept {x y : PinStats} {threshold period a : Nat} {h : List Pulse} {now : Nat}
    (hl : x.Limited threshold period a h now) (hstart : y.windowStart = x.windowStart)
    (hcount : y.count = x.count) : y.Limited threshold period a h now where
  opened := hstart ▸ hl.opened
  total := hl.total
  before := hl.before
  second := by rw [hstart, hcount]; exact hl.second
  first := by rw [hstart, hcount]; exact hl.first

theorem Limited.pulsed {x : PinStats} {c : StormConfig} {a : Nat} {h : List Pulse} {now : Nat}
    (hl : x.Limited c.threshold.toNat c.period a h now) (hpos : 0 < c.threshold.toNat)
    (hmax : c.threshold.toNat < UInt32.size - 1) (long : Bool) :
    (x.pulsed c long now).Limited c.threshold.toNat c.period a (h ++ [x.shown c long now]) now := by
  rcases x.pulsed_cases c long now with ⟨hx, hc, hp⟩ | ⟨hp, hq | ht⟩
  · have hadmitted := x.admitted_counted hx hc h now a (a + c.period)
    rw [hp]
    obtain ⟨start, before, hstart, hcount, -, hwindow⟩ := x.observe_counted hc now
    have htotal := hl.total
    have hbefore := hl.before
    -- The pulse meets the window that was open, or the one that it opens.
    have hsecond : now < a + c.period → a ≤ start →
        Pulse.admitted h a (a + c.period) ≤ c.threshold.toNat + before := by
      intro hn ha
      rcases hwindow with ⟨hs, rfl, -, -⟩ | ⟨rfl, rfl, hclosed⟩
      · exact hl.second hn ⟨start, hs, ha⟩
      · refine (hl.first hn fun v hv => ?_).1
        have := hclosed v hv (hl.opened v hv)
        omega
    have hfirst : now < a + c.period → start < a →
        Pulse.admitted h a (a + c.period) ≤ c.threshold.toNat ∧
          Pulse.admitted h a (a + c.period) ≤ before := by
      intro hn ha
      rcases hwindow with ⟨hs, rfl, -, -⟩ | ⟨rfl, rfl, -⟩
      · refine hl.first hn fun v hv => ?_
        obtain rfl : start = v := by simpa [hs] using hv
        exact ha
      · simp [hbefore ha]
    have hopened : start ≤ now := by
      rcases hwindow with ⟨-, -, hle, -⟩ | ⟨rfl, -, -⟩
      · exact hle
      · exact le_rfl
    constructor
    · intro v hv
      obtain rfl : start = v := by simpa [hstart] using hv
      exact hopened
    · rw [hadmitted]
      split <;> omega
    · intro hn
      rw [hadmitted, if_neg (by omega), hbefore hn]
    · rintro hn ⟨v, hv, ha⟩
      obtain rfl : start = v := by simpa [hstart] using hv
      rw [hadmitted]
      split <;> omega
    · intro hn hv
      have ha := hv start hstart
      rw [hadmitted]
      split <;> omega
  · rw [hp]
    constructor
    · exact hl.opened
    · rw [Pulse.admitted_concat_of_not_counted h hq]
      exact hl.total
    · rw [Pulse.admitted_concat_of_not_counted h hq]
      exact hl.before
    · rw [Pulse.admitted_concat_of_not_counted h hq]
      exact hl.second
    · rw [Pulse.admitted_concat_of_not_counted h hq]
      exact hl.first
  · omega

end PinStats

end HotplugDetect
