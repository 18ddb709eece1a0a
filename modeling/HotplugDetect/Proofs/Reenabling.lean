import HotplugDetect.Proofs.Watch.Passes

/-! # What one run of the recovery does

The run enables the pins of a past storm one after another, each with its connectors, and programs
the interrupt enables when all of them are done. Nothing else is touched.
-/

namespace HotplugDetect

namespace Controller

variable {ρ : Type}

/-- A storm disabled the pin, and the recovery covers it: digital ports may be left out. -/
def Recovers (s : Controller ρ) (p : Pin) : Prop :=
  (s.table.get p).state = .disabled ∧ (s.table.get p).mitigated = true ∧
    (s.reenableDigital = true ∨ ∀ port, s.portForPin p = some port → s.digitalPorts port = none)

/-- The state in which a run leaves the controller when it enables `pins`. -/
structure Reenabled (s : Controller ρ) (pins : List Pin) (t : Controller ρ) : Prop where

  freed : ∀ p ∈ pins, t.table.get p = { s.table.get p with state := .enabled, mitigated := false }

  kept : ∀ p ∉ pins, t.table.get p = s.table.get p

  connectors : t.connectors = s.connectors.map fun c =>
    if c.multiStream = false ∧ ∃ p ∈ pins, c.pin = some p then
      { c with polled := if c.preference = .unset then .hpd else c.preference }
    else c

  /-- The messages in the order of the pins, then at most one call, made of the final states. -/
  trace : t.trace =
    if pins = [] then s.trace
    else (if s.irqsEnabled then
          [.call (.irqSetup (t.table.pinsIn .enabled) (t.table.pinsIn .disabled)
            (t.table.pinsIn .autoDisabled))]
        else []) ++
      .note (.reenabled (.ofList pins)) ::
        (pins.flatMap fun p => (s.connectors.filter fun c =>
          c.recoversWith p && c.polled != .restored c.preference).map
            fun c => Event.note (.reenabling c.name)).reverse ++ s.trace

  rest : t = { s with
    table := ⟨t.table.stats, s.table.config⟩
    connectors := t.connectors
    trace := t.trace }

theorem recovers_iff (s : Controller ρ) (p : Pin) : s.Recovers p ↔ s.watch.recovers p = true := by
  have heligible : s.eligible p = true ↔
      s.reenableDigital = true ∨
        ∀ port, s.portForPin p = some port → s.digitalPorts port = none := by
    simp only [eligible, digitalPortForPin, Bool.or_eq_true, Option.isNone_iff_eq_none,
      Option.filter_eq_none_iff, Bool.not_eq_true, Option.isSome_eq_false_iff]
  rw [Watch.recovers_iff]
  exact and_congr_right' (and_congr_right' heligible.symm)

theorem mem_recoverable_iff (s : Controller ρ) (p : Pin) : p ∈ s.recoverable ↔ s.Recovers p :=
  (s.mem_recoverable p).trans (s.recovers_iff p).symm

theorem recoverable_sublist (s : Controller ρ) : s.recoverable.Sublist Pin.all :=
  List.filter_sublist.trans List.filter_sublist

theorem noteAll_trace (s : Controller ρ) (ms : List Message) :
    s.noteAll ms = { s with trace := (ms.map Event.note).reverse ++ s.trace } := by
  induction ms generalizing s with
  | nil => rfl
  | cons m ms ih =>
    rw [noteAll, List.foldl_cons, ← noteAll, ih]
    simp [note, emit]

end Controller

namespace PinTable

theorem get_foldl_enable (ps : List Pin) (t : PinTable) (q : Pin) :
    (ps.foldl enable t).get q = if q ∈ ps then (t.get q).freed else t.get q := by
  induction ps generalizing t with
  | nil => simp
  | cons p ps ih =>
    rw [List.foldl_cons, ih, get_enable]
    by_cases hq : q = p
    · subst hq
      simp [PinStats.freed]
    · simp [hq]

theorem config_foldl_enable (ps : List Pin) (t : PinTable) :
    (ps.foldl enable t).config = t.config := by
  induction ps generalizing t with
  | nil => rfl
  | cons p ps ih => exact ih (t.enable p)

end PinTable

namespace Connector

variable {ρ : Type}

def leavesWith (c : Connector ρ) (p : Pin) : Bool :=
  c.recoversWith p && c.polled != .restored c.preference

theorem filter_leavesWith_recovered {p q : Pin} (h : p ≠ q) (cs : List (Connector ρ)) :
    ((cs.map (·.recovered p)).filter (·.leavesWith q)).map (·.name) =
      (cs.filter (·.leavesWith q)).map (·.name) := by
  induction cs with
  | nil => rfl
  | cons c cs ih =>
    have hleaves : (c.recovered p).leavesWith q = c.leavesWith q := by
      unfold recovered
      split
      · rename_i hp
        have hpin : c.pin = some p := by simp_all [recoversWith]
        simp [leavesWith, recoversWith, hpin, h]
      · rfl
    have hname : (c.recovered p).name = c.name := by
      unfold recovered
      split <;> rfl
    rw [List.map_cons, List.filter_cons, List.filter_cons, hleaves]
    split
    · rw [List.map_cons, List.map_cons, ih, hname]
    · exact ih

theorem returned_eq (c : Connector ρ) (pins : List Pin) :
    c.returned (· ∈ pins) =
      if c.multiStream = false ∧ ∃ p ∈ pins, c.pin = some p then
        { c with polled := if c.preference = .unset then .hpd else c.preference }
      else c := by
  rcases c with ⟨name, _ | p, _ | _, preference, polled, probe⟩ <;>
    simp [returned, PollMode.restored]

end Connector

namespace Controller

variable {ρ : Type}

/-- The messages of a run that enables the pins, first one first. -/
def reenablingNotes (s : Controller ρ) (pins : List Pin) : List Event :=
  pins.flatMap fun p => (s.connectors.filter (·.leavesWith p)).map
    fun c => .note (.reenabling c.name)

/-- The pins are enabled one by one. Each finds its connectors as they were before the run. -/
theorem foldl_recoverPin_eq {ps : List Pin} (hn : ps.Nodup) (s : Controller ρ) :
    ps.foldl recoverPin s = { s with
      table := ps.foldl PinTable.enable s.table
      connectors := s.connectors.map (·.returned (· ∈ ps))
      trace := (s.reenablingNotes ps).reverse ++ s.trace } := by
  induction ps generalizing s with
  | nil => simp [Connector.returned, reenablingNotes]
  | cons p ps ih =>
    obtain ⟨hp, hn⟩ := List.nodup_cons.mp hn
    have hstep : s.recoverPin p = { s with
        table := s.table.enable p
        connectors := s.connectors.map (·.recovered p)
        trace := ((s.connectors.filter (·.leavesWith p)).map
          fun c => Event.note (.reenabling c.name)).reverse ++ s.trace } := by
      rw [recoverPin, noteAll_trace, List.map_map]
      rfl
    have hnotes : (s.recoverPin p).reenablingNotes ps = s.reenablingNotes ps := by
      refine List.flatMap_congr fun q hq => ?_
      have hne : p ≠ q := by
        rintro rfl
        exact hp hq
      have hnames := Connector.filter_leavesWith_recovered hne s.connectors
      have hevents := congrArg (List.map fun n => Event.note (.reenabling n)) hnames
      rw [List.map_map, List.map_map] at hevents
      rw [hstep]
      exact hevents
    have hconnectors : (s.connectors.map (·.recovered p)).map (·.returned (· ∈ ps)) =
        s.connectors.map (·.returned (· ∈ p :: ps)) := by
      rw [List.map_map]
      refine List.map_congr_left fun c _ => ?_
      simp only [Function.comp_apply, Connector.recovered_eq_returned, Connector.returned_returned,
        List.mem_cons, Bool.decide_or]
    rw [List.foldl_cons, ih hn, hnotes, hstep]
    simp only [List.foldl_cons, hconnectors, reenablingNotes, List.flatMap_cons,
      List.reverse_append, List.append_assoc]

theorem setupIrqs_closed (s : Controller ρ) :
    s.setupIrqs = { s with
      trace := (if s.irqsEnabled then
          [.call (.irqSetup (s.table.pinsIn .enabled) (s.table.pinsIn .disabled)
            (s.table.pinsIn .autoDisabled))]
        else []) ++ s.trace } := by
  unfold setupIrqs
  split <;> rfl

theorem reenablePass_closed (s : Controller ρ) :
    s.reenablePass = if s.recoverable = [] then s
      else ({ s with
        table := s.recoverable.foldl PinTable.enable s.table
        connectors := s.connectors.map (·.returned (· ∈ s.recoverable))
        trace := .note (.reenabled (.ofList s.recoverable)) ::
          ((s.reenablingNotes s.recoverable).reverse ++ s.trace) } : Controller ρ).setupIrqs := by
  have hn : s.recoverable.Nodup := (Mask.nodup_toList _).filter _
  unfold reenablePass
  simp only [List.isEmpty_iff, foldl_recoverPin_eq hn]
  rfl

/-- The pins that a run enables need no other run. -/
theorem reenablePass_settled (s : Controller ρ) : s.reenablePass.recoverable = [] := by
  refine List.eq_nil_iff_forall_not_mem.mpr fun p hp => ?_
  rw [mem_recoverable, watch_reenablePass] at hp
  obtain ⟨hstate, hmitigated, heligible⟩ := (Watch.recovers_iff _ p).mp hp
  rcases Watch.stats_recovered s.watch p with ⟨hkept, heq⟩ | ⟨-, heq⟩
  · rw [heq] at hstate hmitigated
    have hrecovers := (Watch.recovers_iff s.watch p).mpr ⟨hstate, hmitigated, heligible⟩
    rw [hkept] at hrecovers
    cases hrecovers
  · rw [heq] at hstate
    cases hstate

/-- A run of the recovery enables the pins that a storm disabled and that it covers, and takes the
connectors on them that are not streams of a link back to their own way. It changes nothing else,
and the interrupt enables are programmed once, after all changes, if there were any. A second run
does nothing. -/
theorem reenablePass_exact (s : Controller ρ) :
    (∃ pins : List Pin, pins.Sublist Pin.all ∧ (∀ p, p ∈ pins ↔ s.Recovers p) ∧
      s.Reenabled pins s.reenablePass) ∧
      s.reenablePass.reenablePass = s.reenablePass := by
  refine ⟨⟨s.recoverable, s.recoverable_sublist, s.mem_recoverable_iff, ?_⟩, ?_⟩
  · by_cases hnone : s.recoverable = []
    · rw [reenablePass_closed, if_pos hnone, hnone]
      constructor
      · simp
      · simp
      · simp
      · simp
      · rfl
    · have hget := PinTable.get_foldl_enable s.recoverable s.table
      have hconfig := PinTable.config_foldl_enable s.recoverable s.table
      rw [reenablePass_closed, if_neg hnone, setupIrqs_closed]
      constructor
      · intro p hp
        exact (hget p).trans (if_pos hp)
      · intro p hp
        exact (hget p).trans (if_neg hp)
      · refine List.map_congr_left fun c _ => ?_
        exact c.returned_eq s.recoverable
      · simp only [if_neg hnone, List.append_assoc, List.cons_append]
        rfl
      · simp only [← hconfig]
  · rw [reenablePass_closed s.reenablePass, if_pos s.reenablePass_settled]

end Controller

end HotplugDetect
