import HotplugDetect.Controller.Script
import HotplugDetect.Proofs.Dispatch.Burst
import HotplugDetect.Proofs.Quiet.Moves

/-! # Pins are judged on their own

What an interrupt does for a pin reads the statistics of that pin and writes no others, and in the
masks it touches the bits of that pin and its port. The steps of two pins commute therefore. Neither
the order of the pins matters, nor whether they come in one interrupt or in one interrupt each; only
the interrupt enables may be programmed more often in the second case.
-/

namespace HotplugDetect

variable {ρ : Type}

namespace Mask

variable {α : Type} [Indexed α]

/-- A member is put in, if there is one. -/
def record (m : Mask α) (a : Option α) : Mask α := a.elim m m.insert

/-- A member is put in or taken out, or stays as it is. -/
def mark (m : Mask α) (a : α) : Option Bool → Mask α
  | none => m
  | some true => m.insert a
  | some false => m.erase a

variable [LawfulIndexed α]

theorem insert_comm (m : Mask α) (a b : α) : (m.insert a).insert b = (m.insert b).insert a := by
  refine ext_has fun i _ => ?_
  simp only [has_insert]
  exact Bool.or_right_comm _ _ _

theorem erase_comm (m : Mask α) (a b : α) : (m.erase a).erase b = (m.erase b).erase a := by
  refine ext_has fun i hi => ?_
  simp only [has_erase _ _ hi]
  exact Bool.and_right_comm _ _ _

theorem erase_insert (m : Mask α) (a : α) : (m.insert a).erase a = m.erase a := by
  refine ext_has fun i hi => ?_
  rw [has_erase _ _ hi, has_erase _ _ hi, has_insert]
  cases decide (Indexed.index a = i) <;> simp

theorem insert_erase_comm {a b : α} (h : a ≠ b) (m : Mask α) :
    (m.insert a).erase b = (m.erase b).insert a := by
  refine ext_has fun i hi => ?_
  rw [has_erase _ _ hi, has_insert, has_insert, has_erase _ _ hi]
  by_cases ha : Indexed.index a = i
  · have hb : Indexed.index b ≠ i := fun hb => h (LawfulIndexed.index_inj (ha.trans hb.symm))
    simp [ha, hb]
  · simp [ha]

theorem record_comm (m : Mask α) (a b : Option α) :
    (m.record a).record b = (m.record b).record a := by
  cases a with
  | none => rfl
  | some a =>
    cases b with
    | none => rfl
    | some b => exact m.insert_comm a b

theorem mark_comm {a b : α} (h : a ≠ b) (m : Mask α) (x y : Option Bool) :
    (m.mark a x).mark b y = (m.mark b y).mark a x := by
  rcases x with _ | _ | _ <;> rcases y with _ | _ | _
  · rfl
  · rfl
  · rfl
  · rfl
  · exact m.erase_comm a b
  · exact (insert_erase_comm h.symm m).symm
  · rfl
  · exact insert_erase_comm h m
  · exact m.insert_comm a b

end Mask

namespace PinTable

theorem put_get (t : PinTable) (p : Pin) : t.put p (t.get p) = t := by
  simp [put, get]

theorem put_comm {p q : Pin} (h : p ≠ q) (t : PinTable) (x y : PinStats) :
    (t.put p x).put q y = (t.put q y).put p x := by
  simp only [put]
  rw [Vector.set_comm _ _ fun hi => h (Pin.index_inj.mp hi)]

def pulsed (t : PinTable) (p : Pin) (long : Bool) (now : Nat) : PinTable :=
  t.put p ((t.get p).pulsed t.config long now)

def storms (t : PinTable) (p : Pin) (long : Bool) (now : Nat) : Bool :=
  t.state p = .enabled && (t.observe p long now).2 = .storm

/-- Whether a pulse puts its pin among the events, takes it out, or does neither. -/
def mark (t : PinTable) (p : Pin) (digital long : Bool) (now : Nat) : Option Bool :=
  if t.storms p long now then some false
  else if t.state p = .enabled && !digital then some true
  else none

theorem get_pulsed_of_ne {p q : Pin} (h : q ≠ p) (t : PinTable) (long : Bool) (now : Nat) :
    (t.pulsed p long now).get q = t.get q := by
  rw [pulsed, get_put, if_neg h]

theorem state_pulsed_of_ne {p q : Pin} (h : q ≠ p) (t : PinTable) (long : Bool) (now : Nat) :
    (t.pulsed p long now).state q = t.state q :=
  congrArg PinStats.state (t.get_pulsed_of_ne h long now)

theorem pulsed_comm {p q : Pin} (h : p ≠ q) (t : PinTable) (a b : Bool) (now : Nat) :
    (t.pulsed p a now).pulsed q b now = (t.pulsed q b now).pulsed p a now := by
  have hq : (t.pulsed p a now).pulsed q b now =
      (t.pulsed p a now).put q ((t.get q).pulsed t.config b now) := by
    rw [← get_pulsed_of_ne h.symm t a now]
    rfl
  have hp : (t.pulsed q b now).pulsed p a now =
      (t.pulsed q b now).put p ((t.get p).pulsed t.config a now) := by
    rw [← get_pulsed_of_ne h t b now]
    rfl
  rw [hq, hp]
  exact put_comm h t _ _

theorem storms_pulsed_of_ne {p q : Pin} (h : q ≠ p) (t : PinTable) (a b : Bool) (now : Nat) :
    (t.pulsed p a now).storms q b now = t.storms q b now := by
  rw [storms, storms, state_pulsed_of_ne h, observe, observe, get_pulsed_of_ne h]
  rfl

theorem mark_pulsed_of_ne {p q : Pin} (h : q ≠ p) (t : PinTable) (digital a b : Bool)
    (now : Nat) : (t.pulsed p a now).mark q digital b now = t.mark q digital b now := by
  rw [mark, mark, storms_pulsed_of_ne h, state_pulsed_of_ne h]

theorem pulsed_of_ne {t : PinTable} {p : Pin} (h : t.state p ≠ .enabled) (long : Bool)
    (now : Nat) : t.pulsed p long now = t := by
  have hsame : (t.get p).pulsed t.config long now = t.get p := if_neg h
  rw [pulsed, hsame, put_get]

theorem pulsed_of_enabled {t : PinTable} {p : Pin} (h : t.state p = .enabled) (long : Bool)
    (now : Nat) : t.pulsed p long now = (t.observe p long now).1 := by
  have hshown : (t.get p).pulsed t.config long now =
      ((t.get p).observe t.config long now).1 := if_pos h
  rw [pulsed, hshown]
  rfl

theorem state_pulsed_of_calm {t : PinTable} {p : Pin} {long : Bool} {now : Nat}
    (h : t.storms p long now = false) : (t.pulsed p long now).state = t.state := by
  funext q
  by_cases hq : q = p
  · subst hq
    by_cases he : t.state q = .enabled
    · have hcalm : (t.observe q long now).1.state q ≠ .autoDisabled := by
        rw [Ne, ← state_observe he]
        simpa [storms, he] using h
      have hget : (t.observe q long now).1.get q = ((t.get q).observe t.config long now).1 := by
        rw [get_observe, if_pos rfl]
      rw [pulsed_of_enabled he]
      rw [state, hget] at hcalm ⊢
      rcases (t.get q).phase_observe t.config long now with hx | hx
      · exact congrArg Prod.fst hx
      · exact absurd (congrArg Prod.fst hx) hcalm
    · rw [pulsed_of_ne he]
  · exact t.state_pulsed_of_ne hq long now

theorem storms_of_ne {t : PinTable} {p : Pin} (h : t.state p ≠ .enabled) (long : Bool)
    (now : Nat) : t.storms p long now = false := by
  rw [storms, decide_eq_false h, Bool.false_and]

theorem storms_of_enabled {t : PinTable} {p : Pin} (h : t.state p = .enabled) (long : Bool)
    (now : Nat) : t.storms p long now = decide ((t.observe p long now).2 = .storm) := by
  rw [storms, decide_eq_true h, Bool.true_and]

theorem mark_of_ne {t : PinTable} {p : Pin} (h : t.state p ≠ .enabled) (digital long : Bool)
    (now : Nat) : t.mark p digital long now = none := by
  simp [mark, storms_of_ne h, h]

end PinTable

namespace Demand

/-- What two pins ask for together. -/
def join (d e : Demand) : Demand :=
  ⟨d.storm || e.storm, d.digital || e.digital, d.generic || e.generic⟩

def joined (ds : List Demand) : Demand :=
  ⟨ds.any storm, ds.any digital, ds.any generic⟩

theorem joined_perm {ds es : List Demand} (h : ds.Perm es) : joined ds = joined es := by
  simp only [joined, h.any_eq]

theorem join_none (d : Demand) : d.join {} = d := by
  simp [join]

theorem join_assoc (d e f : Demand) : (d.join e).join f = d.join (e.join f) := by
  simp only [join, Bool.or_assoc]

end Demand

theorem Work.queue_queue {β : Type} (w : Work β) : w.queue.1.queue.1 = w.queue.1 := by
  rw [queue, if_pos w.pending_queue]

theorem Mask.toList_singleton (p : Pin) : (Mask.ofList [p] : PinSet).toList = [p] := by
  cases p <;> decide

namespace Controller

section Judging

theorem detectStorm_eq {s : Controller ρ} {p : Pin} (h : s.table.state p = .enabled) (long : Bool)
    (d : Demand) :
    ∃ ts, s.detectStorm p long d =
      ({ s with
          table := s.table.pulsed p long s.now
          eventPins := if s.table.storms p long s.now then s.eventPins.erase p else s.eventPins
          trace := ts },
        d.join ⟨s.table.storms p long s.now, false, s.table.storms p long s.now⟩) := by
  rw [PinTable.pulsed_of_enabled h, PinTable.storms_of_enabled h]
  unfold detectStorm
  split
  · rename_i table ho
    refine ⟨(s.note (.storm p)).trace, ?_⟩
    simp only [ho, decide_true, if_true, Demand.join, Bool.or_true, Bool.or_false]
    rfl
  · rename_i table count ho
    refine ⟨(s.note (.counted p count)).trace, ?_⟩
    simp only [ho, reduceCtorEq, decide_false, Bool.false_eq_true, if_false, Demand.join_none]
    rfl
  · rename_i table ho
    refine ⟨s.trace, ?_⟩
    simp only [ho, reduceCtorEq, decide_false, Bool.false_eq_true, if_false, Demand.join_none]

theorem judge_eq (s : Controller ρ) (p : Pin) (digital long : Bool) (d : Demand) :
    ∃ ts, s.judge p digital long d =
      ({ s with
          table := s.table.pulsed p long s.now
          eventPins := s.eventPins.mark p (s.table.mark p digital long s.now)
          warned := s.warned || (s.table.state p = .disabled && !s.caps.gmchDisplay)
          trace := ts },
        d.join ⟨s.table.storms p long s.now, false,
          s.table.state p = .enabled && (!digital || s.table.storms p long s.now)⟩) := by
  have hmasked (h : s.table.state p ≠ .enabled) :
      s.table.pulsed p long s.now = s.table ∧ s.table.mark p digital long s.now = none ∧
        s.table.storms p long s.now = false :=
    ⟨PinTable.pulsed_of_ne h long _, PinTable.mark_of_ne h digital long _,
      PinTable.storms_of_ne h long _⟩
  unfold judge
  split
  · rename_i h
    obtain ⟨htable, hmark, hstorms⟩ := hmasked (by rw [h]; decide)
    refine ⟨(s.reportDisabled p).trace, ?_⟩
    simp only [htable, hmark, hstorms, h]
    simp [reportDisabled, note, emit, Mask.mark, Demand.join_none]
  · rename_i h
    obtain ⟨htable, hmark, hstorms⟩ := hmasked (by rw [h]; decide)
    refine ⟨s.trace, ?_⟩
    simp only [htable, hmark, hstorms, h]
    simp [Mask.mark, Demand.join_none]
  · rename_i h
    cases digital with
    | true =>
      obtain ⟨ts, hdetect⟩ := detectStorm_eq h long d
      refine ⟨ts, hdetect.trans ?_⟩
      cases hstorm : s.table.storms p long s.now <;>
        simp [PinTable.mark, Mask.mark, hstorm, h]
    | false =>
      obtain ⟨ts, hdetect⟩ := detectStorm_eq
        (s := { s with eventPins := s.eventPins.insert p }) h long { d with generic := true }
      refine ⟨ts, hdetect.trans ?_⟩
      cases hstorm : s.table.storms p long s.now <;>
        simp [PinTable.mark, Mask.mark, Mask.erase_insert, Demand.join, hstorm, h]

theorem calls_receive (s : Controller ρ) (long : PinSet) (p : Pin) (d : Demand) :
    (s.receive long p d).1.calls = s.calls := by
  have hdetect (s : Controller ρ) (isLong : Bool) (d : Demand) :
      (s.detectStorm p isLong d).1.calls = s.calls := by
    unfold detectStorm
    split <;> rfl
  have hjudge (s : Controller ρ) (digital isLong : Bool) (d : Demand) :
      (s.judge p digital isLong d).1.calls = s.calls := by
    unfold judge
    split
    · rfl
    · rfl
    · split
      · exact hdetect s isLong d
      · exact hdetect _ isLong _
  unfold receive
  split
  · rw [hjudge]
    unfold keepPulse
    split <;> rfl
  · exact hjudge s false true d

end Judging

section Pins

variable (s : Controller ρ) (long : PinSet) (p : Pin)

/-- Whether a pulse counts as a long one: those of a digital port may be short. -/
def isLong : Bool := (s.digitalPortForPin p).isNone || long.contains p

/-- The port that a pulse of the given kind is kept for. -/
def keptFor (kind : Bool) : Option Port :=
  if long.contains p = kind then s.digitalPortForPin p else none

/-- One fired pin was judged. Messages are left out. -/
def judged : Controller ρ :=
  { s with
    table := s.table.pulsed p (s.isLong long p) s.now
    longPorts := s.longPorts.record (s.keptFor long p true)
    shortPorts := s.shortPorts.record (s.keptFor long p false)
    eventPins :=
      s.eventPins.mark p
        (s.table.mark p (s.digitalPortForPin p).isSome (s.isLong long p) s.now)
    warned := s.warned || (s.table.state p = .disabled && !s.caps.gmchDisplay) }

/-- What one fired pin asks for. -/
def demand : Demand where
  storm := s.table.storms p (s.isLong long p) s.now
  digital := (s.digitalPortForPin p).isSome
  generic := s.table.state p = .enabled &&
    (!(s.digitalPortForPin p).isSome || s.table.storms p (s.isLong long p) s.now)

theorem receive_eq (d : Demand) :
    ∃ ts, s.receive long p d =
      ({ s.judged long p with trace := ts }, d.join (s.demand long p)) := by
  unfold receive
  cases hp : s.digitalPortForPin p with
  | none =>
    obtain ⟨ts, hjudge⟩ := s.judge_eq p false true d
    refine ⟨ts, hjudge.trans ?_⟩
    simp [judged, demand, isLong, keptFor, hp, Mask.record, Demand.join]
  | some port =>
    simp only
    generalize hl : long.contains p = isLong
    obtain ⟨ts, hjudge⟩ := judge_eq ((s.note (.digitalPulse port isLong)).keepPulse port isLong) p
      true isLong { d with digital := true }
    refine ⟨ts, hjudge.trans ?_⟩
    cases isLong <;>
      simp [judged, demand, Controller.isLong, keptFor, hp, hl, Mask.record, Demand.join, keepPulse,
        note, emit]

theorem judged_comm {p q : Pin} (h : p ≠ q) :
    (s.judged long p).judged long q = (s.judged long q).judged long p := by
  have htwice {p q : Pin} (h : p ≠ q) : (s.judged long p).judged long q =
      { s with
        table := (s.table.pulsed p (s.isLong long p) s.now).pulsed q (s.isLong long q) s.now
        longPorts := (s.longPorts.record (s.keptFor long p true)).record (s.keptFor long q true)
        shortPorts :=
          (s.shortPorts.record (s.keptFor long p false)).record (s.keptFor long q false)
        eventPins :=
          (s.eventPins.mark p
              (s.table.mark p (s.digitalPortForPin p).isSome (s.isLong long p) s.now)).mark q
            (s.table.mark q (s.digitalPortForPin q).isSome (s.isLong long q) s.now)
        warned := s.warned || (s.table.state p = .disabled && !s.caps.gmchDisplay) ||
          (s.table.state q = .disabled && !s.caps.gmchDisplay) } := by
    rw [← PinTable.mark_pulsed_of_ne h.symm, ← PinTable.state_pulsed_of_ne h.symm]
    rfl
  rw [htwice h, htwice h.symm, PinTable.pulsed_comm h, Mask.record_comm s.longPorts,
    Mask.record_comm s.shortPorts, Mask.mark_comm h, Bool.or_right_comm]

theorem demand_judged_of_ne {p q : Pin} (h : q ≠ p) :
    (s.judged long p).demand long q = s.demand long q := by
  have hstate := s.table.state_pulsed_of_ne h (s.isLong long p) s.now
  have hstorms := s.table.storms_pulsed_of_ne h (s.isLong long p) (s.isLong long q) s.now
  unfold demand
  rw [← hstate, ← hstorms]
  rfl

end Pins

section Series

/-- Fired pins were judged one after the other. -/
def judgedAll (s : Controller ρ) (long : PinSet) (ps : List Pin) : Controller ρ :=
  ps.foldl (fun s p => s.judged long p) s

def demands (s : Controller ρ) (long : PinSet) (ps : List Pin) : Demand :=
  .joined (ps.map (s.demand long))

/-- The work that was asked for is queued. The line of the workers and the trace are given. -/
def serving (s : Controller ρ) (d : Demand) (line : List Job) (ts : List Event) : Controller ρ :=
  { s with
    digital := if d.digital then s.digital.queue.1 else s.digital
    generic := if d.generic then s.generic.queue.1 else s.generic
    ready := line
    trace := ts }

def setups (s : Controller ρ) (storm : Bool) : List Call :=
  if storm && s.irqsEnabled then
    [.irqSetup (s.table.pinsIn .enabled) (s.table.pinsIn .disabled)
      (s.table.pinsIn .autoDisabled)]
  else []

variable {s : Controller ρ} {long : PinSet} {p : Pin} {ps : List Pin}

theorem judgedAll_cons (s : Controller ρ) (long : PinSet) (p : Pin) (ps : List Pin) :
    s.judgedAll long (p :: ps) = (s.judged long p).judgedAll long ps := rfl

theorem demands_judged (h : p ∉ ps) : (s.judged long p).demands long ps = s.demands long ps :=
  congrArg Demand.joined <| List.map_congr_left fun _ hq =>
    s.demand_judged_of_ne long (ne_of_mem_of_not_mem hq h)

theorem demands_cons (h : p ∉ ps) :
    s.demands long (p :: ps) = (s.demand long p).join ((s.judged long p).demands long ps) := by
  rw [demands_judged h]
  rfl

/-- Judging pins commutes with queueing. -/
theorem judgedAll_serving (s : Controller ρ) (long : PinSet) (ps : List Pin) (d : Demand)
    (line : List Job) (ts : List Event) :
    (s.serving d line ts).judgedAll long ps = (s.judgedAll long ps).serving d line ts := by
  induction ps generalizing s with
  | nil => rfl
  | cons p ps ih => exact ih (s.judged long p)

theorem serving_serving (s : Controller ρ) (d e : Demand) (line line' : List Job)
    (ts ts' : List Event) :
    (s.serving d line ts).serving e line' ts' = s.serving (d.join e) line' ts' := by
  unfold serving Demand.join
  cases d.digital <;> cases e.digital <;> cases d.generic <;> cases e.generic <;>
    simp [Work.queue_queue]

theorem receiveAll_eq (hn : ps.Nodup) (s : Controller ρ) (long : PinSet) (d : Demand) :
    ∃ line ts, s.receiveAll long d ps =
      ((s.judgedAll long ps).serving {} line ts, d.join (s.demands long ps)) := by
  induction ps generalizing s d with
  | nil => exact ⟨s.ready, s.trace, Prod.ext rfl d.join_none.symm⟩
  | cons p ps ih =>
    obtain ⟨hp, hps⟩ := List.nodup_cons.mp hn
    obtain ⟨ts, hp'⟩ := s.receive_eq long p d
    obtain ⟨line, ts', hrest⟩ := ih hps ((s.judged long p).serving {} s.ready ts)
      (d.join (s.demand long p))
    refine ⟨line, ts', ?_⟩
    rw [judgedAll_serving, serving_serving] at hrest
    rw [receiveAll, hp', demands_cons hp, ← Demand.join_assoc]
    exact hrest

theorem calls_receiveAll (s : Controller ρ) (long : PinSet) (d : Demand) (ps : List Pin) :
    (s.receiveAll long d ps).1.calls = s.calls := by
  induction ps generalizing s d with
  | nil => rfl
  | cons p ps ih => exact (ih _ _).trans (s.calls_receive long p d)

theorem answer_serving (s : Controller ρ) (d : Demand) :
    ∃ line ts, s.answer d = s.serving d line ts := s.answer_eq d

theorem calls_answer (s : Controller ρ) (d : Demand) :
    (s.answer d).calls = s.setups d.storm ++ s.calls := by
  have hsetup : (if d.storm then s.setupIrqs else s).calls = s.setups d.storm ++ s.calls := by
    unfold setupIrqs setups
    cases d.storm with
    | true =>
      simp only [Bool.true_and, if_true]
      split <;> rfl
    | false => rfl
  unfold answer
  simp only
  split <;> split <;> simp only [outward_calls.queueDigital, outward_calls.queueGeneric, hsetup]

/-- An interrupt judges its pins, queues work, and tells the hardware once if there was a storm. -/
theorem interrupt_eq (s : Controller ρ) (i : Interrupt) :
    (∃ line ts, s.interrupt i =
      (s.judgedAll i.long i.fired.toList).serving (s.demands i.long i.fired.toList) line ts) ∧
    (s.interrupt i).calls =
      (s.judgedAll i.long i.fired.toList).setups (s.demands i.long i.fired.toList).storm ++
        s.calls := by
  obtain ⟨line, ts, hreceived⟩ := receiveAll_eq (Mask.nodup_toList i.fired) s i.long {}
  have hcalls := s.calls_receiveAll i.long {} i.fired.toList
  obtain ⟨line', ts', hanswered⟩ := answer_serving
    ((s.judgedAll i.long i.fired.toList).serving {} line ts) (s.demands i.long i.fired.toList)
  rw [serving_serving] at hanswered
  have hnone (d : Demand) : ({} : Demand).join d = d := rfl
  rw [hnone] at hreceived hanswered
  unfold interrupt
  simp only [hreceived]
  constructor
  · exact ⟨line', ts', hanswered⟩
  · rw [calls_answer]
    rw [hreceived] at hcalls
    rw [hcalls]
    rfl

theorem demands_singleton (s : Controller ρ) (long : PinSet) (p : Pin) :
    s.demands long [p] = s.demand long p :=
  Demand.join_none _

theorem judgedAll_singleton (s : Controller ρ) (long : PinSet) (p : Pin) :
    s.judgedAll long [p] = s.judged long p := rfl

/-- Pins that come in an interrupt each are judged one after the other, and work is queued once. -/
theorem foldl_interrupt_eq (hn : ps.Nodup) (s : Controller ρ) (long : PinSet) :
    ∃ line ts, (ps.map fun p => ⟨.ofList [p], long⟩).foldl interrupt s =
      (s.judgedAll long ps).serving (s.demands long ps) line ts := by
  induction ps generalizing s with
  | nil => exact ⟨s.ready, s.trace, rfl⟩
  | cons p ps ih =>
    obtain ⟨hp, hps⟩ := List.nodup_cons.mp hn
    obtain ⟨⟨line, ts, hfirst⟩, -⟩ := s.interrupt_eq ⟨.ofList [p], long⟩
    simp only [Mask.toList_singleton, demands_singleton] at hfirst
    obtain ⟨line', ts', hrest⟩ := ih hps (s.interrupt ⟨.ofList [p], long⟩)
    refine ⟨line', ts', ?_⟩
    rw [List.map_cons, List.foldl_cons, hrest, hfirst, judgedAll_serving, serving_serving,
      demands_cons hp]
    rfl

theorem state_judgedAll_of_calm (hn : ps.Nodup) (h : (s.demands long ps).storm = false) :
    (s.judgedAll long ps).table.state = s.table.state := by
  induction ps generalizing s with
  | nil => rfl
  | cons p ps ih =>
    obtain ⟨hp, hps⟩ := List.nodup_cons.mp hn
    rw [demands_cons hp] at h
    obtain ⟨hfirst, hrest⟩ := Bool.or_eq_false_iff.mp h
    rw [judgedAll_cons, ih hps hrest]
    exact PinTable.state_pulsed_of_calm hfirst

theorem irqsEnabled_judgedAll (s : Controller ρ) (long : PinSet) (ps : List Pin) :
    (s.judgedAll long ps).irqsEnabled = s.irqsEnabled := by
  induction ps generalizing s with
  | nil => rfl
  | cons p ps ih => exact ih (s.judged long p)

theorem setups_congr {s t : Controller ρ} (hstate : s.table.state = t.table.state)
    (hirqs : s.irqsEnabled = t.irqsEnabled) (storm : Bool) : s.setups storm = t.setups storm := by
  simp only [setups, PinTable.pinsIn, hstate, hirqs]

theorem setups_none (s : Controller ρ) : s.setups false = [] := rfl

/-- The calls of pins that come in an interrupt each. The last one shows what is enabled in the
end. -/
theorem calls_foldl_interrupt (hn : ps.Nodup) (s : Controller ρ) (long : PinSet) :
    ∃ cs, ((ps.map fun p => ⟨.ofList [p], long⟩).foldl interrupt s).calls = cs ++ s.calls ∧
      (∀ c ∈ cs, ∃ e d a, c = .irqSetup e d a) ∧
        cs.head? = ((s.judgedAll long ps).setups (s.demands long ps).storm).head? := by
  induction ps generalizing s with
  | nil => exact ⟨[], rfl, fun c hc => absurd hc List.not_mem_nil, rfl⟩
  | cons p ps ih =>
    obtain ⟨hp, hps⟩ := List.nodup_cons.mp hn
    obtain ⟨⟨line, ts, hfirst⟩, hcall⟩ := s.interrupt_eq ⟨.ofList [p], long⟩
    simp only [Mask.toList_singleton, judgedAll_singleton, demands_singleton] at hfirst hcall
    obtain ⟨cs, hcalls, hsetups, hlast⟩ := ih hps (s.interrupt ⟨.ofList [p], long⟩)
    rw [hcall, ← List.append_assoc] at hcalls
    refine ⟨_, hcalls, ?_, ?_⟩
    · intro c hc
      rcases List.mem_append.mp hc with hc | hc
      · exact hsetups c hc
      · unfold setups at hc
        split at hc
        · exact ⟨_, _, _, List.mem_singleton.mp hc⟩
        · cases hc
    · rw [hfirst, judgedAll_serving] at hlast
      have hlast : cs.head? = (((s.judged long p).judgedAll long ps).setups
          ((s.judged long p).demands long ps).storm).head? := hlast
      have hirqs := (s.judged long p).irqsEnabled_judgedAll long ps
      rw [demands_cons hp, judgedAll_cons, List.head?_append, hlast]
      show _ = (((s.judged long p).judgedAll long ps).setups
        ((s.demand long p).storm || ((s.judged long p).demands long ps).storm)).head?
      cases hrest : ((s.judged long p).demands long ps).storm with
      | true =>
        -- a later pin storms too, and its call is the last one
        rw [Bool.or_true]
        unfold setups
        rw [hirqs]
        cases (s.judged long p).irqsEnabled <;> simp
      | false =>
        -- no later pin changes its state, so the call for the first pin shows the final ones
        have hsame := setups_congr (state_judgedAll_of_calm hps hrest) hirqs
        rw [Bool.or_false, setups_none, hsame]
        rfl

theorem judgedAll_perm {qs : List Pin} (h : ps.Perm qs) (s : Controller ρ) (long : PinSet) :
    s.judgedAll long ps = s.judgedAll long qs := by
  refine h.foldl_eq' (fun p _ q _ t => ?_) s
  by_cases hpq : p = q
  · rw [hpq]
  · exact t.judged_comm long hpq

end Series

/-- Whether the fired pins come in one interrupt or in one interrupt each, and in which order, is
seen only in the number of calls that program the enables, in the messages, and in the order in
which the workers line up. -/
theorem interrupt_pin_by_pin (s : Controller ρ) (fired long : PinSet) (ps : List Pin)
    (hps : ps.Perm fired.toList) :
    let one := s.interrupt ⟨fired, long⟩
    let many := (ps.map fun p => ⟨.ofList [p], long⟩).foldl interrupt s
    (∃ line ts, many = { one with ready := line, trace := ts }) ∧
      ∃ once often, one.calls = once ++ s.calls ∧ many.calls = often ++ s.calls ∧
        once.length ≤ 1 ∧ often.head? = once.head? ∧
          ∀ c ∈ often, ∃ enabled disabled autoDisabled,
            c = .irqSetup enabled disabled autoDisabled := by
  intro one many
  have hn : ps.Nodup := hps.nodup_iff.mpr (Mask.nodup_toList fired)
  have hjudged := judgedAll_perm hps s long
  have hdemands : s.demands long ps = s.demands long fired.toList :=
    Demand.joined_perm (hps.map _)
  obtain ⟨⟨line, ts, hone⟩, hcall⟩ := s.interrupt_eq ⟨fired, long⟩
  obtain ⟨line', ts', hmany⟩ := foldl_interrupt_eq hn s long
  obtain ⟨often, hcalls, hsetups, hlast⟩ := calls_foldl_interrupt hn s long
  constructor
  · refine ⟨line', ts', ?_⟩
    rw [hjudged, hdemands] at hmany
    rw [show many = _ from hmany, show one = _ from hone]
    rfl
  · refine ⟨_, often, hcall, hcalls, ?_, ?_, hsetups⟩
    · unfold setups
      split <;> simp
    · rw [hlast, hjudged, hdemands]

/-- Two pins of one port and a pin without a port fire, and two of the three storm. -/
theorem interrupt_pin_by_pin_on_shared_port :
    let s : Controller Script := ofSettings
      { platform := { alternateWiring := true }, storm := { threshold := 5 } } []
      fun port => if port = .F then some ⟨[], fun _ => true⟩ else none
    let fired : PinSet := .ofList [.tv, .portE, .portF]
    let long : PinSet := .ofList [.portE]
    let one := s.interrupt ⟨fired, long⟩
    let many := [.portF, .portE, .tv].foldl (fun s p => s.interrupt ⟨.ofList [p], long⟩) s
    (∃ line ts, many = { one with ready := line, trace := ts }) ∧
      one.calls.length = 1 ∧ many.calls.length = 2 ∧ many.calls.head? = one.calls.head? := by
  intro s fired long one many
  have hperm : [Pin.portF, .portE, .tv].Perm fired.toList := by decide
  obtain ⟨hstate, once, often, hone, hmany, -, hlast, -⟩ :=
    interrupt_pin_by_pin s fired long [.portF, .portE, .tv] hperm
  have hnone : s.calls = [] := rfl
  rw [hnone, List.append_nil] at hone hmany
  refine ⟨hstate, by decide +kernel, by decide +kernel, ?_⟩
  rw [show many.calls = often from hmany, show one.calls = once from hone, hlast]

end Controller

end HotplugDetect
