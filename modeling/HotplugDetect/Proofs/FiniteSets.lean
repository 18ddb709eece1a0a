import Mathlib.Data.Finset.Card
import Mathlib.Logic.Function.Basic
import HotplugDetect.Proofs.Membership

/-! # Masks as finite sets

Masks are kept in numbered places and worked on by a row of operations. The same operations on plain
sets give the sets that the masks stand for: no mask ever has a bit that belongs to no member, and
each has the members, the order, the size and the equalities of its set.
-/

namespace HotplugDetect

/-- Enumerations whose members are listed in the order of their bits. -/
class OrderedIndexed (α : Type) [Indexed α] : Prop extends LawfulIndexed α where
  ordered_members : (Indexed.members (α := α)).Pairwise fun a b => Indexed.index a < Indexed.index b

instance : OrderedIndexed Pin where
  ordered_members := by decide

instance : OrderedIndexed Port where
  ordered_members := by decide

namespace Mask

variable {α : Type} [Indexed α]

/-- The mask has a bit for each member of the set, and no bits that stand for nothing. -/
structure Holds (m : Mask α) (s : Finset α) : Prop where

  known : ∀ i, m.has i = true → ∃ a : α, Indexed.index a = i

  contains_iff : ∀ a, m.contains a = true ↔ a ∈ s

def named (α : Type) [Indexed α] [DecidableEq α] (raw : UInt32) : Finset α :=
  (Indexed.members (α := α)).toFinset.filter fun a => raw.toNat.testBit (Indexed.index a) = true

/-- In every respect the mask is like the set. -/
structure ActsAs [DecidableEq α] (m : Mask α) (s : Finset α) : Prop extends m.Holds s where

  mem_toList_iff : ∀ a, a ∈ m.toList ↔ a ∈ s

  ordered_toList : m.toList.Pairwise fun a b => Indexed.index a < Indexed.index b

  size_eq : m.size = s.card

  isEmpty_eq : m.isEmpty = decide (s = ∅)

  ofList_toList : ofList m.toList = m

section Holds

variable [LawfulIndexed α] {m n : Mask α} {s t : Finset α}

theorem Holds.has_iff (h : m.Holds s) (i : ℕ) :
    m.has i = true ↔ ∃ a ∈ s, Indexed.index a = i := by
  constructor
  · intro hi
    obtain ⟨a, rfl⟩ := h.known i hi
    exact ⟨a, (h.contains_iff a).mp ((contains_eq_has m a).trans hi), rfl⟩
  · rintro ⟨a, ha, rfl⟩
    exact (contains_eq_has m a).symm.trans ((h.contains_iff a).mpr ha)

theorem Holds.unique (hm : m.Holds s) (hn : n.Holds s) : m = n := by
  apply ext_has
  intro i _
  rw [Bool.eq_iff_iff, hm.has_iff, hn.has_iff]

theorem Holds.eq_iff (hm : m.Holds s) (hn : n.Holds t) : m = n ↔ s = t := by
  constructor
  · rintro rfl
    ext a
    rw [← hm.contains_iff, hn.contains_iff]
  · rintro rfl
    exact hm.unique hn

theorem holds_empty : (∅ : Mask α).Holds ∅ := by
  constructor
  · intro i hi
    have hno : (∅ : Mask α).has i = false := BitVec.getLsbD_zero
    rw [hno] at hi
    cases hi
  · simp

theorem Holds.union [DecidableEq α] (hm : m.Holds s) (hn : n.Holds t) : (m ∪ n).Holds (s ∪ t) := by
  constructor
  · intro i hi
    rw [has_union, Bool.or_eq_true] at hi
    exact hi.elim (hm.known i) (hn.known i)
  · intro a
    rw [contains_union, Bool.or_eq_true, hm.contains_iff, hn.contains_iff, Finset.mem_union]

theorem Holds.insert [DecidableEq α] (h : m.Holds s) (a : α) :
    (m.insert a).Holds (Insert.insert a s) := by
  constructor
  · intro i hi
    rw [has_insert, Bool.or_eq_true, decide_eq_true_eq] at hi
    exact hi.elim (h.known i) fun hi => ⟨a, hi⟩
  · intro b
    rw [contains_insert, Bool.or_eq_true, h.contains_iff, decide_eq_true_eq, Finset.mem_insert,
      or_comm, eq_comm]

theorem Holds.erase [DecidableEq α] (h : m.Holds s) (a : α) : (m.erase a).Holds (s.erase a) := by
  constructor
  · intro i hi
    -- Bits are only cleared, so this one was there before.
    apply h.known i
    rw [has, Mask.erase, UInt32.toBitVec_and, BitVec.getLsbD_and, Bool.and_eq_true] at hi
    exact hi.1
  · intro b
    rw [contains_erase, Bool.and_eq_true, h.contains_iff, decide_eq_true_eq, Finset.mem_erase,
      and_comm, ne_comm]

theorem Holds.foldl_insert [DecidableEq α] (h : m.Holds s) (as : List α) :
    (as.foldl Mask.insert m).Holds (s ∪ as.toFinset) := by
  induction as generalizing m s with
  | nil => simpa using h
  | cons a as ih => simpa using ih (h.insert a)

theorem holds_ofList [DecidableEq α] (as : List α) : (ofList as).Holds as.toFinset := by
  have h := holds_empty.foldl_insert as
  rwa [Finset.empty_union] at h

theorem holds_ofBits [DecidableEq α] (raw : UInt32) : (ofBits raw).Holds (named α raw) := by
  constructor
  · intro i hi
    rw [has, ofBits, UInt32.toBitVec_and, BitVec.getLsbD_and, Bool.and_eq_true] at hi
    -- The bit is one of the full mask, which was collected from members.
    exact (holds_ofList Indexed.members).known i hi.2
  · intro a
    rw [contains_ofBits, named, Finset.mem_filter, List.mem_toFinset]
    exact (and_iff_right (LawfulIndexed.mem_members a)).symm

theorem Holds.toFinset_toList [DecidableEq α] (h : m.Holds s) : m.toList.toFinset = s := by
  ext a
  rw [List.mem_toFinset, mem_toList, h.contains_iff]

theorem Holds.perm_positions (h : m.Holds s) :
    ((List.range 32).filter (m.bits.toNat.testBit ·)).Perm (m.toList.map Indexed.index) := by
  apply (List.perm_ext_iff_of_nodup (List.nodup_range.filter _) _).mpr
  · intro i
    have hbit : m.bits.toNat.testBit i = m.has i := BitVec.testBit_toNat _
    rw [List.mem_filter, hbit, h.has_iff, List.mem_map, List.mem_range]
    constructor
    · rintro ⟨-, a, ha, hi⟩
      exact ⟨a, (mem_toList m a).mpr ((h.contains_iff a).mpr ha), hi⟩
    · rintro ⟨a, ha, rfl⟩
      exact ⟨LawfulIndexed.index_lt a, a, (h.contains_iff a).mp ((mem_toList m a).mp ha), rfl⟩
  · exact m.nodup_toList.map fun a b hab => LawfulIndexed.index_inj hab

theorem Holds.size_eq [DecidableEq α] (h : m.Holds s) : m.size = s.card := by
  calc m.size = ((List.range 32).filter (m.bits.toNat.testBit ·)).length := by
        rw [size, popCount, List.countP_eq_length_filter]
    _ = m.toList.length := by rw [h.perm_positions.length_eq, List.length_map]
    _ = s.card := by rw [← h.toFinset_toList, List.toFinset_card_of_nodup m.nodup_toList]

theorem Holds.isEmpty_eq [DecidableEq α] (h : m.Holds s) : m.isEmpty = decide (s = ∅) := by
  rw [Bool.eq_iff_iff, decide_eq_true_eq, ← h.eq_iff holds_empty]
  constructor
  · exact eq_empty_of_isEmpty
  · rintro rfl
    rfl

theorem Holds.ofList_toList [DecidableEq α] (h : m.Holds s) : ofList m.toList = m := by
  have hcollected := holds_ofList m.toList
  rw [h.toFinset_toList] at hcollected
  exact hcollected.unique h

end Holds

theorem Holds.actsAs [OrderedIndexed α] [DecidableEq α] {m : Mask α} {s : Finset α}
    (h : m.Holds s) : m.ActsAs s where
  toHolds := h
  mem_toList_iff a := (mem_toList m a).trans (h.contains_iff a)
  ordered_toList := OrderedIndexed.ordered_members.filter _
  size_eq := h.size_eq
  isEmpty_eq := h.isEmpty_eq
  ofList_toList := h.ofList_toList

theorem bits_disjoint (raw : UInt32) : (ofBits raw : Mask α).bits &&& unknownBits α raw = 0 := by
  apply UInt32.toBitVec_inj.mp
  ext i
  cases hbit : (full : Mask α).bits.toBitVec[i] <;> simp [ofBits, unknownBits, hbit]

theorem bits_union (raw : UInt32) : (ofBits raw : Mask α).bits ||| unknownBits α raw = raw := by
  apply UInt32.toBitVec_inj.mp
  ext i
  cases hbit : raw.toBitVec[i] <;> simp [ofBits, unknownBits, hbit]

end Mask

/-- What is done with masks in numbered places. A union may go to the place of one of its operands,
and a mask may be taken to its own place. -/
inductive MaskOperation (α : Type)
  | truncate (place : ℕ) (raw : UInt32)
  | collect (place : ℕ) (as : List α)
  | insert (place : ℕ) (a : α)
  | erase (place : ℕ) (a : α)
  | union (place left right : ℕ)
  | take (place source : ℕ)

namespace MaskOperation

open Function (update)

variable {α : Type} [Indexed α] {masks : ℕ → Mask α} {sets : ℕ → Finset α}

def onMasks (masks : ℕ → Mask α) : MaskOperation α → ℕ → Mask α
  | truncate place raw => update masks place (.ofBits raw)
  | collect place as => update masks place (.ofList as)
  | insert place a => update masks place ((masks place).insert a)
  | erase place a => update masks place ((masks place).erase a)
  | union place left right => update masks place (masks left ∪ masks right)
  | take place source =>
    update (update masks source (masks source).take.2) place (masks source).take.1

def onSets [DecidableEq α] (sets : ℕ → Finset α) : MaskOperation α → ℕ → Finset α
  | truncate place raw => update sets place (Mask.named α raw)
  | collect place as => update sets place as.toFinset
  | insert place a => update sets place (Insert.insert a (sets place))
  | erase place a => update sets place ((sets place).erase a)
  | union place left right => update sets place (sets left ∪ sets right)
  | take place source => update (update sets source ∅) place (sets source)

theorem holds_update {m : Mask α} {s : Finset α} (h : ∀ r, (masks r).Holds (sets r))
    (hplace : m.Holds s) (place r : ℕ) :
    (update masks place m r).Holds (update sets place s r) := by
  by_cases hr : r = place
  · subst hr
    rwa [Function.update_self, Function.update_self]
  · rw [Function.update_of_ne hr, Function.update_of_ne hr]
    exact h r

variable [DecidableEq α]

theorem holds_onMasks [LawfulIndexed α] (op : MaskOperation α)
    (h : ∀ r, (masks r).Holds (sets r)) : ∀ r, (op.onMasks masks r).Holds (op.onSets sets r) := by
  intro r
  cases op with
  | truncate place raw => exact holds_update h (Mask.holds_ofBits raw) place r
  | collect place as => exact holds_update h (Mask.holds_ofList as) place r
  | insert place a => exact holds_update h ((h place).insert a) place r
  | erase place a => exact holds_update h ((h place).erase a) place r
  | union place left right => exact holds_update h ((h left).union (h right)) place r
  | take place source =>
    -- The source is emptied first, so that it keeps the old mask if it is the place as well.
    exact holds_update (holds_update h Mask.holds_empty source) (h source) place r

theorem holds_foldl [LawfulIndexed α] (ops : List (MaskOperation α))
    (h : ∀ r, (masks r).Holds (sets r)) :
    ∀ r, (ops.foldl onMasks masks r).Holds (ops.foldl onSets sets r) := by
  induction ops generalizing masks sets with
  | nil => exact h
  | cons op ops ih => exact ih (op.holds_onMasks h)

/-- Masks that started as register values act as the sets that the same operations make of the
members which these values named. Masks are equal if and only if their sets are. Taking a mask gives
what it was and leaves the empty set. Every register value falls into the bits of a mask and unknown
bits. -/
theorem masks_act_as_sets [OrderedIndexed α] (start : ℕ → UInt32) (ops : List (MaskOperation α)) :
    let masks := ops.foldl onMasks fun r => .ofBits (start r)
    let sets := ops.foldl onSets fun r => Mask.named α (start r)
    (∀ r, (masks r).ActsAs (sets r)) ∧
      (∀ r r', (masks r == masks r') = decide (sets r = sets r')) ∧
      (∀ r, (masks r).take.1.ActsAs (sets r) ∧ (masks r).take.2.ActsAs ∅) ∧
      ∀ raw, (Mask.ofBits raw : Mask α).bits &&& Mask.unknownBits α raw = 0 ∧
        (Mask.ofBits raw : Mask α).bits ||| Mask.unknownBits α raw = raw := by
  intro masks sets
  have hholds : ∀ r, (masks r).Holds (sets r) :=
    holds_foldl ops fun r => Mask.holds_ofBits (start r)
  refine ⟨fun r => (hholds r).actsAs, ?_, ?_, ?_⟩
  · intro r r'
    rw [beq_eq_decide, decide_eq_decide]
    exact (hholds r).eq_iff (hholds r')
  · intro r
    exact ⟨(hholds r).actsAs, Mask.holds_empty.actsAs⟩
  · intro raw
    exact ⟨Mask.bits_disjoint raw, Mask.bits_union raw⟩

/-- Registers with an unknown bit: one is changed, united with a collection that repeats a member
and taken to another place, one is taken to its own. -/
theorem masks_act_as_sets_of_pins_and_ports :
    let pins := [insert 0 .tv, erase 0 .crt, collect 1 [.portC, .sdvoB, .portC], union 0 0 1,
      take 2 0].foldl onMasks fun _ => (Mask.ofBits 0x80000022 : PinSet)
    let ports := [erase 1 .F, insert 1 .A, union 1 1 0, take 1 1].foldl onMasks
      fun _ => (Mask.ofBits 0x80000022 : PortSet)
    (pins 2).ActsAs {.tv, .portB, .sdvoB, .portC} ∧ (pins 0).ActsAs ∅ ∧ (pins 2).bits = 0x65 ∧
      (pins 1 == pins 2) = false ∧
      (ports 1).ActsAs {.A, .B, .F} ∧ (ports 0).ActsAs {.B, .F} ∧ (ports 1).bits = 0x23 := by
  intro pins ports
  obtain ⟨hpins, hequal, -, -⟩ := masks_act_as_sets (α := Pin) (fun _ => 0x80000022)
    [insert 0 .tv, erase 0 .crt, collect 1 [.portC, .sdvoB, .portC], union 0 0 1, take 2 0]
  obtain ⟨hports, -, -, -⟩ := masks_act_as_sets (α := Port) (fun _ => 0x80000022)
    [erase 1 .F, insert 1 .A, union 1 1 0, take 1 1]
  exact ⟨hpins 2, hpins 0, by decide, (hequal 1 2).trans (by decide), hports 1, hports 0, by decide⟩

end MaskOperation

end HotplugDetect
