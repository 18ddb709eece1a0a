import Mathlib.Data.List.Nodup
import Mathlib.Data.Nat.Bitwise
import HotplugDetect.PinTable

/-! # Membership in masks

Over an enumeration whose members have distinct positions below 32, a mask is the set of the
members whose bits it has. The listed members of a mask are exactly its members, each once.
-/

namespace HotplugDetect

/-- Enumerations that fit into a register. -/
class LawfulIndexed (α : Type) [Indexed α] : Prop where
  index_lt : ∀ a : α, Indexed.index a < 32
  index_inj : ∀ {a b : α}, Indexed.index a = Indexed.index b → a = b
  mem_members : ∀ a : α, a ∈ Indexed.members (α := α)
  nodup_members : (Indexed.members (α := α)).Nodup

instance : LawfulIndexed Pin where
  index_lt p := by have := p.index_lt; exact Nat.lt_trans this (by decide)
  index_inj h := Pin.index_inj.mp h
  mem_members := Pin.mem_all
  nodup_members := by decide

instance : LawfulIndexed Port where
  index_lt p := by cases p <;> decide
  index_inj {a b} := by cases a <;> cases b <;> decide
  mem_members := Port.mem_all
  nodup_members := by decide

namespace Mask

variable {α : Type} [Indexed α] [LawfulIndexed α]

theorem toNat_bit (a : α) : (bit a).toNat = 2 ^ Indexed.index a := by
  have h : Indexed.index a < 32 := LawfulIndexed.index_lt a
  have hpow : 2 ^ Indexed.index a < 2 ^ 32 := Nat.pow_lt_pow_right (by decide) h
  have hmod : Indexed.index a % 4294967296 = Indexed.index a := Nat.mod_eq_of_lt (by omega)
  simpa [bit, Nat.mod_eq_of_lt h, Nat.shiftLeft_eq, hmod] using hpow

def has (m : Mask α) (i : Nat) : Bool := m.bits.toBitVec.getLsbD i

omit [Indexed α] [LawfulIndexed α] in
theorem ext_has {m n : Mask α} (h : ∀ i < 32, m.has i = n.has i) : m = n :=
  Mask.ext (UInt32.toBitVec_inj.mp (BitVec.eq_of_getLsbD_eq h))

theorem has_bit (a : α) (i : Nat) : (⟨bit a⟩ : Mask α).has i = decide (Indexed.index a = i) := by
  rw [has, ← BitVec.testBit_toNat, UInt32.toNat_toBitVec, toNat_bit, Nat.testBit_two_pow]

omit [Indexed α] [LawfulIndexed α] in
theorem has_empty (i : Nat) : (∅ : Mask α).has i = false :=
  BitVec.getLsbD_zero

theorem has_insert (m : Mask α) (a : α) (i : Nat) :
    (m.insert a).has i = (m.has i || decide (Indexed.index a = i)) := by
  rw [← has_bit, has, insert, UInt32.toBitVec_or, BitVec.getLsbD_or]
  rfl

theorem has_erase (m : Mask α) (a : α) {i : Nat} (hi : i < 32) :
    (m.erase a).has i = (m.has i && !decide (Indexed.index a = i)) := by
  rw [← has_bit, has, erase, UInt32.toBitVec_and, UInt32.toBitVec_not, BitVec.getLsbD_and,
    BitVec.getLsbD_not, decide_eq_true hi, Bool.true_and]
  rfl

omit [Indexed α] [LawfulIndexed α] in
theorem has_union (m n : Mask α) (i : Nat) : (m ∪ n).has i = (m.has i || n.has i) := by
  have hbits : (m ∪ n).bits.toBitVec = m.bits.toBitVec ||| n.bits.toBitVec := UInt32.toBitVec_or _ _
  rw [has, hbits, BitVec.getLsbD_or]
  rfl

theorem contains_eq_testBit (m : Mask α) (a : α) :
    m.contains a = m.bits.toNat.testBit (Indexed.index a) := by
  have h : (m.bits &&& bit a).toNat = (m.bits.toNat.testBit (Indexed.index a)).toNat *
      2 ^ Indexed.index a := by
    rw [UInt32.toNat_and, toNat_bit, Nat.and_two_pow]
  have hz : (m.bits &&& bit a) = 0 ↔ (m.bits &&& bit a).toNat = 0 := UInt32.toNat_inj.symm
  rw [contains, Bool.eq_iff_iff, bne_iff_ne, Ne, hz, h]
  cases m.bits.toNat.testBit (Indexed.index a) <;> simp

theorem contains_eq_has (m : Mask α) (a : α) : m.contains a = m.has (Indexed.index a) :=
  (contains_eq_testBit m a).trans (BitVec.testBit_toNat _)

@[simp] theorem contains_empty (a : α) : (∅ : Mask α).contains a = false := by
  rw [contains_eq_testBit]
  exact Nat.zero_testBit _

theorem contains_union (m n : Mask α) (a : α) :
    (m ∪ n).contains a = (m.contains a || n.contains a) := by
  rw [contains_eq_has, has_union, ← contains_eq_has, ← contains_eq_has]

omit [Indexed α] [LawfulIndexed α] in
theorem eq_empty_of_isEmpty {m : Mask α} (h : m.isEmpty = true) : m = ∅ :=
  Mask.ext (beq_iff_eq.mp h)

omit [Indexed α] [LawfulIndexed α] in
theorem union_of_isEmpty {m n : Mask α} (h : n.isEmpty = true) : m ∪ n = m := by
  rw [eq_empty_of_isEmpty h]
  refine Mask.ext ?_
  show m.bits ||| 0 = m.bits
  exact UInt32.or_zero

variable [DecidableEq α]

omit [DecidableEq α] in
theorem index_eq_iff {a b : α} : Indexed.index a = Indexed.index b ↔ a = b :=
  ⟨LawfulIndexed.index_inj, fun h => h ▸ rfl⟩

theorem contains_insert (m : Mask α) (a b : α) :
    (m.insert a).contains b = (m.contains b || decide (a = b)) := by
  rw [contains_eq_has, has_insert, ← contains_eq_has, decide_eq_decide.mpr index_eq_iff]

theorem contains_erase (m : Mask α) (a b : α) :
    (m.erase a).contains b = (m.contains b && decide (a ≠ b)) := by
  rw [contains_eq_has, has_erase m a (LawfulIndexed.index_lt b), ← contains_eq_has,
    decide_eq_decide.mpr index_eq_iff, decide_not]

theorem contains_foldl_insert (as : List α) (m : Mask α) (b : α) :
    (as.foldl insert m).contains b = (m.contains b || decide (b ∈ as)) := by
  induction as generalizing m with
  | nil => simp
  | cons a as ih =>
    rw [List.foldl_cons, ih, contains_insert]
    simp only [List.mem_cons, Bool.decide_or, Bool.or_assoc, eq_comm]

@[simp] theorem contains_ofList (as : List α) (b : α) :
    (ofList as).contains b = decide (b ∈ as) := by
  have h := contains_foldl_insert as ∅ b
  rwa [contains_empty, Bool.false_or] at h

theorem contains_ofBits (raw : UInt32) (a : α) :
    (ofBits raw : Mask α).contains a = raw.toNat.testBit (Indexed.index a) := by
  have hfull : (full : Mask α).contains a = true := by
    simp [full, LawfulIndexed.mem_members]
  rw [contains_eq_testBit] at hfull ⊢
  rw [ofBits, UInt32.toNat_and, Nat.testBit_and, hfull, Bool.and_true]

omit [DecidableEq α] in
@[simp] theorem mem_toList (m : Mask α) (a : α) : a ∈ m.toList ↔ m.contains a = true := by
  simp [toList, LawfulIndexed.mem_members]

omit [DecidableEq α] in
theorem nodup_toList (m : Mask α) : m.toList.Nodup :=
  LawfulIndexed.nodup_members.filter _

end Mask

theorem PinTable.contains_pinsIn (t : PinTable) (state : PinState) (p : Pin) :
    (t.pinsIn state).contains p = decide (t.state p = state) := by
  simp [pinsIn, Pin.mem_all]

end HotplugDetect
