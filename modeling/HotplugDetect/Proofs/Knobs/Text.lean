import Mathlib.Data.List.TakeWhile
import Mathlib.Data.Nat.Digits.Lemmas
import HotplugDetect.Knob

/-! # Which texts set the storm threshold

A threshold is read off the text between the white space at its ends. The numeral may have any
number of leading zeros, so no bound on its length tells whether it fits a register of 32 bits.
-/

namespace HotplugDetect

namespace Text

/-- `core` is the text without the white space at its two ends. -/
structure Strips (text core : List Char) : Prop where

  around : ∃ left right, (∀ c ∈ left, isBlank c = true) ∧ (∀ c ∈ right, isBlank c = true) ∧
    text = left ++ core ++ right

  head : ∀ c ∈ core.head?, isBlank c = false

  last : ∀ c ∈ core.getLast?, isBlank c = false

theorem dropWhile_eq_self {p : Char → Bool} {cs : List Char} (h : ∀ c ∈ cs.head?, p c = false) :
    cs.dropWhile p = cs := by
  cases cs with
  | nil => rfl
  | cons c cs => exact List.dropWhile_cons_of_neg (by simp [h c rfl])

theorem head?_dropWhile {p : Char → Bool} (cs : List Char) :
    ∀ c ∈ (cs.dropWhile p).head?, p c = false := by
  intro c hc
  have hne : cs.dropWhile p ≠ [] := List.ne_nil_of_mem (List.mem_of_mem_head? hc)
  have hhead := List.head_dropWhile_not p hne
  rwa [List.head_of_mem_head? hc] at hhead

theorem strips_trim (cs : List Char) : Strips cs (trim cs) := by
  have hsplit : cs.dropWhile isBlank = trim cs ++
      ((cs.dropWhile isBlank).reverse.takeWhile isBlank).reverse := by
    rw [trim, ← List.reverse_append, List.takeWhile_append_dropWhile, List.reverse_reverse]
  constructor
  · refine ⟨cs.takeWhile isBlank, ((cs.dropWhile isBlank).reverse.takeWhile isBlank).reverse,
      fun c hc => List.mem_takeWhile_imp hc,
      fun c hc => List.mem_takeWhile_imp (List.mem_reverse.mp hc), ?_⟩
    rw [List.append_assoc, ← hsplit, List.takeWhile_append_dropWhile]
  · -- The head of what is left of a nonempty core is the head after the leading white space.
    intro c hc
    refine head?_dropWhile cs c ?_
    rw [hsplit, List.head?_append, Option.mem_def.mp hc]
    rfl
  · intro c hc
    refine head?_dropWhile (cs.dropWhile isBlank).reverse c ?_
    rwa [trim, List.getLast?_reverse] at hc

/-- There is only one way to strip a text. -/
theorem Strips.eq_trim {text core : List Char} (h : Strips text core) : core = trim text := by
  obtain ⟨left, right, hleft, hright, rfl⟩ := h.around
  rcases eq_or_ne core [] with rfl | hne
  · have hblank : ∀ c ∈ left ++ right, isBlank c = true := by
      intro c hc
      rcases List.mem_append.mp hc with hc | hc
      exacts [hleft c hc, hright c hc]
    rw [List.append_nil, trim, List.dropWhile_eq_nil_iff.mpr hblank]
    rfl
  · have hfront : (core ++ right).dropWhile isBlank = core ++ right := by
      refine dropWhile_eq_self fun c hc => h.head c ?_
      rwa [List.head?_append_of_ne_nil core hne] at hc
    have hback : core.reverse.dropWhile isBlank = core.reverse := by
      refine dropWhile_eq_self fun c hc => h.last c ?_
      rwa [List.head?_reverse] at hc
    rw [trim, List.append_assoc, List.dropWhile_append_of_pos hleft, hfront, List.reverse_append,
      List.dropWhile_append_of_pos (fun c hc => hright c (List.mem_reverse.mp hc)), hback,
      List.reverse_reverse]

end Text

namespace Knob

/-- A numeral for `n`: at most one plus sign, then one or more decimal digits. -/
def Spells (cs : List Char) (n : ℕ) : Prop :=
  ∃ sign digits, cs = sign ++ digits ∧ (sign = [] ∨ sign = ['+']) ∧ digits ≠ [] ∧
    (∀ c ∈ digits, '0' ≤ c ∧ c ≤ '9') ∧
    Nat.ofDigits 10 (digits.reverse.map fun c => c.toNat - '0'.toNat) = n

theorem isDigit_iff (c : Char) : c.isDigit = true ↔ '0' ≤ c ∧ c ≤ '9' := by
  simp [Char.isDigit, Char.le_def]

theorem decimalValue_eq (digits : List Char) :
    decimalValue digits = Nat.ofDigits 10 (digits.reverse.map fun c => c.toNat - '0'.toNat) := by
  rw [Nat.ofDigits_eq_foldr, List.foldr_map, List.foldr_reverse, decimalValue]
  congr 1
  funext n c
  simp only [Nat.cast_id]
  ring

theorem dropPlus_digits {digits : List Char} (h : ∀ c ∈ digits, c.isDigit = true) :
    dropPlus digits = digits := by
  cases digits with
  | nil => rfl
  | cons c cs =>
    have hc : c ≠ '+' := by
      rintro rfl
      exact absurd (h '+' (by simp)) (by decide)
    rw [dropPlus]
    rintro _ ⟨rfl, -⟩
    exact hc rfl

theorem dropPlus_eq (cs : List Char) :
    ∃ sign, (sign = [] ∨ sign = ['+']) ∧ cs = sign ++ dropPlus cs := by
  unfold dropPlus
  split
  · exact ⟨['+'], .inr rfl, rfl⟩
  · exact ⟨[], .inl rfl, rfl⟩

theorem spells_iff (cs : List Char) (n : ℕ) :
    Spells cs n ↔ dropPlus cs ≠ [] ∧ (∀ c ∈ dropPlus cs, c.isDigit = true) ∧
      decimalValue (dropPlus cs) = n := by
  constructor
  · rintro ⟨sign, digits, rfl, hsign, hne, hdigits, hvalue⟩
    have hall : ∀ c ∈ digits, c.isDigit = true := fun c hc => (isDigit_iff c).mpr (hdigits c hc)
    have hdrop : dropPlus (sign ++ digits) = digits := by
      rcases hsign with rfl | rfl
      · exact dropPlus_digits hall
      · rfl
    rw [hdrop]
    exact ⟨hne, hall, (decimalValue_eq digits).trans hvalue⟩
  · rintro ⟨hne, hall, hvalue⟩
    obtain ⟨sign, hsign, hcs⟩ := dropPlus_eq cs
    exact ⟨sign, dropPlus cs, hcs, hsign, hne, fun c hc => (isDigit_iff c).mp (hall c hc),
      (decimalValue_eq _).symm.trans hvalue⟩

theorem Spells.unique {cs : List Char} {m n : ℕ} (hm : Spells cs m) (hn : Spells cs n) : m = n :=
  ((spells_iff cs m).mp hm).2.2.symm.trans ((spells_iff cs n).mp hn).2.2

theorem word32?_eq_some_iff (cs : List Char) (n : UInt32) :
    word32? cs = some n ↔ Spells cs n.toNat := by
  simp only [word32?, Option.ite_none_right_eq_some, Option.some.injEq, List.all_eq_true,
    spells_iff]
  constructor
  · rintro ⟨⟨hne, hall, hlt⟩, rfl⟩
    exact ⟨hne, hall, (UInt32.toNat_ofNat_of_lt' hlt).symm⟩
  · rintro ⟨hne, hall, hvalue⟩
    rw [hvalue]
    exact ⟨⟨hne, hall, n.toNat_lt⟩, UInt32.ofNat_toNat⟩

theorem word32?_eq_none_iff (cs : List Char) :
    word32? cs = none ↔ ∀ n ≤ 4294967295, ¬Spells cs n := by
  constructor
  · intro hnone n hn hspells
    have hword : (UInt32.ofNat n).toNat = n :=
      UInt32.toNat_ofNat_of_lt' (Nat.lt_of_le_of_lt hn (by decide))
    have hsome := (word32?_eq_some_iff cs (.ofNat n)).mpr (hword.symm ▸ hspells)
    rw [hnone] at hsome
    cases hsome
  · intro hno
    cases hword : word32? cs with
    | none => rfl
    | some n =>
      have hlt : n.toNat < 4294967296 := n.toNat_lt
      exact absurd ((word32?_eq_some_iff cs n).mp hword) (hno n.toNat (by omega))

/-! Read in a register of 32 bits, the numeral is refused at the first digit that does not fit. -/

def fits? (n : ℕ) : Option UInt32 :=
  if n < UInt32.size then some (UInt32.ofNat n) else none

/-- One more digit of the numeral. Both the product and the sum have to fit. -/
def shift (register : UInt32) (c : Char) : Option UInt32 :=
  if c.isDigit then do
    let tens ← fits? (register.toNat * 10)
    fits? (tens.toNat + (c.toNat - '0'.toNat))
  else none

def register? (cs : List Char) : Option UInt32 :=
  let digits := dropPlus cs
  if digits ≠ [] then digits.foldlM shift 0 else none

/-- The value of the numeral whose first digits make `n`. -/
def valueFrom (n : ℕ) (digits : List Char) : ℕ :=
  digits.foldl (fun n c => n * 10 + (c.toNat - '0'.toNat)) n

theorem le_valueFrom (digits : List Char) (n : ℕ) : n ≤ valueFrom n digits := by
  induction digits generalizing n with
  | nil => exact le_rfl
  | cons c cs ih =>
    calc n ≤ n * 10 + (c.toNat - '0'.toNat) := by omega
      _ ≤ valueFrom n (c :: cs) := ih _

theorem shift_eq (register : UInt32) (c : Char) :
    shift register c =
      if c.isDigit then fits? (register.toNat * 10 + (c.toNat - '0'.toNat)) else none := by
  unfold shift
  split
  · by_cases htens : register.toNat * 10 < UInt32.size
    · rw [fits?, if_pos htens, Option.bind_eq_bind, Option.bind_some,
        UInt32.toNat_ofNat_of_lt' htens]
    · rw [fits?, if_neg htens, fits?, if_neg (by omega)]
      rfl
  · rfl

theorem foldlM_shift (digits : List Char) (register : UInt32) :
    digits.foldlM shift register =
      if digits.all Char.isDigit ∧ valueFrom register.toNat digits < UInt32.size then
        some (UInt32.ofNat (valueFrom register.toNat digits))
      else none := by
  induction digits generalizing register with
  | nil =>
    have hlt : register.toNat < UInt32.size := register.toNat_lt
    simp [valueFrom, hlt]
  | cons c cs ih =>
    rw [List.foldlM_cons, shift_eq]
    by_cases hc : c.isDigit
    · have hgrows := le_valueFrom cs (register.toNat * 10 + (c.toNat - '0'.toNat))
      by_cases hfits : register.toNat * 10 + (c.toNat - '0'.toNat) < UInt32.size
      · rw [if_pos hc, fits?, if_pos hfits, Option.bind_eq_bind, Option.bind_some, ih,
          UInt32.toNat_ofNat_of_lt' hfits, List.all_cons, hc, Bool.true_and]
        rfl
      · rw [if_pos hc, fits?, if_neg hfits, if_neg]
        · rfl
        · rintro ⟨-, hlt⟩
          exact hfits (Nat.lt_of_le_of_lt hgrows hlt)
    · simp [hc]

theorem register?_eq (cs : List Char) : register? cs = word32? cs := by
  unfold register? word32?
  by_cases hne : dropPlus cs = []
  · simp [hne]
  · simp only [ne_eq, hne, not_false_eq_true, if_true, true_and, foldlM_shift, valueFrom,
      decimalValue, UInt32.toNat_zero]

theorem spells_toDigits (n : ℕ) : Spells (Nat.toDigits 10 n) n := by
  have hall : ∀ c ∈ Nat.toDigits 10 n, c.isDigit = true :=
    fun c hc => Nat.isDigit_of_mem_toDigits (by decide) (by decide) hc
  refine (spells_iff _ n).mpr ?_
  rw [dropPlus_digits hall]
  refine ⟨Nat.toDigits_ne_nil, hall, ?_⟩
  have hvalue := Nat.ofDigitChars_toDigits (b := 10) (n := n) (by decide) (by decide)
  rw [decimalValue]
  simpa only [Nat.ofDigitChars, Nat.mul_comm 10] using hvalue

theorem toDigits_not_blank {n : ℕ} {c : Char} (h : c ∈ Nat.toDigits 10 n) :
    Text.isBlank c = false := by
  have hdigit := Nat.isDigit_of_mem_toDigits (by decide) (by decide) h
  rw [Char.isDigit_iff_toNat] at hdigit
  have hlow : 48 ≤ c.toNat := hdigit.1
  have hhigh : c.toNat ≤ 57 := hdigit.2
  simp only [Text.isBlank, Bool.or_eq_false_iff, Bool.and_eq_false_iff, decide_eq_false_iff_not,
    beq_eq_false_iff_ne]
  omega

theorem Spells.not_reset {cs : List Char} {n : ℕ} (h : Spells cs n) : cs ≠ resetWord := by
  rintro rfl
  exact absurd (((spells_iff _ n).mp h).2.1 'r' (by decide)) (by decide)

end Knob

namespace ThresholdKnob

open Knob Text

variable {s : String} {v : List Char}

theorem parse_eq (h : Strips s.toList v) :
    parse s = if v = resetWord then .ok reset
      else (word32? v).elim (.error (.invalidKnob s)) fun n => .ok (set n) := by
  rw [parse, ← h.eq_trim]
  cases word32? v <;> rfl

theorem parse_eq_reset_iff (h : Strips s.toList v) : parse s = .ok reset ↔ v = resetWord := by
  rw [parse_eq h]
  cases word32? v <;> simp

theorem parse_eq_set_iff (h : Strips s.toList v) (n : UInt32) :
    parse s = .ok (set n) ↔ Spells v n.toNat := by
  rw [parse_eq h, ← word32?_eq_some_iff]
  constructor
  · intro hparse
    split at hparse
    · cases hparse
    · cases hword : word32? v <;> simp_all
  · intro hword
    rw [if_neg ((word32?_eq_some_iff v n).mp hword).not_reset, hword]
    rfl

theorem parse_eq_error_iff (h : Strips s.toList v) (e : Failure) :
    parse s = .error e ↔
      e = .invalidKnob s ∧ v ≠ resetWord ∧ ∀ n ≤ 4294967295, ¬Spells v n := by
  rw [parse_eq h, ← word32?_eq_none_iff]
  by_cases hreset : v = resetWord
  · simp [hreset]
  · cases word32? v <;> simp [hreset, eq_comm]

/-- Of the text without the white space at its ends, the word `reset` and the numerals of 32 bits
are accepted and nothing else. The refusal quotes the text with its white space. A register that
refuses the first digit that does not fit accepts the same numerals. Every number, printed in
decimal and put between white space, is read back. -/
theorem parse_exact (s : String) :
    ∃ v, (∀ core, Strips s.toList core ↔ core = v) ∧
      (parse s = .ok .reset ↔ String.ofList v = "reset") ∧
      (∀ n, parse s = .ok (.set n) ↔ Spells v n.toNat) ∧
      (∀ e, parse s = .error e ↔ e = .invalidKnob s ∧ String.ofList v ≠ "reset" ∧
        ∀ n ≤ 4294967295, ¬Spells v n) ∧
      (∀ n, register? v = some n ↔ Spells v n.toNat) ∧
      ∀ (n : UInt32) (left right : List Char), (∀ c ∈ left, isBlank c = true) →
        (∀ c ∈ right, isBlank c = true) →
        s.toList = left ++ (toString n.toNat).toList ++ right → parse s = .ok (.set n) := by
  have hstrips := strips_trim s.toList
  have hword (v : List Char) : String.ofList v = "reset" ↔ v = resetWord := by
    have hreset : "reset" = String.ofList resetWord := rfl
    rw [hreset, String.ofList_inj]
  refine ⟨trim s.toList, fun core => ⟨Strips.eq_trim, fun h => h ▸ hstrips⟩, ?_, ?_, ?_, ?_, ?_⟩
  · rw [hword]
    exact parse_eq_reset_iff hstrips
  · exact parse_eq_set_iff hstrips
  · intro e
    rw [ne_eq, hword]
    exact parse_eq_error_iff hstrips e
  · intro n
    rw [register?_eq]
    exact word32?_eq_some_iff _ n
  · intro n left right hleft hright hs
    rw [Nat.toString_eq_repr, Nat.toList_repr] at hs
    have hcore : Strips s.toList (Nat.toDigits 10 n.toNat) := by
      refine ⟨⟨left, right, hleft, hright, hs⟩, ?_, ?_⟩
      · exact fun c hc => toDigits_not_blank (List.mem_of_mem_head? hc)
      · exact fun c hc => toDigits_not_blank (List.mem_of_mem_getLast? hc)
    exact (parse_eq_set_iff hcore n).mpr (spells_toDigits n.toNat)

example : parse "\t+0050 \n" = .ok (.set 50) := by rfl

end ThresholdKnob

end HotplugDetect
