import Mathlib.Data.Nat.Digits.Defs
import HotplugDetect.Json.Node

/-! # Strings and numbers as they are read back

A quoted string is read back whatever characters it has, and the digits of a number are read back up
to the first character that cannot belong to a numeral.
-/

namespace HotplugDetect

namespace JsonText

def lettered : List Char := ['\x08', '\x0C', '\n', '\r', '\t']

/-- What an escaped character is read as, before the pieces join. -/
def pieceOf (c : Char) : Piece :=
  if c.toNat < 0x20 ∧ c ∉ lettered then .unit c.toNat else .char c

theorem hexDigit?_hexDigit : ∀ n < 16, hexDigit? (hexDigit n) = some n := by decide

theorem readPieces_escape (acc : List Piece) (c : Char) (rest : List Char) :
    readPieces acc (escape c ++ rest) = readPieces (pieceOf c :: acc) rest := by
  by_cases hletter : c ∈ '"' :: '\\' :: lettered
  · simp only [lettered, List.mem_cons, List.not_mem_nil, or_false] at hletter
    rcases hletter with rfl | rfl | rfl | rfl | rfl | rfl | rfl <;> rfl
  · by_cases hcontrol : c.toNat < 0x20
    · have hhigh := hexDigit?_hexDigit (c.toNat / 16) (by omega)
      have hlow := hexDigit?_hexDigit (c.toNat % 16) (by omega)
      have hzero : hexDigit? '0' = some 0 := rfl
      have hunit : unit? '0' '0' (hexDigit (c.toNat / 16)) (hexDigit (c.toNat % 16)) =
          some c.toNat := by
        simp only [unit?, hzero, hhigh, hlow, Option.bind_eq_bind, Option.bind_some,
          Option.some.injEq]
        omega
      simp_all [escape, pieceOf, readPieces, lettered]
    · simp_all [escape, pieceOf, readPieces, lettered, Nat.not_lt.mpr]

theorem readPieces_flatMap_escape (cs : List Char) (acc : List Piece) (rest : List Char) :
    readPieces acc (cs.flatMap escape ++ '"' :: rest) =
      some (acc.reverse ++ cs.map pieceOf, rest) := by
  induction cs generalizing acc with
  | nil => simp [readPieces]
  | cons c cs ih =>
    rw [List.flatMap_cons, List.append_assoc, readPieces_escape, ih]
    simp

theorem joinPieces_unit {n : Nat} (h : n < 0xD800) (ps : List Piece) :
    joinPieces (.unit n :: ps) = (joinPieces ps).map (Char.ofNat n :: ·) := by
  have hhigh : isHigh n = false := by simp [isHigh]; omega
  have hlow : isLow n = false := by simp [isLow]; omega
  rcases ps with _ | ⟨_ | l, ps⟩ <;> simp [joinPieces, hhigh, hlow]

theorem joinPieces_map_pieceOf (cs : List Char) : joinPieces (cs.map pieceOf) = some cs := by
  induction cs with
  | nil => rfl
  | cons c cs ih =>
    by_cases hcontrol : c.toNat < 0x20 ∧ c ∉ lettered
    · have hpiece : pieceOf c = .unit c.toNat := if_pos hcontrol
      rw [List.map_cons, hpiece, joinPieces_unit (by omega), ih, Option.map_some, Char.ofNat_toNat]
    · have hpiece : pieceOf c = .char c := if_neg hcontrol
      rw [List.map_cons, hpiece, joinPieces, ih, Option.map_some]

/-- A quoted string is read back. -/
theorem readString_quote (s : String) (rest : List Char) :
    readString (s.toList.flatMap escape ++ '"' :: rest) = some (some s, rest) := by
  simp [readString, readPieces_flatMap_escape, joinPieces_map_pieceOf]

end JsonText

namespace Numeral

def digits (n : Nat) : List Nat := (Nat.toDigits 10 n).map digitOf

def ofInt : Int → Numeral
  | .ofNat n => ⟨false, digits n, none, none⟩
  | .negSucc n => ⟨true, digits (n + 1), none, none⟩

def Ended (cs : List Char) : Prop :=
  ∀ c ∈ cs.head?, c.isDigit = false ∧ c ≠ '.' ∧ c ≠ 'e' ∧ c ≠ 'E'

theorem ended_nil : Ended [] := nofun

theorem readDigits_toDigits (n : Nat) {rest : List Char} (h : Ended rest) :
    readDigits (Nat.toDigits 10 n ++ rest) = (digits n, rest) := by
  have hall : ∀ c ∈ Nat.toDigits 10 n, c.isDigit = true :=
    fun c hc => Nat.isDigit_of_mem_toDigits (by decide) (by decide) hc
  have hstop : rest.takeWhile Char.isDigit = [] ∧ rest.dropWhile Char.isDigit = rest := by
    cases rest with
    | nil => exact ⟨rfl, rfl⟩
    | cons c cs => simp [(h c rfl).1]
  rw [readDigits, List.takeWhile_append_of_pos hall, List.dropWhile_append_of_pos hall, hstop.1,
    hstop.2, List.append_nil, digits]

theorem digits_of_pos {n : Nat} (h : 0 < n) : ∃ d ds, digits n = (d + 1) :: ds := by
  induction n using Nat.strongRecOn with
  | ind n ih =>
    by_cases hsmall : n < 10
    · have hdigit : digitOf (Nat.digitChar n) = n := by
        have : ∀ k < 10, digitOf (Nat.digitChar k) = k := by decide
        exact this n hsmall
      refine ⟨n - 1, [], ?_⟩
      rw [digits, Nat.toDigits_of_lt_base hsmall, List.map_singleton, hdigit]
      congr 1
      omega
    · obtain ⟨d, ds, hds⟩ := ih (n / 10) (by omega) (by omega)
      refine ⟨d, ds ++ [digitOf (Nat.digitChar (n % 10))], ?_⟩
      rw [digits, Nat.toDigits_of_base_le (by decide) (by omega), List.map_append]
      exact congrArg (· ++ [digitOf (Nat.digitChar (n % 10))]) hds

theorem wholeAllowed_digits (n : Nat) : wholeAllowed (digits n) = true := by
  rcases Nat.eq_zero_or_pos n with rfl | h
  · rfl
  · obtain ⟨d, ds, hds⟩ := digits_of_pos h
    rw [hds]
    rfl

theorem readFraction_of_ended {rest : List Char} (h : Ended rest) :
    readFraction rest = some (none, rest) := by
  rcases rest with _ | ⟨c, cs⟩
  · rfl
  · obtain ⟨-, hdot, -, -⟩ := h c rfl
    unfold readFraction
    split
    · rename_i heq
      exact absurd (List.cons.inj heq).1 hdot
    · rfl

theorem readExponent_of_ended {rest : List Char} (h : Ended rest) :
    readExponent rest = some (none, rest) := by
  rcases rest with _ | ⟨c, cs⟩
  · rfl
  · obtain ⟨-, -, hlower, hupper⟩ := h c rfl
    simp [readExponent, hlower, hupper]

theorem exists_toDigits (n : Nat) :
    ∃ c cs, Nat.toDigits 10 n = c :: cs ∧ c.isDigit = true := by
  rcases hn : Nat.toDigits 10 n with _ | ⟨c, cs⟩
  · exact absurd hn Nat.toDigits_ne_nil
  · refine ⟨c, cs, rfl, Nat.isDigit_of_mem_toDigits (b := 10) (n := n) (by decide) (by decide) ?_⟩
    rw [hn]
    exact List.mem_cons_self

theorem not_mem_of_start {c : Char} (h : c = '-' ∨ c.isDigit = true) :
    c ∉ [' ', '\n', '\t', '\r', '[', ']', '\x7b', '"', 'n', 't', 'f'] := by
  rcases h with rfl | hdigit
  · decide
  · intro hc
    simp only [List.mem_cons, List.not_mem_nil, or_false] at hc
    rcases hc with rfl | rfl | rfl | rfl | rfl | rfl | rfl | rfl | rfl | rfl | rfl <;> cases hdigit

/-- A whole number is read back. -/
theorem read_numberText (i : Int) {rest : List Char} (h : Ended rest) :
    read (Json.numberText i ++ rest) = some (ofInt i, rest) := by
  cases i with
  | ofNat n =>
    obtain ⟨c, cs, hcs, hdigit⟩ := exists_toDigits n
    have hread := readDigits_toDigits n h
    have hminus : c ≠ '-' := by rintro rfl; cases hdigit
    unfold Json.numberText read
    simp only [hcs, List.cons_append] at hread ⊢
    simp [hread, wholeAllowed_digits, readFraction_of_ended h, readExponent_of_ended h, ofInt,
      hminus]
  | negSucc n =>
    have hread := readDigits_toDigits (n + 1) h
    unfold Json.numberText read
    simp [hread, wholeAllowed_digits, readFraction_of_ended h, readExponent_of_ended h, ofInt]

theorem absorb_eq {ds : List Nat} {v : Nat} (h : ds.foldl (10 * · + ·) v < twoTo 64) :
    absorb v ds = (ds.foldl (10 * · + ·) v, 0) := by
  have hgrows : ∀ (ds : List Nat) (v : Nat), v ≤ ds.foldl (10 * · + ·) v := by
    intro ds
    induction ds with
    | nil => exact fun v => le_rfl
    | cons d ds ih => exact fun v => (by omega : v ≤ 10 * v + d).trans (ih _)
  induction ds generalizing v with
  | nil => rfl
  | cons d ds ih =>
    rw [List.foldl_cons] at h
    have hfits : v * 10 + d < twoTo 64 := by
      have := hgrows ds (10 * v + d)
      omega
    rw [absorb, if_pos hfits, Nat.mul_comm v 10, ih h, List.foldl_cons]

theorem foldl_digits (n : Nat) : (digits n).foldl (10 * · + ·) 0 = n := by
  have h := Nat.ofDigitChars_toDigits (b := 10) (n := n) (by decide) (by decide)
  rw [digits, List.foldl_map]
  exact h

theorem value_ofNat {n : Nat} (h : n < UInt64.size) : (ofInt n).value = some (.integer n) := by
  have habsorb : absorb 0 (digits n) = (n, 0) := by
    have hfold := foldl_digits n
    rw [absorb_eq (by rw [hfold]; exact h), hfold]
  show (ofInt (.ofNat n)).value = _
  simp [value, ofInt, habsorb, integer]

end Numeral

end HotplugDetect
