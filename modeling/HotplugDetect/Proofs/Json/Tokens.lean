import Mathlib.Data.List.TakeWhile
import HotplugDetect.Proofs.Json.Scalars

/-! # Tokens

A string, a number or a word is read from a piece of the text, and from the same piece wherever it
stands: what follows matters only where it could be a part of a number.
-/

namespace HotplugDetect

namespace JsonText

theorem readPieces_char {c : Char} (hslash : c ≠ '\\') (hquote : c ≠ '"')
    (hcontrol : ¬c.toNat < 0x20) (acc : List Piece) (cs : List Char) :
    readPieces acc (c :: cs) = readPieces (.char c :: acc) cs := by
  rw [readPieces]
  · rw [if_neg (not_or.mpr ⟨hcontrol, hslash⟩)]
  · exact hquote
  · exact fun _ _ _ _ _ heq => absurd heq hslash
  · exact fun _ _ heq => absurd heq hslash

theorem readPieces_short {e c : Char} (h : shortEscape? e = some c) (acc : List Piece)
    (cs : List Char) : readPieces acc ('\\' :: e :: cs) = readPieces (.char c :: acc) cs := by
  have hu : e ≠ 'u' := by rintro rfl; cases h
  rw [readPieces]
  · rw [h]
  · exact fun _ _ _ _ _ heq => absurd heq hu

theorem readPieces_unit {a b c d : Char} {n : Nat} (h : unit? a b c d = some n) (acc : List Piece)
    (cs : List Char) :
    readPieces acc ('\\' :: 'u' :: a :: b :: c :: d :: cs) = readPieces (.unit n :: acc) cs := by
  rw [readPieces, h]

theorem readPieces_split {acc ps : List Piece} {cs rest : List Char}
    (h : readPieces acc cs = some (ps, rest)) :
    ∃ body, cs = body ++ rest ∧ ∀ more, readPieces acc (body ++ more) = some (ps, more) := by
  fun_induction readPieces acc cs with
  | case1 => cases h
  | case2 acc rest' =>
    cases h
    exact ⟨['"'], rfl, fun more => rfl⟩
  | case3 acc a b c d rest' n hunit ih =>
    obtain ⟨body, rfl, hbody⟩ := ih h
    exact ⟨'\\' :: 'u' :: a :: b :: c :: d :: body, rfl, fun more =>
      (readPieces_unit hunit acc _).trans (hbody more)⟩
  | case4 => cases h
  | case5 acc e rest' _ c hshort ih =>
    obtain ⟨body, rfl, hbody⟩ := ih h
    exact ⟨'\\' :: e :: body, rfl, fun more => (readPieces_short hshort acc _).trans (hbody more)⟩
  | case6 => cases h
  | case7 => cases h
  | case8 acc c rest' hquote _ _ hc ih =>
    obtain ⟨body, rfl, hbody⟩ := ih h
    obtain ⟨hcontrol, hslash⟩ := not_or.mp hc
    exact ⟨c :: body, rfl, fun more =>
      (readPieces_char hslash hquote hcontrol acc _).trans (hbody more)⟩

theorem readString_split {s : Option String} {cs rest : List Char}
    (h : readString cs = some (s, rest)) :
    ∃ body, cs = body ++ rest ∧ ∀ more, readString (body ++ more) = some (s, more) := by
  unfold readString at h ⊢
  obtain ⟨⟨ps, rest'⟩, hpieces, heq⟩ := Option.map_eq_some_iff.mp h
  obtain ⟨rfl, rfl⟩ := Prod.mk.inj heq
  obtain ⟨body, rfl, hbody⟩ := readPieces_split hpieces
  exact ⟨body, rfl, fun more => by rw [hbody more]; rfl⟩

end JsonText

namespace Numeral

def NoDigit (cs : List Char) : Prop := ∀ c ∈ cs.head?, c.isDigit = false

def NoFraction (cs : List Char) : Prop := ∀ c ∈ cs.head?, c.isDigit = false ∧ c ≠ '.'

theorem readDigits_append {ds more : List Char} (hds : ∀ c ∈ ds, c.isDigit = true)
    (hmore : NoDigit more) : readDigits (ds ++ more) = (ds.map digitOf, more) := by
  have hstop : more.takeWhile Char.isDigit = [] ∧ more.dropWhile Char.isDigit = more := by
    cases more with
    | nil => exact ⟨rfl, rfl⟩
    | cons c cs => simp [hmore c rfl]
  rw [readDigits, List.takeWhile_append_of_pos hds, List.dropWhile_append_of_pos hds, hstop.1,
    hstop.2, List.append_nil]

theorem readDigits_split (cs : List Char) :
    ∃ ds rest, cs = ds ++ rest ∧ (∀ c ∈ ds, c.isDigit = true) ∧
      readDigits cs = (ds.map digitOf, rest) :=
  ⟨cs.takeWhile Char.isDigit, cs.dropWhile Char.isDigit, List.takeWhile_append_dropWhile.symm,
    fun _ hc => List.mem_takeWhile_imp hc, rfl⟩

theorem readFraction_split {f : Option (List Nat)} {cs rest : List Char}
    (h : readFraction cs = some (f, rest)) :
    ∃ tok, cs = tok ++ rest ∧ (∀ c ∈ tok.head?, c = '.') ∧
      ∀ more, NoFraction more → readFraction (tok ++ more) = some (f, more) := by
  unfold readFraction at h
  split at h
  · rename_i cs
    obtain ⟨ds, rest', rfl, hds, hread⟩ := readDigits_split cs
    simp only [hread] at h
    split at h
    · cases h
    · rename_i hne
      cases h
      refine ⟨'.' :: ds, rfl, fun c hc => (Option.some.inj hc).symm, fun more hmore => ?_⟩
      have hagain := readDigits_append hds fun c hc => (hmore c hc).1
      rw [List.cons_append, readFraction]
      simp only [hagain, if_neg hne]
  · cases h
    refine ⟨[], rfl, fun _ hc => (Option.not_mem_none _ hc).elim, fun more hmore => ?_⟩
    rw [List.nil_append]
    unfold readFraction
    split
    · exact absurd rfl (hmore _ rfl).2
    · rfl

theorem readSign_split (cs : List Char) :
    ∃ sign rest, cs = sign ++ rest ∧ readSign cs = ((readSign cs).1, rest) ∧
      ∀ c more, c.isDigit = true → readSign (sign ++ c :: more) = ((readSign cs).1, c :: more) := by
  unfold readSign
  split
  · exact ⟨['-'], _, rfl, rfl, fun _ _ _ => rfl⟩
  · exact ⟨['+'], _, rfl, rfl, fun _ _ _ => rfl⟩
  · refine ⟨[], _, rfl, rfl, fun c more hc => ?_⟩
    have hne {d : Char} (hd : d.isDigit = false) : c ≠ d := by
      rintro rfl
      rw [hc] at hd
      cases hd
    split
    · rename_i heq
      exact absurd (List.cons.inj heq).1 (hne rfl)
    · rename_i heq
      exact absurd (List.cons.inj heq).1 (hne rfl)
    · rfl

theorem readExponent_split {e : Option (Bool × List Nat)} {cs rest : List Char}
    (h : readExponent cs = some (e, rest)) :
    ∃ tok, cs = tok ++ rest ∧ (∀ c ∈ tok.head?, c = 'e' ∨ c = 'E') ∧
      ∀ more, Ended more → readExponent (tok ++ more) = some (e, more) := by
  unfold readExponent at h
  split at h
  · cases h
    exact ⟨[], rfl, fun _ hc => (Option.not_mem_none _ hc).elim,
      fun more hmore => readExponent_of_ended hmore⟩
  · rename_i c cs
    split at h
    · rename_i hletter
      obtain ⟨sign, cs', rfl, hsign, hagain⟩ := readSign_split cs
      obtain ⟨ds, rest', rfl, hds, hread⟩ := readDigits_split cs'
      rw [hsign] at h
      simp only [hread] at h
      split at h
      · cases h
      · rename_i hne
        cases h
        refine ⟨c :: (sign ++ ds), by simp, fun d hd => ?_, fun more hmore => ?_⟩
        · obtain rfl := Option.some.inj hd
          exact hletter
        · obtain ⟨d, ds, rfl⟩ : ∃ d ds', ds = d :: ds' := by
            cases ds with
            | nil => exact absurd rfl hne
            | cons d ds => exact ⟨d, ds, rfl⟩
          have hdigits := readDigits_append hds fun c hc => (hmore c hc).1
          have hsigned := hagain d (ds ++ more) (hds d List.mem_cons_self)
          rw [List.cons_append, List.append_assoc, List.cons_append, readExponent, if_pos hletter,
            hsigned]
          rw [List.cons_append] at hdigits
          simp only [hdigits, if_neg hne]
    · cases h
      exact ⟨[], rfl, fun _ hc => (Option.not_mem_none _ hc).elim,
      fun more hmore => readExponent_of_ended hmore⟩

def readBody (negative : Bool) (cs : List Char) : Option (Numeral × List Char) :=
  if wholeAllowed (readDigits cs).1 then
    (readFraction (readDigits cs).2).bind fun f =>
      (readExponent f.2).bind fun e => some (⟨negative, (readDigits cs).1, f.1, e.1⟩, e.2)
  else none

theorem read_minus (cs : List Char) : read ('-' :: cs) = readBody true cs := by
  cases h : wholeAllowed (readDigits cs).1 <;> simp [read, readBody, h]

theorem read_unsigned {c : Char} (h : c ≠ '-') (cs : List Char) :
    read (c :: cs) = readBody false (c :: cs) := by
  cases hallowed : wholeAllowed (readDigits (c :: cs)).1 <;> simp [read, readBody, h, hallowed]

theorem readBody_split {negative : Bool} {n : Numeral} {cs rest : List Char}
    (h : readBody negative cs = some (n, rest)) :
    ∃ d tok, cs = d :: tok ++ rest ∧ d.isDigit = true ∧
      ∀ more, Ended more → readBody negative (d :: tok ++ more) = some (n, more) := by
  obtain ⟨ds, cs₁, rfl, hds, hdigits⟩ := readDigits_split cs
  rw [readBody, hdigits] at h
  split at h
  · rename_i hallowed
    obtain ⟨⟨f, cs₂⟩, hfraction, h⟩ := Option.bind_eq_some_iff.mp h
    obtain ⟨⟨e, cs₃⟩, hexponent, h⟩ := Option.bind_eq_some_iff.mp h
    cases h
    obtain ⟨ftok, rfl, hpoint, hfagain⟩ := readFraction_split hfraction
    obtain ⟨etok, rfl, hletter, heagain⟩ := readExponent_split hexponent
    obtain ⟨d, ds, rfl⟩ : ∃ d ds', ds = d :: ds' := by
      cases ds with
      | nil => cases hallowed
      | cons d ds => exact ⟨d, ds, rfl⟩
    refine ⟨d, ds ++ (ftok ++ etok), by simp, hds d List.mem_cons_self, fun more hmore => ?_⟩
    have hafter : NoFraction (etok ++ more) := by
      cases etok with
      | nil => exact fun c hc => ⟨(hmore c hc).1, (hmore c hc).2.1⟩
      | cons c etok =>
        intro c' hc'
        obtain rfl := Option.some.inj hc'
        rcases hletter c rfl with rfl | rfl <;> decide
    have hbehind : NoDigit (ftok ++ (etok ++ more)) := by
      cases ftok with
      | nil => exact fun c hc => (hafter c hc).1
      | cons c ftok =>
        intro c' hc'
        obtain rfl := Option.some.inj hc'
        rw [hpoint c rfl]
        decide
    have htext : d :: (ds ++ (ftok ++ etok)) ++ more = d :: ds ++ (ftok ++ (etok ++ more)) := by
      simp
    rw [readBody, htext, readDigits_append hds hbehind, if_pos hallowed]
    simp only [hfagain _ hafter, heagain more hmore, Option.bind_some]
  · cases h

theorem read_split {n : Numeral} {cs rest : List Char} (h : read cs = some (n, rest)) :
    ∃ c tok, cs = c :: tok ++ rest ∧ (c = '-' ∨ c.isDigit = true) ∧
      ∀ more, Ended more → read (c :: tok ++ more) = some (n, more) := by
  cases cs with
  | nil => cases h
  | cons c cs =>
    by_cases hminus : c = '-'
    · subst hminus
      rw [read_minus] at h
      obtain ⟨d, tok, rfl, -, hbody⟩ := readBody_split h
      exact ⟨'-', d :: tok, rfl, .inl rfl, fun more hmore =>
        (read_minus _).trans (hbody more hmore)⟩
    · rw [read_unsigned hminus] at h
      obtain ⟨d, tok, heq, hd, hbody⟩ := readBody_split h
      obtain ⟨rfl, rfl⟩ := List.cons.inj heq
      exact ⟨c, tok, rfl, .inr hd, fun more hmore =>
        (read_unsigned hminus _).trans (hbody more hmore)⟩

end Numeral

namespace Node

theorem readScalar_number {c : Char} {cs rest : List Char} {n : Numeral}
    (h : c ∉ [' ', '\n', '\t', '\r', '[', ']', '\x7b', '"', 'n', 't', 'f'])
    (hread : Numeral.read (c :: cs) = some (n, rest)) :
    readScalar (c :: cs) = (.number n, rest) := by
  unfold readScalar
  split <;> simp_all

/-- A word, a string or a number that is read from a text is read from its own piece of it. -/
theorem readScalar_split {n : Node} {cs rest : List Char} (h : readScalar cs = (n, rest))
    (hn : n ≠ .broken) :
    ∃ c tok, cs = c :: tok ++ rest ∧ JsonText.isBlank c = false ∧ c ∉ ['[', ']', '\x7b'] ∧
      ∀ more, Numeral.Ended more → readScalar (c :: tok ++ more) = (n, more) := by
  unfold readScalar at h
  split at h
  · cases h
    exact ⟨'n', ['u', 'l', 'l'], rfl, by decide, by decide, fun more _ => rfl⟩
  · cases h
    exact ⟨'t', ['r', 'u', 'e'], rfl, by decide, by decide, fun more _ => rfl⟩
  · cases h
    exact ⟨'f', ['a', 'l', 's', 'e'], rfl, by decide, by decide, fun more _ => rfl⟩
  · rename_i cs
    split at h
    · rename_i s rest' hstring
      cases h
      obtain ⟨body, rfl, hbody⟩ := JsonText.readString_split hstring
      refine ⟨'"', body, rfl, by decide, by decide, fun more _ => ?_⟩
      rw [List.cons_append, readScalar, hbody more]
    · cases h
      exact absurd rfl hn
  · split at h
    · rename_i num rest' hnumber
      cases h
      obtain ⟨c, tok, rfl, hc, hread⟩ := Numeral.read_split hnumber
      have hstart := Numeral.not_mem_of_start hc
      refine ⟨c, tok, rfl, ?_, ?_, fun more hmore => ?_⟩
      · simp_all [JsonText.isBlank]
      · simp_all
      · exact readScalar_number hstart (hread more hmore)
    · cases h
      exact absurd rfl hn

end Node

end HotplugDetect
