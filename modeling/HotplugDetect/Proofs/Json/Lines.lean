import Mathlib.Tactic.SplitIfs
import HotplugDetect.Proofs.Json.Printed

/-! # Values on one line

Line breaks are escaped in strings, so that a value that is written on one line has none. Values
that stand on lines of their own are read back line by line.
-/

namespace HotplugDetect

open Json (print printItems printMembers numberText)

namespace JsonText

theorem hexDigit_ne_newline : ∀ n < 16, hexDigit n ≠ '\n' := by decide

theorem newline_not_mem_escape (c : Char) : '\n' ∉ escape c := by
  unfold escape
  split_ifs with hquote hslash hb hf hn hr ht hcontrol
  · decide
  · decide
  · decide
  · decide
  · decide
  · decide
  · decide
  · have hhigh := hexDigit_ne_newline (c.toNat / 16) (by omega)
    have hlow := hexDigit_ne_newline (c.toNat % 16) (by omega)
    simp [hhigh.symm, hlow.symm]
  · exact fun hin => hn (List.mem_singleton.mp hin).symm

theorem newline_not_mem_quote (s : String) : '\n' ∉ quote s := by
  simp [quote, newline_not_mem_escape]

end JsonText

namespace Json

theorem newline_not_mem_numberText (i : Int) : '\n' ∉ numberText i := by
  have hdigits (n : Nat) : '\n' ∉ Nat.toDigits 10 n := by
    intro hin
    cases Nat.isDigit_of_mem_toDigits (by decide) (Nat.le_refl 10) hin
  cases i with
  | ofNat n => exact hdigits n
  | negSucc n => simp [numberText, hdigits]

mutual

theorem newline_not_mem_print (j : Json) : '\n' ∉ print none j := by
  match j with
  | .null => decide
  | .bool true => decide
  | .bool false => decide
  | .number i => exact newline_not_mem_numberText i
  | .text s => exact JsonText.newline_not_mem_quote s
  | .array [] => decide
  | .array (x :: xs) =>
    have hitem := newline_not_mem_print x
    have hmore := newline_not_mem_printItems xs
    simp [print, newLine, deeper, hitem, hmore]
  | .object [] => decide
  | .object ((k, x) :: ms) =>
    have hkey := JsonText.newline_not_mem_quote k
    have hvalue := newline_not_mem_print x
    have hmore := newline_not_mem_printMembers ms
    simp [print, newLine, deeper, colon, hkey, hvalue, hmore]

theorem newline_not_mem_printItems (xs : List Json) : '\n' ∉ printItems none xs := by
  match xs with
  | [] => exact List.not_mem_nil
  | x :: xs =>
    have hitem := newline_not_mem_print x
    have hmore := newline_not_mem_printItems xs
    simp [printItems, newLine, hitem, hmore]

theorem newline_not_mem_printMembers (ms : List (String × Json)) :
    '\n' ∉ printMembers none ms := by
  match ms with
  | [] => exact List.not_mem_nil
  | (k, x) :: ms =>
    have hkey := JsonText.newline_not_mem_quote k
    have hvalue := newline_not_mem_print x
    have hmore := newline_not_mem_printMembers ms
    simp [printMembers, newLine, colon, hkey, hvalue, hmore]

end

end Json

section Splitting

theorem splitOn_line {line : List Char} (h : '\n' ∉ line) (rest : List Char) :
    (line ++ '\n' :: rest).splitOn '\n' = line :: rest.splitOn '\n' := by
  refine List.splitOnP_append_cons_of_forall_mem (fun c hc => ?_) '\n' rfl rest
  have hne : c ≠ '\n' := fun heq => h (heq ▸ hc)
  simpa using hne

/-- A text of lines has nothing behind its last line break. -/
theorem splitOn_join {lines : List String} (h : ∀ line ∈ lines, '\n' ∉ line.toList) :
    (String.join (lines.map (· ++ "\n"))).toList.splitOn '\n' =
      lines.map String.toList ++ [[]] := by
  induction lines with
  | nil => rfl
  | cons line lines ih =>
    obtain ⟨hline, hlines⟩ := List.forall_mem_cons.mp h
    have htext : (String.join ((line :: lines).map (· ++ "\n"))).toList =
        line.toList ++ '\n' :: (String.join (lines.map (· ++ "\n"))).toList := by
      simp [String.join_cons]
    rw [htext, splitOn_line hline, ih hlines]
    rfl

end Splitting

namespace Node

def readLines (text : String) : List Node :=
  ((text.toList.splitOn '\n').filter (· ≠ [])).map fun line => (parse line).1

theorem readLines_cons (j : Json) (rest : String) :
    readLines (j.compact ++ "\n" ++ rest) = ofJson j :: readLines rest := by
  have htext : (j.compact ++ "\n" ++ rest).toList = print none j ++ '\n' :: rest.toList := by
    simp [Json.compact]
  obtain ⟨c, cs, hcs, -⟩ := exists_print none j
  have hne : print none j ≠ [] := by
    rw [hcs]
    exact List.cons_ne_nil c cs
  unfold readLines
  rw [htext, splitOn_line j.newline_not_mem_print, List.filter_cons_of_pos (by simpa using hne),
    List.map_cons, parse_print]

theorem readLines_join (js : List Json) :
    readLines (String.join (js.map fun j => j.compact ++ "\n")) = js.map ofJson := by
  induction js with
  | nil => rfl
  | cons j js ih => rw [List.map_cons, String.join_cons, readLines_cons, ih, List.map_cons]

end Node

end HotplugDetect
