import HotplugDetect.Proofs.Json.Spelling

/-! # Printed values are read back

A value that was printed, on one line or on many, is a spelling of the tree that has its shape, and
so it is read as this tree.
-/

namespace HotplugDetect

open Json (Layout print printItems printMembers newLine deeper colon numberText)

open JsonText (isBlank)

theorem blank_newLine (l : Layout) : Blank (newLine l) := by
  intro c hc
  cases l with
  | none => cases hc
  | some level =>
    rcases List.mem_cons.mp hc with rfl | hc
    · rfl
    · rw [List.eq_of_mem_replicate hc]
      rfl

theorem colon_deeper (l : Layout) : colon (deeper l) = colon l := by
  cases l <;> rfl

namespace Node

mutual

/-- The tree as which a value is read. -/
def ofJson : Json → Node
  | .null => .null
  | .bool b => .bool b
  | .number n => .number (.ofInt n)
  | .text s => .text (some s)
  | .array items => .array (ofItems items) .closed
  | .object members => .object (ofMembers members) .closed

def ofItems : List Json → List Node
  | [] => []
  | x :: xs => ofJson x :: ofItems xs

def ofMembers : List (String × Json) → List (Option String × Node)
  | [] => []
  | (k, x) :: ms => (some k, ofJson x) :: ofMembers ms

end

section Scalars

theorem spells_numberText (i : Int) : Spells (.number (.ofInt i)) (numberText i) := by
  have hread := Numeral.read_numberText i Numeral.ended_nil
  obtain ⟨c, cs, hcs, hc⟩ : ∃ c cs, numberText i = c :: cs ∧ (c = '-' ∨ c.isDigit = true) := by
    cases i with
    | ofNat n =>
      obtain ⟨c, cs, hcs, hdigit⟩ := Numeral.exists_toDigits n
      exact ⟨c, cs, hcs, .inr hdigit⟩
    | negSucc n => exact ⟨_, _, rfl, .inl rfl⟩
  rw [List.append_nil] at hread
  rw [hcs] at hread ⊢
  exact .scalar (readScalar_number (Numeral.not_mem_of_start hc) hread) Node.noConfusion

theorem spells_quote (s : String) : Spells (.text (some s)) (JsonText.quote s) := by
  have hread := JsonText.readString_quote s []
  refine .scalar ?_ Node.noConfusion
  simp only [JsonText.quote, List.cons_append, readScalar, hread]

theorem spellsKey_quote (l : Layout) (k : String) :
    ∃ blank, Blank blank ∧ SpellsKey (some k) (newLine l ++ (JsonText.quote k ++ [':'])) ∧
      ∀ cs, colon l ++ cs = ':' :: (blank ++ cs) := by
  have hkey : SpellsKey (some k) (newLine l ++ (JsonText.quote k ++ [':'])) := by
    have hstring := JsonText.readString_quote k []
    simpa [JsonText.quote] using SpellsKey.intro (blank_newLine l) hstring blank_nil
  cases l with
  | none => exact ⟨[], blank_nil, hkey, fun _ => rfl⟩
  | some level => exact ⟨[' '], List.forall_mem_singleton.mpr rfl, hkey, fun _ => rfl⟩

end Scalars

mutual

theorem spells_print (j : Json) (l : Layout) : Spells (ofJson j) (print l j) := by
  match j with
  | .null => exact .scalar rfl Node.noConfusion
  | .bool true => exact .scalar rfl Node.noConfusion
  | .bool false => exact .scalar rfl Node.noConfusion
  | .number i => exact spells_numberText i
  | .text s => exact spells_quote s
  | .array [] => exact .nothing blank_nil
  | .array (x :: xs) =>
    have hitems := spellsItems_print (spells_print x (deeper l)) xs (deeper l) l
    simpa [print, ofJson, ofItems] using Spells.array hitems
  | .object [] => exact .empty blank_nil
  | .object ((k, x) :: ms) =>
    have hmembers := spellsMembers_print k (spells_print x (deeper l)) ms (deeper l) l
    simpa [print, ofJson, ofMembers, colon_deeper] using Spells.object hmembers

theorem spellsItems_print {n : Node} {cs : List Char} (h : Spells n cs) (xs : List Json)
    (l l' : Layout) : SpellsItems (n :: ofItems xs)
      (newLine l ++ (cs ++ (printItems l xs ++ (newLine l' ++ [']'])))) := by
  match xs with
  | [] => exact .last (blank_newLine l) h (blank_newLine l')
  | x :: xs =>
    have hrest := spellsItems_print (spells_print x l) xs l l'
    simpa [printItems, ofItems] using SpellsItems.cons (blank_newLine l) h blank_nil hrest

theorem spellsMembers_print (k : String) {n : Node} {cs : List Char} (h : Spells n cs)
    (ms : List (String × Json)) (l l' : Layout) : SpellsMembers ((some k, n) :: ofMembers ms)
      (newLine l ++ (JsonText.quote k ++ (colon l ++
        (cs ++ (printMembers l ms ++ (newLine l' ++ ['}'])))))) := by
  obtain ⟨blank, hblank, hkey, hcolon⟩ := spellsKey_quote l k
  rw [hcolon]
  match ms with
  | [] => simpa [printMembers, ofMembers] using SpellsMembers.last hkey hblank h (blank_newLine l')
  | (k', x) :: ms =>
    have hrest := spellsMembers_print k' (spells_print x l) ms l l'
    simpa [printMembers, ofMembers] using SpellsMembers.cons hkey hblank h blank_nil hrest

end

theorem spelled_print (j : Json) (l : Layout) : Spelled (ofJson j) (String.ofList (print l j)) :=
  ⟨[], print l j, [], by simp, blank_nil, spells_print j l, blank_nil⟩

theorem exists_print (l : Layout) (j : Json) :
    ∃ c cs, print l j = c :: cs ∧ isBlank c = false ∧ c ≠ ']' :=
  exists_of_spells (spells_print j l)

/-- A printed value is read back, and nothing is left behind it. -/
theorem parse_print (j : Json) (l : Layout) : parse (print l j) = (ofJson j, []) := by
  have hread := read_of_spells _ (spells_print j l)
    (Nat.le_add_right (2 * (print l j).length) 2) Numeral.ended_nil
  rwa [List.append_nil] at hread

end Node

end HotplugDetect
