import HotplugDetect.Proofs.Json.Tokens

/-! # How a value is spelled

The texts of a value: its tokens in order, with blanks anywhere between them. Every spelling is read
as the value.
-/

namespace HotplugDetect

open JsonText (isBlank skipBlank readString)

open Numeral (Ended)

def Blank (cs : List Char) : Prop := ∀ c ∈ cs, isBlank c = true

theorem blank_nil : Blank [] := List.forall_mem_nil _

section Blanks

variable {blank : List Char}

theorem skipBlank_append (h : Blank blank) (cs : List Char) :
    skipBlank (blank ++ cs) = skipBlank cs :=
  List.dropWhile_append_of_pos h

theorem skipBlank_cons {c : Char} (h : isBlank c = false) (cs : List Char) :
    skipBlank (c :: cs) = c :: cs :=
  List.dropWhile_cons_of_neg (by simp [h])

theorem skipBlank_split (cs : List Char) : ∃ blank, Blank blank ∧ cs = blank ++ skipBlank cs :=
  ⟨cs.takeWhile isBlank, fun _ hc => List.mem_takeWhile_imp hc,
    List.takeWhile_append_dropWhile.symm⟩

theorem ended_of_blank (h : Blank blank) {cs : List Char} (hcs : Ended cs) :
    Ended (blank ++ cs) := by
  cases blank with
  | nil => exact hcs
  | cons c blank =>
    intro c' hc'
    obtain rfl : c = c' := Option.some.inj hc'
    have hblank := h c List.mem_cons_self
    simp only [isBlank, Bool.or_eq_true, decide_eq_true_eq] at hblank
    rcases hblank with ((rfl | rfl) | rfl) | rfl <;> decide

theorem ended_cons {c : Char} (h : c = ',' ∨ c = ']' ∨ c = '}') (cs : List Char) :
    Ended (c :: cs) := by
  intro c' hc'
  obtain rfl : c = c' := Option.some.inj hc'
  rcases h with rfl | rfl | rfl <;> decide

end Blanks

namespace Node

/-- A key with its quotes, and the colon behind it. -/
inductive SpellsKey : Option String → List Char → Prop
  | intro {blank blank' body : List Char} {key : Option String} (hblank : Blank blank)
      (h : readString body = some (key, [])) (hblank' : Blank blank') :
      SpellsKey key (blank ++ '"' :: (body ++ (blank' ++ [':'])))

mutual

/-- The text is a value without blanks around it. -/
inductive Spells : Node → List Char → Prop
  | scalar {n : Node} {cs : List Char} (h : Node.readScalar cs = (n, [])) (hn : n ≠ .broken) :
      Spells n cs
  | nothing {blank : List Char} (hblank : Blank blank) :
      Spells (.array [] .closed) ('[' :: (blank ++ [']']))
  | array {items : List Node} {cs : List Char} (h : SpellsItems items cs) :
      Spells (.array items .closed) ('[' :: cs)
  | empty {blank : List Char} (hblank : Blank blank) :
      Spells (.object [] .closed) ('{' :: (blank ++ ['}']))
  | object {members : List (Option String × Node)} {cs : List Char}
      (h : SpellsMembers members cs) : Spells (.object members .closed) ('{' :: cs)

/-- The items of an array, up to its end. -/
inductive SpellsItems : List Node → List Char → Prop
  | last {blank blank' cs : List Char} {n : Node} (hblank : Blank blank) (h : Spells n cs)
      (hblank' : Blank blank') : SpellsItems [n] (blank ++ (cs ++ (blank' ++ [']'])))
  | cons {blank blank' cs rest : List Char} {n : Node} {ns : List Node} (hblank : Blank blank)
      (h : Spells n cs) (hblank' : Blank blank') (hrest : SpellsItems ns rest) :
      SpellsItems (n :: ns) (blank ++ (cs ++ (blank' ++ ',' :: rest)))

/-- The members of an object, up to its end. -/
inductive SpellsMembers : List (Option String × Node) → List Char → Prop
  | last {key blank blank' cs : List Char} {k : Option String} {n : Node}
      (hkey : SpellsKey k key) (hblank : Blank blank) (h : Spells n cs) (hblank' : Blank blank') :
      SpellsMembers [(k, n)] (key ++ (blank ++ (cs ++ (blank' ++ ['}']))))
  | cons {key blank blank' cs rest : List Char} {k : Option String} {n : Node}
      {ms : List (Option String × Node)} (hkey : SpellsKey k key) (hblank : Blank blank)
      (h : Spells n cs) (hblank' : Blank blank') (hrest : SpellsMembers ms rest) :
      SpellsMembers ((k, n) :: ms) (key ++ (blank ++ (cs ++ (blank' ++ ',' :: rest))))

end

def Spelled (n : Node) (text : String) : Prop :=
  ∃ blank cs blank', text.toList = blank ++ (cs ++ blank') ∧ Blank blank ∧ Spells n cs ∧
    Blank blank'

section Continuations

def afterItem (fuel : Nat) (acc : List Node) (cs : List Char) : List Node × Tail × List Char :=
  match skipBlank cs with
  | ']' :: rest => (acc.reverse, .closed, rest)
  | ',' :: rest =>
    match skipBlank rest with
    | [] => (acc.reverse, .torn, [])
    | ']' :: _ => (acc.reverse, .torn, [])
    | rest => readItems fuel acc rest
  | _ => (acc.reverse, .torn, [])

def afterMember (fuel : Nat) (acc : List (Option String × Node)) (cs : List Char) :
    List (Option String × Node) × Tail × List Char :=
  match skipBlank cs with
  | '}' :: rest => (acc.reverse, .closed, rest)
  | ',' :: rest =>
    match skipBlank rest with
    | '"' :: rest => readMembers fuel acc rest
    | _ => (acc.reverse, .torn, [])
  | _ => (acc.reverse, .torn, [])

theorem readItems_succ (fuel : Nat) (acc : List Node) (cs : List Char) :
    readItems (fuel + 1) acc cs =
      afterItem fuel ((read fuel cs).1 :: acc) (read fuel cs).2 := by
  rfl

theorem readMembers_succ {key : Option String} {cs rest blank : List Char}
    (h : readString cs = some (key, blank ++ ':' :: rest)) (hblank : Blank blank) (fuel : Nat)
    (acc : List (Option String × Node)) :
    readMembers (fuel + 1) acc cs =
      afterMember fuel ((key, (read fuel rest).1) :: acc) (read fuel rest).2 := by
  rw [readMembers, h]
  simp only [skipBlank_append hblank, skipBlank_cons (c := ':') (by decide)]
  rfl

end Continuations

section Reading

variable {blank : List Char}

theorem read_blank (h : Blank blank) (fuel : Nat) (cs : List Char) :
    read fuel (blank ++ cs) = read fuel cs := by
  cases fuel with
  | zero => rfl
  | succ fuel => rw [read, read, skipBlank_append h]

theorem readItems_blank (h : Blank blank) (fuel : Nat) (acc : List Node) (cs : List Char) :
    readItems fuel acc (blank ++ cs) = readItems fuel acc cs := by
  cases fuel with
  | zero => rfl
  | succ fuel => rw [readItems_succ, readItems_succ, read_blank h]

theorem read_scalar {c : Char} (hblank : isBlank c = false) (h : c ∉ ['[', ']', '\x7b'])
    (fuel : Nat) (cs : List Char) : read (fuel + 1) (c :: cs) = readScalar (c :: cs) := by
  rw [read, skipBlank_cons hblank]
  split <;> simp_all

theorem exists_of_spells {n : Node} {cs : List Char} (h : Spells n cs) :
    ∃ c tok, cs = c :: tok ∧ isBlank c = false ∧ c ≠ ']' := by
  cases h with
  | scalar h hn =>
    obtain ⟨c, tok, rfl, hblank, hc, -⟩ := readScalar_split h hn
    exact ⟨c, _, rfl, hblank, by simp_all⟩
  | nothing => exact ⟨_, _, rfl, by decide⟩
  | array => exact ⟨_, _, rfl, by decide⟩
  | empty => exact ⟨_, _, rfl, by decide⟩
  | object => exact ⟨_, _, rfl, by decide⟩

theorem exists_of_spellsItems {items : List Node} {cs : List Char} (h : SpellsItems items cs)
    (rest : List Char) :
    ∃ c tok, skipBlank (cs ++ rest) = c :: tok ∧ c ≠ ']' ∧
      ∀ fuel acc, readItems fuel acc (c :: tok) = readItems fuel acc (cs ++ rest) := by
  have hstart {blank tok : List Char} {n : Node} (hblank : Blank blank) (htok : Spells n tok)
      (more : List Char) : ∃ c tok', skipBlank (blank ++ (tok ++ more)) = c :: tok' ∧ c ≠ ']' ∧
        ∀ fuel acc, readItems fuel acc (c :: tok') =
          readItems fuel acc (blank ++ (tok ++ more)) := by
    obtain ⟨c, tok', rfl, hc, hclose⟩ := exists_of_spells htok
    refine ⟨c, tok' ++ more, ?_, hclose, fun fuel acc => ?_⟩
    · rw [skipBlank_append hblank, List.cons_append, skipBlank_cons hc]
    · rw [readItems_blank hblank, List.cons_append]
  cases h with
  | last hblank h hblank' => simpa only [List.append_assoc] using hstart hblank h _
  | cons hblank h hblank' hrest => simpa only [List.append_assoc] using hstart hblank h _

theorem skipBlank_members {members : List (Option String × Node)} {cs : List Char}
    (h : SpellsMembers members cs) (rest : List Char) :
    skipBlank (cs ++ rest) = '"' :: ((skipBlank cs).tail ++ rest) := by
  have hstart {key tok : List Char} {k : Option String} (hkey : SpellsKey k key) :
      skipBlank ((key ++ tok) ++ rest) = '"' :: ((skipBlank (key ++ tok)).tail ++ rest) := by
    obtain ⟨hblank, -, -⟩ := hkey
    simp only [List.append_assoc, List.cons_append, skipBlank_append hblank,
      skipBlank_cons (c := '"') (by decide), List.tail_cons]
  cases h with
  | last hkey _ _ _ => exact hstart hkey
  | cons hkey _ _ _ _ => exact hstart hkey

theorem read_array {items : List Node} {cs : List Char} (h : SpellsItems items cs) (fuel : Nat)
    (rest : List Char) :
    read (fuel + 1) ('[' :: cs ++ rest) =
      let r := readItems fuel [] (cs ++ rest)
      (.array r.1 r.2.1, r.2.2) := by
  obtain ⟨c, tok, hskip, hclose, hitems⟩ := exists_of_spellsItems h rest
  rw [List.cons_append, read, skipBlank_cons (by decide)]
  simp only [hskip]
  split
  · rename_i heq
    exact absurd (List.cons.inj heq).1 hclose
  · simp only [hitems]

theorem afterItem_comma {items : List Node} {cs : List Char} (h : SpellsItems items cs)
    (hblank : Blank blank) (fuel : Nat) (acc : List Node) (rest : List Char) :
    afterItem fuel acc (blank ++ (',' :: cs ++ rest)) = readItems fuel acc (cs ++ rest) := by
  obtain ⟨c, tok, hskip, hclose, hitems⟩ := exists_of_spellsItems h rest
  rw [afterItem, skipBlank_append hblank, List.cons_append, skipBlank_cons (by decide)]
  simp only [hskip]
  split
  · rename_i heq
    cases heq
  · rename_i heq
    exact absurd (List.cons.inj heq).1 hclose
  · exact hitems fuel acc

theorem afterItem_close (hblank : Blank blank) (fuel : Nat) (acc : List Node) (rest : List Char) :
    afterItem fuel acc (blank ++ ']' :: rest) = (acc.reverse, .closed, rest) := by
  rw [afterItem, skipBlank_append hblank, skipBlank_cons (by decide)]
  rfl

theorem read_object {members : List (Option String × Node)} {cs : List Char}
    (h : SpellsMembers members cs) (fuel : Nat) (rest : List Char) :
    read (fuel + 1) ('{' :: cs ++ rest) =
      let r := readMembers fuel [] ((skipBlank cs).tail ++ rest)
      (.object r.1 r.2.1, r.2.2) := by
  rw [List.cons_append, read, skipBlank_cons (by decide)]
  simp only [skipBlank_members h]

theorem afterMember_comma {members : List (Option String × Node)} {cs : List Char}
    (h : SpellsMembers members cs) (hblank : Blank blank) (fuel : Nat)
    (acc : List (Option String × Node)) (rest : List Char) :
    afterMember fuel acc (blank ++ (',' :: cs ++ rest)) =
      readMembers fuel acc ((skipBlank cs).tail ++ rest) := by
  rw [afterMember, skipBlank_append hblank, List.cons_append, skipBlank_cons (by decide)]
  simp only [skipBlank_members h]

theorem afterMember_close (hblank : Blank blank) (fuel : Nat) (acc : List (Option String × Node))
    (rest : List Char) :
    afterMember fuel acc (blank ++ '}' :: rest) = (acc.reverse, .closed, rest) := by
  rw [afterMember, skipBlank_append hblank, skipBlank_cons (by decide)]
  rfl

theorem read_of_scalar {n : Node} {cs : List Char} (h : readScalar cs = (n, []))
    (hn : n ≠ .broken) (fuel : Nat) {rest : List Char} (hrest : Ended rest) :
    read (fuel + 1) (cs ++ rest) = (n, rest) := by
  obtain ⟨c, tok, hcs, hblank, hc, hagain⟩ := readScalar_split h hn
  rw [List.append_nil] at hcs
  rw [hcs, List.cons_append, read_scalar hblank hc]
  exact hagain rest hrest

theorem read_nothing (hblank : Blank blank) (fuel : Nat) (rest : List Char) :
    read (fuel + 1) ('[' :: (blank ++ [']']) ++ rest) = (.array [] .closed, rest) := by
  rw [List.cons_append, List.append_assoc, read, skipBlank_cons (by decide)]
  simp only [skipBlank_append hblank, List.cons_append, List.nil_append,
    skipBlank_cons (c := ']') (by decide)]

theorem read_empty (hblank : Blank blank) (fuel : Nat) (rest : List Char) :
    read (fuel + 1) ('{' :: (blank ++ ['}']) ++ rest) = (.object [] .closed, rest) := by
  rw [List.cons_append, List.append_assoc, read, skipBlank_cons (by decide)]
  simp only [skipBlank_append hblank, List.cons_append, List.nil_append,
    skipBlank_cons (c := '}') (by decide)]

theorem readMembers_key {key : List Char} {k : Option String} (h : SpellsKey k key) (fuel : Nat)
    (acc : List (Option String × Node)) (more : List Char) :
    readMembers (fuel + 1) acc ((skipBlank (key ++ more)).tail) =
      afterMember fuel ((k, (read fuel more).1) :: acc) (read fuel more).2 := by
  obtain ⟨hblank, hbody, hblank'⟩ := h
  rename_i blank blank' body
  obtain ⟨body', hbody', hagain⟩ := JsonText.readString_split hbody
  rw [List.append_nil] at hbody'
  subst hbody'
  have htail : (skipBlank (blank ++ '"' :: (body ++ (blank' ++ [':'])) ++ more)).tail =
      body ++ (blank' ++ ':' :: more) := by
    simp [List.append_assoc, skipBlank_append hblank, skipBlank_cons (c := '"') (by decide)]
  rw [htail, readMembers_succ (hagain _) hblank']

mutual

/-- A spelling is read as its value, and the reader stops right behind it. -/
theorem read_of_spells {n : Node} {cs rest : List Char} (fuel : Nat) (h : Spells n cs)
    (hfuel : 2 * cs.length ≤ fuel) (hrest : Ended rest) : read fuel (cs ++ rest) = (n, rest) := by
  match fuel, hfuel with
  | 0, hfuel =>
    obtain ⟨c, tok, rfl, -⟩ := exists_of_spells h
    cases hfuel
  | fuel + 1, hfuel =>
    cases h with
    | scalar h hn => exact read_of_scalar h hn fuel hrest
    | nothing hblank => exact read_nothing hblank fuel rest
    | array h =>
      rw [List.length_cons] at hfuel
      rw [read_array h, readItems_of_spells fuel h (by omega)]
      rfl
    | empty hblank => exact read_empty hblank fuel rest
    | object h =>
      rw [List.length_cons] at hfuel
      rw [read_object h, readMembers_of_spells fuel h (by omega)]
      rfl

theorem readItems_of_spells {items : List Node} {cs rest : List Char} (fuel : Nat)
    (h : SpellsItems items cs) (hfuel : 2 * cs.length ≤ fuel) {acc : List Node} :
    readItems fuel acc (cs ++ rest) = (acc.reverse ++ items, .closed, rest) := by
  match fuel, hfuel with
  | 0, hfuel => cases h <;> simp at hfuel
  | fuel + 1, hfuel =>
    cases h with
    | @last blank blank' cs n hblank h hblank' =>
      simp only [List.length_append, List.length_cons] at hfuel
      have hended := ended_of_blank hblank' (ended_cons (.inr (.inl rfl)) rest)
      simp only [List.append_assoc, List.cons_append, List.nil_append]
      rw [readItems_blank hblank, readItems_succ, read_of_spells fuel h (by omega) hended,
        afterItem_close hblank', List.reverse_cons]
    | @cons blank blank' cs more n ns hblank h hblank' hmore =>
      simp only [List.length_append, List.length_cons] at hfuel
      have hended := ended_of_blank hblank' (ended_cons (.inl rfl) (more ++ rest))
      simp only [List.append_assoc]
      rw [readItems_blank hblank, readItems_succ, List.cons_append,
        read_of_spells fuel h (by omega) hended, ← List.cons_append,
        afterItem_comma hmore hblank', readItems_of_spells fuel hmore (by omega)]
      simp

theorem readMembers_of_spells {members : List (Option String × Node)} {cs rest : List Char}
    (fuel : Nat) (h : SpellsMembers members cs) (hfuel : 2 * cs.length ≤ fuel)
    {acc : List (Option String × Node)} :
    readMembers fuel acc ((skipBlank cs).tail ++ rest) =
      (acc.reverse ++ members, .closed, rest) := by
  have htail : (skipBlank cs).tail ++ rest = (skipBlank (cs ++ rest)).tail := by
    rw [skipBlank_members h, List.tail_cons]
  rw [htail]
  match fuel, hfuel with
  | 0, hfuel => cases h <;> simp at hfuel
  | fuel + 1, hfuel =>
    cases h with
    | @last key blank blank' cs k n hkey hblank h hblank' =>
      simp only [List.length_append, List.length_cons] at hfuel
      have hended := ended_of_blank hblank' (ended_cons (.inr (.inr rfl)) rest)
      simp only [List.append_assoc, List.cons_append, List.nil_append]
      rw [readMembers_key hkey, read_blank hblank, read_of_spells fuel h (by omega) hended,
        afterMember_close hblank', List.reverse_cons]
    | @cons key blank blank' cs more k n ms hkey hblank h hblank' hmore =>
      simp only [List.length_append, List.length_cons] at hfuel
      have hended := ended_of_blank hblank' (ended_cons (.inl rfl) (more ++ rest))
      simp only [List.append_assoc]
      rw [readMembers_key hkey, read_blank hblank, List.cons_append,
        read_of_spells fuel h (by omega) hended, ← List.cons_append,
        afterMember_comma hmore hblank', readMembers_of_spells fuel hmore (by omega)]
      simp

end

/-- Every spelling is parsed as its value. -/
theorem parse_of_spelled {n : Node} {text : String} (h : Spelled n text) :
    ∃ rest, parse text.toList = (n, rest) ∧ Blank rest := by
  obtain ⟨blank, cs, blank', htext, hblank, hcs, hblank'⟩ := h
  refine ⟨blank', ?_, hblank'⟩
  rw [htext, parse, read_blank hblank]
  have hended := ended_of_blank hblank' Numeral.ended_nil
  rw [List.append_nil] at hended
  exact read_of_spells _ hcs (by simp only [List.length_append]; omega) hended

end Reading

end Node

end HotplugDetect
