import HotplugDetect.Proofs.Json.Spelling

/-! # What is read as a value spells it

Whatever is read as a value without faults is a spelling of the value, from the first character to
the one where the reader stopped.
-/

namespace HotplugDetect

open JsonText (skipBlank readString)

namespace Node

variable {blank : List Char}

theorem blank_append {blank' : List Char} (h : Blank blank) (h' : Blank blank') :
    Blank (blank ++ blank') := by
  intro c hc
  exact (List.mem_append.mp hc).elim (h c) (h' c)

theorem spellsItems_blank {items : List Node} {cs : List Char} (hblank : Blank blank)
    (h : SpellsItems items cs) : SpellsItems items (blank ++ cs) := by
  cases h with
  | last hstart h hblank' =>
    rw [← List.append_assoc]
    exact .last (blank_append hblank hstart) h hblank'
  | cons hstart h hblank' hrest =>
    rw [← List.append_assoc]
    exact .cons (blank_append hblank hstart) h hblank' hrest

theorem spellsKey_blank {k : Option String} {cs : List Char} (hblank : Blank blank)
    (h : SpellsKey k cs) : SpellsKey k (blank ++ cs) := by
  cases h with
  | intro hstart h hblank' =>
    rw [← List.append_assoc]
    exact .intro (blank_append hblank hstart) h hblank'

theorem spellsMembers_blank {members : List (Option String × Node)} {cs : List Char}
    (hblank : Blank blank) (h : SpellsMembers members cs) :
    SpellsMembers members (blank ++ cs) := by
  cases h with
  | last hkey hspace h hblank' =>
    rw [← List.append_assoc]
    exact .last (spellsKey_blank hblank hkey) hspace h hblank'
  | cons hkey hspace h hblank' hrest =>
    rw [← List.append_assoc]
    exact .cons (spellsKey_blank hblank hkey) hspace h hblank' hrest

theorem intactItems_iff {items : List Node} :
    intactItems items = true ↔ ∀ n ∈ items, n.intact = true := by
  induction items with
  | nil => simp [intactItems]
  | cons n ns ih => simp [intactItems, ih]

theorem intactMembers_iff {members : List (Option String × Node)} :
    intactMembers members = true ↔ ∀ m ∈ members, m.2.intact = true := by
  induction members with
  | nil => simp [intactMembers]
  | cons m ms ih => simp [intactMembers, ih]

theorem spells_of_readScalar {n : Node} {cs rest : List Char} (h : readScalar cs = (n, rest))
    (hn : n.intact = true) : ∃ tok, cs = tok ++ rest ∧ Spells n tok := by
  have hbroken : n ≠ .broken := by
    rintro rfl
    cases hn
  obtain ⟨c, tok, hcs, -, -, hagain⟩ := readScalar_split h hbroken
  refine ⟨c :: tok, hcs, .scalar ?_ hbroken⟩
  have halone := hagain [] Numeral.ended_nil
  rwa [List.append_nil] at halone

/-- Behind an item stands the end of the array or the next item. -/
theorem afterItem_closed {fuel : Nat} {acc items : List Node} {cs rest : List Char}
    (h : afterItem fuel acc cs = (items, .closed, rest)) :
    ∃ blank, Blank blank ∧
      ((cs = blank ++ ']' :: rest ∧ items = acc.reverse) ∨
        ∃ blank' cs', Blank blank' ∧ cs = blank ++ ',' :: (blank' ++ cs') ∧
          readItems fuel acc cs' = (items, .closed, rest)) := by
  obtain ⟨blank, hblank, hcs⟩ := skipBlank_split cs
  refine ⟨blank, hblank, ?_⟩
  unfold afterItem at h
  split at h
  · rename_i heq
    cases h
    exact .inl ⟨heq ▸ hcs, rfl⟩
  · rename_i cs' heq
    obtain ⟨blank', hblank', hcs'⟩ := skipBlank_split cs'
    refine .inr ⟨blank', skipBlank cs', hblank', ?_, ?_⟩
    · rw [← hcs']
      exact heq ▸ hcs
    · split at h
      · cases h
      · cases h
      · exact h
  · cases h

/-- Behind a member stands the end of the object or the next member. -/
theorem afterMember_closed {fuel : Nat} {acc members : List (Option String × Node)}
    {cs rest : List Char} (h : afterMember fuel acc cs = (members, .closed, rest)) :
    ∃ blank, Blank blank ∧
      ((cs = blank ++ '}' :: rest ∧ members = acc.reverse) ∨
        ∃ blank' cs', Blank blank' ∧ cs = blank ++ ',' :: (blank' ++ '"' :: cs') ∧
          readMembers fuel acc cs' = (members, .closed, rest)) := by
  obtain ⟨blank, hblank, hcs⟩ := skipBlank_split cs
  refine ⟨blank, hblank, ?_⟩
  unfold afterMember at h
  split at h
  · rename_i heq
    cases h
    exact .inl ⟨heq ▸ hcs, rfl⟩
  · rename_i cs' heq
    obtain ⟨blank', hblank', hcs'⟩ := skipBlank_split cs'
    split at h
    · rename_i cs'' hquote
      refine .inr ⟨blank', cs'', hblank', ?_, h⟩
      rw [← hquote, ← hcs']
      exact heq ▸ hcs
    · cases h
  · cases h

/-- A member is a key, a colon and a value. -/
theorem readMembers_closed {fuel : Nat} {acc members : List (Option String × Node)}
    {cs rest : List Char} (h : readMembers (fuel + 1) acc cs = (members, .closed, rest)) :
    ∃ body k blank cs', readString body = some (k, []) ∧ Blank blank ∧
      cs = body ++ (blank ++ ':' :: cs') ∧
      afterMember fuel ((k, (read fuel cs').1) :: acc) (read fuel cs').2 =
        (members, .closed, rest) := by
  rw [readMembers] at h
  split at h
  · cases h
  · rename_i k cs₁ hstring
    obtain ⟨body, rfl, hagain⟩ := JsonText.readString_split hstring
    have hkey := hagain []
    rw [List.append_nil] at hkey
    obtain ⟨blank, hblank, hcs⟩ := skipBlank_split cs₁
    split at h
    · rename_i cs' heq
      refine ⟨body, k, blank, cs', hkey, hblank, ?_, h⟩
      rw [← heq, ← hcs]
    · cases h

/-- Where a value is read, there stands a whole one, or the start of an array or object whose items
or members are read from there on. -/
theorem read_intact {fuel : Nat} {n : Node} {cs rest : List Char}
    (h : read (fuel + 1) cs = (n, rest)) (hn : n.intact = true) :
    ∃ blank, Blank blank ∧
      ((∃ tok, cs = blank ++ (tok ++ rest) ∧ Spells n tok) ∨
        (∃ blank' cs' items, Blank blank' ∧ cs = blank ++ '[' :: (blank' ++ cs') ∧
          readItems fuel [] cs' = (items, .closed, rest) ∧ n = .array items .closed) ∨
        ∃ blank' cs' members, Blank blank' ∧ cs = blank ++ '{' :: (blank' ++ '"' :: cs') ∧
          readMembers fuel [] cs' = (members, .closed, rest) ∧ n = .object members .closed) := by
  obtain ⟨blank, hblank, hcs⟩ := skipBlank_split cs
  refine ⟨blank, hblank, ?_⟩
  rw [read] at h
  split at h
  · rename_i cs' heq
    obtain ⟨blank', hblank', hcs'⟩ := skipBlank_split cs'
    rw [heq, hcs'] at hcs
    split at h
    · rename_i cs'' hclose
      cases h
      exact .inl ⟨'[' :: (blank' ++ [']']), by simp [hcs, hclose], .nothing hblank'⟩
    · rcases hr : readItems fuel [] (skipBlank cs') with ⟨items, tail, rest'⟩
      rw [hr] at h
      cases h
      simp only [intact, Bool.and_eq_true, decide_eq_true_eq] at hn
      exact .inr (.inl ⟨blank', _, items, hblank', hcs, hn.1 ▸ hr, hn.1 ▸ rfl⟩)
  · rename_i cs' heq
    obtain ⟨blank', hblank', hcs'⟩ := skipBlank_split cs'
    rw [heq, hcs'] at hcs
    split at h
    · rename_i cs'' hclose
      cases h
      exact .inl ⟨'{' :: (blank' ++ ['}']), by simp [hcs, hclose], .empty hblank'⟩
    · rename_i cs'' hquote
      rcases hr : readMembers fuel [] cs'' with ⟨members, tail, rest'⟩
      rw [hr] at h
      cases h
      simp only [intact, Bool.and_eq_true, decide_eq_true_eq] at hn
      rw [hquote] at hcs
      exact .inr (.inr ⟨blank', cs'', members, hblank', hcs, hn.1 ▸ hr, hn.1 ▸ rfl⟩)
    · cases h
      cases hn
  · obtain ⟨tok, htok, hspells⟩ := spells_of_readScalar h hn
    exact .inl ⟨tok, htok ▸ hcs, hspells⟩

mutual

/-- What is read as a value without faults is a spelling of it. -/
theorem spells_of_read {n : Node} {cs rest : List Char} (fuel : Nat)
    (h : read fuel cs = (n, rest)) (hn : n.intact = true) :
    ∃ blank tok, cs = blank ++ (tok ++ rest) ∧ Blank blank ∧ Spells n tok := by
  match fuel, h with
  | 0, h =>
    cases h
    cases hn
  | fuel + 1, h =>
    obtain ⟨blank, hblank, ⟨tok, hcs, hspells⟩ | ⟨blank', cs', items, hblank', rfl, hr, rfl⟩ |
      ⟨blank', cs', members, hblank', rfl, hr, rfl⟩⟩ := read_intact h hn
    · exact ⟨blank, tok, hcs, hblank, hspells⟩
    · simp only [intact, Bool.and_eq_true, intactItems_iff] at hn
      obtain ⟨new, tok, rfl, rfl, hspells⟩ := spellsItems_of_readItems fuel hr hn.2
      exact ⟨blank, '[' :: (blank' ++ tok), by simp, hblank,
        .array (spellsItems_blank hblank' hspells)⟩
    · simp only [intact, Bool.and_eq_true, intactMembers_iff] at hn
      obtain ⟨new, tok, rfl, rfl, hspells⟩ := spellsMembers_of_readMembers fuel hr hn.2
      exact ⟨blank, '{' :: (blank' ++ '"' :: tok), by simp, hblank,
        .object (spellsMembers_blank hblank' hspells)⟩

theorem spellsItems_of_readItems {acc items : List Node} {cs rest : List Char} (fuel : Nat)
    (h : readItems fuel acc cs = (items, .closed, rest)) (hitems : ∀ n ∈ items, n.intact = true) :
    ∃ new tok, items = acc.reverse ++ new ∧ cs = tok ++ rest ∧ SpellsItems new tok := by
  match fuel, h with
  | 0, h => cases h
  | fuel + 1, h =>
    rw [readItems_succ] at h
    rcases hr : read fuel cs with ⟨n, cs₁⟩
    simp only [hr] at h
    obtain ⟨blank', hblank', ⟨hcs₁, hnew⟩ | ⟨blank'', cs₂, hblank'', hcs₁, hmore⟩⟩ :=
      afterItem_closed h
    · obtain ⟨blank, tok, rfl, hblank, hspells⟩ :=
        spells_of_read fuel hr (hitems n (by simp [hnew]))
      refine ⟨[n], _, ?_, ?_, .last hblank hspells hblank'⟩
      · rw [hnew, List.reverse_cons]
      · simp [hcs₁]
    · obtain ⟨new, toks, hnew, rfl, hrest⟩ := spellsItems_of_readItems fuel hmore hitems
      obtain ⟨blank, tok, rfl, hblank, hspells⟩ :=
        spells_of_read fuel hr (hitems n (by simp [hnew]))
      refine ⟨n :: new, _, ?_, ?_,
        .cons hblank hspells hblank' (spellsItems_blank hblank'' hrest)⟩
      · simp [hnew]
      · simp [hcs₁]

theorem spellsMembers_of_readMembers {acc members : List (Option String × Node)}
    {cs rest : List Char} (fuel : Nat) (h : readMembers fuel acc cs = (members, .closed, rest))
    (hmembers : ∀ m ∈ members, m.2.intact = true) :
    ∃ new tok, members = acc.reverse ++ new ∧ cs = tok ++ rest ∧
      SpellsMembers new ('"' :: tok) := by
  match fuel, h with
  | 0, h => cases h
  | fuel + 1, h =>
    obtain ⟨body, k, colon, cs', hstring, hcolon, rfl, hafter⟩ := readMembers_closed h
    have hkey : SpellsKey k ('"' :: (body ++ (colon ++ [':']))) := .intro blank_nil hstring hcolon
    rcases hr : read fuel cs' with ⟨n, cs₁⟩
    simp only [hr] at hafter
    obtain ⟨blank', hblank', ⟨hcs₁, hnew⟩ | ⟨blank'', cs₂, hblank'', hcs₁, hmore⟩⟩ :=
      afterMember_closed hafter
    · obtain ⟨blank, tok, rfl, hblank, hspells⟩ :=
        spells_of_read fuel hr (hmembers (k, n) (by simp [hnew]))
      refine ⟨[(k, n)], body ++ (colon ++ ':' :: (blank ++ (tok ++ (blank' ++ ['}'])))), ?_, ?_, ?_⟩
      · rw [hnew, List.reverse_cons]
      · simp [hcs₁]
      · have hlast := SpellsMembers.last hkey hblank hspells hblank'
        simpa using hlast
    · obtain ⟨new, toks, hnew, rfl, hrest⟩ := spellsMembers_of_readMembers fuel hmore hmembers
      obtain ⟨blank, tok, rfl, hblank, hspells⟩ :=
        spells_of_read fuel hr (hmembers (k, n) (by simp [hnew]))
      refine ⟨(k, n) :: new, body ++ (colon ++ ':' ::
        (blank ++ (tok ++ (blank' ++ ',' :: (blank'' ++ '"' :: toks))))), ?_, ?_, ?_⟩
      · simp [hnew]
      · simp [hcs₁]
      · have hcons := SpellsMembers.cons hkey hblank hspells hblank'
          (spellsMembers_blank hblank'' hrest)
        simpa using hcons

end

theorem spelled_of_parse {n : Node} {text : String} {rest : List Char}
    (h : parse text.toList = (n, rest)) (hn : n.intact = true) (hrest : Blank rest) :
    Spelled n text := by
  obtain ⟨blank, tok, htext, hblank, hspells⟩ := spells_of_read _ h hn
  exact ⟨blank, tok, rest, htext, hblank, hspells, hrest⟩

end Node

end HotplugDetect
