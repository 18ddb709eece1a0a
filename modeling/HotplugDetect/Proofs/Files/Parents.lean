import Mathlib.Data.List.DropRight
import HotplugDetect.Files.Path

/-! # Paths and what lies above them

A path is its pieces joined by slashes, and the parent of a path that ends in a name leads along the
same way up to that name. The texts of the ancestors of a path are prefixes of it.
-/

namespace HotplugDetect.Path

section Pieces

theorem slash_not_mem_splitSlash (cs : List Char) :
    '/' ∉ (splitSlash cs).1 ∧ ∀ piece ∈ (splitSlash cs).2, '/' ∉ piece := by
  induction cs with
  | nil => exact ⟨List.not_mem_nil, fun _ h => absurd h List.not_mem_nil⟩
  | cons c cs ih =>
    by_cases h : c = '/'
    · refine ⟨by simp [splitSlash, h], ?_⟩
      simpa [splitSlash, h] using ih
    · refine ⟨by simp [splitSlash, h, Ne.symm h, ih.1], ?_⟩
      simpa [splitSlash, h] using ih.2

/-- Pieces without slashes are found again after joining. -/
theorem splitSlash_joinSlash {piece : List Char} {pieces : List (List Char)} (hpiece : '/' ∉ piece)
    (hpieces : ∀ p ∈ pieces, '/' ∉ p) : splitSlash (joinSlash piece pieces) = (piece, pieces) := by
  induction pieces generalizing piece with
  | nil =>
    induction piece with
    | nil => rfl
    | cons c cs ih =>
      have hrest := ih (List.not_mem_of_not_mem_cons hpiece)
      rw [joinSlash] at hrest ⊢
      simp [splitSlash, hrest, (List.ne_of_not_mem_cons hpiece).symm]
  | cons next pieces ih =>
    have hrest := ih (hpieces next List.mem_cons_self) fun p hp =>
      hpieces p (List.mem_cons_of_mem next hp)
    induction piece with
    | nil => simp [joinSlash, splitSlash, hrest]
    | cons c cs ih =>
      have hrest := ih (List.not_mem_of_not_mem_cons hpiece)
      simp [joinSlash_cons, splitSlash, hrest, (List.ne_of_not_mem_cons hpiece).symm]

def parts (path : String) : List String := (pieces path).1 :: (pieces path).2

theorem names_eq (path : String) : names path = (parts path).filter (· ≠ "") := rfl

theorem toList_join (p : String) (ps : List String) :
    (join (p :: ps)).toList = joinSlash p.toList (ps.map String.toList) := by
  induction ps generalizing p with
  | nil => simp [join, joinSlash]
  | cons q ps ih =>
    have hrest := ih q
    rw [join] at hrest ⊢
    rw [String.intercalate_cons_cons, String.toList_append, String.toList_append, hrest]
    simp [joinSlash]

theorem join_parts (path : String) : join (parts path) = path := by
  refine String.toList_inj.mp ?_
  rw [parts, toList_join]
  simp [pieces, Function.comp_def, joinSlash_splitSlash]

theorem parts_join {ps : List String} (hne : ps ≠ []) (hps : ∀ p ∈ ps, '/' ∉ p.toList) :
    parts (join ps) = ps := by
  obtain ⟨p, ps, rfl⟩ := List.exists_cons_of_ne_nil hne
  obtain ⟨hp, hps⟩ := List.forall_mem_cons.mp hps
  have hsplit : splitSlash (joinSlash p.toList (ps.map String.toList)) =
      (p.toList, ps.map String.toList) := splitSlash_joinSlash hp (by simpa using hps)
  simp [parts, pieces, toList_join, hsplit, Function.comp_def]

theorem slash_not_mem_of_parts {path piece : String} (h : piece ∈ parts path) :
    '/' ∉ piece.toList := by
  obtain ⟨hfirst, hrest⟩ := slash_not_mem_splitSlash path.toList
  rcases List.mem_cons.mp h with rfl | h
  · simpa [pieces] using hfirst
  · simp only [pieces, List.mem_map] at h
    obtain ⟨cs, hcs, rfl⟩ := h
    simpa using hrest cs hcs

theorem join_append_prefix (ps qs : List String) :
    (join ps).toList <+: (join (ps ++ qs)).toList := by
  by_cases hps : ps = []
  · simp [hps, join]
  · by_cases hqs : qs = []
    · simp [hqs]
    · rw [join, join, String.intercalate_append_of_ne_nil hps hqs]
      simp [List.append_assoc]

theorem isAbsolute_iff (path : String) : isAbsolute path = true ↔ ['/'] <+: path.toList := by
  simp [isAbsolute]

theorem endsInSlash_iff (path : String) : endsInSlash path = true ↔ ['/'] <:+ path.toList := by
  rw [endsInSlash, String.endsWith_eq_endsWith_toSlice, String.Slice.endsWith_string_iff]
  simp

theorem isAbsolute_of_parts {path : String} {ps : List String} (h : parts path = "" :: ps)
    (hps : ps ≠ []) : isAbsolute path = true := by
  rw [isAbsolute_iff, ← join_parts path, h, join, String.intercalate_cons_of_ne_nil hps]
  simp

end Pieces

section Parents

theorem trimEnd_eq (ps : List String) : trimEnd ps = ps.rdropWhile (!counts ·) := rfl

theorem trimEnd_concat {last : String} (h : counts last = true) (above : List String) :
    trimEnd (above ++ [last]) = above ++ [last] :=
  List.rdropWhile_concat_neg _ _ _ (by simp [h])

theorem exists_trimEnd (ps : List String) :
    ∃ tail, ps = trimEnd ps ++ tail ∧ ∀ p ∈ tail, counts p = false := by
  induction ps using List.reverseRecOn with
  | nil => exact ⟨[], rfl, fun _ h => absurd h List.not_mem_nil⟩
  | append_singleton ps p ih =>
    rw [trimEnd_eq, List.rdropWhile_concat, ← trimEnd_eq]
    cases hp : counts p with
    | true => exact ⟨[], by simp, fun _ h => absurd h List.not_mem_nil⟩
    | false =>
      obtain ⟨tail, hps, htail⟩ := ih
      refine ⟨tail ++ [p], ?_, ?_⟩
      · simpa [← List.append_assoc] using hps
      · simp only [List.mem_append, List.mem_singleton]
        rintro q (hq | rfl)
        · exact htail q hq
        · exact hp

theorem trimEnd_names (above : List String) :
    ∃ dots, above.filter (· ≠ "") = (trimEnd above).filter (· ≠ "") ++ dots ∧
      ∀ d ∈ dots, d = "." := by
  obtain ⟨tail, habove, htail⟩ := exists_trimEnd above
  refine ⟨tail.filter (· ≠ ""), ?_, ?_⟩
  · conv_lhs => rw [habove]
    exact List.filter_append ..
  · intro d hd
    obtain ⟨hd, hne⟩ := List.mem_filter.mp hd
    simpa [counts, of_decide_eq_true hne] using htail d hd

theorem exists_of_trimEnd_ne_nil {ps : List String} (h : trimEnd ps ≠ []) :
    ∃ above last, trimEnd ps = above ++ [last] ∧ counts last = true :=
  ⟨_, _, (List.dropLast_append_getLast h).symm, by
    simpa [trimEnd_eq] using List.rdropWhile_last_not (!counts ·) ps h⟩

theorem parent?_plain {path : String} (h : (pieces path).1 ≠ "" ∧ (pieces path).1 ≠ ".") :
    parent? path = some (join (trimEnd (trimEnd (parts path)).dropLast)) := by
  obtain ⟨hempty, hdot⟩ := h
  unfold parent? parts
  split <;> simp_all

theorem parent?_here {path : String} (h : (pieces path).1 = ".") :
    parent? path = if (trimEnd (pieces path).2).isEmpty then some ""
      else some (join ("." :: trimEnd (trimEnd (pieces path).2).dropLast)) := by
  unfold parent?
  split <;> simp_all

theorem parent?_absolute {path : String} (h : (pieces path).1 = "") (hbody : (pieces path).2 ≠ []) :
    parent? path = if (trimEnd (pieces path).2).isEmpty then none
      else some (if (trimEnd (trimEnd (pieces path).2).dropLast).isEmpty then "/"
        else join ("" :: trimEnd (trimEnd (pieces path).2).dropLast)) := by
  unfold parent?
  split <;> simp_all

def EndsInName (path : String) : Prop :=
  ∃ above last, parts path = above ++ [last] ∧ counts last = true

theorem endsInName_of_getLast? {path name : String} (h : (names path).getLast? = some name)
    (hdot : name ≠ ".") (hslash : endsInSlash path = false) : EndsInName path := by
  obtain ⟨above, last, hparts⟩ : ∃ above last, parts path = above ++ [last] :=
    ⟨_, _, (List.dropLast_append_getLast (List.cons_ne_nil _ _)).symm⟩
  refine ⟨above, last, hparts, ?_⟩
  have hlast : last ≠ "" := by
    rintro rfl
    by_cases habove : above = []
    · rw [names_eq, hparts, habove] at h
      cases h
    · rw [← Bool.not_eq_true, endsInSlash_iff, ← join_parts path, hparts, join,
        String.intercalate_append_of_ne_nil habove (by simp)] at hslash
      exact hslash (by simp)
  rw [names_eq, hparts, List.filter_append, List.filter_cons_of_pos (by simpa using hlast),
    List.filter_nil, List.getLast?_concat] at h
  obtain rfl := Option.some.inj h
  simp [counts, hlast, hdot]

/-- The first path leads to the directory of the second one, which has one more name. -/
structure Above (q path : String) : Prop where
  names : ∃ dots last, Path.names path = Path.names q ++ (dots ++ [last]) ∧ ∀ d ∈ dots, d = "."
  text : q.toList <+: path.toList
  absolute : isAbsolute path = true → isAbsolute q = true
  ends : EndsInName q ∨ Path.names q = [] ∨ Path.names q = ["."]

theorem above_join (root : List String) {path last : String} {ps : List String}
    (hparts : parts path = root ++ ps ++ [last]) (hlast : counts last = true)
    (hroot : root = [] ∨ root = [""] ∨ root = ["."])
    (hne : root ++ trimEnd ps ≠ []) (hne' : root ++ trimEnd ps ≠ [""]) :
    Above (join (root ++ trimEnd ps)) path := by
  obtain ⟨tail, hps, -⟩ := exists_trimEnd ps
  have hsub : ∀ p ∈ root ++ trimEnd ps, p ∈ parts path := by
    intro p hp
    rw [hparts, hps]
    simp only [List.mem_append] at hp ⊢
    tauto
  have hq : parts (join (root ++ trimEnd ps)) = root ++ trimEnd ps :=
    parts_join hne fun p hp => slash_not_mem_of_parts (hsub p hp)
  have htext : (join (root ++ trimEnd ps)).toList <+: path.toList := by
    have hprefix := join_append_prefix (root ++ trimEnd ps) (tail ++ [last])
    rwa [List.append_assoc, ← List.append_assoc (trimEnd ps), ← hps, ← List.append_assoc, ← hparts,
      join_parts] at hprefix
  refine ⟨?_, htext, fun habsolute => ?_, ?_⟩
  · obtain ⟨dots, hdots, hall⟩ := trimEnd_names ps
    refine ⟨dots, last, ?_, hall⟩
    have hlast' : last ≠ "" := by rintro rfl; cases hlast
    rw [names_eq, names_eq, hq, hparts, List.filter_append, List.filter_append, hdots,
      List.filter_append]
    simp [hlast']
  · rw [isAbsolute_iff] at habsolute ⊢
    refine List.prefix_of_prefix_length_le habsolute htext ?_
    refine List.length_pos_of_ne_nil fun hnil => hne' ?_
    rw [← hq, String.toList_eq_nil_iff.mp hnil]
    rfl
  · by_cases hrest : trimEnd ps = []
    · right
      rw [names_eq, hq, hrest, List.append_nil]
      rcases hroot with rfl | rfl | rfl
      · exact absurd hrest hne
      · exact .inl rfl
      · exact .inr rfl
    · obtain ⟨above, last', htrim, hlast'⟩ := exists_of_trimEnd_ne_nil hrest
      exact .inl ⟨root ++ above, last', by rw [hq, htrim, List.append_assoc], hlast'⟩

theorem above_empty {path last : String} (hparts : parts path = [last])
    (hlast : counts last = true) : Above "" path := by
  have hempty : last ≠ "" := by rintro rfl; cases hlast
  refine ⟨⟨[], last, ?_, fun d hd => absurd hd List.not_mem_nil⟩, List.nil_prefix,
    fun habsolute => ?_, .inr (.inl rfl)⟩
  · rw [names_eq, hparts]
    simp [hempty, names_eq, parts, pieces, splitSlash]
  · have hslash : '/' ∈ path.toList :=
      ((isAbsolute_iff path).mp habsolute).subset (List.mem_singleton_self _)
    have hpath : path = last := by rw [← join_parts path, hparts]; simp [join]
    rw [hpath] at hslash
    exact absurd hslash (slash_not_mem_of_parts (show last ∈ parts path by simp [hparts]))

theorem above_root {path last : String} {above : List String}
    (hparts : parts path = "" :: above ++ [last]) (hlast : counts last = true)
    (hrest : trimEnd above = []) : Above "/" path := by
  have hempty : last ≠ "" := by rintro rfl; cases hlast
  obtain ⟨dots, hdots, hall⟩ := trimEnd_names above
  have hnames : names "/" = [] := by decide +kernel
  have hslash := isAbsolute_of_parts hparts (by simp)
  refine ⟨⟨dots, last, ?_, hall⟩, (isAbsolute_iff path).mp hslash, fun _ => by decide +kernel,
    .inr (.inl hnames)⟩
  rw [hrest] at hdots
  rw [hnames, names_eq, hparts]
  simpa [hempty] using hdots

theorem trimEnd_cons {first : String} (h : counts first = true) (above : List String) :
    ∃ rest, trimEnd (first :: above) = first :: rest := by
  obtain ⟨tail, hps, htail⟩ := exists_trimEnd (first :: above)
  cases htrim : trimEnd (first :: above) with
  | nil =>
    rw [htrim, List.nil_append] at hps
    have hfirst := htail first (hps ▸ List.mem_cons_self)
    rw [h] at hfirst
    cases hfirst
  | cons p rest =>
    rw [htrim] at hps
    exact ⟨rest, by rw [(List.cons.inj hps).1]⟩

/-- A path that ends in a name has a parent, which leads along the same way. -/
theorem exists_parent {path : String} (h : EndsInName path) :
    ∃ q, parent? path = some q ∧ Above q path := by
  obtain ⟨above, last, hparts, hlast⟩ := h
  have hfirst : (pieces path).1 :: (pieces path).2 = above ++ [last] := hparts
  cases above with
  | nil =>
    obtain ⟨hpiece, -⟩ := List.cons.inj hfirst
    have hplain : (pieces path).1 ≠ "" ∧ (pieces path).1 ≠ "." := by
      rw [hpiece]
      constructor <;> (rintro rfl; cases hlast)
    refine ⟨"", ?_, above_empty hparts hlast⟩
    rw [parent?_plain hplain, hparts, trimEnd_concat hlast]
    rfl
  | cons first above =>
    obtain ⟨hpiece, hbody⟩ := List.cons.inj hfirst
    have htrim : trimEnd (pieces path).2 = above ++ [last] := by
      rw [hbody]
      exact trimEnd_concat hlast above
    by_cases hroot : first = ""
    · subst hroot
      rw [parent?_absolute hpiece (by simp [hbody]), htrim, List.dropLast_concat, if_neg (by simp)]
      refine ⟨_, rfl, ?_⟩
      by_cases hrest : trimEnd above = []
      · rw [hrest]
        exact above_root hparts hlast hrest
      · rw [if_neg (by simpa using hrest)]
        exact above_join [""] hparts hlast (.inr (.inl rfl)) (by simp) (by simpa using hrest)
    · by_cases hhere : first = "."
      · subst hhere
        rw [parent?_here hpiece, htrim, List.dropLast_concat, if_neg (by simp)]
        exact ⟨_, rfl, above_join ["."] hparts hlast (.inr (.inr rfl)) (by simp) (by simp)⟩
      · rw [parent?_plain (by rw [hpiece]; exact ⟨hroot, hhere⟩), hparts, trimEnd_concat hlast,
          List.dropLast_concat]
        obtain ⟨rest, hrest⟩ := trimEnd_cons (show counts first = true by
          simp [counts, hroot, hhere]) above
        exact ⟨_, rfl, above_join [] hparts hlast (.inl rfl) (by simp [hrest])
          (by simp [hrest, hroot])⟩

end Parents

end HotplugDetect.Path
