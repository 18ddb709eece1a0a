import HotplugDetect.Proofs.Files.Appending
import HotplugDetect.Proofs.Files.Parents

/-! # Making the directories of a path

A path can be made when no file stands in its way: the missing directories are then made one below
the other, and nothing else changes. The place of a path follows from its names alone.
-/

namespace HotplugDetect.FileTree

variable {t t' : FileTree} {path : String}

section Ways

def next (place : List String) (name : String) : List String :=
  if name = "." then place else if name = ".." then place.dropLast else place ++ [name]

def follow (place names : List String) : List String := names.foldl next place

def Before (place names : List String) (p : List String) : Prop :=
  ∃ above, above <+: names ∧ above ≠ names ∧ p = follow place above

def Short (names : List String) : Prop := ∀ name ∈ names, name.utf8ByteSize ≤ nameLimit

theorem short_dot : Short ["."] := by
  intro name hname
  rw [List.mem_singleton.mp hname]
  decide

theorem follow_cons (place : List String) (name : String) (rest : List String) :
    follow place (name :: rest) = follow (next place name) rest := rfl

theorem follow_append (place names more : List String) :
    follow place (names ++ more) = follow (follow place names) more := List.foldl_append

theorem follow_dots (place : List String) {dots : List String} (h : ∀ d ∈ dots, d = ".") :
    follow place dots = place := by
  induction dots with
  | nil => rfl
  | cons d dots ih =>
    obtain ⟨rfl, hdots⟩ := List.forall_mem_cons.mp h
    exact ih hdots

theorem before_concat {place names p : List String} {name : String} :
    Before place (names ++ [name]) p ↔ ∃ above, above <+: names ∧ p = follow place above := by
  constructor
  · rintro ⟨above, habove, hne, hp⟩
    exact ⟨above, (List.prefix_concat_iff.mp habove).resolve_left hne, hp⟩
  · rintro ⟨above, habove, hp⟩
    refine ⟨above, habove.trans (List.prefix_append ..), fun heq => ?_, hp⟩
    have hlength := habove.length_le
    rw [heq, List.length_append, List.length_singleton] at hlength
    omega

theorem Before.start (place : List String) (name : String) (rest : List String) :
    Before place (name :: rest) place :=
  ⟨[], List.nil_prefix, (List.cons_ne_nil _ _).symm, rfl⟩

theorem Before.cons {place p rest : List String} {name : String}
    (h : Before (next place name) rest p) : Before place (name :: rest) p := by
  obtain ⟨above, habove, hne, rfl⟩ := h
  exact ⟨name :: above, List.cons_prefix_cons.mpr ⟨rfl, habove⟩,
    fun heq => hne (List.cons.inj heq).2, rfl⟩

theorem walk_of_directories {names place : List String} (hshort : Short names)
    (h : ∀ p, Before place names p → t.entry? p = some .directory) :
    t.walk place names = .ok (follow place names) := by
  induction names generalizing place with
  | nil => rfl
  | cons name rest ih =>
    obtain ⟨hname, hrest⟩ := List.forall_mem_cons.mp hshort
    have hgo : t.walk (next place name) rest = .ok (follow (next place name) rest) :=
      ih hrest fun p hp => h p hp.cons
    rw [walk_of_directory (h place (.start place name rest)), follow_cons]
    unfold next at hgo ⊢
    by_cases hdot : name = "."
    · simpa only [if_pos hdot] using hgo
    · by_cases hdots : name = ".."
      · simpa only [if_neg hdot, if_pos hdots] using hgo
      · have hthere : ¬(rest ≠ [] ∧ (t.entry? (place ++ [name])).isNone) := by
          rintro ⟨hne, hnone⟩
          obtain ⟨following, more, rfl⟩ := List.exists_cons_of_ne_nil hne
          have hdirectory := h (place ++ [name]) <| Before.cons <| by
            rw [show next place name = place ++ [name] by simp [next, hdot, hdots]]
            exact .start ..
          rw [hdirectory] at hnone
          cases hnone
        simpa only [if_neg hdot, if_neg hdots, if_neg hname.not_gt, if_neg hthere] using hgo

theorem walk_cases {names place : List String} (hshort : Short names)
    (h : ∀ p, Before place names p → ∀ content, t.entry? p ≠ some (.file content)) :
    (∀ p, Before place names p → t.entry? p = some .directory) ∨
      t.walk place names = .error .notFound := by
  induction names generalizing place with
  | nil =>
    refine .inl ?_
    rintro p ⟨above, habove, hne, -⟩
    exact absurd (List.prefix_nil.mp habove) hne
  | cons name rest ih =>
    obtain ⟨hname, hrest⟩ := List.forall_mem_cons.mp hshort
    have hstart := h place (.start place name rest)
    rcases hentry : t.entry? place with _ | content | _
    · exact .inr (by rw [walk, hentry])
    · exact absurd hentry (hstart content)
    · rcases @ih (next place name) hrest fun p hp => h p hp.cons with hall | hmissing
      · refine .inl ?_
        rintro p ⟨above, habove, hne, rfl⟩
        cases above with
        | nil => exact hentry
        | cons first above =>
          obtain ⟨rfl, hrest⟩ := List.cons_prefix_cons.mp habove
          exact hall _ ⟨above, hrest, fun heq => hne (heq ▸ rfl), rfl⟩
      · right
        rw [walk_of_directory hentry]
        unfold next at hmissing
        by_cases hdot : name = "."
        · simpa only [if_pos hdot] using hmissing
        · by_cases hdots : name = ".."
          · simpa only [if_neg hdot, if_pos hdots] using hmissing
          · rw [if_neg hdot, if_neg hdots] at hmissing
            rw [if_neg hdot, if_neg hdots, if_neg hname.not_gt]
            split
            · rfl
            · exact hmissing

end Ways

section Furnishing

/-- Directories were added at places of a kind, and nothing else changed. -/
structure Furnished (t t' : FileTree) (added : List String → Prop) : Prop where
  here : t'.here = t.here
  entry : ∀ p, t'.entry? p = t.entry? p ∨
    t.entry? p = none ∧ t'.entry? p = some .directory ∧ added p

variable {added added' : List String → Prop}

theorem Furnished.refl (t : FileTree) : t.Furnished t added := ⟨rfl, fun _ => .inl rfl⟩

theorem Furnished.trans {t'' : FileTree} (h : t.Furnished t' added) (h' : t'.Furnished t'' added) :
    t.Furnished t'' added := by
  refine ⟨h'.here.trans h.here, fun p => ?_⟩
  rcases h.entry p with hp | ⟨hnone, hnew, hadded⟩
  · rw [← hp]
    exact h'.entry p
  · refine .inr ⟨hnone, ?_, hadded⟩
    rcases h'.entry p with hp | ⟨hnone', -⟩
    · rw [hp, hnew]
    · rw [hnew] at hnone'
      cases hnone'

theorem Furnished.mono (h : t.Furnished t' added) (himp : ∀ p, added p → added' p) :
    t.Furnished t' added' :=
  ⟨h.here, fun p => (h.entry p).imp_right fun ⟨hnone, hnew, hadded⟩ => ⟨hnone, hnew, himp p hadded⟩⟩

theorem Furnished.kept (h : t.Furnished t' added) {p : List String} {e : Entry}
    (hp : t.entry? p = some e) : t'.entry? p = some e := by
  rcases h.entry p with heq | ⟨hnone, -⟩
  · rw [heq, hp]
  · rw [hp] at hnone
    cases hnone

theorem Furnished.file (h : t.Furnished t' added) {p : List String} {content : ByteArray}
    (hp : t'.entry? p = some (.file content)) : t.entry? p = some (.file content) := by
  rcases h.entry p with heq | ⟨-, hnew, -⟩
  · rw [← heq, hp]
  · rw [hp] at hnew
    cases hnew

theorem furnished_put {place : List String} (hnone : t.entry? place = none) (h : added place) :
    t.Furnished (t.put place .directory) added := by
  refine ⟨rfl, fun p => ?_⟩
  rw [lookup_put]
  split
  · rename_i heq
    exact .inr ⟨heq ▸ hnone, rfl, heq ▸ h⟩
  · exact .inl rfl

/-- Whatever comes of it, making directories adds directories only. -/
theorem furnished_ensureDirectory (t : FileTree) (path : String) :
    t.Furnished (t.ensureDirectory path).2 fun _ => True := by
  unfold ensureDirectory
  split
  · rename_i t' hmade
    obtain ⟨-, -, hmade⟩ := bind_eq_ok.mp hmade
    obtain ⟨place, -, hmade⟩ := bind_eq_ok.mp hmade
    split at hmade
    · cases hmade
      exact furnished_put ‹_› trivial
    · cases hmade
  · exact .refl t

theorem furnished_makeAll (paths : List String) (t : FileTree) :
    t.Furnished (t.makeAll paths).2 fun _ => True := by
  induction paths with
  | nil => exact .refl t
  | cons path above ih =>
    unfold makeAll
    split
    · exact .refl t
    · split
      · split
        · rename_i t' habove
          rw [habove] at ih
          exact ih.trans (furnished_ensureDirectory t' path)
        · exact ih
      · exact furnished_ensureDirectory t path

theorem furnished_makeDirectories (t : FileTree) (path : String) :
    t.Furnished (t.makeDirectories path).2 fun _ => True :=
  furnished_makeAll _ t

theorem furnished_madeFor (t : FileTree) (path : String) :
    t.Furnished (t.madeFor path).2 fun _ => True := by
  unfold madeFor
  split
  · exact .refl t
  · exact furnished_makeDirectories t _

theorem Furnished.grown (h : t.Furnished t' added) : t.Grown t' :=
  ⟨h.here, h.kept, fun hp => ⟨_, h.kept hp⟩⟩

end Furnishing

section Making

/-- A path that can be made: its names are short and no file stands in its way. -/
structure Makeable (t : FileTree) (path : String) : Prop where
  text : path = "" ∨ checkPath path = .ok ()
  ends : Path.EndsInName path ∨ Path.names path = [] ∨ Path.names path = ["."]
  short : Short (Path.names path)
  start : t.entry? (t.origin path) = some .directory
  clear : ∀ above, above <+: Path.names path → ∀ content,
    t.entry? (follow (t.origin path) above) ≠ some (.file content)

def Way (t : FileTree) (path : String) (p : List String) : Prop :=
  ∃ above, above <+: Path.names path ∧ p = follow (t.origin path) above

theorem resolve_of_directories (htext : checkPath path = .ok ()) (hshort : Short (Path.names path))
    (h : ∀ p, t.Way path p → t.entry? p = some .directory) :
    t.resolve path = .ok (follow (t.origin path) (Path.names path)) := by
  refine bind_eq_ok.mpr ⟨(), htext, ?_⟩
  cases Path.endsInSlash path with
  | false =>
    rw [if_neg Bool.false_ne_true, List.append_nil]
    refine walk_of_directories hshort fun p hp => ?_
    obtain ⟨above, habove, -, hp⟩ := hp
    exact h p ⟨above, habove, hp⟩
  | true =>
    rw [if_pos rfl, walk_of_directories (List.forall_mem_append.mpr ⟨hshort, short_dot⟩),
      follow_append]
    · rfl
    · exact fun p hp => h p (before_concat.mp hp)

/-- The last directory of a way is made, or is there. -/
theorem ensureDirectory_of_above (htext : checkPath path = .ok ())
    (hshort : Short (Path.names path))
    (hfile : ∀ content, t.entry? (follow (t.origin path) (Path.names path)) ≠ some (.file content))
    (h : ∀ p, Before (t.origin path) (Path.names path) p → t.entry? p = some .directory) :
    ∃ t', t.ensureDirectory path = (.ok (), t') ∧ t.Furnished t' (t.Way path) ∧
      ∀ p, t.Way path p → t'.entry? p = some .directory := by
  have hwalk := walk_of_directories hshort h
  have hend : t.Way path (follow (t.origin path) (Path.names path)) :=
    ⟨_, List.prefix_rfl, rfl⟩
  have hway (p : List String) (hp : t.Way path p) :
      p = follow (t.origin path) (Path.names path) ∨
        Before (t.origin path) (Path.names path) p := by
    obtain ⟨above, habove, rfl⟩ := hp
    by_cases heq : above = Path.names path
    · exact .inl (heq ▸ rfl)
    · exact .inr ⟨above, habove, heq, rfl⟩
  rcases hentry : t.entry? (follow (t.origin path) (Path.names path)) with _ | content | _
  · have hmade : t.makeDirectory path =
        .ok (t.put (follow (t.origin path) (Path.names path)) .directory) := by
      refine bind_eq_ok.mpr ⟨(), htext, bind_eq_ok.mpr ⟨_, hwalk, ?_⟩⟩
      simp only [hentry]
    refine ⟨_, by rw [ensureDirectory, hmade], furnished_put hentry hend, fun p hp => ?_⟩
    rw [lookup_put]
    split
    · rfl
    · rename_i hne
      exact h p ((hway p hp).resolve_left hne)
  · exact absurd hentry (hfile content)
  · have hall (p : List String) (hp : t.Way path p) : t.entry? p = some .directory := by
      rcases hway p hp with rfl | hbefore
      · exact hentry
      · exact h p hbefore
    have hoccupied : t.makeDirectory path = .error .occupied := by
      simp only [makeDirectory, htext, hwalk, hentry, bind, Except.bind]
    have hthere : t.isDirectory path = true := by
      simp only [isDirectory, resolve_of_directories htext hshort hall, Except.toOption,
        Option.bind_some, hentry]
    exact ⟨t, by simp only [ensureDirectory, hoccupied, hthere, if_true], .refl t, hall⟩

theorem checkPath_eq_ok : checkPath path = .ok () ↔
    path ≠ "" ∧ '\x00' ∉ path.toList ∧ path.utf8ByteSize < pathLimit := by
  unfold checkPath
  split_ifs with hempty hzero hlong
  · simp [hempty]
  · simp_all
  · simp_all [Nat.not_lt.mpr]
  · simp_all

theorem origin_of_above {q : String} (hq : Path.Above q path) (t : FileTree) :
    t.origin q = t.origin path := by
  have habsolute : Path.isAbsolute q = Path.isAbsolute path := by
    refine Bool.eq_iff_iff.mpr ⟨fun hroot => ?_, hq.absolute⟩
    exact (Path.isAbsolute_iff path).mpr (((Path.isAbsolute_iff q).mp hroot).trans hq.text)
  rw [origin, origin, habsolute]

theorem checkPath_of_above {q : String} (hq : Path.Above q path)
    (h : path = "" ∨ checkPath path = .ok ()) : q = "" ∨ checkPath q = .ok () := by
  by_cases hempty : q = ""
  · exact .inl hempty
  · obtain ⟨rest, hrest⟩ := hq.text
    have hpath : path = q ++ String.ofList rest := by
      refine String.toList_inj.mp ?_
      simp [hrest]
    have hne : path ≠ "" := by
      rintro rfl
      exact hempty (String.toList_eq_nil_iff.mp (List.append_eq_nil_iff.mp hrest).1)
    obtain ⟨-, hzero, hlong⟩ := checkPath_eq_ok.mp (h.resolve_left hne)
    refine .inr (checkPath_eq_ok.mpr ⟨hempty, fun hin => hzero (hq.text.subset hin), ?_⟩)
    rw [hpath, String.utf8ByteSize_append] at hlong
    omega

theorem names_of_above {q : String} (hq : Path.Above q path) :
    Path.names q <+: Path.names path := by
  obtain ⟨dots, last, hnames, -⟩ := hq.names
  exact hnames ▸ List.prefix_append ..

theorem before_iff_way {q : String} (hq : Path.Above q path) {p : List String} :
    Before (t.origin path) (Path.names path) p ↔ t.Way q p := by
  obtain ⟨dots, last, hnames, hdots⟩ := hq.names
  rw [hnames, ← List.append_assoc, before_concat, Way, origin_of_above hq]
  constructor
  · rintro ⟨above, habove, rfl⟩
    rcases List.prefix_or_prefix_of_prefix habove (List.prefix_append _ dots)
      with hshorter | hlonger
    · exact ⟨above, hshorter, rfl⟩
    · obtain ⟨more, rfl⟩ := hlonger
      have hmore : more <+: dots := (List.prefix_append_right_inj _).mp habove
      refine ⟨_, List.prefix_rfl, ?_⟩
      rw [follow_append, follow_dots _ fun d hd => hdots d (hmore.subset hd)]
  · rintro ⟨above, habove, rfl⟩
    exact ⟨above, habove.trans (List.prefix_append ..), rfl⟩

theorem makeable_above {q : String} (hq : Path.Above q path)
    (htext : path = "" ∨ checkPath path = .ok ()) (hshort : Short (Path.names path))
    (hstart : t.entry? (t.origin path) = some .directory)
    (hclear : ∀ p, Before (t.origin path) (Path.names path) p → ∀ content,
      t.entry? p ≠ some (.file content)) : t.Makeable q where
  text := checkPath_of_above hq htext
  ends := hq.ends
  short := fun name hname => hshort name ((names_of_above hq).subset hname)
  start := by
    rw [origin_of_above hq]
    exact hstart
  clear := fun above habove => hclear _ ((before_iff_way hq).mpr ⟨above, habove, rfl⟩)

theorem length_lt_of_above {q : String} (hq : Path.Above q path) : q.length < path.length := by
  obtain ⟨dots, last, hnames, -⟩ := hq.names
  rw [← String.length_toList, ← String.length_toList]
  refine lt_of_le_of_ne hq.text.length_le fun hlength => ?_
  rw [String.toList_inj.mp (hq.text.eq_of_length hlength)] at hnames
  simp at hnames

theorem makeAll_empty (h : t.Makeable "") (fuel : Nat) :
    t.makeAll (Path.ancestorsFor fuel "") = (.ok (), t) ∧
      ∀ p, t.Way "" p → t.entry? p = some .directory := by
  refine ⟨by cases fuel <;> simp [Path.ancestorsFor, makeAll], ?_⟩
  rintro p ⟨above, habove, rfl⟩
  have hnames : Path.names "" = [] := by decide +kernel
  rw [hnames, List.prefix_nil] at habove
  rw [habove]
  exact h.start

/-- A path that can be made is made, and nothing else. -/
theorem makeAll_ancestors (fuel : Nat) (path : String) (hfuel : path.length ≤ fuel)
    (h : t.Makeable path) :
    ∃ t', t.makeAll (Path.ancestorsFor fuel path) = (.ok (), t') ∧ t.Furnished t' (t.Way path) ∧
      ∀ p, t.Way path p → t'.entry? p = some .directory := by
  induction fuel generalizing path with
  | zero =>
    obtain rfl : path = "" := String.length_eq_zero_iff.mp (Nat.le_zero.mp hfuel)
    obtain ⟨hmade, hall⟩ := makeAll_empty h 0
    exact ⟨t, hmade, .refl t, hall⟩
  | succ fuel ih =>
    by_cases hempty : path = ""
    · subst hempty
      obtain ⟨hmade, hall⟩ := makeAll_empty h (fuel + 1)
      exact ⟨t, hmade, .refl t, hall⟩
    have htext := h.text.resolve_left hempty
    have hfile (p : List String) (hp : Before (t.origin path) (Path.names path) p)
        (content : ByteArray) : t.entry? p ≠ some (.file content) := by
      obtain ⟨above, habove, -, rfl⟩ := hp
      exact h.clear above habove content
    rw [Path.ancestorsFor, makeAll, if_neg hempty]
    rcases walk_cases h.short hfile with hall | hmissing
    · -- every directory above the last one is there
      have hfound : t.makeDirectory path ≠ .error .notFound := by
        simp only [makeDirectory, htext, walk_of_directories h.short hall, bind, Except.bind]
        split <;> simp
      obtain ⟨t', hmade, hpost⟩ := ensureDirectory_of_above htext h.short
        (h.clear _ List.prefix_rfl) hall
      refine ⟨t', ?_, hpost⟩
      split
      · rename_i hnot
        exact absurd hnot hfound
      · exact hmade
    · have hfound : t.makeDirectory path = .error .notFound := by
        simp only [makeDirectory, htext, hmissing, bind, Except.bind]
      have hends : Path.EndsInName path := by
        refine h.ends.resolve_right ?_
        rintro (hnames | hnames)
        · rw [hnames] at hmissing
          cases hmissing
        · rw [hnames, walk_of_directory h.start, if_pos rfl] at hmissing
          cases hmissing
      obtain ⟨q, hparent, hq⟩ := Path.exists_parent hends
      have hmakeable := makeable_above hq h.text h.short h.start hfile
      have hshorter : q.length ≤ fuel := Nat.le_of_lt_succ ((length_lt_of_above hq).trans_le hfuel)
      obtain ⟨t₁, habove, hfurnished, hdirectories⟩ := ih q hshorter hmakeable
      have hsame := origin_eq hfurnished.here path
      obtain ⟨t', hmade, hfurnished', hall⟩ := ensureDirectory_of_above (t := t₁) htext h.short
        (fun content hin => by
          rw [hsame] at hin
          exact h.clear _ List.prefix_rfl content (hfurnished.file hin))
        (fun p hp => by
          rw [hsame] at hp
          exact hdirectories p ((before_iff_way hq).mp hp))
      refine ⟨t', ?_, ?_, ?_⟩
      · rw [hfound, hparent]
        simp only [Option.elim, habove, hmade]
      · have hway (p : List String) (hp : t₁.Way path p) : t.Way path p := by
          obtain ⟨above, habove, rfl⟩ := hp
          exact ⟨above, habove, by rw [hsame]⟩
        refine (hfurnished.mono fun p hp => ?_).trans (hfurnished'.mono hway)
        obtain ⟨above, habove, -, rfl⟩ := (before_iff_way hq).mpr hp
        exact ⟨above, habove, rfl⟩
      · rintro p ⟨above, habove, rfl⟩
        exact hall _ ⟨above, habove, by rw [hsame]⟩

/-- The directories of a path are made when nothing is in the way. -/
theorem Makeable.makeDirectories (h : t.Makeable path) :
    ∃ t', t.makeDirectories path = (.ok (), t') ∧ t.Furnished t' (t.Way path) ∧
      ∀ p, t.Way path p → t'.entry? p = some .directory :=
  makeAll_ancestors path.length path le_rfl h

end Making

section Writing

/-- A file can be written under the path: its text names a file, the directories that there are lead
to it, and its place is neither a directory nor one of those that have to be there. -/
structure Writable (t : FileTree) (path : String) : Prop where
  text : checkPath path = .ok ()
  name : ∃ name, (Path.names path).getLast? = some name ∧ name ≠ "." ∧ name ≠ ".."
  slash : Path.endsInSlash path = false
  short : Short (Path.names path)
  start : t.entry? (t.origin path) = some .directory
  clear : ∀ p, Before (t.origin path) (Path.names path) p → ∀ content,
    t.entry? p ≠ some (.file content)
  free : t.entry? (follow (t.origin path) (Path.names path)) ≠ some .directory
  apart : ¬Before (t.origin path) (Path.names path) (follow (t.origin path) (Path.names path))

theorem target_of_directories {name : String} (htext : checkPath path = .ok ())
    (hname : (Path.names path).getLast? = some name) (hdot : name ≠ ".") (hdots : name ≠ "..")
    (hslash : Path.endsInSlash path = false) (hshort : Short (Path.names path))
    (h : ∀ p, Before (t.origin path) (Path.names path) p → t.entry? p = some .directory) :
    t.target path = .ok (follow (t.origin path) (Path.names path)) := by
  obtain ⟨above, hnames⟩ := List.getLast?_eq_some_iff.mp hname
  rw [hnames] at hshort h
  obtain ⟨habove, hlast⟩ := List.forall_mem_append.mp hshort
  refine target_eq_ok.mpr ⟨htext, name, follow (t.origin path) above, hname, ?_, ?_, ?_⟩
  · rw [hnames, List.dropLast_concat, walk_of_directories
      (List.forall_mem_append.mpr ⟨habove, short_dot⟩)
      fun p hp => h p (before_concat.mpr (before_concat.mp hp)), follow_append]
    rfl
  · simp [hdot, hdots, hslash]
  · rw [hnames, follow_append]
    refine walk_of_directories hlast fun p hp => ?_
    obtain ⟨none, hnone, rfl⟩ := (@before_concat _ [] _ _).mp hp
    rw [List.prefix_nil.mp hnone]
    exact h _ (before_concat.mpr ⟨above, List.prefix_rfl, rfl⟩)

/-- With the directories made, a writable path leads to a file or to a place for one. -/
theorem Writable.prepared (h : t.Writable path) :
    ∃ q t', Path.parent? path = some q ∧ t.makeDirectories q = (.ok (), t') ∧
      t'.target path = .ok (follow (t.origin path) (Path.names path)) ∧
      t'.entry? (follow (t.origin path) (Path.names path)) ≠ some .directory := by
  obtain ⟨name, hname, hdot, hdots⟩ := h.name
  obtain ⟨q, hparent, hq⟩ := Path.exists_parent (Path.endsInName_of_getLast? hname hdot h.slash)
  obtain ⟨t', hmade, hfurnished, hall⟩ :=
    (makeable_above hq (.inr h.text) h.short h.start h.clear).makeDirectories
  have horigin := origin_eq hfurnished.here path
  refine ⟨q, t', hparent, hmade, ?_, ?_⟩
  · have htarget := target_of_directories (t := t') h.text hname hdot hdots h.slash h.short
      fun p hp => hall p ((before_iff_way hq).mp (by rwa [horigin] at hp))
    rwa [horigin] at htarget
  · rcases hfurnished.entry (follow (t.origin path) (Path.names path)) with hsame | ⟨-, -, hadded⟩
    · rw [hsame]
      exact h.free
    · exact absurd ((before_iff_way hq).mpr hadded) h.apart

end Writing

end HotplugDetect.FileTree
