import Mathlib.Tactic.SplitIfs
import HotplugDetect.CommandLine

/-! # Appending to a file

A path that led to a file once leads to the same file after text went into it. What is appended
piece by piece is found in the file in the same order.
-/

namespace HotplugDetect.FileTree

variable {t t' : FileTree} {path : String} {place : List String} {content : ByteArray}

section Places

theorem lookup_put (t : FileTree) (place : List String) (e : Entry) (p : List String) :
    entry? (t.put place e) p = if p = place then some e else t.entry? p := by
  unfold put entry?
  by_cases h : p = place
  · simp [h]
  · have hne : (p == place) = false := by simpa using h
    have hothers (es : List (List String × Entry)) :
        (es.filter (·.1 != place)).lookup p = es.lookup p := by
      induction es with
      | nil => rfl
      | cons x es ih =>
        rw [List.filter_cons]
        split
        · rw [List.lookup_cons, List.lookup_cons, ih]
        · rename_i hx
          have hplace : x.1 = place := by simpa using hx
          rw [List.lookup_cons, hplace, hne, ih]
    rw [List.lookup_cons, hne, hothers, if_neg h]

theorem walk_cons {p rest q : List String} {name : String} (h : t.walk p (name :: rest) = .ok q) :
    t.entry? p = some .directory := by
  unfold walk at h
  split at h
  · cases h
  · cases h
  · assumption

theorem walk_of_directory {p : List String} (h : t.entry? p = some .directory) (name : String)
    (rest : List String) :
    t.walk p (name :: rest) =
      if name = "." then t.walk p rest
      else if name = ".." then t.walk p.dropLast rest
      else if nameLimit < name.utf8ByteSize then .error .nameTooLong
      else if rest ≠ [] ∧ (t.entry? (p ++ [name])).isNone then .error .notFound
      else t.walk (p ++ [name]) rest := by
  rw [walk, h]

/-- Nothing goes away: directories stay directories, and files stay files. -/
structure Grown (t t' : FileTree) : Prop where
  here : t'.here = t.here
  directory : ∀ {p}, t.entry? p = some .directory → t'.entry? p = some .directory
  file : ∀ {p content}, t.entry? p = some (.file content) →
    ∃ content', t'.entry? p = some (.file content')

theorem Grown.refl (t : FileTree) : t.Grown t := ⟨rfl, id, fun h => ⟨_, h⟩⟩

theorem Grown.trans {t'' : FileTree} (h : t.Grown t') (h' : t'.Grown t'') : t.Grown t'' := by
  refine ⟨h'.here.trans h.here, fun hp => h'.directory (h.directory hp), fun hp => ?_⟩
  obtain ⟨_, hp'⟩ := h.file hp
  exact h'.file hp'

theorem Grown.missing (h : t.Grown t') {p : List String} (hp : (t'.entry? p).isNone) :
    (t.entry? p).isNone := by
  rcases hentry : t.entry? p with _ | content | _
  · rfl
  · obtain ⟨_, hp'⟩ := h.file hentry
    rw [hp'] at hp
    cases hp
  · rw [h.directory hentry] at hp
    cases hp

/-- A way that could be gone once can still be gone. -/
theorem Grown.walk (h : t.Grown t') (p names : List String) {q : List String}
    (hwalk : t.walk p names = .ok q) : t'.walk p names = .ok q := by
  induction names generalizing p with
  | nil => exact hwalk
  | cons name rest ih =>
    have hdirectory := walk_cons hwalk
    rw [walk_of_directory hdirectory] at hwalk
    rw [walk_of_directory (h.directory hdirectory)]
    split_ifs at hwalk with hdot hdots hlong hgone
    · rw [if_pos hdot]
      exact ih p hwalk
    · rw [if_neg hdot, if_pos hdots]
      exact ih _ hwalk
    · rw [if_neg hdot, if_neg hdots, if_neg hlong,
        if_neg fun hgone' => hgone ⟨hgone'.1, h.missing hgone'.2⟩]
      exact ih _ hwalk

theorem grown_put_file (hplace : t.entry? place ≠ some .directory) (content : ByteArray) :
    t.Grown (t.put place (.file content)) := by
  refine ⟨rfl, fun {p} hp => ?_, fun {p _} hp => ?_⟩
  · have hne : p ≠ place := by
      rintro rfl
      exact hplace hp
    rw [lookup_put, if_neg hne, hp]
  · rw [lookup_put]
    split
    · exact ⟨content, rfl⟩
    · exact ⟨_, hp⟩

theorem walk_append_dot (p names : List String) {q : List String}
    (h : t.walk p (names ++ ["."]) = .ok q) (name : String) :
    t.walk p (names ++ [name]) = t.walk q [name] := by
  induction names generalizing p with
  | nil =>
    rw [List.nil_append, walk_of_directory (walk_cons h), if_pos rfl] at h
    cases h
    rfl
  | cons first rest ih =>
    have hdirectory := walk_cons h
    rw [List.cons_append, walk_of_directory hdirectory] at h ⊢
    have hnil (last : String) : (rest ++ [last] ≠ []) = True := by simp
    simp only [hnil, true_and] at h ⊢
    split_ifs at h ⊢ with hdot hdots hlong hgone
    · exact ih p h
    · exact ih _ h
    · exact ih _ h

theorem target_eq_ok :
    t.target path = .ok place ↔
      checkPath path = .ok () ∧ ∃ name directory, (Path.names path).getLast? = some name ∧
        t.walk (t.origin path) ((Path.names path).dropLast ++ ["."]) = .ok directory ∧
          ¬(name = "." ∨ name = ".." ∨ Path.endsInSlash path) ∧
            t.walk directory [name] = .ok place := by
  unfold target
  rw [bind_eq_ok]
  constructor
  · rintro ⟨⟨⟩, hcheck, h⟩
    refine ⟨hcheck, ?_⟩
    simp only at h
    split at h
    · cases h
    · rename_i name hlast
      obtain ⟨directory, hdirectory, h⟩ := bind_eq_ok.mp h
      split at h
      · cases h
      · exact ⟨name, directory, hlast, hdirectory, ‹_›, h⟩
  · rintro ⟨hcheck, name, directory, hlast, hdirectory, hname, h⟩
    refine ⟨(), hcheck, ?_⟩
    simp only [hlast]
    exact bind_eq_ok.mpr ⟨directory, hdirectory, by rwa [if_neg hname]⟩

theorem origin_eq (h : t'.here = t.here) (path : String) : t'.origin path = t.origin path := by
  unfold origin
  rw [h]

/-- A path that led to a place once still leads there. -/
theorem Grown.target (h : t.Grown t') (htarget : t.target path = .ok place) :
    t'.target path = .ok place := by
  obtain ⟨hcheck, name, directory, hlast, hdirectory, hname, hwalk⟩ := target_eq_ok.mp htarget
  exact target_eq_ok.mpr ⟨hcheck, name, directory, hlast,
    by rw [origin_eq h.here]; exact h.walk _ _ hdirectory, hname, h.walk _ _ hwalk⟩

theorem target_put_file (htarget : t.target path = .ok place)
    (hplace : t.entry? place ≠ some .directory) (content : ByteArray) :
    (t.put place (.file content)).target path = .ok place :=
  (grown_put_file hplace content).target htarget

theorem resolve_of_target (h : t.target path = .ok place) : t.resolve path = .ok place := by
  obtain ⟨hcheck, name, directory, hlast, hdirectory, hname, hwalk⟩ := target_eq_ok.mp h
  have hslash : Path.endsInSlash path = false := by
    rw [← Bool.not_eq_true]
    exact fun hends => hname (.inr (.inr hends))
  obtain ⟨above, hnames⟩ := List.getLast?_eq_some_iff.mp hlast
  rw [hnames, List.dropLast_concat] at hdirectory
  refine bind_eq_ok.mpr ⟨(), hcheck, ?_⟩
  rw [hslash, if_neg Bool.false_ne_true, List.append_nil, hnames,
    walk_append_dot _ _ hdirectory, hwalk]

end Places

section Contents

/-- The path leads to a file with that content. -/
def Holds (t : FileTree) (path : String) (content : ByteArray) : Prop :=
  ∃ place, t.target path = .ok place ∧ t.entry? place = some (.file content)

theorem Holds.look (h : t.Holds path content) : t.look path = .ok content := by
  obtain ⟨place, htarget, hentry⟩ := h
  refine bind_eq_ok.mpr ⟨place, resolve_of_target htarget, ?_⟩
  simp only [hentry]

theorem edit_eq_ok {f : ByteArray → ByteArray} :
    t.edit path f = .ok t' ↔ ∃ place old, t.target path = .ok place ∧
      (t.entry? place = some (.file old) ∨ t.entry? place = none ∧ old = .empty) ∧
        t' = t.put place (.file (f old)) := by
  unfold edit
  rw [bind_eq_ok]
  constructor
  · rintro ⟨place, htarget, h⟩
    split at h
    · cases h
      exact ⟨place, .empty, htarget, .inr ⟨‹_›, rfl⟩, rfl⟩
    · cases h
    · rename_i old hentry
      cases h
      exact ⟨place, old, htarget, .inl hentry, rfl⟩
  · rintro ⟨place, old, htarget, hentry | ⟨hentry, rfl⟩, rfl⟩
    · exact ⟨place, htarget, by simp only [hentry]⟩
    · exact ⟨place, htarget, by simp only [hentry]⟩

theorem exists_edit (htarget : t.target path = .ok place)
    (hplace : t.entry? place ≠ some .directory) (f : ByteArray → ByteArray) :
    ∃ t', t.edit path f = .ok t' := by
  rcases hentry : t.entry? place with _ | old | _
  · exact ⟨_, edit_eq_ok.mpr ⟨place, .empty, htarget, .inr ⟨hentry, rfl⟩, rfl⟩⟩
  · exact ⟨_, edit_eq_ok.mpr ⟨place, old, htarget, .inl hentry, rfl⟩⟩
  · exact absurd hentry hplace

/-- After a change the path leads to the changed file. -/
theorem holds_of_edit {f : ByteArray → ByteArray} (h : t.edit path f = .ok t') :
    ∃ old, t'.Holds path (f old) := by
  obtain ⟨place, old, htarget, hentry, rfl⟩ := edit_eq_ok.mp h
  have hplace : t.entry? place ≠ some .directory := by
    rcases hentry with hfile | ⟨hnone, -⟩
    · rw [hfile]
      exact nofun
    · rw [hnone]
      exact nofun
  exact ⟨old, place, target_put_file htarget hplace _, by rw [lookup_put, if_pos rfl]⟩

theorem holds_of_append {text : String} (h : t.append path text = .ok t') :
    ∃ old, t'.Holds path (old ++ text.toUTF8) :=
  holds_of_edit h

theorem holds_of_write {text : String} (h : t.write path text = .ok t') :
    t'.Holds path text.toUTF8 :=
  let ⟨_, hholds⟩ := holds_of_edit h
  hholds

theorem Holds.append (h : t.Holds path content) (text : String) :
    ∃ t', t.append path text = .ok t' ∧ t'.Holds path (content ++ text.toUTF8) := by
  obtain ⟨place, htarget, hentry⟩ := h
  have hplace : t.entry? place ≠ some .directory := by
    rw [hentry]
    exact nofun
  refine ⟨t.put place (.file (content ++ text.toUTF8)), ?_, place,
    target_put_file htarget hplace _, by rw [lookup_put, if_pos rfl]⟩
  refine bind_eq_ok.mpr ⟨place, htarget, ?_⟩
  simp only [hentry]

end Contents

section Logs

def hostAt (time : FileTree → Nat) : Host (StateM FileTree) :=
  { host with clock := fun t => (time t, t) }

variable {time : FileTree → Nat}

theorem append_hostAt (text : String) (t : FileTree) :
    (hostAt time).append path text t =
      match t.append path text with
      | .ok t => (.ok (), t)
      | .error e => (.error e, t) := rfl

theorem makeDirectories_empty (t : FileTree) : t.makeDirectories "" = (.ok (), t) := by
  have hancestors : Path.ancestors "" = [""] := rfl
  rw [makeDirectories, hancestors, makeAll, if_pos rfl]

def madeFor (t : FileTree) (path : String) : Except Failure Unit × FileTree :=
  match Path.parent? path with
  | none => (.ok (), t)
  | some parent =>
    ((t.makeDirectories parent).1.mapError (.fileWrite parent), (t.makeDirectories parent).2)

theorem openFile_eq (time : FileTree → Nat) (path : String) (t : FileTree) :
    EventLog.openFile (hostAt time) path t =
      match t.madeFor path with
      | (.error e, t₁) => (.error e, t₁)
      | (.ok (), t₁) =>
        match t₁.append path "" with
        | .ok t' => (.ok ⟨some path⟩, t')
        | .error e => (.error (.fileWrite path e), t₁) := by
  unfold EventLog.openFile madeFor
  cases Path.parent? path with
  | none =>
    simp only [pure_bind]
    simp only [bind, StateT.bind, append_hostAt]
    cases t.append path "" <;> rfl
  | some parent =>
    by_cases hhere : parent = ""
    · subst hhere
      simp only [if_true, makeDirectories_empty, Except.mapError, pure_bind]
      simp only [bind, StateT.bind, append_hostAt]
      cases t.append path "" <;> rfl
    · have hmade : ((·.mapError (Failure.fileWrite parent)) <$>
          (hostAt time).makeDirectories parent) t =
          ((t.makeDirectories parent).1.mapError (.fileWrite parent),
            (t.makeDirectories parent).2) := rfl
      simp only [if_neg hhere, bind, StateT.bind, hmade]
      cases (t.makeDirectories parent).1 with
      | error e => rfl
      | ok =>
        simp only [Except.mapError, StateT.bind, append_hostAt]
        cases (t.makeDirectories parent).2.append path "" <;> rfl

theorem log_eq (time : FileTree → Nat) (log : EventLog) (r : LogRecord) (t : FileTree) :
    EventLog.log (hostAt time) log r t =
      ((), log.path.elim t fun path => ((t.append path (r.line (time t))).toOption).getD t) := by
  unfold EventLog.log
  cases log.path with
  | none => rfl
  | some path =>
    show ((), ((hostAt time).append path (r.line (time t)) t).2) = _
    rw [append_hostAt, Option.elim]
    cases t.append path (r.line (time t)) <;> rfl

theorem holds_of_openFile {log : EventLog}
    (h : EventLog.openFile (hostAt time) path t = (.ok log, t')) :
    log = ⟨some path⟩ ∧ ∃ content, t'.Holds path content := by
  rw [openFile_eq] at h
  split at h
  · cases h
  · split at h
    · rename_i happend
      cases h
      obtain ⟨old, hholds⟩ := holds_of_append happend
      exact ⟨rfl, _, hholds⟩
    · cases h

theorem openFile_of_new (t : FileTree) (path : String) (place : List String)
    (time : FileTree → Nat) (hparent : Path.parent? path = some "")
    (htarget : t.target path = .ok place) (hnew : t.entry? place = none) :
    ∃ opened, EventLog.openFile (hostAt time) path t = (.ok ⟨some path⟩, opened) ∧
      opened.look path = .ok .empty := by
  have hplace : t.entry? place ≠ some .directory := by
    rw [hnew]
    exact nofun
  have happend : t.append path "" = .ok (t.put place (.file .empty)) := by
    refine bind_eq_ok.mpr ⟨place, htarget, ?_⟩
    simp only [hnew]
    rfl
  have hholds : (t.put place (.file .empty)).Holds path .empty :=
    ⟨place, target_put_file htarget hplace _, by rw [lookup_put, if_pos rfl]⟩
  have hready : t.madeFor path = (.ok (), t) := by
    simp only [madeFor, hparent, makeDirectories_empty, Except.mapError]
  exact ⟨_, by simp only [openFile_eq, hready, happend], hholds.look⟩

/-- What is logged stands in the file, line by line. -/
theorem Holds.log (h : t.Holds path content) (time : FileTree → Nat) (r : LogRecord) :
    ∃ t', EventLog.log (hostAt time) ⟨some path⟩ r t = ((), t') ∧
      t'.Holds path (content ++ (r.line (time t)).toUTF8) := by
  obtain ⟨t', happend, hholds⟩ := h.append (r.line (time t))
  refine ⟨t', ?_, hholds⟩
  simp only [log_eq, Option.elim, happend, Except.toOption, Option.getD]

theorem Holds.logAll (h : t.Holds path content) (time : FileTree → Nat) (rs : List LogRecord) :
    ∃ t' times, CommandLine.logAll (hostAt time) ⟨some path⟩ rs t = ((), t') ∧
      times.length = rs.length ∧
      t'.Holds path (content ++ (String.join (List.zipWith LogRecord.line rs times)).toUTF8) := by
  induction rs generalizing t content with
  | nil =>
    refine ⟨t, [], rfl, rfl, ?_⟩
    have hnothing : (String.join (List.zipWith LogRecord.line [] [])).toUTF8 = .empty := rfl
    rwa [hnothing, ByteArray.append_empty]
  | cons r rs ih =>
    obtain ⟨t₁, hfirst, hholds⟩ := h.log time r
    obtain ⟨t', times, hrest, hlength, hall⟩ := ih hholds
    refine ⟨t', time t :: times, ?_, congrArg (· + 1) hlength, ?_⟩
    · have hlog : CommandLine.logAll (hostAt time) ⟨some path⟩ (r :: rs) t =
          CommandLine.logAll (hostAt time) ⟨some path⟩ rs
            (EventLog.log (hostAt time) ⟨some path⟩ r t).2 := rfl
      rw [hlog, hfirst, hrest]
    · rw [List.zipWith_cons_cons, String.join_cons]
      rw [ByteArray.append_assoc] at hall
      exact hall

end Logs

end HotplugDetect.FileTree
