import Mathlib.Data.List.Forall2
import HotplugDetect.Proofs.Files.Directories
import HotplugDetect.Proofs.Json.Lines
import HotplugDetect.Proofs.Json.Values

/-! # What is in the files of event logs

Logs are opened, written and closed in any order. Whatever happens, a file gets the lines of the
records that were logged while it was the open log, and nothing else changes in any file.
-/

namespace HotplugDetect

namespace FileTree

variable {t t' : FileTree} {path : String}

def contentAt (t : FileTree) (p : List String) : ByteArray :=
  match t.entry? p with
  | some (.file content) => content
  | _ => .empty

theorem contentAt_of_file {p : List String} {content : ByteArray}
    (h : t.entry? p = some (.file content)) : t.contentAt p = content := by
  rw [contentAt, h]

theorem Furnished.contentAt {added : List String → Prop} (h : t.Furnished t' added)
    (p : List String) : t'.contentAt p = t.contentAt p := by
  unfold FileTree.contentAt
  rcases h.entry p with heq | ⟨hnone, hnew, -⟩
  · rw [heq]
  · rw [hnone, hnew]

/-- Text goes behind the file that the path leads to, and no other file changes. -/
theorem append_leaves {text : String} (h : t.append path text = .ok t') :
    t.Grown t' ∧ ∃ place content, t.target path = .ok place ∧ t'.target path = .ok place ∧
      t'.entry? place = some (.file content) ∧
      ∀ p, t'.contentAt p = t.contentAt p ++ if p = place then text.toUTF8 else .empty := by
  obtain ⟨place, old, htarget, hentry, rfl⟩ := edit_eq_ok.mp h
  have hplace : t.entry? place ≠ some .directory := by
    rcases hentry with hfile | ⟨hnone, -⟩ <;> simp_all
  have hold : t.contentAt place = old := by
    rcases hentry with hfile | ⟨hnone, rfl⟩ <;> simp_all [contentAt]
  have hnew : entry? (t.put place (.file (old ++ text.toUTF8))) place =
      some (.file (old ++ text.toUTF8)) := by
    rw [lookup_put, if_pos rfl]
  refine ⟨grown_put_file hplace _, place, _, htarget, target_put_file htarget hplace _, hnew,
    fun p => ?_⟩
  by_cases hp : p = place
  · subst hp
    rw [if_pos rfl, contentAt_of_file hnew, hold]
  · rw [if_neg hp, ByteArray.append_empty, contentAt, lookup_put, if_neg hp, contentAt]

theorem openFile_leaves (time : FileTree → Nat) (path : String) (t : FileTree) :
    ∃ result t', EventLog.openFile (hostAt time) path t = (result, t') ∧ t.Grown t' ∧
      (∀ p, t'.contentAt p = t.contentAt p) ∧
      ∀ log, result = .ok log → log = ⟨some path⟩ ∧ ∃ place content,
        t'.target path = .ok place ∧ t'.entry? place = some (.file content) := by
  have hmade := t.furnished_madeFor path
  rw [openFile_eq]
  rcases hprepared : t.madeFor path with ⟨e | ⟨⟩, t₁⟩ <;> rw [hprepared] at hmade
  · exact ⟨.error e, t₁, rfl, hmade.grown, hmade.contentAt, nofun⟩
  · cases happend : t₁.append path "" with
    | error e =>
      exact ⟨.error (.fileWrite path e), t₁, by simp only [happend], hmade.grown, hmade.contentAt,
        nofun⟩
    | ok t' =>
      obtain ⟨hgrown, place, content, -, htarget, hentry, hfiles⟩ := append_leaves happend
      refine ⟨.ok ⟨some path⟩, t', by simp only [happend], hmade.grown.trans hgrown,
        fun p => ?_, ?_⟩
      · have hempty : "".toUTF8 = .empty := rfl
        rw [hfiles p, hempty, ite_self, ByteArray.append_empty, hmade.contentAt p]
      · rintro log hlog
        cases hlog
        exact ⟨rfl, place, content, htarget, hentry⟩

end FileTree

section Lines

namespace LogRecord

/-- What a line tells of a record. -/
def object (r : LogRecord) (time : Nat) : Json :=
  .object [("data", r.data), ("event", r.event), ("ts_ms", .nat time)]

/-- The line was written for the record at some time. -/
def Written (r : LogRecord) (line : String) : Prop :=
  ∃ time : UInt64, line = (r.object time.toNat).compact

/-- The line is an object with the event and the data of the record and a time. A reader that takes
the data one level of nesting further in takes the line. -/
structure Stands (r : LogRecord) (line : List Char) : Prop where
  parsed : ∃ (time : Int) (members : List (String × Json)),
    Json.parse? (String.ofList line) = some (.object members) ∧
      members.Perm [("ts_ms", .number time), ("event", .text r.event), ("data", r.data)]
  nesting : ∀ depth, (Node.ofJson r.data).storable (depth + 1) = true →
    (Node.parse line).1.storable (depth + 2) = true

theorem stands_object {r : LogRecord} (h : r.data.fits = true) (time : UInt64) :
    r.Stands (r.object time.toNat).compact.toList := by
  have htime : Json.fitsNumber time.toNat = true := by
    have hlt := time.toNat_lt
    simp only [Json.fitsNumber, Bool.and_eq_true, decide_eq_true_eq]
    omega
  have hfits : (r.object time.toNat).fits = true := by
    simp [object, Json.nat, Json.fits, Json.fitsMembers, h, htime]
  refine ⟨⟨time.toNat, _, ?_, List.reverse_perm _⟩, fun depth hdepth => ?_⟩
  · rw [String.ofList_toList]
    exact Json.parse?_print none hfits
  · rw [Json.compact, String.toList_ofList, Node.parse_print]
    simp [object, Json.nat, Node.ofJson, Node.ofMembers, Node.storable, Node.storableMembers,
      Numeral.value_ofInt htime, hdepth]

/-- Every line of the text is a record of the list, in order, and nothing is behind the last one. -/
def Fill (rs : List LogRecord) (text : String) : Prop :=
  ∃ lines, text.toList.splitOn '\n' = lines ++ [[]] ∧ List.Forall₂ Stands rs lines

end LogRecord

end Lines

namespace EventLog

open FileTree (hostAt)

/-- What is asked of the event log of a program. -/
inductive Command
  | openFile (path : String)
  | close
  | log (r : LogRecord)

/-- The files that a program reaches and its event log. -/
structure Session where
  tree : FileTree
  log : EventLog := {}
  /-- Where the file of the log was when it was opened. No command looks at it. -/
  place : Option (List String) := none

namespace Session

section Commands

variable (time : FileTree → UInt64)

def perform (s : Session) : Command → Session
  | .openFile path =>
    match EventLog.openFile (hostAt fun t => (time t).toNat) path s.tree with
    | (.ok log, t) => ⟨t, log, (t.target path).toOption⟩
    | (.error _, t) => { s with tree := t }
  | .close => ⟨s.tree, s.log.close, none⟩
  | .log r => { s with tree := (s.log.log (hostAt fun t => (time t).toNat) r s.tree).2 }

def run (s : Session) (cs : List Command) : Session := cs.foldl (perform time) s

/-- The record of a command that finds the file at a place as the log. -/
def added (s : Session) (p : List String) : Command → List LogRecord
  | .log r => if s.place = some p then [r] else []
  | _ => []

/-- The records that are logged while the file at a place is the log, in order. -/
def recorded (p : List String) : Session → List Command → List LogRecord
  | _, [] => []
  | s, c :: cs => s.added p c ++ recorded p (s.perform time c) cs

/-- The log, if there is one, leads to the file at its place. -/
def Sound (s : Session) : Prop :=
  s.log.path = none ∧ s.place = none ∨
    ∃ path p content, s.log.path = some path ∧ s.place = some p ∧
      s.tree.target path = .ok p ∧ s.tree.entry? p = some (.file content)

end Commands

variable {time : FileTree → UInt64} {s : Session}

/-- A tree that grows keeps the file of the log. -/
theorem Sound.grown (h : s.Sound) {t : FileTree} (ht : s.tree.Grown t) :
    ({ s with tree := t } : Session).Sound := by
  rcases h with hclosed | ⟨path, p, content, hpath, hplace, htarget, hentry⟩
  · exact .inl hclosed
  · obtain ⟨content', hentry'⟩ := ht.file hentry
    exact .inr ⟨path, p, content', hpath, hplace, ht.target htarget, hentry'⟩

/-- A command adds a line to the file of the log if it is a record, and else to no file. -/
structure Step (s : Session) (c : Command) (s' : Session) : Prop where
  sound : s'.Sound
  grown : s.tree.Grown s'.tree
  content : ∀ p, ∃ lines, List.Forall₂ LogRecord.Written (s.added p c) lines ∧
    s'.tree.contentAt p = s.tree.contentAt p ++ (String.join (lines.map (· ++ "\n"))).toUTF8

theorem step_openFile (h : s.Sound) (path : String) :
    Step s (.openFile path) (s.perform time (.openFile path)) := by
  obtain ⟨result, t', hopen, hgrown, hcontent, hlog⟩ :=
    FileTree.openFile_leaves (fun t => (time t).toNat) path s.tree
  cases result with
  | error e =>
    have hs : s.perform time (.openFile path) = { s with tree := t' } := by
      simp only [perform, hopen]
    rw [hs]
    exact ⟨h.grown hgrown, hgrown, fun p => ⟨[], .nil, by simp [hcontent p]⟩⟩
  | ok log =>
    obtain ⟨rfl, place, content, htarget, hentry⟩ := hlog log rfl
    have hs : s.perform time (.openFile path) = ⟨t', ⟨some path⟩, some place⟩ := by
      simp only [perform, hopen, htarget, Except.toOption]
    rw [hs]
    exact ⟨.inr ⟨path, place, content, rfl, rfl, htarget, hentry⟩, hgrown,
      fun p => ⟨[], .nil, by simp [hcontent p]⟩⟩

theorem step_log (h : s.Sound) (r : LogRecord) :
    Step s (.log r) (s.perform time (.log r)) := by
  rcases h with ⟨hpath, hplace⟩ | ⟨path, place, content, hpath, hplace, htarget, hentry⟩
  · have hs : s.perform time (.log r) = s := by
      simp only [perform, FileTree.log_eq, hpath, Option.elim]
    rw [hs]
    exact ⟨.inl ⟨hpath, hplace⟩, .refl _, fun p => ⟨[], by simp [added, hplace], by simp⟩⟩
  · obtain ⟨t', happend⟩ : ∃ t', s.tree.append path (r.line (time s.tree).toNat) = .ok t' :=
      FileTree.exists_edit htarget (by rw [hentry]; exact nofun) _
    have hs : s.perform time (.log r) = { s with tree := t' } := by
      simp only [perform, FileTree.log_eq, hpath, Option.elim, happend, Except.toOption,
        Option.getD]
    obtain ⟨hgrown, place', -, htarget', -, -, hcontent⟩ := FileTree.append_leaves happend
    obtain rfl : place = place' := Except.ok.inj (htarget.symm.trans htarget')
    rw [hs]
    refine ⟨Sound.grown (.inr ⟨path, place, content, hpath, hplace, htarget, hentry⟩) hgrown,
      hgrown, fun p => ?_⟩
    by_cases hp : p = place
    · subst hp
      refine ⟨[(r.object (time s.tree).toNat).compact], ?_, ?_⟩
      · rw [added, if_pos hplace]
        exact .cons ⟨_, rfl⟩ .nil
      · simp [hcontent p, LogRecord.line, LogRecord.object]
    · have hother : s.place ≠ some p := by
        rw [hplace]
        exact fun heq => hp (Option.some.inj heq).symm
      exact ⟨[], by simp [added, hother], by simp [hcontent p, hp]⟩

theorem step (time : FileTree → UInt64) (h : s.Sound) (c : Command) :
    Step s c (s.perform time c) := by
  cases c with
  | openFile path => exact step_openFile h path
  | close => exact ⟨.inl ⟨rfl, rfl⟩, .refl _, fun p => ⟨[], .nil, by simp [perform]⟩⟩
  | log r => exact step_log h r

theorem run_cons (s : Session) (c : Command) (cs : List Command) :
    s.run time (c :: cs) = (s.perform time c).run time cs := rfl

/-- In the course of a session a file gets the lines of the records that find it as the log. -/
theorem run_leaves (time : FileTree → UInt64) (h : s.Sound) (cs : List Command) :
    (s.run time cs).Sound ∧ s.tree.Grown (s.run time cs).tree ∧
      ∀ p, ∃ lines, List.Forall₂ LogRecord.Written (s.recorded time p cs) lines ∧
        (s.run time cs).tree.contentAt p = s.tree.contentAt p ++
          (String.join (lines.map (· ++ "\n"))).toUTF8 := by
  induction cs generalizing s with
  | nil => exact ⟨h, .refl _, fun p => ⟨[], .nil, by simp [run]⟩⟩
  | cons c cs ih =>
    obtain ⟨hsound, hgrown, hcontent⟩ := step time h c
    obtain ⟨hsound', hgrown', hcontent'⟩ := ih hsound
    refine ⟨hsound', hgrown.trans hgrown', fun p => ?_⟩
    obtain ⟨first, hfirst, hadded⟩ := hcontent p
    obtain ⟨lines, hlines, hrest⟩ := hcontent' p
    refine ⟨first ++ lines, List.rel_append hfirst hlines, ?_⟩
    rw [run_cons, hrest, hadded, ByteArray.append_assoc]
    simp

/-- A path under which the log was opened leads to its file from then on. -/
theorem look_of_opened (h : s.Sound) {cs ns : List Command} (hns : ns <+: cs) {path : String}
    {p : List String} (hpath : (s.run time ns).log.path = some path)
    (hplace : (s.run time ns).place = some p) :
    (s.run time cs).tree.look path = .ok ((s.run time cs).tree.contentAt p) := by
  obtain ⟨more, rfl⟩ := hns
  obtain ⟨hsound, -, -⟩ := run_leaves time h ns
  obtain ⟨-, hgrown, -⟩ := run_leaves time hsound more
  have happend : s.run time (ns ++ more) = (s.run time ns).run time more := List.foldl_append
  rw [happend]
  rcases hsound with ⟨hnone, -⟩ | ⟨path', q, content, hpath', hplace', htarget, hentry⟩
  · rw [hnone] at hpath
    cases hpath
  · obtain rfl : path' = path := Option.some.inj (hpath'.symm.trans hpath)
    obtain rfl : q = p := Option.some.inj (hplace'.symm.trans hplace)
    obtain ⟨content', hentry'⟩ := hgrown.file hentry
    rw [FileTree.contentAt_of_file hentry']
    exact FileTree.Holds.look ⟨q, hgrown.target htarget, hentry'⟩

theorem run_concat (s : Session) (cs : List Command) (c : Command) :
    s.run time (cs ++ [c]) = (s.run time cs).perform time c := List.foldl_concat ..

theorem mem_recorded {p : List String} {r : LogRecord} {cs : List Command}
    (h : r ∈ s.recorded time p cs) : .log r ∈ cs := by
  induction cs generalizing s with
  | nil => cases h
  | cons c cs ih =>
    rcases List.mem_append.mp h with hadded | hrest
    · cases c with
      | openFile path => cases hadded
      | close => cases hadded
      | log r' =>
        simp only [added, List.mem_ite_nil_right, List.mem_singleton] at hadded
        exact hadded.2 ▸ List.mem_cons_self
    · exact List.mem_cons_of_mem c (ih hrest)

theorem recorded_eq_nil {p : List String} {cs : List Command}
    (h : ∀ ns, ns <+: cs → (s.run time ns).place ≠ some p) : s.recorded time p cs = [] := by
  induction cs generalizing s with
  | nil => rfl
  | cons c cs ih =>
    have hnow : s.added p c = [] := by
      have hplace : s.place ≠ some p := h [] List.nil_prefix
      cases c with
      | openFile path => rfl
      | close => rfl
      | log r => exact if_neg hplace
    rw [recorded, hnow, List.nil_append]
    exact ih fun ns hns => h (c :: ns) (List.cons_prefix_cons.mpr ⟨rfl, hns⟩)

theorem fill_of_written {rs : List LogRecord} {lines : List String}
    (hdata : ∀ r ∈ rs, r.data.fits = true) (h : List.Forall₂ LogRecord.Written rs lines) :
    LogRecord.Fill rs (String.join (lines.map (· ++ "\n"))) := by
  have hline : ∀ line ∈ lines, '\n' ∉ line.toList := by
    clear hdata
    induction h with
    | nil => exact nofun
    | cons hr _ ih =>
      obtain ⟨time, rfl⟩ := hr
      refine List.forall_mem_cons.mpr ⟨?_, ih⟩
      rw [Json.compact, String.toList_ofList]
      exact Json.newline_not_mem_print _
  refine ⟨lines.map String.toList, splitOn_join hline, ?_⟩
  refine List.forall₂_map_right_iff.mpr (((List.forall₂_and_left _ _).mpr ⟨hdata, h⟩).imp ?_)
  rintro r line ⟨hr, time, rfl⟩
  exact LogRecord.stands_object hr time

/-- Logs are opened, closed and written in any order. A file that was opened as the log holds what
it held before and behind it one line for every record that was logged while it was the log, in
order; no other file changes. A log that cannot be opened leaves the one before, and without a log
nothing is written. -/
theorem event_log_decodes (time : FileTree → UInt64) (t : FileTree) (cs : List Command)
    (hdata : ∀ r, .log r ∈ cs → r.data.fits = true) :
    let start : Session := { tree := t }
    let final := start.run time cs
    (∀ ns path p, ns <+: cs → (start.run time ns).log.path = some path →
      (start.run time ns).place = some p → ∃ text : String,
        final.tree.look path = .ok (t.contentAt p ++ text.toUTF8) ∧
          LogRecord.Fill (start.recorded time p cs) text) ∧
    (∀ p, (∀ ns, ns <+: cs → (start.run time ns).place ≠ some p) →
      final.tree.contentAt p = t.contentAt p) ∧
    (∀ ns path, let s := start.run time ns
      let s' := start.run time (ns ++ [.openFile path])
      match (openFile (hostAt fun t => (time t).toNat) path s.tree).1 with
      | .ok _ => s'.log.path = some path ∧ s'.place.isSome
      | .error _ => s'.log = s.log ∧ s'.place = s.place) ∧
    (∀ ns r, (start.run time ns).log.enabled = false →
      start.run time (ns ++ [.log r]) = start.run time ns) := by
  intro start final
  have hstart : start.Sound := .inl ⟨rfl, rfl⟩
  obtain ⟨hsound, hgrown, hcontent⟩ := run_leaves time hstart cs
  refine ⟨?_, fun p hp => ?_, fun ns path => ?_, fun ns r hclosed => ?_⟩
  · intro ns path p hns hpath hplace
    obtain ⟨lines, hlines, htext⟩ := hcontent p
    refine ⟨String.join (lines.map (· ++ "\n")), ?_, fill_of_written (fun r hr => ?_) hlines⟩
    · rw [look_of_opened hstart hns hpath hplace, htext]
    · exact hdata r (mem_recorded hr)
  · obtain ⟨lines, hlines, htext⟩ := hcontent p
    rw [recorded_eq_nil hp] at hlines
    cases hlines
    simpa using htext
  · intro s s'
    obtain ⟨result, t', hopen, -, -, hlog⟩ :=
      FileTree.openFile_leaves (fun t => (time t).toNat) path s.tree
    have hs' : s' = s.perform time (.openFile path) := run_concat ..
    rw [hs', hopen]
    cases result with
    | error e => simp only [perform, hopen, and_self]
    | ok log =>
      obtain ⟨rfl, place, -, htarget, -⟩ := hlog log rfl
      simp [perform, hopen, htarget, Except.toOption]
  · have hpath : (start.run time ns).log.path = none := by
      simpa [enabled] using hclosed
    rw [run_concat]
    simp only [perform, FileTree.log_eq, hpath, Option.elim]

/-- A log that is left for another one and opened again under another path. -/
def reopening : List Command :=
  [.openFile "logs/a.jsonl", .log ⟨"first", .text "two\nlines with a \" and a \x07"⟩,
    .openFile "", .log ⟨"second", .number (-9223372036854775808)⟩,
    .openFile "logs/../b.jsonl", .log ⟨"elsewhere", .null⟩, .close, .log ⟨"nowhere", .null⟩,
    .openFile "./logs/a.jsonl", .log ⟨"third", .array [.number 18446744073709551615]⟩]

theorem event_log_decodes_reopened :
    let start : Session := { tree := .empty }
    let final := start.run (fun _ => 0) reopening
    (∀ r, .log r ∈ reopening → r.data.fits = true) ∧ ∃ (rs : List LogRecord) (text : String),
      rs.map (·.event) = ["first", "second", "third"] ∧
        final.tree.look "logs/a.jsonl" = .ok text.toUTF8 ∧ LogRecord.Fill rs text := by
  intro start final
  have hdata : ∀ r, .log r ∈ reopening → r.data.fits = true := by
    have hall : ∀ c ∈ reopening, (match c with
        | .log r => r.data.fits
        | _ => true) = true := by decide +kernel
    exact fun r hr => hall _ hr
  obtain ⟨hfiles, -⟩ := event_log_decodes (fun _ => 0) .empty reopening hdata
  obtain ⟨text, hlook, hfill⟩ := hfiles [.openFile "logs/a.jsonl"] "logs/a.jsonl"
    ["work", "logs", "a.jsonl"] (List.prefix_append [_] _) (by decide +kernel) (by decide +kernel)
  refine ⟨hdata, _, text, by decide +kernel, ?_, hfill⟩
  have hnothing : FileTree.empty.contentAt ["work", "logs", "a.jsonl"] = .empty := rfl
  rwa [hnothing, ByteArray.empty_append] at hlook

end Session

end EventLog

end HotplugDetect
