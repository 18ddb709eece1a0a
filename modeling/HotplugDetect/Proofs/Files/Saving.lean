import Mathlib.Data.List.Infix
import HotplugDetect.Files.Documents
import HotplugDetect.Proofs.Files.Directories
import HotplugDetect.Proofs.ScenarioText

/-! # Saving and loading settings

The text of settings fits into a settings file, so that valid settings are loaded as they were
saved, whatever the directories and the file were before. Settings that are not valid are neither
saved nor loaded.
-/

namespace HotplugDetect

open Json (Layout print printItems printMembers newLine deeper colon numberText)

section Sizes

theorem utf8ByteSize_ofList_le (cs : List Char) :
    (String.ofList cs).utf8ByteSize ≤ 4 * cs.length := by
  induction cs with
  | nil => rfl
  | cons c cs ih =>
    have hc := c.utf8Size_le_four
    rw [String.ofList_cons, String.utf8ByteSize_append, String.utf8ByteSize_singleton,
      List.length_cons]
    omega

theorem fromUTF8?_toUTF8 (s : String) : String.fromUTF8? s.toUTF8 = some s :=
  dif_pos s.isValidUTF8

namespace Json

theorem length_print_bool (l : Layout) (b : Bool) : (print l (.bool b)).length ≤ 5 := by
  cases b with
  | true => exact (by decide : 4 ≤ 5)
  | false => exact le_rfl

theorem length_print_nat (l : Layout) {n : Nat} (h : n < UInt64.size) :
    (print l (.number n)).length ≤ 20 :=
  (Nat.length_toDigits_le_iff (by decide) (by decide)).mpr (h.trans (by decide))

theorem length_colon_le (l : Layout) : (colon l).length ≤ 2 := by
  cases l with
  | none => exact (by decide : 1 ≤ 2)
  | some level => exact le_rfl

theorem length_printMembers_le {l : Layout} {ms : List (String × Json)} {width : Nat}
    (h : ∀ m ∈ ms, (JsonText.quote m.1).length + (print l m.2).length ≤ width) :
    (printMembers l ms).length ≤ ms.length * (width + (newLine l).length + 3) := by
  have hcolon := length_colon_le l
  induction ms with
  | nil => exact Nat.zero_le _
  | cons m ms ih =>
    obtain ⟨hm, hms⟩ := List.forall_mem_cons.mp h
    have hmore := ih hms
    simp only [printMembers, List.length_append, List.length_cons, Nat.succ_mul] at hmore ⊢
    omega

theorem length_print_object_le (l : Layout) (ms : List (String × Json)) (width : Nat)
    (h : ∀ m ∈ ms, (JsonText.quote m.1).length + (print (deeper l) m.2).length ≤ width) :
    (print l (.object ms)).length ≤
      ms.length * (width + (newLine (deeper l)).length + 3) + (newLine l).length + 2 := by
  cases ms with
  | nil => simp [print]
  | cons m ms =>
    obtain ⟨hm, hms⟩ := List.forall_mem_cons.mp h
    have hmore := length_printMembers_le hms
    have hcolon := length_colon_le l
    simp only [print, List.length_append, List.length_cons, List.length_nil,
      Nat.succ_mul] at hmore ⊢
    omega

end Json

/-- A record is at most as long as its fields allow. -/
theorem Record.length_print_le {σ : Type} (r : Record σ) (s : σ) {l : Layout} (keys values : Nat)
    (hkeys : ∀ f ∈ r.fields, (JsonText.quote f.key).length ≤ keys)
    (hvalues : ∀ f ∈ r.fields, (print (deeper l) (f.write s)).length ≤ values) :
    (print l (r.write s)).length ≤
      r.fields.length * (keys + values + (newLine (deeper l)).length + 3) + (newLine l).length +
        2 := by
  have hmembers := Json.length_print_object_le l (r.members s) (keys + values) fun m hm => by
      obtain ⟨f, hf, rfl⟩ := List.mem_map.mp hm
      exact Nat.add_le_add (hkeys f hf) (hvalues f hf)
  rwa [members, List.length_map] at hmembers

namespace Settings

theorem length_print_platform (c : PlatformCaps) :
    (print (some 1) (PlatformCaps.record.write c)).length ≤ 160 := by
  refine (PlatformCaps.record.length_print_le c 20 5 (by decide) ?_).trans
    (by decide)
  simp only [PlatformCaps.record, Field.of, Codec.flag, List.forall_mem_cons]
  exact ⟨Json.length_print_bool .., Json.length_print_bool .., Json.length_print_bool ..,
    Json.length_print_bool .., List.forall_mem_nil _⟩

theorem length_print_storm (s : StormSettings) :
    (print (some 1) (StormSettings.record.write s)).length ≤ 300 := by
  refine (StormSettings.record.length_print_le s 25 20 (by decide) ?_).trans
    (by decide)
  have hflag (l : Layout) (b : Bool) : (print l (.bool b)).length ≤ 20 :=
    (Json.length_print_bool l b).trans (by decide)
  have hshort (l : Layout) : (print l (Json.optional .bool s.shortStorms)).length ≤ 20 := by
    cases s.shortStorms with
    | none => exact (by decide : 4 ≤ 20)
    | some b => exact hflag l b
  simp only [StormSettings.record, Field.of, Codec.flag, Codec.word32, Codec.word64,
    Codec.optional, List.forall_mem_cons]
  exact ⟨Json.length_print_nat _ (s.threshold.toNat_lt.trans (by decide)), hshort _,
    Json.length_print_nat _ s.detectPeriod.toNat_lt,
    Json.length_print_nat _ s.reenableDelay.toNat_lt, hflag .., List.forall_mem_nil _⟩

/-- However large its numbers are, the text of settings fits into a settings file. -/
theorem size_text_le (s : Settings) : s.text.toUTF8.size ≤ sizeLimit := by
  have hlength : (print (some 0) (codec.write s)).length ≤ 1000 := by
    refine (record.length_print_le s 20 300 (by decide) ?_).trans (by decide)
    simp only [record, Field.of, List.forall_mem_cons]
    exact ⟨(length_print_platform s.platform).trans (by decide), length_print_storm s.storm,
      List.forall_mem_nil _⟩
  have hsize := utf8ByteSize_ofList_le (print (some 0) (codec.write s))
  exact hsize.trans ((Nat.mul_le_mul_left 4 hlength).trans (by decide))

end Settings

end Sizes

namespace Settings

variable {t t' : FileTree} {path : String} {x : Settings}

theorem ofContent_text (path : String) (h : x.validate = .ok ()) :
    ofContent path x.text.toUTF8 = .ok x := by
  have hdecode : codec.decode x.text = .ok x := codec_faithful.decode_print (by decide) (some 0) x
  unfold ofContent
  rw [if_neg x.size_text_le.not_gt, readText, fromUTF8?_toUTF8]
  simp only [bind, Except.bind, parse, hdecode, Except.mapError, h]

theorem validate_of_content {content : ByteArray} (h : ofContent path content = .ok x) :
    x.validate = .ok () := by
  unfold ofContent at h
  split at h
  · cases h
  · obtain ⟨text, -, h⟩ := bind_eq_ok.mp h
    obtain ⟨s, -, h⟩ := bind_eq_ok.mp h
    obtain ⟨⟨⟩, hvalid, h⟩ := bind_eq_ok.mp h
    cases h
    exact hvalid

theorem validate_of_look {looked : Except FileFault ByteArray} (h : ofLook path looked = .ok x) :
    x.validate = .ok () := by
  unfold ofLook at h
  split at h
  · exact validate_of_content h
  · cases h
  · cases h
    decide

theorem save_of_invalid {e : Failure} (h : x.validate = .error e) (path : String) (t : FileTree) :
    save FileTree.host path x t = (.error e, t) := by
  unfold save
  rw [h]
  rfl

theorem save_of_valid (h : x.validate = .ok ()) (path : String) (t : FileTree) :
    save FileTree.host path x t =
      match t.madeFor path with
      | (.error e, t₁) => (.error e, t₁)
      | (.ok (), t₁) =>
        match t₁.write path x.text with
        | .ok t' => (.ok (), t')
        | .error e => (.error (.fileWrite path e), t₁) := by
  unfold save FileTree.madeFor
  rw [h]
  have hwrite (t₁ : FileTree) :
      (FileTree.change (·.write path x.text) >>= fun written =>
        return written.mapError (Failure.fileWrite path) : StateM FileTree _) t₁ =
      match t₁.write path x.text with
      | .ok t' => (.ok (), t')
      | .error e => (.error (.fileWrite path e), t₁) := by
    simp only [bind, StateT.bind, FileTree.change]
    cases t₁.write path x.text <;> rfl
  cases Path.parent? path with
  | none => exact hwrite t
  | some parent =>
    have hmade : ((·.mapError (Failure.fileWrite parent)) <$>
        FileTree.host.makeDirectories parent) t =
        ((t.makeDirectories parent).1.mapError (.fileWrite parent),
          (t.makeDirectories parent).2) := rfl
    simp only [bind, StateT.bind, hmade]
    cases (t.makeDirectories parent).1 with
    | error e => rfl
    | ok => exact hwrite _

theorem holds_of_save (h : save FileTree.host path x t = (.ok (), t')) :
    x.validate = .ok () ∧ t'.Holds path x.text.toUTF8 := by
  cases hvalid : x.validate with
  | error e =>
    rw [save_of_invalid hvalid] at h
    cases h
  | ok =>
    refine ⟨rfl, ?_⟩
    rw [save_of_valid hvalid] at h
    split at h
    · cases h
    · split at h
      · cases h
        exact FileTree.holds_of_write ‹_›
      · cases h

/-- Valid settings are saved under a path that can be written. -/
theorem save_of_writable (hvalid : x.validate = .ok ()) (h : t.Writable path) :
    ∃ t', save FileTree.host path x t = (.ok (), t') := by
  obtain ⟨q, t₁, hparent, hmade, htarget, hfree⟩ := h.prepared
  obtain ⟨t', hwrite⟩ : ∃ t', t₁.write path x.text = .ok t' := FileTree.exists_edit htarget hfree _
  have hready : t.madeFor path = (.ok (), t₁) := by
    simp only [FileTree.madeFor, hparent, hmade, Except.mapError]
  exact ⟨t', by simp only [save_of_valid hvalid, hready, hwrite]⟩

/-- Settings that were saved are loaded as they were. -/
theorem load_of_save (h : save FileTree.host path x t = (.ok (), t')) :
    load FileTree.host path t' = (.ok x, t') := by
  obtain ⟨hvalid, hholds⟩ := holds_of_save h
  have hload : load FileTree.host path t' = (ofLook path (t'.look path), t') := rfl
  rw [hload, hholds.look, ofLook, ofContent_text path hvalid]

/-- Valid settings are saved under every path that can be written and then loaded from it, and so
are all settings that could be saved. Settings that are not valid are refused with the fault that
the check found, and nothing changes; and whatever is under a path, no other than valid settings are
loaded from it. -/
theorem settings_file_round_trip (t : FileTree) (path : String) (x : Settings) :
    (x.validate = .ok () → t.Writable path → ∃ t',
      save FileTree.host path x t = (.ok (), t') ∧ load FileTree.host path t' = (.ok x, t')) ∧
    (∀ t', save FileTree.host path x t = (.ok (), t') →
      x.validate = .ok () ∧ load FileTree.host path t' = (.ok x, t')) ∧
    (∀ e, x.validate = .error e → save FileTree.host path x t = (.error e, t)) ∧
    (∀ y t', load FileTree.host path t = (.ok y, t') → y.validate = .ok () ∧ t' = t) := by
  refine ⟨fun hvalid hwritable => ?_, fun t' hsaved => ?_,
    fun e he => save_of_invalid he path t, ?_⟩
  · obtain ⟨t', hsaved⟩ := save_of_writable hvalid hwritable
    exact ⟨t', hsaved, load_of_save hsaved⟩
  · exact ⟨(holds_of_save hsaved).1, load_of_save hsaved⟩
  · rintro y t' h
    obtain ⟨hlook, rfl⟩ := Prod.mk.inj h
    exact ⟨validate_of_look hlook, rfl⟩

/-- The largest numbers are saved below directories that are new. -/
theorem settings_file_round_trip_below_new :
    let path := "conf/new/../hotplug.json"
    let x : Settings := { storm := {
      threshold := 4294967295
      shortStorms := some false
      detectPeriod := 18446744073709551615
      reenableDelay := 18446744073709551615 } }
    x.validate = .ok () ∧ FileTree.empty.Writable path ∧ ∃ t',
      save FileTree.host path x FileTree.empty = (.ok (), t') ∧
        load FileTree.host path t' = (.ok x, t') := by
  intro path x
  have hnames : Path.names path = ["conf", "new", "..", "hotplug.json"] := by decide +kernel
  have hplace : FileTree.empty.origin path = ["work"] := by decide +kernel
  have hfile (p : List String) (content : ByteArray) :
      FileTree.empty.entry? p ≠ some (.file content) := by
    simp only [FileTree.entry?, FileTree.empty, List.lookup_cons, List.lookup_nil]
    cases p == [] <;> cases p == ["work"] <;> simp
  have hwritable : FileTree.empty.Writable path := {
    text := by decide +kernel
    name := ⟨"hotplug.json", by rw [hnames]; rfl, by decide, by decide⟩
    slash := by decide +kernel
    short := by rw [hnames]; unfold FileTree.Short; decide +kernel
    start := by rw [hplace]; rfl
    clear := fun p _ => hfile p
    free := by
      rw [hplace, hnames, show FileTree.empty.entry? _ = none from rfl]
      exact (Option.some_ne_none _).symm
    apart := by
      rw [hplace, hnames]
      rintro ⟨above, habove, hne, heq⟩
      have hall : ∀ above ∈ ["conf", "new", "..", "hotplug.json"].inits,
          above ≠ ["conf", "new", "..", "hotplug.json"] →
          FileTree.follow ["work"] ["conf", "new", "..", "hotplug.json"] ≠
            FileTree.follow ["work"] above := by decide +kernel
      exact hall above ((List.mem_inits _ _).mpr habove) hne heq }
  have hvalid : x.validate = .ok () := by decide
  exact ⟨hvalid, hwritable, (settings_file_round_trip FileTree.empty path x).1 hvalid hwritable⟩

end Settings

end HotplugDetect
