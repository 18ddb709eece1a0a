import HotplugDetect.Json.Codec
import HotplugDetect.Proofs.Json.Printed

/-! # Codecs read what they write

A codec is faithful when every value it writes is read back at every place that still allows the
nesting of the value. The law passes from the parts of a list, a choice or a record to the whole.
-/

namespace HotplugDetect

/-- A value with `levels` containers inside each other may be read at the place. -/
def Place.Admits (levels : Nat) : Place → Prop
  | streamed depth => levels < depth
  | stored => levels < nestingLimit

theorem Place.Admits.mono {levels levels' : Nat} (h : levels ≤ levels') {place : Place}
    (hplace : place.Admits levels') : place.Admits levels := by
  cases place with
  | streamed depth => exact h.trans_lt hplace
  | stored => exact h.trans_lt hplace

theorem Place.Admits.enter {levels : Nat} {place : Place} (h : place.Admits (levels + 1)) :
    ∃ inner, place.enter = .ok inner ∧ inner.Admits levels := by
  cases place with
  | streamed depth =>
    have hdepth : levels + 1 < depth := h
    refine ⟨.streamed (depth - 1), if_pos (by omega), ?_⟩
    show levels < depth - 1
    omega
  | stored => exact ⟨.stored, rfl, Nat.lt_of_succ_lt h⟩

theorem Node.ofJson_eq_null {j : Json} : Node.ofJson j = .null ↔ j = .null := by
  cases j <;> simp [Node.ofJson]

namespace Codec

/-- What the codec writes has at most `levels` containers inside each other, may be stored, and is
read back. -/
structure Faithful {α : Type} (c : Codec α) (levels : Nat) : Prop where
  read_write : ∀ {place : Place}, place.Admits levels → ∀ a,
    c.read place (.ofJson (c.write a)) = .ok a
  storable : ∀ {depth : Nat}, levels < depth → ∀ a,
    (Node.ofJson (c.write a)).storable depth = true

section Scalars

theorem text_faithful : text.Faithful 0 where
  read_write _ _ := rfl
  storable _ _ := rfl

theorem flag_faithful : flag.Faithful 0 where
  read_write _ _ := rfl
  storable _ _ := rfl

theorem below_ofNat {bound n : Nat} (hn : n < bound) (hbound : bound ≤ UInt64.size)
    (name : String) : below bound name (.ofJson (.number n)) = .ok n := by
  have hvalue := Numeral.value_ofNat (hn.trans_le hbound)
  simp [below, Node.ofJson, hvalue, hn]

theorem storable_ofNat {n : Nat} (hn : n < UInt64.size) (depth : Nat) :
    (Node.ofJson (.number n)).storable depth = true := by
  simp [Node.ofJson, Node.storable, Numeral.value_ofNat hn]

theorem word32_faithful : word32.Faithful 0 where
  read_write _ w := by
    have hbelow := below_ofNat w.toNat_lt (by decide) "u32"
    simp [word32, hbelow, Except.map]
  storable _ w := storable_ofNat (w.toNat_lt.trans (by decide)) _

theorem word64_faithful : word64.Faithful 0 where
  read_write _ w := by
    have hbelow := below_ofNat w.toNat_lt (by decide) "u64"
    simp [word64, hbelow, Except.map]
  storable _ w := storable_ofNat w.toNat_lt _

end Scalars

section Containers

variable {α : Type} {c : Codec α} {levels : Nat}

/-- An absent value is told from a present one when no present one is written as null. -/
theorem Faithful.optional (hc : c.Faithful levels) (hnull : ∀ a, c.write a ≠ .null) :
    (Codec.optional c).Faithful levels where
  read_write := by
    rintro place hplace (_ | a)
    · rfl
    · have hread := hc.read_write hplace a
      have hne : Node.ofJson (c.write a) ≠ .null := fun h => hnull a (Node.ofJson_eq_null.mp h)
      simp [Codec.optional, Json.optional, hread, Except.map]
  storable := by
    rintro depth hdepth (_ | a)
    · rfl
    · exact hc.storable hdepth a

theorem Faithful.mapM_read (hc : c.Faithful levels) {place : Place} (hplace : place.Admits levels)
    (as : List α) :
    (Node.ofItems (as.map c.write)).mapM (c.read place) = .ok as := by
  induction as with
  | nil => rfl
  | cons a as ih =>
    rw [List.map_cons, Node.ofItems, List.mapM_cons, hc.read_write hplace a, ih]
    rfl

theorem Faithful.storableItems (hc : c.Faithful levels) {depth : Nat} (hdepth : levels < depth)
    (as : List α) : Node.storableItems depth (Node.ofItems (as.map c.write)) = true := by
  induction as with
  | nil => rfl
  | cons a as ih =>
    rw [List.map_cons, Node.ofItems, Node.storableItems, hc.storable hdepth a, ih]
    rfl

theorem Faithful.list (hc : c.Faithful levels) : (Codec.list c).Faithful (levels + 1) where
  read_write hplace as := by
    obtain ⟨inner, henter, hinner⟩ := hplace.enter
    have hitems := hc.mapM_read hinner as
    simp [Codec.list, Json.list, Node.ofJson, henter, hitems, bind, Except.bind]
  storable {depth} hdepth as := by
    have hitems := hc.storableItems (show levels < depth - 1 by omega) as
    simp [Codec.list, Json.list, Node.ofJson, Node.storable, hitems]
    omega

theorem choice_faithful {all : List α} {key : α → String}
    (h : ∀ a, (all.map fun b => (key b, b)).lookup (key a) = some a) :
    (choice all key).Faithful 0 where
  read_write {place} _ a := by
    cases place <;> simp [choice, choiceFromText, choiceFromStore, Node.ofJson, pick, h a]
  storable _ _ := rfl

end Containers

end Codec

/-- What a field writes is read back into any record, which from then on agrees with the written one
on the field: `copy s t` is `t` with the field of `s`. -/
structure Field.Faithful {σ : Type} (f : Field σ) (levels : Nat) (copy : σ → σ → σ) : Prop where
  read_write : ∀ {place : Place}, place.Admits levels → ∀ s t,
    f.read place (.ofJson (f.write s)) t = .ok (copy s t)
  storable : ∀ {depth : Nat}, levels < depth → ∀ s,
    (Node.ofJson (f.write s)).storable depth = true

theorem Codec.Faithful.field {σ α : Type} {c : Codec α} {levels levels' : Nat}
    (hc : c.Faithful levels) (h : levels ≤ levels') (key : String) (required : Bool)
    (get : σ → α) (set : σ → α → σ) :
    (Field.of key required c get set).Faithful levels' fun s t => set t (get s) where
  read_write hplace s t := by
    have hread := hc.read_write (hplace.mono h) (get s)
    simp [Field.of, hread, Except.map]
  storable hdepth s := hc.storable (h.trans_lt hdepth) (get s)

namespace Record

variable {σ τ : Type} {r : Record σ} {levels : Nat}

/-- Every field is read back, under a key of its own, and the fields together are the whole
record. -/
structure Faithful (r : Record σ) (levels : Nat) : Prop where
  fields : ∃ copies : List (σ → σ → σ),
    List.Forall₂ (fun f copy => f.Faithful levels copy) r.fields copies ∧
      ∀ s, copies.foldl (fun t copy => copy s t) r.initial = s
  nodup : (r.fields.map (·.key)).Nodup

theorem find?_field {before : List (Field σ)} {f : Field σ} {behind : List (Field σ)}
    (hfields : r.fields = before ++ f :: behind) (hnodup : (r.fields.map (·.key)).Nodup) :
    r.fields.find? (·.key = f.key) = some f ∧ f.key ∉ before.map (·.key) := by
  have hfresh : f.key ∉ before.map (·.key) := by
    rw [hfields, List.map_append, List.map_cons] at hnodup
    exact fun hmem => (List.nodup_append.mp hnodup).2.2 _ hmem _ List.mem_cons_self rfl
  refine ⟨?_, hfresh⟩
  rw [hfields, List.find?_append, List.find?_eq_none.mpr]
  · simp
  · intro g hg
    simp only [decide_eq_true_eq]
    exact fun hkey => hfresh (hkey ▸ List.mem_map_of_mem hg)

/-- The fields behind those already seen are read in order, and none is missing at the end. -/
theorem readMembers_fields {place : Place} (hplace : place.Admits levels)
    (hnodup : (r.fields.map (·.key)).Nodup) (s : σ) {behind : List (Field σ)}
    {copies : List (σ → σ → σ)}
    (hbehind : List.Forall₂ (fun f copy => f.Faithful levels copy) behind copies) :
    ∀ (before : List (Field σ)) (t : σ), r.fields = before ++ behind →
      r.readMembers place .closed (before.reverse.map (·.key)) t
          (Node.ofMembers (behind.map fun f => (f.key, f.write s))) =
        .ok (copies.foldl (fun t copy => copy s t) t) := by
  induction hbehind with
  | nil =>
    intro before t hfields
    have hseen : r.fields.find? (fun f => f.required &&
        !(before.reverse.map (·.key)).contains f.key) = none := by
      rw [List.find?_eq_none]
      intro f hf
      rw [hfields, List.append_nil] at hf
      simp only [Bool.and_eq_true, Bool.not_eq_true', not_and, Bool.not_eq_false]
      exact fun _ => List.contains_iff_mem.mpr (List.mem_map_of_mem (List.mem_reverse.mpr hf))
    simp only [List.map_nil, Node.ofMembers, readMembers, finish, hseen, if_true, List.foldl_nil]
  | @cons f copy behind copies hf _ ih =>
    intro before t hfields
    obtain ⟨hfind, hfresh⟩ := find?_field hfields hnodup
    have hunseen : (before.reverse.map (·.key)).contains f.key = false := by
      simpa using hfresh
    have hrest := ih (before ++ [f]) (copy s t) (by simp [hfields])
    simp only [List.map_cons, Node.ofMembers, readMembers, hfind, hunseen,
      hf.read_write hplace s t, List.foldl_cons]
    simpa [bind, Except.bind] using hrest

theorem storableMembers_fields {depth : Nat} (hdepth : levels < depth) (s : σ)
    {fields : List (Field σ)} {copies : List (σ → σ → σ)}
    (hfields : List.Forall₂ (fun f copy => f.Faithful levels copy) fields copies) :
    Node.storableMembers depth (Node.ofMembers (fields.map fun f => (f.key, f.write s))) =
      true := by
  induction hfields with
  | nil => rfl
  | cons hf _ ih =>
    rw [List.map_cons, Node.ofMembers, Node.storableMembers, hf.storable hdepth s, ih]
    rfl

theorem Faithful.readMembers (hr : r.Faithful levels) {place : Place}
    (hplace : place.Admits levels) (s : σ) :
    r.readMembers place .closed [] r.initial (Node.ofMembers (r.members s)) = .ok s := by
  obtain ⟨copies, hfields, hrestore⟩ := hr.fields
  have hread := readMembers_fields hplace hr.nodup s hfields [] r.initial rfl
  rwa [hrestore] at hread

theorem Faithful.storableMembers (hr : r.Faithful levels) {depth : Nat} (hdepth : levels < depth)
    (s : σ) : Node.storableMembers depth (Node.ofMembers (r.members s)) = true :=
  let ⟨_, hfields, _⟩ := hr.fields
  storableMembers_fields hdepth s hfields

/-- A record whose fields are read back is read back, one level of nesting further in. -/
theorem Faithful.codec (hr : r.Faithful levels) : r.codec.Faithful (levels + 1) where
  read_write hplace s := by
    obtain ⟨inner, henter, hinner⟩ := hplace.enter
    have hmembers := hr.readMembers hinner s
    simp [Record.codec, Record.read, Record.write, Node.ofJson, henter, hmembers, bind,
      Except.bind]
  storable {depth} hdepth s := by
    have hmembers := hr.storableMembers (show levels < depth - 1 by omega) s
    simp [Record.codec, Record.write, Node.ofJson, Node.storable, hmembers]
    omega

end Record

namespace Tagged

variable {τ : Type} {t : Tagged τ} {levels : Nat}

/-- The value is written with its tag first, and the alternative of that name reads it from the
members behind the tag. -/
def Writes (t : Tagged τ) (levels : Nat) (a : τ) : Prop :=
  ∃ (key : String) (v : Variant τ) (ms : List (String × Json)),
    t.write a = .object ((t.tag, .text key) :: ms) ∧
    t.names.lookup key = some v ∧
    (∀ m ∈ ms, m.1 ≠ t.tag) ∧
    (∀ depth, levels < depth → Node.storableMembers depth (Node.ofMembers ms) = true) ∧
    v.readMembers (Node.ofMembers ms) = .ok a

theorem Writes.of_record {σ : Type} {r : Record σ} (hr : r.Faithful levels)
    (hlevels : levels < nestingLimit) {key : String} (inject : σ → τ) (s : σ)
    (hwrite : t.write (inject s) = .object ((t.tag, .text key) :: r.members s))
    (hname : t.names.lookup key = some (r.variant key inject))
    (htag : ∀ f ∈ r.fields, f.key ≠ t.tag) : t.Writes levels (inject s) := by
  refine ⟨key, _, _, hwrite, hname, ?_, fun depth hdepth => hr.storableMembers hdepth s, ?_⟩
  · intro m hm
    obtain ⟨f, hf, rfl⟩ := List.mem_map.mp hm
    exact htag f hf
  · have hstored : Place.stored.Admits levels := hlevels
    have hmembers := hr.readMembers hstored s
    simp [Record.variant, hmembers, Except.map]

theorem collect_members (depth : Nat) (v : Variant τ) :
    ∀ (ms : List (String × Json)) (store : List (Option String × Node)),
      (∀ m ∈ ms, m.1 ≠ t.tag) → Node.storableMembers depth (Node.ofMembers ms) = true →
      t.collect depth .closed (some v) store (Node.ofMembers ms) =
        v.readMembers (store.reverse ++ Node.ofMembers ms) := by
  intro ms
  induction ms with
  | nil => simp [Node.ofMembers, collect]
  | cons m ms ih =>
    intro store htag hstore
    obtain ⟨hkey, htag⟩ := List.forall_mem_cons.mp htag
    simp only [Node.ofMembers, Node.storableMembers, Bool.and_eq_true] at hstore
    simp [Node.ofMembers, collect, hkey, hstore.1.2, ih _ htag hstore.2]

/-- A tagged sum is read back when each of its values is written with its tag first. -/
theorem codec_faithful (hlevels : levels + 1 < nestingLimit) (h : ∀ a, t.Writes levels a) :
    t.codec.Faithful (levels + 1) := by
  have hread {depth : Nat} (hdepth : levels + 1 < depth) (a : τ) :
      t.read depth (.ofJson (t.write a)) = .ok a := by
    obtain ⟨key, v, ms, hwrite, hname, htag, hstore, hvariant⟩ := h a
    have hcollect := collect_members (depth - 1) v ms [] htag (hstore _ (by omega))
    rw [hwrite, Node.ofJson, Tagged.read, if_pos (by omega)]
    simp [Node.ofMembers, Node.ofJson, collect, Codec.identifier, Codec.pick, hname, bind,
      Except.bind, hcollect, hvariant]
  constructor
  · rintro (depth | _) hplace a
    · exact hread hplace a
    · exact hread hlevels a
  · intro depth hdepth a
    obtain ⟨key, v, ms, hwrite, -, -, hstore, -⟩ := h a
    have hms := hstore (depth - 1) (by omega)
    simp [codec, hwrite, Node.ofJson, Node.ofMembers, Node.storable, Node.storableMembers, hms]
    omega

end Tagged

/-- What a faithful codec prints, on one line or on many, it decodes. -/
theorem Codec.Faithful.decode_print {α : Type} {c : Codec α} {levels : Nat}
    (hc : c.Faithful levels) (h : levels < nestingLimit) (l : Json.Layout) (a : α) :
    c.decode (String.ofList (Json.print l (c.write a))) = .ok a := by
  have hplace : (Place.streamed nestingLimit).Admits levels := h
  have hread := hc.read_write hplace a
  simp [decode, readWhole, Node.parse_print, hread, bind, Except.bind, JsonText.skipBlank]

end HotplugDetect
