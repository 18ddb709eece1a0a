import HotplugDetect.Proofs.Json.Members

/-! # Other ways to say the same

The members of an object may stand in another order, members under unknown keys may be added, and a
member with the default value may be left out or added. A codec reads the same value from the
result.
-/

namespace HotplugDetect

/-- Which node may stand in place of which other one. -/
abbrev Rewording := Place → Node → Node → Prop

/-- The containers that may stand inside each other at a place, plus one. -/
def Place.depth : Place → Nat
  | streamed depth => depth
  | stored => nestingLimit

section Relations

variable {σ τ : Type}

/-- Other members for a record whose fields are read at the place. The values of the fields are
reworded as `content` says for each key, the keys that are `reserved` stay unused, and what is added
has fewer than `depth` containers inside each other. -/
inductive Record.Reworded (r : Record σ) (reserved : List String) (content : String → Rewording)
    (depth : Nat) (place : Place) :
    List (Option String × Node) → List (Option String × Node) → Prop
  | refl (ms : List (Option String × Node)) : Reworded r reserved content depth place ms ms
  | trans {ms ms' ms'' : List (Option String × Node)}
      (h : Reworded r reserved content depth place ms ms')
      (h' : Reworded r reserved content depth place ms' ms'') :
      Reworded r reserved content depth place ms ms''
  /-- The members stand in another order. -/
  | permute {ms ms' : List (Option String × Node)} (h : ms.Perm ms') :
      Reworded r reserved content depth place ms ms'
  /-- Something is added under a key that is unknown. -/
  | insert {key : String} {n : Node} (ms : List (Option String × Node))
      (hkey : key ∉ r.fields.map (·.key)) (hreserved : key ∉ reserved)
      (hn : n.storable depth = true) :
      Reworded r reserved content depth place ms ((some key, n) :: ms)
  /-- A field that has its default value is left out. -/
  | leave {f : Field σ} {n : Node} {ms : List (Option String × Node)} (hf : f ∈ r.fields)
      (hrequired : f.required = false) (hn : f.read place n r.initial = .ok r.initial)
      (hms : ∀ m ∈ ms, m.1 ≠ some f.key) :
      Reworded r reserved content depth place ((some f.key, n) :: ms) ms
  /-- A field that was left out is written with its default value. -/
  | fill {f : Field σ} {n : Node} {ms : List (Option String × Node)} (hf : f ∈ r.fields)
      (hrequired : f.required = false) (hn : f.read place n r.initial = .ok r.initial)
      (hdepth : n.storable depth = true) (hms : ∀ m ∈ ms, m.1 ≠ some f.key) :
      Reworded r reserved content depth place ms ((some f.key, n) :: ms)
  /-- The value of a field is reworded. -/
  | inside {f : Field σ} {n n' : Node} (ms : List (Option String × Node)) (hf : f ∈ r.fields)
      (h : content f.key place n n') :
      Reworded r reserved content depth place ((some f.key, n) :: ms) ((some f.key, n') :: ms)

/-- The values of some fields in their order, each reworded. -/
inductive Itemwise (content : String → Node → Node → Prop) :
    List (Field σ) → List Node → List Node → Prop
  | nil (fs : List (Field σ)) : Itemwise content fs [] []
  | cons {f : Field σ} {fs : List (Field σ)} {n n' : Node} {ns ns' : List Node}
      (h : content f.key n n') (hrest : Itemwise content fs ns ns') :
      Itemwise content (f :: fs) (n :: ns) (n' :: ns')

/-- A record, written as an object or as an array of its fields. -/
inductive Record.Alike (r : Record σ) (content : String → Rewording) (place : Place) :
    Node → Node → Prop
  | same (n : Node) : Alike r content place n n
  | object {inner : Place} {ms ms' : List (Option String × Node)} {tail : Tail}
      (hplace : place.enter = .ok inner) (h : r.Reworded [] content inner.depth inner ms ms') :
      Alike r content place (.object ms tail) (.object ms' tail)
  | array {inner : Place} {ns ns' : List Node} {tail : Tail} (hplace : place.enter = .ok inner)
      (h : Itemwise (fun key => content key inner) r.fields ns ns') :
      Alike r content place (.array ns tail) (.array ns' tail)

def Unchanged : Rewording := fun _ n n' => n = n'

/-- An alternative of a tagged sum: the tag stays the same but may stand anywhere, and the others
are reworded as members of the record that `beside` gives for the tag. -/
inductive Tagged.Alike (t : Tagged τ) (beside : String → ∀ {σ : Type}, Record σ → Prop)
    (place : Place) : Node → Node → Prop
  | same (n : Node) : Alike t beside place n n
  | object {key : String} {σ : Type} {r : Record σ} {inner : Place}
      {ms ms' others others' : List (Option String × Node)} {tail : Tail}
      (hplace : place.enter = .ok inner) (hr : beside key r)
      (hms : ms.Perm ((some t.tag, .text (some key)) :: others))
      (hms' : ms'.Perm ((some t.tag, .text (some key)) :: others'))
      (h : r.Reworded [t.tag] (fun _ => Unchanged) inner.depth .stored others others') :
      Alike t beside place (.object ms tail) (.object ms' tail)

/-- The items of an array, one by one. -/
inductive Each (item : Rewording) (place : Place) : Node → Node → Prop
  | same (n : Node) : Each item place n n
  | array {inner : Place} {ns ns' : List Node} {tail : Tail} (hplace : place.enter = .ok inner)
      (h : List.Forall₂ (item inner) ns ns') : Each item place (.array ns tail) (.array ns' tail)

end Relations

mutual

theorem Node.intact_of_storable {depth : Nat} (n : Node) (h : n.storable depth = true) :
    n.intact = true := by
  match n with
  | .null => rfl
  | .bool _ => rfl
  | .number _ => rfl
  | .text _ => rfl
  | .array items tail =>
    simp only [storable, intact, Bool.and_eq_true, decide_eq_true_eq] at h ⊢
    exact ⟨h.1.2, intactItems_of_storable items h.2⟩
  | .object members tail =>
    simp only [storable, intact, Bool.and_eq_true, decide_eq_true_eq] at h ⊢
    exact ⟨h.1.2, intactMembers_of_storable members h.2⟩
  | .broken => cases h

theorem Node.intactItems_of_storable {depth : Nat} (items : List Node)
    (h : storableItems depth items = true) : intactItems items = true := by
  match items with
  | [] => rfl
  | n :: ns =>
    simp only [storableItems, intactItems, Bool.and_eq_true] at h ⊢
    exact ⟨n.intact_of_storable h.1, intactItems_of_storable ns h.2⟩

theorem Node.intactMembers_of_storable {depth : Nat} (members : List (Option String × Node))
    (h : storableMembers depth members = true) : intactMembers members = true := by
  match members with
  | [] => rfl
  | (k, n) :: ms =>
    simp only [storableMembers, intactMembers, Bool.and_eq_true] at h ⊢
    exact ⟨n.intact_of_storable h.1.2, intactMembers_of_storable ms h.2⟩

end

/-- The codec reads the same from what may stand in place of a node. -/
def Codec.Respects {α : Type} (c : Codec α) (place : Place) (R : Node → Node → Prop) : Prop :=
  ∀ ⦃n n' : Node⦄ ⦃a : α⦄, R n n' → c.read place n = .ok a → c.read place n' = .ok a

/-- The field is read the same from what may stand in place of its value. -/
def Field.Respects {σ : Type} (f : Field σ) (place : Place) (R : Node → Node → Prop) : Prop :=
  ∀ ⦃n n' : Node⦄ ⦃s s' : σ⦄, R n n' → f.read place n s = .ok s' → f.read place n' s = .ok s'

namespace Record

variable {σ : Type} {r : Record σ} {reserved : List String} {content : String → Rewording}
  {depth : Nat} {place : Place}

/-- Every field is read the same from what may stand in place of its value. -/
def Respects (r : Record σ) (place : Place) (content : String → Rewording) : Prop :=
  ∀ f ∈ r.fields, f.Respects place (content f.key place)

theorem respects_unchanged : r.Respects place fun _ => Unchanged := by
  rintro f _ n _ s s' rfl hread
  exact hread

theorem Reworded.readMembers (hr : r.Lawful) (hcontent : r.Respects place content)
    {ms ms' : List (Option String × Node)} (h : r.Reworded reserved content depth place ms ms')
    {tail : Tail} {v : σ} (hread : r.readMembers place tail [] r.initial ms = .ok v) :
    r.readMembers place tail [] r.initial ms' = .ok v := by
  induction h with
  | refl => exact hread
  | trans _ _ ih ih' => exact ih' (ih hread)
  | permute h => exact readMembers_perm hr h hread
  | insert ms hkey _ hn => rwa [readMembers_unknown hkey (Node.intact_of_storable _ hn)]
  | leave hf hrequired hn hms =>
    exact (readMembers_default hr hf hrequired hn List.not_mem_nil hms).mp hread
  | fill hf hrequired hn _ hms =>
    exact (readMembers_default hr hf hrequired hn List.not_mem_nil hms).mpr hread
  | inside ms hf h =>
    obtain ⟨seen, s, htakes, hrest⟩ := (readMembers_cons_eq_ok hr).mp hread
    refine (readMembers_cons_eq_ok hr).mpr ⟨seen, s, ?_, hrest⟩
    cases htakes with
    | skip hkey => exact absurd (List.mem_map_of_mem hf) hkey
    | field hg hkey hfresh hread =>
      obtain rfl := hr.eq_of_key hf hg hkey.symm
      exact .field hf rfl hfresh (hcontent _ hf h hread)

theorem Itemwise.readItems (hcontent : r.Respects place content) {fs : List (Field σ)}
    {ns ns' : List Node} (h : Itemwise (fun key => content key place) fs ns ns')
    (hfs : fs ⊆ r.fields) {tail : Tail} {index : Nat} {s v : σ}
    (hread : r.readItems place tail index fs ns s = .ok v) :
    r.readItems place tail index fs ns' s = .ok v := by
  induction h generalizing index s with
  | nil => exact hread
  | @cons f fs n n' ns ns' h _ ih =>
    obtain ⟨hf, hfs⟩ := List.cons_subset.mp hfs
    rw [Record.readItems] at hread ⊢
    obtain ⟨s', hfirst, hrest⟩ := bind_eq_ok.mp hread
    exact bind_eq_ok.mpr ⟨s', hcontent f hf h hfirst, ih hfs hrest⟩

theorem codec_respects (hr : r.Lawful)
    (hcontent : ∀ inner, place.enter = .ok inner → r.Respects inner content) :
    r.codec.Respects place (r.Alike content place) := by
  intro n n' v h hread
  cases h with
  | same => exact hread
  | object hplace h =>
    simp only [codec, read, hplace, bind, Except.bind] at hread ⊢
    exact h.readMembers hr (hcontent _ hplace) hread
  | array hplace h =>
    simp only [codec, read, hplace, bind, Except.bind] at hread ⊢
    exact Itemwise.readItems (hcontent _ hplace) h (List.Subset.refl _) hread

theorem Alike.null_iff {n n' : Node} (h : r.Alike content place n n') :
    n = .null ↔ n' = .null := by
  cases h <;> simp

end Record

namespace Codec

variable {α : Type} {c : Codec α} {place : Place}

theorem optional_read {n : Node} (h : n ≠ .null) :
    (Codec.optional c).read place n = (c.read place n).map some := by
  cases n <;> first | rfl | exact absurd rfl h

theorem Respects.optional {R : Node → Node → Prop} (hc : c.Respects place R)
    (hnull : ∀ n n', R n n' → (n = .null ↔ n' = .null)) :
    (Codec.optional c).Respects place R := by
  intro n n' a h hread
  by_cases hn : n = .null
  · rwa [(hnull n n' h).mp hn, ← hn]
  · rw [optional_read hn] at hread
    obtain ⟨b, hb, rfl⟩ := map_eq_ok.mp hread
    rw [optional_read ((hnull n n' h).not.mp hn), hc h hb]
    rfl

theorem Respects.mapM {R : Node → Node → Prop} (hc : c.Respects place R) {ns ns' : List Node}
    (h : List.Forall₂ R ns ns') {as : List α} (hread : ns.mapM (c.read place) = .ok as) :
    ns'.mapM (c.read place) = .ok as := by
  induction h generalizing as with
  | nil => exact hread
  | cons h _ ih =>
    rw [List.mapM_cons] at hread ⊢
    obtain ⟨a, ha, hrest⟩ := bind_eq_ok.mp hread
    obtain ⟨as', has, hpure⟩ := bind_eq_ok.mp hrest
    exact bind_eq_ok.mpr ⟨a, hc h ha, bind_eq_ok.mpr ⟨as', ih has, hpure⟩⟩

theorem Respects.list {item : Rewording}
    (hc : ∀ inner, place.enter = .ok inner → c.Respects inner (item inner)) :
    (Codec.list c).Respects place (Each item place) := by
  rintro _ _ as (_ | ⟨hplace, h⟩) hread
  · exact hread
  obtain ⟨inner, hinner, hread⟩ := bind_eq_ok.mp hread
  obtain ⟨values, hvalues, htail⟩ := bind_eq_ok.mp hread
  obtain rfl := Except.ok.inj (hplace.symm.trans hinner)
  exact bind_eq_ok.mpr ⟨_, hplace, bind_eq_ok.mpr ⟨values, (hc _ hplace).mapM h hvalues, htail⟩⟩

theorem Respects.field {σ : Type} {R : Node → Node → Prop} (hc : c.Respects place R)
    {key : String} {required : Bool} {get : σ → α} {set : σ → α → σ} :
    (Field.of key required c get set).Respects place R := by
  intro n n' s s' h hread
  obtain ⟨a, ha, hs⟩ := map_eq_ok.mp hread
  exact map_eq_ok.mpr ⟨a, hc h ha, hs⟩

end Codec

namespace Tagged

variable {τ : Type} {t : Tagged τ} {depth : Nat} {tail : Tail} {a : τ}

def Stores (t : Tagged τ) (depth : Nat) (m : Option String × Node) : Prop :=
  m.1.isSome = true ∧ m.1 ≠ some t.tag ∧ m.2.storable depth = true

theorem collect_stores {chosen : Option (Variant τ)} {store ms : List (Option String × Node)}
    {m : Option String × Node} (hm : t.Stores depth m) :
    t.collect depth tail chosen store (m :: ms) = t.collect depth tail chosen (m :: store) ms := by
  obtain ⟨_ | key, n⟩ := m
  · cases hm.1
  · rw [collect, if_neg fun hkey => hm.2.1 (congrArg some hkey), if_pos hm.2.2]

theorem collect_chosen_eq_ok {v : Variant τ} {store ms : List (Option String × Node)} :
    t.collect depth tail (some v) store ms = .ok a ↔
      tail = .closed ∧ (∀ m ∈ ms, t.Stores depth m) ∧
        v.readMembers (store.reverse ++ ms) = .ok a := by
  induction ms generalizing store with
  | nil => cases tail <;> simp [collect]
  | cons m ms ih =>
    by_cases hm : t.Stores depth m
    · rw [collect_stores hm, ih]
      simp [hm]
    · have hfail : t.collect depth tail (some v) store (m :: ms) ≠ .ok a := by
        obtain ⟨_ | key, n⟩ := m
        · simp [collect]
        · by_cases hkey : key = t.tag
          · simp [collect, hkey]
          · have hn : ¬n.storable depth = true := fun hn =>
              hm ⟨rfl, fun heq => hkey (Option.some.inj heq), hn⟩
            simp [collect, hkey, hn]
      simp [hfail, hm]

theorem collect_tag {n : Node} {store ms : List (Option String × Node)} :
    t.collect depth tail none store ((some t.tag, n) :: ms) = .ok a ↔
      ∃ v, Codec.identifier t.names n = .ok v ∧
        t.collect depth tail (some v) store ms = .ok a := by
  rw [collect, if_pos rfl]
  exact bind_eq_ok

/-- The tag stands somewhere, and every other member is stored. -/
theorem collect_eq_ok {store ms : List (Option String × Node)} :
    t.collect depth tail none store ms = .ok a ↔
      ∃ before n behind v, ms = before ++ (some t.tag, n) :: behind ∧
        Codec.identifier t.names n = .ok v ∧ tail = .closed ∧
        (∀ m ∈ before ++ behind, t.Stores depth m) ∧
        v.readMembers (store.reverse ++ (before ++ behind)) = .ok a := by
  constructor
  · intro h
    induction ms generalizing store with
    | nil => cases tail <;> simp [collect] at h
    | cons m ms ih =>
      by_cases hm : t.Stores depth m
      · rw [collect_stores hm] at h
        obtain ⟨before, n, behind, v, rfl, hn, htail, hstores, hread⟩ := ih h
        refine ⟨m :: before, n, behind, v, rfl, hn, htail, ?_, by simpa using hread⟩
        exact List.forall_mem_cons.mpr ⟨hm, hstores⟩
      · obtain ⟨_ | key, n⟩ := m
        · simp [collect] at h
        · by_cases hkey : key = t.tag
          · subst hkey
            obtain ⟨v, hn, hrest⟩ := collect_tag.mp h
            obtain ⟨htail, hstores, hread⟩ := collect_chosen_eq_ok.mp hrest
            exact ⟨[], n, ms, v, rfl, hn, htail, hstores, hread⟩
          · have hn : ¬n.storable depth = true := fun hn =>
              hm ⟨rfl, fun heq => hkey (Option.some.inj heq), hn⟩
            simp [collect, hkey, hn] at h
  · rintro ⟨before, n, behind, v, rfl, hn, htail, hstores, hread⟩
    induction before generalizing store with
    | nil => exact collect_tag.mpr ⟨v, hn, collect_chosen_eq_ok.mpr ⟨htail, hstores, hread⟩⟩
    | cons m before ih =>
      obtain ⟨hm, hstores⟩ := List.forall_mem_cons.mp hstores
      rw [List.cons_append, collect_stores hm]
      exact ih hstores (by simpa using hread)

/-- The alternative called `key` is read as the record `r`, which has no field under the tag. -/
structure Reads (t : Tagged τ) (key : String) {σ : Type} (r : Record σ) : Prop where
  lawful : r.Lawful
  tag : t.tag ∉ r.fields.map (·.key)
  variant : ∃ inject, t.names.lookup key = some (r.variant key inject)

section Alternatives

variable {key : String} {σ : Type} {r : Record σ}
  {ms others others' : List (Option String × Node)}

theorem perm_of_stores {before behind : List (Option String × Node)} {n n' : Node}
    (hstores : ∀ m ∈ before ++ behind, t.Stores depth m)
    (h : (before ++ (some t.tag, n) :: behind).Perm ((some t.tag, n') :: others)) :
    n = n' ∧ (before ++ behind).Perm others := by
  have hmiddle := List.perm_middle.symm.trans h
  have hmem := hmiddle.mem_iff.mpr List.mem_cons_self
  rcases List.mem_cons.mp hmem with heq | hmem
  · obtain rfl : n' = n := congrArg Prod.snd heq
    exact ⟨rfl, hmiddle.cons_inv⟩
  · exact absurd rfl (hstores _ hmem).2.1

/-- The tag is found wherever it stands, and the other members are read as those of the record. -/
theorem collect_perm_eq_ok (hr : r.Lawful) {inject : σ → τ}
    (hname : t.names.lookup key = some (r.variant key inject))
    (hms : ms.Perm ((some t.tag, .text (some key)) :: others)) :
    t.collect depth tail none [] ms = .ok a ↔
      tail = .closed ∧ (∀ m ∈ others, t.Stores depth m) ∧
        ∃ s, r.readMembers .stored .closed [] r.initial others = .ok s ∧ inject s = a := by
  have hidentifier : Codec.identifier t.names (.text (some key)) = .ok (r.variant key inject) := by
    simp [Codec.identifier, Codec.pick, hname]
  rw [collect_eq_ok]
  constructor
  · rintro ⟨before, n, behind, v, rfl, hn, htail, hstores, hread⟩
    obtain ⟨rfl, hothers⟩ := perm_of_stores hstores hms
    obtain rfl := Except.ok.inj (hidentifier.symm.trans hn)
    obtain ⟨s, hs, rfl⟩ := map_eq_ok.mp hread
    exact ⟨htail, fun m hm => hstores m (hothers.mem_iff.mpr hm), s,
      Record.readMembers_perm hr hothers hs, rfl⟩
  · rintro ⟨htail, hstores, s, hs, rfl⟩
    obtain ⟨before, behind, rfl⟩ := List.append_of_mem (hms.mem_iff.mpr List.mem_cons_self)
    have hothers : (before ++ behind).Perm others :=
      (List.perm_middle.symm.trans hms).cons_inv
    refine ⟨before, _, behind, _, rfl, hidentifier, htail,
      fun m hm => hstores m (hothers.mem_iff.mp hm), ?_⟩
    exact map_eq_ok.mpr ⟨s, Record.readMembers_perm hr hothers.symm hs, rfl⟩

theorem stores_of_reworded (htag : t.tag ∉ r.fields.map (·.key))
    (h : r.Reworded [t.tag] (fun _ => Unchanged) depth .stored others others')
    (hothers : ∀ m ∈ others, t.Stores depth m) : ∀ m ∈ others', t.Stores depth m := by
  induction h with
  | refl => exact hothers
  | trans _ _ ih ih' => exact ih' (ih hothers)
  | permute h => exact fun m hm => hothers m (h.mem_iff.mpr hm)
  | insert ms hkey hreserved hn =>
    refine List.forall_mem_cons.mpr ⟨⟨rfl, fun heq => hreserved ?_, hn⟩, hothers⟩
    exact List.mem_singleton.mpr (Option.some.inj heq)
  | leave => exact (List.forall_mem_cons.mp hothers).2
  | fill hf _ _ hdepth =>
    refine List.forall_mem_cons.mpr ⟨⟨rfl, fun heq => htag ?_, hdepth⟩, hothers⟩
    exact Option.some.inj heq ▸ List.mem_map_of_mem hf
  | inside ms hf h =>
    cases h
    exact hothers

end Alternatives

theorem codec_respects {beside : String → ∀ {σ : Type}, Record σ → Prop}
    (hbeside : ∀ {key : String} {σ : Type} {r : Record σ}, beside key r → t.Reads key r) :
    t.codec.Respects (.streamed depth) (t.Alike beside (.streamed depth)) := by
  intro n n' a h hread
  cases h with
  | same => exact hread
  | object hplace hr hms hms' h =>
    obtain ⟨hlawful, htag, inject, hname⟩ := hbeside hr
    simp only [Place.enter] at hplace
    split at hplace
    · rename_i hdepth
      cases hplace
      simp only [codec, read, if_pos hdepth] at hread ⊢
      obtain ⟨htail, hstores, s, hs, hinject⟩ := (collect_perm_eq_ok hlawful hname hms).mp hread
      exact (collect_perm_eq_ok hlawful hname hms').mpr ⟨htail, stores_of_reworded htag h hstores,
        s, h.readMembers hlawful Record.respects_unchanged hs, hinject⟩
    · cases hplace

end Tagged

end HotplugDetect
