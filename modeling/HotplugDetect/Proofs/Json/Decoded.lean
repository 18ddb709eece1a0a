import HotplugDetect.Proofs.Json.Accepted
import HotplugDetect.Proofs.Json.Rewording

/-! # Texts that are decoded

A codec that reads from the text itself looks at every part of it, or checks the parts that it
skips. So a text that is decoded spells a value, and it is decoded as what the codec reads from the
value.
-/

namespace HotplugDetect

/-- What is read from the text itself is JSON throughout. -/
def Codec.Vets {α : Type} (c : Codec α) : Prop :=
  ∀ ⦃depth : Nat⦄ ⦃n : Node⦄ ⦃a : α⦄, c.read (.streamed depth) n = .ok a → n.intact = true

def Field.Vets {σ : Type} (f : Field σ) : Prop :=
  ∀ ⦃depth : Nat⦄ ⦃n : Node⦄ ⦃s s' : σ⦄, f.read (.streamed depth) n s = .ok s' → n.intact = true

namespace Codec

variable {α : Type} {c : Codec α}

section Scalars

theorem text_vets : text.Vets := by
  intro depth n a h
  cases n <;> first | rfl | cases h

theorem flag_vets : flag.Vets := by
  intro depth n a h
  cases n <;> first | rfl | cases h

theorem intact_of_below {bound : Nat} {name : String} {n : Node} {k : Nat}
    (h : below bound name n = .ok k) : n.intact = true := by
  cases n <;> first | rfl | cases h

theorem word32_vets : word32.Vets := by
  intro depth n a h
  obtain ⟨k, hk, -⟩ := map_eq_ok.mp h
  exact intact_of_below hk

theorem word64_vets : word64.Vets := by
  intro depth n a h
  obtain ⟨k, hk, -⟩ := map_eq_ok.mp h
  exact intact_of_below hk

theorem enter_streamed {depth : Nat} {inner : Place}
    (h : (Place.streamed depth).enter = .ok inner) : inner = .streamed (depth - 1) := by
  simp only [Place.enter] at h
  split at h
  · exact (Except.ok.inj h).symm
  · cases h

theorem intact_of_unit {place : Place} {n : Node} (hplace : place ≠ .stored)
    (h : unit place n = .ok ()) : n.intact = true := by
  cases n with
  | null => rfl
  | object members tail => cases members <;> simp_all [unit]
  | _ => cases h

theorem choice_vets {all : List α} {key : α → String} : (choice all key).Vets := by
  intro depth n a h
  simp only [choice] at h
  unfold choiceFromText at h
  split at h
  · rfl
  · rename_i content more tail
    obtain ⟨inner, hinner, h⟩ := bind_eq_ok.mp h
    obtain ⟨b, -, h⟩ := bind_eq_ok.mp h
    obtain ⟨_, hunit, hclosed⟩ := bind_eq_ok.mp h
    obtain rfl := enter_streamed hinner
    have hmore : more.isEmpty = true ∧ tail = .closed := by
      by_contra hopen
      rw [if_neg hopen] at hclosed
      cases hclosed
    simp [Node.intact, Node.intactMembers, hmore.2, List.isEmpty_iff.mp hmore.1,
      intact_of_unit Place.noConfusion hunit]
  · cases h

end Scalars

theorem Vets.optional (hc : c.Vets) : (Codec.optional c).Vets := by
  intro depth n a h
  by_cases hn : n = .null
  · rw [hn]
    rfl
  · rw [optional_read hn] at h
    obtain ⟨b, hb, -⟩ := map_eq_ok.mp h
    exact hc hb

theorem Vets.mapM (hc : c.Vets) {depth : Nat} {items : List Node} {as : List α}
    (h : items.mapM (c.read (.streamed depth)) = .ok as) : ∀ n ∈ items, n.intact = true := by
  induction items generalizing as with
  | nil => exact List.forall_mem_nil _
  | cons n ns ih =>
    rw [List.mapM_cons] at h
    obtain ⟨a, ha, h⟩ := bind_eq_ok.mp h
    obtain ⟨as', has, -⟩ := bind_eq_ok.mp h
    exact List.forall_mem_cons.mpr ⟨hc ha, ih has⟩

theorem Vets.list (hc : c.Vets) : (Codec.list c).Vets := by
  intro depth n as h
  cases n with
  | array items tail =>
    obtain ⟨inner, hinner, h⟩ := bind_eq_ok.mp h
    obtain ⟨values, hvalues, hclosed⟩ := bind_eq_ok.mp h
    obtain rfl := enter_streamed hinner
    have hitems := Node.intactItems_iff.mpr (hc.mapM hvalues)
    have htail : tail = .closed := by
      by_contra hopen
      rw [if_neg hopen] at hclosed
      cases hclosed
    simp [Node.intact, htail, hitems]
  | _ => cases h

theorem Vets.field {σ : Type} (hc : c.Vets) {key : String} {required : Bool} {get : σ → α}
    {set : σ → α → σ} : (Field.of key required c get set).Vets := by
  intro depth n s s' h
  obtain ⟨a, ha, -⟩ := map_eq_ok.mp h
  exact hc ha

end Codec

namespace Record

variable {σ : Type} {r : Record σ}

/-- Every field of the record looks at the whole of its value. -/
def Vets (r : Record σ) : Prop := ∀ f ∈ r.fields, f.Vets

theorem Vets.readMembers (hvets : r.Vets) (hr : r.Lawful) {depth : Nat} {tail : Tail}
    {seen : List String} {s v : σ} {ms : List (Option String × Node)}
    (h : r.readMembers (.streamed depth) tail seen s ms = .ok v) :
    tail = .closed ∧ ∀ m ∈ ms, m.2.intact = true := by
  induction ms generalizing seen s with
  | nil => exact ⟨(readMembers_nil_eq_ok.mp h).1, List.forall_mem_nil _⟩
  | cons m ms ih =>
    obtain ⟨seen', s', htakes, h⟩ := (readMembers_cons_eq_ok hr).mp h
    obtain ⟨htail, hms⟩ := ih h
    refine ⟨htail, List.forall_mem_cons.mpr ⟨?_, hms⟩⟩
    cases htakes with
    | skip _ hn => exact hn
    | field hf _ _ hread => exact hvets _ hf hread

theorem Vets.readItems (hvets : r.Vets) {depth : Nat} {tail : Tail} {index : Nat}
    {fs : List (Field σ)} (hfs : fs ⊆ r.fields) {s v : σ} {items : List Node}
    (h : r.readItems (.streamed depth) tail index fs items s = .ok v) :
    tail = .closed ∧ ∀ n ∈ items, n.intact = true := by
  induction fs generalizing index items s with
  | nil =>
    cases items with
    | nil =>
      simp only [Record.readItems] at h
      split at h
      · rename_i htail
        exact ⟨htail, List.forall_mem_nil _⟩
      · cases h
    | cons => cases h
  | cons f fs ih =>
    obtain ⟨hf, hfs⟩ := List.cons_subset.mp hfs
    cases items with
    | nil =>
      simp only [Record.readItems] at h
      split at h
      · cases h
      · split at h
        · cases h
        · exact ih hfs h
    | cons n ns =>
      rw [Record.readItems] at h
      obtain ⟨s', hread, h⟩ := bind_eq_ok.mp h
      obtain ⟨htail, hns⟩ := ih hfs h
      exact ⟨htail, List.forall_mem_cons.mpr ⟨hvets f hf hread, hns⟩⟩

theorem Vets.codec (hvets : r.Vets) (hr : r.Lawful) : r.codec.Vets := by
  intro depth n v h
  cases n with
  | object members tail =>
    obtain ⟨inner, hinner, h⟩ := bind_eq_ok.mp h
    obtain rfl := Codec.enter_streamed hinner
    obtain ⟨rfl, hms⟩ := hvets.readMembers hr h
    simp [Node.intact, Node.intactMembers_iff.mpr hms]
  | array items tail =>
    obtain ⟨inner, hinner, h⟩ := bind_eq_ok.mp h
    obtain rfl := Codec.enter_streamed hinner
    obtain ⟨rfl, hns⟩ := hvets.readItems (List.Subset.refl _) h
    simp [Node.intact, Node.intactItems_iff.mpr hns]
  | _ => cases h

end Record

namespace Tagged

variable {τ : Type} {t : Tagged τ}

theorem codec_vets : t.codec.Vets := by
  intro depth n a h
  simp only [codec] at h
  cases n with
  | object members tail =>
    simp only [read] at h
    split at h
    · obtain ⟨before, n, behind, v, rfl, hn, rfl, hstores, -⟩ := collect_eq_ok.mp h
      have hintact : n.intact = true := by
        cases n <;> first | rfl | cases hn
      have hms : ∀ m ∈ before ++ (some t.tag, n) :: behind, m.2.intact = true := by
        intro m hm
        rcases List.mem_cons.mp (List.perm_middle.mem_iff.mp hm) with rfl | hm
        · exact hintact
        · exact Node.intact_of_storable _ (hstores m hm).2.2
      simp [Node.intact, Node.intactMembers_iff.mpr hms]
    · cases h
  | array items tail =>
    simp only [read] at h
    split at h
    · cases items with
      | nil => cases h
      | cons n ns =>
        obtain ⟨v, hn, h⟩ := bind_eq_ok.mp h
        have hintact : n.intact = true := by
          cases n <;> first | rfl | cases hn
        have hns : tail = .closed ∧ Node.storableItems (depth - 1) ns = true := by
          by_contra hopen
          rw [if_neg hopen] at h
          cases h
        simp [Node.intact, Node.intactItems, hns.1, hintact, Node.intactItems_of_storable ns hns.2]
    · cases h
  | _ => cases h

end Tagged

namespace Codec

variable {α : Type} {c : Codec α} {n : Node} {s : String} {a : α}

theorem decode_of_spelled (h : n.Spelled s) : c.decode s = c.readWhole n := by
  obtain ⟨rest, hparse, hblank⟩ := Node.parse_of_spelled h
  have hrest : JsonText.skipBlank rest = [] := List.dropWhile_eq_nil_iff.mpr hblank
  simp only [decode, hparse, hrest, List.isEmpty_nil, if_true]
  cases c.readWhole n <;> rfl

/-- A text that is decoded spells a value. -/
theorem Vets.exists_spelled (hc : c.Vets) (h : c.decode s = .ok a) : ∃ n : Node, n.Spelled s := by
  rcases hparse : Node.parse s.toList with ⟨n, rest⟩
  rw [decode, hparse] at h
  obtain ⟨b, hb, h⟩ := bind_eq_ok.mp h
  have hrest : (JsonText.skipBlank rest).isEmpty = true := by
    by_contra hmore
    rw [if_neg hmore] at h
    cases h
  exact ⟨n, Node.spelled_of_parse hparse (hc hb)
    (List.dropWhile_eq_nil_iff.mp (List.isEmpty_iff.mp hrest))⟩

end Codec

end HotplugDetect
