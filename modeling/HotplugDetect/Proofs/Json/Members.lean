import Mathlib.Data.List.Nodup
import Mathlib.Data.List.Pairwise
import HotplugDetect.Failure
import HotplugDetect.Json.Codec

/-! # The members of a record, one at a time

A member is either skipped or read into its field. When no field looks at what another one sets, the
order of the members does not matter, nor does a member that leaves the record as it is.
-/

namespace HotplugDetect

theorem map_eq_ok {ε α β : Type} {x : Except ε α} {f : α → β} {b : β} :
    x.map f = .ok b ↔ ∃ a, x = .ok a ∧ f a = b := by
  cases x <;> simp [Except.map]

namespace Field

variable {σ : Type}

/-- Two fields that may be read in either order. -/
def Apart (f g : Field σ) : Prop :=
  ∀ (place : Place) (n m : Node) (s t : σ),
    (∃ s', f.read place n s = .ok s' ∧ g.read place m s' = .ok t) ↔
      ∃ s', g.read place m s = .ok s' ∧ f.read place n s' = .ok t

theorem Apart.symm {f g : Field σ} (h : f.Apart g) : g.Apart f :=
  fun place n m s t => (h place m n s t).symm

@[simp] theorem apart_of {α β : Type} {key key' : String} {required required' : Bool} {c : Codec α}
    {c' : Codec β} {get : σ → α} {get' : σ → β} {set : σ → α → σ} {set' : σ → β → σ}
    (h : ∀ s a b, set' (set s a) b = set (set' s b) a) :
    (Field.of key required c get set).Apart (.of key' required' c' get' set') := by
  intro place n m s t
  simp only [Field.of, map_eq_ok]
  constructor
  · rintro ⟨_, ⟨a, ha, rfl⟩, b, hb, rfl⟩
    exact ⟨_, ⟨b, hb, rfl⟩, a, ha, (h s a b).symm⟩
  · rintro ⟨_, ⟨b, hb, rfl⟩, a, ha, rfl⟩
    exact ⟨_, ⟨a, ha, rfl⟩, b, hb, h s a b⟩

end Field

namespace Record

variable {σ : Type} {r : Record σ} {place : Place} {tail : Tail}

/-- Every field has a key of its own and is read apart from the others. -/
structure Lawful (r : Record σ) : Prop where
  nodup : (r.fields.map (·.key)).Nodup
  apart : r.fields.Pairwise Field.Apart

theorem Lawful.eq_of_key (hr : r.Lawful) {f g : Field σ} (hf : f ∈ r.fields) (hg : g ∈ r.fields)
    (h : f.key = g.key) : f = g :=
  List.inj_on_of_nodup_map hr.nodup hf hg h

theorem Lawful.apart_of_ne (hr : r.Lawful) {f g : Field σ} (hf : f ∈ r.fields) (hg : g ∈ r.fields)
    (h : f.key ≠ g.key) : f.Apart g :=
  have : Std.Symm (Field.Apart (σ := σ)) := ⟨fun _ _ => Field.Apart.symm⟩
  hr.apart.forall hf hg fun heq => h (heq ▸ rfl)

/-- What one member does to the keys that were seen and to the value. -/
inductive Takes (r : Record σ) (place : Place) (seen : List String) (s : σ) :
    Option String × Node → List String → σ → Prop
  | skip {key : String} {n : Node} (hkey : key ∉ r.fields.map (·.key)) (hn : n.intact = true) :
      Takes r place seen s (some key, n) seen s
  | field {f : Field σ} {key : String} {n : Node} {s' : σ} (hf : f ∈ r.fields)
      (hkey : f.key = key) (hfresh : key ∉ seen) (hread : f.read place n s = .ok s') :
      Takes r place seen s (some key, n) (key :: seen) s'

theorem Lawful.find?_eq_some_iff (hr : r.Lawful) {key : String} {f : Field σ} :
    r.fields.find? (·.key = key) = some f ↔ f ∈ r.fields ∧ f.key = key := by
  constructor
  · intro h
    exact ⟨List.mem_of_find?_eq_some h, by simpa using List.find?_some h⟩
  · rintro ⟨hf, rfl⟩
    obtain ⟨g, hg⟩ : ∃ g, r.fields.find? (·.key = f.key) = some g := by
      rw [← Option.isSome_iff_exists, List.find?_isSome]
      exact ⟨f, hf, by simp⟩
    have hkey : g.key = f.key := by simpa using List.find?_some hg
    rw [hg, hr.eq_of_key (List.mem_of_find?_eq_some hg) hf hkey]

theorem find?_eq_none_iff {key : String} :
    r.fields.find? (·.key = key) = none ↔ key ∉ r.fields.map (·.key) := by
  simp [List.find?_eq_none]

section Steps

variable {seen : List String} {s v : σ} {ms : List (Option String × Node)}

theorem finish_eq_ok : r.finish seen s = .ok v ↔
    (∀ f ∈ r.fields, f.required = true → f.key ∈ seen) ∧ s = v := by
  unfold finish
  split
  · rename_i f hf
    have hmissing := List.find?_some hf
    have hmem := List.mem_of_find?_eq_some hf
    simp only [Bool.and_eq_true, Bool.not_eq_true', List.contains_eq_mem,
      decide_eq_false_iff_not] at hmissing
    simp only [reduceCtorEq, false_iff, not_and]
    exact fun hall => absurd (hall f hmem hmissing.1) hmissing.2
  · rename_i hnone
    simp only [List.find?_eq_none, Bool.and_eq_true, Bool.not_eq_true', List.contains_eq_mem,
      decide_eq_false_iff_not, not_and, not_not] at hnone
    simp only [Except.ok.injEq, iff_and_self]
    exact fun _ => hnone

theorem readMembers_nil_eq_ok : r.readMembers place tail seen s [] = .ok v ↔
    tail = .closed ∧ (∀ f ∈ r.fields, f.required = true → f.key ∈ seen) ∧ s = v := by
  rw [readMembers]
  split
  · simp_all [finish_eq_ok]
  · simp_all

theorem readMembers_cons_eq_ok (hr : r.Lawful) {m : Option String × Node} :
    r.readMembers place tail seen s (m :: ms) = .ok v ↔
      ∃ seen' s', r.Takes place seen s m seen' s' ∧
        r.readMembers place tail seen' s' ms = .ok v := by
  obtain ⟨_ | key, n⟩ := m
  · simp only [readMembers, reduceCtorEq, false_iff, not_exists, not_and]
    rintro _ _ ⟨⟩
  · rw [readMembers]
    cases hfind : r.fields.find? (·.key = key) with
    | none =>
      have hkey := find?_eq_none_iff.mp hfind
      have hskip {seen' : List String} {s' : σ} : r.Takes place seen s (some key, n) seen' s' ↔
          n.intact = true ∧ seen' = seen ∧ s' = s := by
        constructor
        · rintro (⟨-, hn⟩ | ⟨hf, rfl⟩)
          · exact ⟨hn, rfl, rfl⟩
          · exact absurd (List.mem_map_of_mem hf) hkey
        · rintro ⟨hn, rfl, rfl⟩
          exact .skip hkey hn
      by_cases hn : n.intact = true <;> simp [hskip, hn]
    | some f =>
      obtain ⟨hf, hkey⟩ := hr.find?_eq_some_iff.mp hfind
      have hfield {seen' : List String} {s' : σ} : r.Takes place seen s (some key, n) seen' s' ↔
          key ∉ seen ∧ f.read place n s = .ok s' ∧ seen' = key :: seen := by
        constructor
        · rintro (⟨hunknown, -⟩ | ⟨hg, hg', hfresh, hread⟩)
          · exact absurd (hkey ▸ List.mem_map_of_mem hf) hunknown
          · obtain rfl := hr.eq_of_key hf hg (hkey.trans hg'.symm)
            exact ⟨hfresh, hread, rfl⟩
        · rintro ⟨hfresh, hread, rfl⟩
          exact .field hf hkey hfresh hread
      by_cases hfresh : key ∈ seen <;> simp [hfield, hfresh, bind_eq_ok]

theorem readMembers_seen (hr : r.Lawful) {seen' : List String} (hseen : ∀ f ∈ r.fields,
      f.required = true ∨ (∃ m ∈ ms, m.1 = some f.key) → (f.key ∈ seen ↔ f.key ∈ seen'))
    (h : r.readMembers place tail seen s ms = .ok v) :
    r.readMembers place tail seen' s ms = .ok v := by
  induction ms generalizing seen seen' s with
  | nil =>
    obtain ⟨htail, hrequired, hv⟩ := readMembers_nil_eq_ok.mp h
    exact readMembers_nil_eq_ok.mpr ⟨htail, fun f hf hf' =>
      (hseen f hf (.inl hf')).mp (hrequired f hf hf'), hv⟩
  | cons m ms ih =>
    obtain ⟨seen₁, s₁, htakes, h⟩ := (readMembers_cons_eq_ok hr).mp h
    refine (readMembers_cons_eq_ok hr).mpr ?_
    have hmore : ∀ f ∈ r.fields, f.required = true ∨ (∃ m ∈ ms, m.1 = some f.key) →
        (f.key ∈ seen ↔ f.key ∈ seen') := by
      rintro f hf (hf' | ⟨m', hm', hkey⟩)
      · exact hseen f hf (.inl hf')
      · exact hseen f hf (.inr ⟨m', List.mem_cons_of_mem _ hm', hkey⟩)
    cases htakes with
    | skip hkey hn => exact ⟨_, _, .skip hkey hn, ih hmore h⟩
    | @field f key n s' hf hkey hfresh hread =>
      subst hkey
      have hfresh' := (hseen f hf (.inr ⟨_, List.mem_cons_self, rfl⟩)).not.mp hfresh
      refine ⟨_, _, .field hf rfl hfresh' hread, ih (fun g hg hg' => ?_) h⟩
      simp only [List.mem_cons, hmore g hg hg']

theorem Takes.swap (hr : r.Lawful) {a b : Option String × Node} {seen₁ seen₂ : List String}
    {s₁ s₂ : σ} (ha : r.Takes place seen s a seen₁ s₁) (hb : r.Takes place seen₁ s₁ b seen₂ s₂) :
    ∃ seen₁' s₁' seen₂', r.Takes place seen s b seen₁' s₁' ∧
      r.Takes place seen₁' s₁' a seen₂' s₂ ∧ ∀ key, key ∈ seen₂ ↔ key ∈ seen₂' := by
  cases ha with
  | skip hkey hn =>
    cases hb with
    | skip hkey' hn' => exact ⟨_, _, _, .skip hkey' hn', .skip hkey hn, fun _ => .rfl⟩
    | field hf hkey' hfresh hread =>
      exact ⟨_, _, _, .field hf hkey' hfresh hread, .skip hkey hn, fun _ => .rfl⟩
  | field hf hkey hfresh hread =>
    cases hb with
    | skip hkey' hn' =>
      exact ⟨_, _, _, .skip hkey' hn', .field hf hkey hfresh hread, fun _ => .rfl⟩
    | field hg hkey' hfresh' hread' =>
      obtain ⟨hne, hfresh'⟩ := not_or.mp (List.mem_cons.not.mp hfresh')
      obtain ⟨s', hfirst, hsecond⟩ := (hr.apart_of_ne hf hg
        (by rw [hkey, hkey']; exact Ne.symm hne) _ _ _ _ _).mp ⟨_, hread, hread'⟩
      refine ⟨_, _, _, .field hg hkey' hfresh' hfirst, .field hf hkey ?_ hsecond, fun key => ?_⟩
      · simp [hfresh, Ne.symm hne]
      · simp only [List.mem_cons]
        tauto

/-- The order of the members does not matter. -/
theorem readMembers_perm (hr : r.Lawful) {ms' : List (Option String × Node)} (hms : ms.Perm ms')
    (h : r.readMembers place tail seen s ms = .ok v) :
    r.readMembers place tail seen s ms' = .ok v := by
  induction hms generalizing seen s with
  | nil => exact h
  | cons m _ ih =>
    obtain ⟨seen', s', htakes, h⟩ := (readMembers_cons_eq_ok hr).mp h
    exact (readMembers_cons_eq_ok hr).mpr ⟨seen', s', htakes, ih h⟩
  | swap b a ms =>
    obtain ⟨seen₁, s₁, ha, h⟩ := (readMembers_cons_eq_ok hr).mp h
    obtain ⟨seen₂, s₂, hb, h⟩ := (readMembers_cons_eq_ok hr).mp h
    obtain ⟨seen₁', s₁', seen₂', hb', ha', hseen⟩ := ha.swap hr hb
    exact (readMembers_cons_eq_ok hr).mpr ⟨_, _, hb', (readMembers_cons_eq_ok hr).mpr
      ⟨_, _, ha', readMembers_seen hr (fun f _ _ => hseen f.key) h⟩⟩
  | trans _ _ ih ih' => exact ih' (ih h)

/-- A member under an unknown key makes no difference. -/
theorem readMembers_unknown {key : String} {n : Node} (hkey : key ∉ r.fields.map (·.key))
    (hn : n.intact = true) : r.readMembers place tail seen s ((some key, n) :: ms) =
      r.readMembers place tail seen s ms := by
  simp only [readMembers, find?_eq_none_iff.mpr hkey, hn, if_true]

theorem readMembers_default (hr : r.Lawful) {f : Field σ} {n : Node} (hf : f ∈ r.fields)
    (hrequired : f.required = false) (hread : f.read place n s = .ok s) (hfresh : f.key ∉ seen)
    (hms : ∀ m ∈ ms, m.1 ≠ some f.key) :
    r.readMembers place tail seen s ((some f.key, n) :: ms) = .ok v ↔
      r.readMembers place tail seen s ms = .ok v := by
  have hfirst : r.readMembers place tail seen s ((some f.key, n) :: ms) =
      r.readMembers place tail (f.key :: seen) s ms := by
    simp [readMembers, hr.find?_eq_some_iff.mpr ⟨hf, rfl⟩, hfresh, hread, bind, Except.bind]
  have hseen : ∀ g ∈ r.fields, g.required = true ∨ (∃ m ∈ ms, m.1 = some g.key) →
      (g.key ∈ f.key :: seen ↔ g.key ∈ seen) := by
    intro g hg hg'
    have hne : g.key ≠ f.key := by
      intro hkey
      rcases hg' with hg' | ⟨m, hm, hm'⟩
      · rw [hr.eq_of_key hg hf hkey, hrequired] at hg'
        cases hg'
      · exact hms m hm (hkey ▸ hm')
    simp [hne]
  rw [hfirst]
  exact ⟨readMembers_seen hr hseen, readMembers_seen hr fun g hg hg' => (hseen g hg hg').symm⟩

end Steps

end Record

end HotplugDetect
