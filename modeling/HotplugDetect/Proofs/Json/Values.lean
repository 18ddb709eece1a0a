import HotplugDetect.Proofs.Json.Printed

/-! # Values are parsed from what is printed

A value whose numbers have 64 bits is parsed from its text in either layout, and it may be stored if
it is not nested too deeply. Other numbers are rounded, and nothing else is lost.
-/

namespace HotplugDetect

namespace Json

def fitsNumber (n : Int) : Bool := -2 ^ 63 ≤ n && n < 2 ^ 64

mutual

def fits : Json → Bool
  | .number n => fitsNumber n
  | .array items => fitsItems items
  | .object members => fitsMembers members
  | _ => true

def fitsItems : List Json → Bool
  | [] => true
  | x :: xs => fits x && fitsItems xs

def fitsMembers : List (String × Json) → Bool
  | [] => true
  | (_, x) :: ms => fits x && fitsMembers ms

end

mutual

/-- The containers that stand inside each other. -/
def nesting : Json → Nat
  | .array items => nestingItems items + 1
  | .object members => nestingMembers members + 1
  | _ => 0

def nestingItems : List Json → Nat
  | [] => 0
  | x :: xs => max (nesting x) (nestingItems xs)

def nestingMembers : List (String × Json) → Nat
  | [] => 0
  | (_, x) :: ms => max (nesting x) (nestingMembers ms)

end

end Json

theorem Numeral.value_ofInt {i : Int} (h : Json.fitsNumber i = true) :
    (ofInt i).value = some (.integer i) := by
  simp only [Json.fitsNumber, Bool.and_eq_true, decide_eq_true_eq] at h
  cases i with
  | ofNat n => exact value_ofNat (show n < 2 ^ 64 by simpa using h.2)
  | negSucc n =>
    have hsmall : n + 1 ≤ 2 ^ 63 := by omega
    have habsorb : absorb 0 (digits (n + 1)) = (n + 1, 0) := by
      have hfold := foldl_digits (n + 1)
      rw [absorb_eq (by rw [hfold]; exact hsmall.trans_lt (by decide)), hfold]
    have hlarge : ¬twoTo 63 < n + 1 := hsmall.not_gt
    simp only [value, ofInt, habsorb, integer, hlarge]
    simp [Int.negSucc_eq]

namespace Node

mutual

theorem toJson?_ofJson (j : Json) (h : j.fits = true) : (ofJson j).toJson? = some j := by
  match j with
  | .null => rfl
  | .bool b => rfl
  | .number n =>
    rw [Json.fits] at h
    simp only [ofJson, toJson?, Numeral.value_ofInt h]
  | .text s => rfl
  | .array items =>
    rw [Json.fits] at h
    simp [ofJson, toJson?, itemsToJson?_ofItems items h]
  | .object members =>
    rw [Json.fits] at h
    simp [ofJson, toJson?, membersToJson?_ofMembers members h]

theorem itemsToJson?_ofItems (items : List Json) (h : Json.fitsItems items = true) :
    itemsToJson? (ofItems items) = some items := by
  match items with
  | [] => rfl
  | x :: xs =>
    rw [Json.fitsItems, Bool.and_eq_true] at h
    simp [ofItems, itemsToJson?, toJson?_ofJson x h.1, itemsToJson?_ofItems xs h.2]

theorem membersToJson?_ofMembers (members : List (String × Json))
    (h : Json.fitsMembers members = true) : membersToJson? (ofMembers members) = some members := by
  match members with
  | [] => rfl
  | (k, x) :: ms =>
    rw [Json.fitsMembers, Bool.and_eq_true] at h
    simp [ofMembers, membersToJson?, toJson?_ofJson x h.1, membersToJson?_ofMembers ms h.2]

end

mutual

theorem storable_ofJson (j : Json) (h : j.fits = true) {depth : Nat} (hdepth : j.nesting < depth) :
    (ofJson j).storable depth = true := by
  match j with
  | .null => rfl
  | .bool b => rfl
  | .number n =>
    rw [Json.fits] at h
    simp only [ofJson, storable, Numeral.value_ofInt h, Option.isSome_some]
  | .text s => rfl
  | .array items =>
    rw [Json.fits] at h
    rw [Json.nesting] at hdepth
    have hitems := storableItems_ofItems items h (show _ < depth - 1 by omega)
    simp [ofJson, storable, hitems]
    omega
  | .object members =>
    rw [Json.fits] at h
    rw [Json.nesting] at hdepth
    have hmembers := storableMembers_ofMembers members h (show _ < depth - 1 by omega)
    simp [ofJson, storable, hmembers]
    omega

theorem storableItems_ofItems (items : List Json) (h : Json.fitsItems items = true) {depth : Nat}
    (hdepth : Json.nestingItems items < depth) :
    storableItems depth (ofItems items) = true := by
  match items with
  | [] => rfl
  | x :: xs =>
    rw [Json.fitsItems, Bool.and_eq_true] at h
    rw [Json.nestingItems, Nat.max_lt] at hdepth
    simp [ofItems, storableItems, storable_ofJson x h.1 hdepth.1,
      storableItems_ofItems xs h.2 hdepth.2]

theorem storableMembers_ofMembers (members : List (String × Json))
    (h : Json.fitsMembers members = true) {depth : Nat}
    (hdepth : Json.nestingMembers members < depth) :
    storableMembers depth (ofMembers members) = true := by
  match members with
  | [] => rfl
  | (k, x) :: ms =>
    rw [Json.fitsMembers, Bool.and_eq_true] at h
    rw [Json.nestingMembers, Nat.max_lt] at hdepth
    simp [ofMembers, storableMembers, storable_ofJson x h.1 hdepth.1,
      storableMembers_ofMembers ms h.2 hdepth.2]

end

end Node

/-- A value is parsed from its text. -/
theorem Json.parse?_print (l : Layout) {j : Json} (h : j.fits = true) :
    parse? (String.ofList (print l j)) = some j := by
  simp [parse?, Node.parse_print, JsonText.skipBlank, Node.toJson?_ofJson j h]

end HotplugDetect
