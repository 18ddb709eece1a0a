import HotplugDetect.Json.Mismatch

/-! # Reading and writing typed values

A codec reads a value from a JSON tree and writes it back. Values are read in the order of the text
and the first fault is reported. Values inside a tagged alternative are read from a stored copy of
the text, which is known to be JSON and has rules of its own for alternatives without fields.
-/

namespace HotplugDetect

/-- Where a value is read: from the text itself, with the nesting that is still allowed, or from a
stored part of it. -/
inductive Place
  | streamed (depth : Nat)
  | stored
  deriving DecidableEq

/-- The containers that may stand inside each other, plus one. -/
def nestingLimit : Nat := 128

def Place.enter : Place → Except ReadError Place
  | streamed depth => if 1 < depth then .ok (streamed (depth - 1)) else .error .notJson
  | stored => .ok stored

structure Codec (α : Type) where
  read : Place → Node → Except ReadError α
  write : α → Json

namespace Codec

def text : Codec String where
  read _ n :=
    match n with
    | .text (some s) => .ok s
    | n => .error (n.unexpected "a string")
  write := .text

def flag : Codec Bool where
  read _ n :=
    match n with
    | .bool b => .ok b
    | n => .error (n.unexpected "a boolean")
  write := .bool

def below (bound : Nat) (name : String) (n : Node) : Except ReadError Nat :=
  match n with
  | .number num =>
    match num.value with
    | some (.integer i) =>
      if 0 ≤ i ∧ i < bound then .ok i.toNat else .error (.mismatch (.value (.integer i) name))
    | some (.float x) => .error (.mismatch (.type (.float x) name))
    | none => .error .notJson
  | n => .error (n.unexpected name)

def word32 : Codec UInt32 where
  read _ n := (below UInt32.size "u32" n).map UInt32.ofNat
  write w := .number w.toNat

def word64 : Codec UInt64 where
  read _ n := (below UInt64.size "u64" n).map UInt64.ofNat
  write w := .number w.toNat

def optional {α : Type} (c : Codec α) : Codec (Option α) where
  read place n :=
    match n with
    | .null => .ok none
    | n => (c.read place n).map some
  write := Json.optional c.write

def list {α : Type} (c : Codec α) : Codec (List α) where
  read place n :=
    match n with
    | .array items tail => do
      let inner ← place.enter
      let values ← items.mapM (c.read inner)
      if tail = .closed then .ok values else .error .notJson
    | n => .error (n.unexpected "a sequence")
  write := Json.list c.write

section Alternatives

variable {α : Type}

def pick (names : List (String × α)) (s : String) : Except ReadError α :=
  match names.lookup s with
  | some a => .ok a
  | none => .error (.mismatch (.variant s (names.map (·.1))))

def unit (place : Place) (n : Node) : Except ReadError Unit :=
  match n with
  | .null => .ok ()
  | .object [] _ =>
    if place = .stored then .ok () else .error (n.unexpected "unit")
  | n => .error (n.unexpected "unit")

def identifier (names : List (String × α)) (n : Node) : Except ReadError α :=
  match n with
  | .text (some s) => pick names s
  | n => .error (n.unexpected "variant identifier")

def choiceFromText (names : List (String × α)) (depth : Nat) (n : Node) : Except ReadError α :=
  match n with
  | .text (some s) => pick names s
  | .object ((some key, content) :: more) tail => do
    let inner ← (Place.streamed depth).enter
    let a ← pick names key
    unit inner content
    if more.isEmpty ∧ tail = .closed then .ok a else .error .notJson
  | _ => .error .notJson

def choiceFromStore (names : List (String × α)) (n : Node) : Except ReadError α :=
  match n with
  | .text (some s) => pick names s
  | .object [(some key, content)] _ => do
    let a ← pick names key
    unit .stored content
    .ok a
  | .object _ _ => .error (.mismatch (.value .map "map with a single key"))
  | n => .error (n.unexpected "string or map")

/-- One of several named alternatives without fields: the name, or an object whose one key is the
name and whose value is null. -/
def choice (all : List α) (key : α → String) : Codec α where
  read place n :=
    let names := all.map fun a => (key a, a)
    match place with
    | .streamed depth => choiceFromText names depth n
    | .stored => choiceFromStore names n
  write a := .text (key a)

end Alternatives

end Codec

/-- One field of a record of type `σ`. A field that is not required keeps its initial value when
it is left out. -/
structure Field (σ : Type) where
  key : String
  required : Bool
  read : Place → Node → σ → Except ReadError σ
  write : σ → Json

def Field.of {σ α : Type} (key : String) (required : Bool) (c : Codec α) (get : σ → α)
    (set : σ → α → σ) : Field σ where
  key
  required
  read place n s := (c.read place n).map (set s)
  write s := c.write (get s)

def elementCount (n : Nat) : String := toString n ++ (if n = 1 then " element" else " elements")

/-- A record is written as an object and read from an object, or from an array of its fields in
order. -/
structure Record (σ : Type) where
  name : String
  initial : σ
  fields : List (Field σ)

namespace Record

variable {σ : Type}

def members (r : Record σ) (s : σ) : List (String × Json) :=
  r.fields.map fun f => (f.key, f.write s)

def write (r : Record σ) (s : σ) : Json := .object (r.members s)

def finish (r : Record σ) (seen : List String) (s : σ) : Except ReadError σ :=
  match r.fields.find? fun f => f.required && !seen.contains f.key with
  | some f => .error (.mismatch (.missing f.key))
  | none => .ok s

/-- Members under unknown keys are skipped. -/
def readMembers (r : Record σ) (place : Place) (tail : Tail) :
    List String → σ → List (Option String × Node) → Except ReadError σ
  | seen, s, [] => if tail = .closed then r.finish seen s else .error .notJson
  | _, _, (none, _) :: _ => .error .notJson
  | seen, s, (some key, content) :: rest =>
    match r.fields.find? (·.key = key) with
    | none =>
      if content.intact then r.readMembers place tail seen s rest else .error .notJson
    | some f =>
      if seen.contains key then .error (.mismatch (.duplicate key))
      else do
        let s ← f.read place content s
        r.readMembers place tail (key :: seen) s rest

/-- Trailing fields that are not required may be left off; `index` counts the items so far. -/
def readItems (r : Record σ) (place : Place) (tail : Tail) :
    Nat → List (Field σ) → List Node → σ → Except ReadError σ
  | _, [], [], s => if tail = .closed then .ok s else .error .notJson
  | index, [], items, _ =>
    match place with
    | .streamed _ => .error .notJson
    | .stored =>
      .error (.mismatch (.length (index + items.length) (elementCount index ++ " in sequence")))
  | index, f :: fs, [], s =>
    if tail = .torn then .error .notJson
    else if f.required then
      .error (.mismatch (.length index (r.name ++ " with " ++ elementCount r.fields.length)))
    else r.readItems place tail (index + 1) fs [] s
  | index, f :: fs, item :: items, s => do
    let s ← f.read place item s
    r.readItems place tail (index + 1) fs items s

def read (r : Record σ) (place : Place) (n : Node) : Except ReadError σ :=
  match n with
  | .object members tail => do
    let inner ← place.enter
    r.readMembers inner tail [] r.initial members
  | .array items tail => do
    let inner ← place.enter
    r.readItems inner tail 0 r.fields items r.initial
  | n => .error (n.unexpected r.name)

def codec (r : Record σ) : Codec σ := ⟨r.read, r.write⟩

end Record

/-- One alternative of a tagged sum: its name and how its content is read and written. The content
stands beside the tag, in the same object or array. -/
structure Variant (τ : Type) where
  key : String
  readMembers : List (Option String × Node) → Except ReadError τ
  readItems : List Node → Except ReadError τ

def Record.variant {σ τ : Type} (r : Record σ) (key : String) (inject : σ → τ) : Variant τ where
  key
  readMembers ms := (r.readMembers .stored .closed [] r.initial ms).map inject
  readItems items := (r.readItems .stored .closed 0 r.fields items r.initial).map inject

/-- A sum whose alternatives are told apart by the value under one key. -/
structure Tagged (τ : Type) where
  name : String
  tag : String
  variants : List (Variant τ)
  write : τ → Json

namespace Tagged

variable {τ : Type}

def names (t : Tagged τ) : List (String × Variant τ) := t.variants.map fun v => (v.key, v)

/-- Finds the tag among the members and stores the others. -/
def collect (t : Tagged τ) (depth : Nat) (tail : Tail) :
    Option (Variant τ) → List (Option String × Node) → List (Option String × Node) →
      Except ReadError τ
  | chosen, store, [] =>
    if tail = .torn then .error .notJson
    else match chosen with
      | none => .error (.mismatch (.missing t.tag))
      | some v => v.readMembers store.reverse
  | _, _, (none, _) :: _ => .error .notJson
  | chosen, store, (some key, content) :: rest =>
    if key = t.tag then
      if chosen.isSome then .error (.mismatch (.duplicate t.tag))
      else do
        let v ← Codec.identifier t.names content
        t.collect depth tail (some v) store rest
    else if content.storable depth then
      t.collect depth tail chosen ((some key, content) :: store) rest
    else .error .notJson

def readItems (t : Tagged τ) (depth : Nat) (tail : Tail) (items : List Node) :
    Except ReadError τ :=
  match items with
  | [] => .error (if tail = .torn then .notJson else .mismatch (.missing t.tag))
  | item :: rest => do
    let v ← Codec.identifier t.names item
    if tail = .closed ∧ Node.storableItems depth rest then v.readItems rest else .error .notJson

def read (t : Tagged τ) (depth : Nat) (n : Node) : Except ReadError τ :=
  match n with
  | .object members tail =>
    if 1 < depth then t.collect (depth - 1) tail none [] members else .error .notJson
  | .array items tail =>
    if 1 < depth then t.readItems (depth - 1) tail items else .error .notJson
  | n => .error (n.unexpected t.name)

/-- A tagged sum is only read from the text itself. -/
def codec (t : Tagged τ) : Codec τ where
  read place n :=
    match place with
    | .streamed depth => t.read depth n
    | .stored => t.read nestingLimit n
  write := t.write

end Tagged

/-- Reads a value from a tree of its own. -/
def Codec.readWhole {α : Type} (c : Codec α) (n : Node) : Except ReadError α :=
  c.read (.streamed nestingLimit) n

/-- Reads the one value of a text. A fault of the value comes before anything behind the value. -/
def Codec.decode {α : Type} (c : Codec α) (s : String) : Except ReadError α := do
  let (n, rest) := Node.parse s.toList
  let a ← c.readWhole n
  if (JsonText.skipBlank rest).isEmpty then .ok a else .error .notJson

end HotplugDetect
