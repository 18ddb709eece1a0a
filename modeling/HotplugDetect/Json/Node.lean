import HotplugDetect.Number.Numeral
import HotplugDetect.Json.Value

/-! # JSON texts as far as they can be read

Reading never fails. Where a text stops being JSON the tree says so: a value is `broken` or the
tail of an array or object is `torn`, and nothing after that point is part of the tree. Whoever
walks the tree in the order of the text therefore meets the first fault first.
-/

namespace HotplugDetect

/-- Whether an array or object was closed. -/
inductive Tail
  | closed
  | torn
  deriving DecidableEq

inductive Node
  | null
  | bool (b : Bool)
  | number (n : Numeral)
  /-- A string; none when a surrogate unit lacks its partner. -/
  | text (s : Option String)
  | array (items : List Node) (tail : Tail)
  | object (members : List (Option String × Node)) (tail : Tail)
  | broken
  deriving Inhabited

namespace Node

open JsonText (skipBlank readString)

/-- The words and numbers; a value that cannot be read swallows the rest of the text. -/
def readScalar (cs : List Char) : Node × List Char :=
  match cs with
  | 'n' :: 'u' :: 'l' :: 'l' :: rest => (.null, rest)
  | 't' :: 'r' :: 'u' :: 'e' :: rest => (.bool true, rest)
  | 'f' :: 'a' :: 'l' :: 's' :: 'e' :: rest => (.bool false, rest)
  | '"' :: rest =>
    match readString rest with
    | some (s, rest) => (.text s, rest)
    | none => (.broken, [])
  | _ =>
    match Numeral.read cs with
    | some (n, rest) => (.number n, rest)
    | none => (.broken, [])

mutual

/-- Reads one value. Every two units of fuel pay for one character of the text. -/
def read : Nat → List Char → Node × List Char
  | 0, _ => (.broken, [])
  | fuel + 1, cs =>
    match skipBlank cs with
    | '[' :: rest =>
      match skipBlank rest with
      | ']' :: rest => (.array [] .closed, rest)
      | rest =>
        let (items, tail, rest) := readItems fuel [] rest
        (.array items tail, rest)
    | '{' :: rest =>
      match skipBlank rest with
      | '}' :: rest => (.object [] .closed, rest)
      | '"' :: rest =>
        let (members, tail, rest) := readMembers fuel [] rest
        (.object members tail, rest)
      | _ => (.object [] .torn, [])
    | rest => readScalar rest

/-- Reads the items of an array from the start of one of them; `acc` holds the earlier ones, last
one first. -/
def readItems : Nat → List Node → List Char → List Node × Tail × List Char
  | 0, acc, _ => (acc.reverse, .torn, [])
  | fuel + 1, acc, cs =>
    let (item, rest) := read fuel cs
    let acc := item :: acc
    match skipBlank rest with
    | ']' :: rest => (acc.reverse, .closed, rest)
    | ',' :: rest =>
      match skipBlank rest with
      | [] => (acc.reverse, .torn, [])
      | ']' :: _ => (acc.reverse, .torn, [])
      | rest => readItems fuel acc rest
    | _ => (acc.reverse, .torn, [])

/-- Reads the members of an object from behind the opening quote of a key. -/
def readMembers : Nat → List (Option String × Node) → List Char →
    List (Option String × Node) × Tail × List Char
  | 0, acc, _ => (acc.reverse, .torn, [])
  | fuel + 1, acc, cs =>
    match readString cs with
    | none => (acc.reverse, .torn, [])
    | some (key, rest) =>
      match skipBlank rest with
      | ':' :: rest =>
        let (value, rest) := read fuel rest
        let acc := (key, value) :: acc
        match skipBlank rest with
        | '}' :: rest => (acc.reverse, .closed, rest)
        | ',' :: rest =>
          match skipBlank rest with
          | '"' :: rest => readMembers fuel acc rest
          | _ => (acc.reverse, .torn, [])
        | _ => (acc.reverse, .torn, [])
      | _ => (((key, .broken) :: acc).reverse, .torn, [])

end

def parse (cs : List Char) : Node × List Char := read (2 * cs.length + 2) cs

mutual

/-- JSON throughout; strings and numbers need not have a value. -/
def intact : Node → Bool
  | .array items tail => tail = .closed && intactItems items
  | .object members tail => tail = .closed && intactMembers members
  | .broken => false
  | _ => true

def intactItems : List Node → Bool
  | [] => true
  | n :: ns => intact n && intactItems ns

def intactMembers : List (Option String × Node) → Bool
  | [] => true
  | (_, n) :: ms => intact n && intactMembers ms

end

mutual

/-- JSON throughout, with a value everywhere and fewer than `depth` containers inside each other. -/
def storable (depth : Nat) : Node → Bool
  | .text s => s.isSome
  | .number n => n.value.isSome
  | .array items tail => 1 < depth && tail = .closed && storableItems (depth - 1) items
  | .object members tail => 1 < depth && tail = .closed && storableMembers (depth - 1) members
  | .broken => false
  | _ => true

def storableItems (depth : Nat) : List Node → Bool
  | [] => true
  | n :: ns => storable depth n && storableItems depth ns

def storableMembers (depth : Nat) : List (Option String × Node) → Bool
  | [] => true
  | (k, n) :: ms => k.isSome && storable depth n && storableMembers depth ms

end

mutual

/-- The value of a tree without faults and floating-point numbers. -/
def toJson? : Node → Option Json
  | .null => some .null
  | .bool b => some (.bool b)
  | .number n => match n.value with
    | some (.integer i) => some (.number i)
    | _ => none
  | .text s => s.map .text
  | .array items tail => if tail = .closed then (itemsToJson? items).map .array else none
  | .object members tail => if tail = .closed then (membersToJson? members).map .object else none
  | .broken => none

def itemsToJson? : List Node → Option (List Json)
  | [] => some []
  | n :: ns => do some ((← toJson? n) :: (← itemsToJson? ns))

def membersToJson? : List (Option String × Node) → Option (List (String × Json))
  | [] => some []
  | (k, n) :: ms => do some ((← k, ← toJson? n) :: (← membersToJson? ms))

end

def member? (key : String) : Node → Option Node
  | .object members _ => (members.find? (·.1 = some key)).map (·.2)
  | _ => none

end Node

/-- The value of a text that holds one JSON value without floating-point numbers. -/
def Json.parse? (s : String) : Option Json :=
  match Node.parse s.toList with
  | (n, rest) => if (JsonText.skipBlank rest).isEmpty then n.toJson? else none

end HotplugDetect
