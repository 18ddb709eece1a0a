import HotplugDetect.Json.Text

/-! # JSON values and how they are written

Objects keep the order of their members. A value is written either on one line or with every item on
a line of its own, indented by two spaces per level.
-/

namespace HotplugDetect

inductive Json
  | null
  | bool (b : Bool)
  | number (n : Int)
  | text (s : String)
  | array (items : List Json)
  | object (members : List (String × Json))
  deriving Inhabited

namespace Json

/-- The level of indentation; none writes everything on one line. -/
abbrev Layout := Option Nat

def newLine : Layout → List Char
  | none => []
  | some level => '\n' :: List.replicate (2 * level) ' '

def deeper (l : Layout) : Layout := l.map (· + 1)

def colon : Layout → List Char
  | none => [':']
  | some _ => [':', ' ']

def numberText : Int → List Char
  | .ofNat n => Nat.toDigits 10 n
  | .negSucc n => '-' :: Nat.toDigits 10 (n + 1)

mutual

def print (l : Layout) : Json → List Char
  | .null => ['n', 'u', 'l', 'l']
  | .bool true => ['t', 'r', 'u', 'e']
  | .bool false => ['f', 'a', 'l', 's', 'e']
  | .number n => numberText n
  | .text s => JsonText.quote s
  | .array [] => ['[', ']']
  | .array (x :: xs) =>
    '[' :: newLine (deeper l) ++ print (deeper l) x ++ printItems (deeper l) xs ++
      newLine l ++ [']']
  | .object [] => ['{', '}']
  | .object ((k, x) :: ms) =>
    '{' :: newLine (deeper l) ++ JsonText.quote k ++ colon l ++ print (deeper l) x ++
      printMembers (deeper l) ms ++ newLine l ++ ['}']

/-- The items after the first, at the indentation of items. -/
def printItems (l : Layout) : List Json → List Char
  | [] => []
  | x :: xs => ',' :: newLine l ++ print l x ++ printItems l xs

def printMembers (l : Layout) : List (String × Json) → List Char
  | [] => []
  | (k, x) :: ms =>
    ',' :: newLine l ++ JsonText.quote k ++ colon l ++ print l x ++ printMembers l ms

end

def compact (j : Json) : String := String.ofList (print none j)

def pretty (j : Json) : String := String.ofList (print (some 0) j)

instance : Coe Bool Json := ⟨.bool⟩

instance : Coe String Json := ⟨.text⟩

def nat (n : Nat) : Json := .number n

def optional {α : Type} (f : α → Json) : Option α → Json
  | none => .null
  | some a => f a

def list {α : Type} (f : α → Json) (as : List α) : Json := .array (as.map f)

end Json

end HotplugDetect
