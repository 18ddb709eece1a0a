import HotplugDetect.Json.Node
import HotplugDetect.Text.Quoted

/-! # Why a JSON text does not describe a value

Either the text stops being JSON, or it is JSON of another shape than the one asked for.
-/

namespace HotplugDetect

inductive Found
  | null
  | bool (b : Bool)
  | integer (n : Int)
  | float (x : Binary64)
  | text (s : String)
  | sequence
  | map
  deriving DecidableEq

namespace Found

def describe : Found → String
  | null => "null"
  | bool b => "boolean `" ++ (if b then "true" else "false") ++ "`"
  | integer n => "integer `" ++ String.ofList (Json.numberText n) ++ "`"
  | float x => "floating point `" ++ x.text ++ "`"
  | text s => "string " ++ Text.quoted s
  | sequence => "sequence"
  | map => "map"

end Found

inductive Mismatch
  | type (found : Found) (expected : String)
  | value (found : Found) (expected : String)
  | variant (name : String) (known : List String)
  | missing (key : String)
  | duplicate (key : String)
  | length (count : Nat) (expected : String)
  deriving DecidableEq

namespace Mismatch

def oneOf (known : List String) : String :=
  String.intercalate ", " (known.map fun k => "`" ++ k ++ "`")

def message : Mismatch → String
  | type found expected => "invalid type: " ++ found.describe ++ ", expected " ++ expected
  | value found expected => "invalid value: " ++ found.describe ++ ", expected " ++ expected
  | variant name known => "unknown variant `" ++ name ++ "`, expected one of " ++ oneOf known
  | missing key => "missing field `" ++ key ++ "`"
  | duplicate key => "duplicate field `" ++ key ++ "`"
  | length count expected => "invalid length " ++ toString count ++ ", expected " ++ expected

end Mismatch

inductive ReadError
  | notJson
  | mismatch (m : Mismatch)
  deriving DecidableEq

namespace ReadError

def message : ReadError → String
  | notJson => "the text is not JSON"
  | mismatch m => m.message

end ReadError

/-- The kind of the value at a node; none where the text stops being JSON. Containers are not
looked into. -/
def Node.found? : Node → Option Found
  | .null => some .null
  | .bool b => some (.bool b)
  | .number n => n.value.map fun
    | .integer i => .integer i
    | .float x => .float x
  | .text s => s.map .text
  | .array _ _ => some .sequence
  | .object _ _ => some .map
  | .broken => none

def Node.unexpected (n : Node) (expected : String) : ReadError :=
  match n.found? with
  | some f => .mismatch (.type f expected)
  | none => .notJson

end HotplugDetect
