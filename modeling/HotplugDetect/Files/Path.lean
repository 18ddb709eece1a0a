/-! # File paths

A path is a text of pieces between slashes. Empty pieces and single dots in it do not count, except
for the first piece: an empty one makes the path absolute, and a dot stands for the place where the
path starts.
-/

namespace HotplugDetect.Path

def splitSlash : List Char → List Char × List (List Char)
  | [] => ([], [])
  | c :: cs =>
    let (piece, pieces) := splitSlash cs
    if c = '/' then ([], piece :: pieces) else (c :: piece, pieces)

def joinSlash : List Char → List (List Char) → List Char
  | piece, [] => piece
  | piece, next :: pieces => piece ++ '/' :: joinSlash next pieces

theorem joinSlash_cons (c : Char) (piece : List Char) (pieces : List (List Char)) :
    joinSlash (c :: piece) pieces = c :: joinSlash piece pieces := by
  cases pieces <;> rfl

theorem joinSlash_splitSlash (cs : List Char) :
    joinSlash (splitSlash cs).1 (splitSlash cs).2 = cs := by
  induction cs with
  | nil => rfl
  | cons c cs ih =>
    by_cases h : c = '/'
    · simp [splitSlash, h, joinSlash, ih]
    · simp [splitSlash, h, joinSlash_cons, ih]

/-- The first piece and the others. -/
def pieces (path : String) : String × List String :=
  let (p, ps) := splitSlash path.toList
  (String.ofList p, ps.map String.ofList)

/-- The pieces that lead from one directory to the next. -/
def names (path : String) : List String :=
  ((pieces path).1 :: (pieces path).2).filter (· ≠ "")

def isAbsolute (path : String) : Bool := path.startsWith "/"

def endsInSlash (path : String) : Bool := path.endsWith "/"

def join (pieces : List String) : String := String.intercalate "/" pieces

def counts (piece : String) : Bool := piece != "" && piece != "."

def trimEnd (pieces : List String) : List String :=
  (pieces.reverse.dropWhile (!counts ·)).reverse

def parent? (path : String) : Option String :=
  match pieces path with
  | ("", []) => none
  | ("", body) =>
    if (trimEnd body).isEmpty then none
    else
      let rest := trimEnd (trimEnd body).dropLast
      some (if rest.isEmpty then "/" else join ("" :: rest))
  | (".", body) =>
    if (trimEnd body).isEmpty then some ""
    else some (join ("." :: trimEnd (trimEnd body).dropLast))
  | (first, body) => some (join (trimEnd (trimEnd (first :: body)).dropLast))

/-- A path and all paths above it; every parent is shorter. -/
def ancestorsFor : Nat → String → List String
  | 0, path => [path]
  | fuel + 1, path => path :: (parent? path).elim [] (ancestorsFor fuel)

def ancestors (path : String) : List String := ancestorsFor path.length path

end HotplugDetect.Path
