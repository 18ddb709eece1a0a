import HotplugDetect.Files.Tree

/-! # Hosts

What a program needs from the place where it runs: files, directories and a clock. A tree of files
is a host whose clock stands still.
-/

namespace HotplugDetect

structure Host (m : Type → Type) where
  look : String → m (Except FileFault ByteArray)
  makeDirectories : String → m (Except FileFault Unit)
  write : String → String → m (Except FileFault Unit)
  /-- Text goes behind the content of a file; a missing file is made. -/
  append : String → String → m (Except FileFault Unit)
  /-- Milliseconds since a fixed instant in the past. -/
  clock : m Nat

namespace FileTree

def change (f : FileTree → Except FileFault FileTree) : StateM FileTree (Except FileFault Unit) :=
  fun t =>
    match f t with
    | .ok t => (.ok (), t)
    | .error e => (.error e, t)

def host : Host (StateM FileTree) where
  look path := fun t => (t.look path, t)
  makeDirectories path := fun t => t.makeDirectories path
  write path text := change (·.write path text)
  append path text := change (·.append path text)
  clock := pure 0

end FileTree

end HotplugDetect
