/-! # Fair locks

A lock is handed over in the order of the requests. A party that asked for a held lock owns it as
soon as every earlier party has given it back.
-/

namespace HotplugDetect

structure Lock (α : Type) where
  holder : Option α := none
  queue : List α := []
  deriving DecidableEq

namespace Lock

variable {α : Type}

def line (l : Lock α) : List α := l.holder.toList ++ l.queue

def request (l : Lock α) (a : α) : Lock α :=
  match l.holder with
  | none => { l with holder := some a }
  | some _ => { l with queue := l.queue ++ [a] }

theorem holder_request_of_held (l : Lock α) (a b : α) (h : l.holder = some b) :
    (l.request a).holder = some b := by
  simp [request, h]

/-- Given back by the holder, the lock goes to the first in the queue. -/
def release (l : Lock α) : Lock α := ⟨l.queue.head?, l.queue.tail⟩

variable [DecidableEq α]

def heldBy (l : Lock α) (a : α) : Bool := l.holder = some a

/-- A party that goes away gives the lock back, or its place in the queue. -/
def leave (l : Lock α) (a : α) : Lock α :=
  if l.heldBy a then l.release else { l with queue := l.queue.erase a }

theorem heldBy_request_of_free (l : Lock α) (a : α) (h : l.holder = none) :
    (l.request a).heldBy a = true := by
  simp [request, heldBy, h]

end Lock

end HotplugDetect
