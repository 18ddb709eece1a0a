import HotplugDetect.Controller.Worker

/-! # Turns

The workers act in the order of their line. A turn of a worker is over when it has to wait. A worker
that finds new work after every run never has to wait; it lets the others go first after a number of
locks, so that a probe that raises interrupts again and again does not keep the others from their
work. It does so as the owner of the next lock.
-/

namespace HotplugDetect.Controller

variable {ρ : Type}

/-- Whether the next move of a worker needs the lock that the worker has asked for. A run of the
digital-port job goes on without one. -/
def atLock (s : Controller ρ) (j : Job) : Bool :=
  match (s.lane j).worker with
  | some .claiming => true
  | some (.running _) => j ≠ .digital
  | _ => false

/-- The first worker of the line lets the others go first. -/
def giveWay (s : Controller ρ) : Controller ρ :=
  { s with ready := s.ready.tail ++ s.ready.head?.toList }

/-- The locks that a worker may use in one turn. A run of the generic job uses two. -/
def locksPerTurn : Nat := 128

/-- The first worker of the line moves, as often as the fuel allows; it may use `left` more locks in
its turn. -/
def settleFor [Probe ρ] : Nat → Nat → Controller ρ → Controller ρ
  | 0, _, s => s
  | fuel + 1, left, s =>
    match s.ready with
    | [] => s
    | j :: _ =>
      let cost := if s.atLock j then 1 else 0
      if left < cost then settleFor fuel locksPerTurn s.giveWay
      else
        let t := s.move j true
        settleFor fuel (if t.ready.head? = some j then left - cost else locksPerTurn) t

/-- The interrupts that the probes and the ports may still raise. -/
def budget [BoundedProbe ρ] (s : Controller ρ) : Nat :=
  s.connectors.foldr (fun c n => BoundedProbe.budget c.probe + n) 0 +
    Port.all.foldr (fun port n => (s.digitalPorts port).elim n fun h => h.budget + n) 0

/-- More moves than the workers can make at one instant: every raised interrupt leads to at most two
runs, and every run takes a few moves and ends at most one turn. -/
def movesPerInstant [BoundedProbe ρ] (s : Controller ρ) : Nat := 64 * (s.budget + 2)

/-- Lets the workers act until all of them wait. -/
def settle [BoundedProbe ρ] (s : Controller ρ) : Controller ρ :=
  settleFor s.movesPerInstant locksPerTurn s

end HotplugDetect.Controller
