import Mathlib.Data.Rat.Defs
import Mathlib.Tactic.Ring

/-!
# Peers (`gossip/peer.py`)

`mark_alive`, `mark_suspect` and `mark_dead` change the peer and return whether its state changed.
Clock readings are rational numbers; a `latency_ms` of infinity is `none`.
-/

namespace GossipRl

inductive PeerState where
  | ALIVE
  | SUSPECT
  | DEAD
  | LEFT
deriving DecidableEq, Repr

structure Peer where
  id : String
  state : PeerState := .ALIVE
  incarnation : Int := 0
  lastSeen : ℚ := 0
  latencyMs : Option ℚ := none
deriving DecidableEq, Repr

namespace Peer

def isAlive (p : Peer) : Bool := p.state == .ALIVE

def markAlive (now : ℚ) (incarnation : Option Int) (p : Peer) : Bool × Peer :=
  if incarnation.any (· ≤ p.incarnation) then (false, p)
  else
    (p.state ≠ .ALIVE,
      { p with
        incarnation := incarnation.getD p.incarnation
        state := .ALIVE
        lastSeen := now })

def markSuspect (incarnation : Option Int) (p : Peer) : Bool × Peer :=
  if incarnation.any (· < p.incarnation) then (false, p)
  else if p.state = .ALIVE then (true, { p with state := .SUSPECT })
  else (false, p)

def markDead (incarnation : Option Int) (p : Peer) : Bool × Peer :=
  if incarnation.any (· < p.incarnation) then (false, p)
  else if p.state ≠ .DEAD then (true, { p with state := .DEAD })
  else (false, p)

def updateLatency (latencyMs : ℚ) (p : Peer) (alpha : ℚ := 1 / 10) : Peer :=
  { p with
    latencyMs := some <|
      match p.latencyMs with
      | none => latencyMs
      | some old => alpha * latencyMs + (1 - alpha) * old }

variable (p : Peer) (now : ℚ) (i : Option Int)

@[simp] theorem id_markAlive : (p.markAlive now i).2.id = p.id := by
  unfold markAlive; split <;> rfl

@[simp] theorem id_markSuspect : (p.markSuspect i).2.id = p.id := by
  unfold markSuspect; repeat' split
  all_goals rfl

@[simp] theorem id_markDead : (p.markDead i).2.id = p.id := by
  unfold markDead; repeat' split
  all_goals rfl

theorem le_incarnation_markAlive : p.incarnation ≤ (p.markAlive now i).2.incarnation := by
  unfold markAlive
  cases i with
  | none => simp
  | some j =>
    by_cases h : j ≤ p.incarnation
    · simp [h]
    · simp [h]; omega

@[simp] theorem incarnation_markSuspect : (p.markSuspect i).2.incarnation = p.incarnation := by
  unfold markSuspect; repeat' split
  all_goals rfl

@[simp] theorem incarnation_markDead : (p.markDead i).2.incarnation = p.incarnation := by
  unfold markDead; repeat' split
  all_goals rfl

end Peer

end GossipRl
