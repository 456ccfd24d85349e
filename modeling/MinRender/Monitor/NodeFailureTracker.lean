import Mathlib.Data.List.Basic

/-!
# The machine-level failure tracker

Counts recent failures per node; a node with too many is suspended.
-/

namespace MinRender

/-- A node's failures in the current window. -/
structure FailureRecord where
  failureCount : Int := 0
  firstFailureMs : Int := 0
  lastFailureMs : Int := 0
  suspended : Bool := false
deriving DecidableEq, Repr

/-- The records, by node id. -/
structure NodeFailureTracker where
  records : List (String × FailureRecord) := []
deriving DecidableEq, Repr

namespace NodeFailureTracker

def suspendThreshold : Int := 5
def suspendWindowMs : Int := 300000
def failureCooldownMs : Int := 30000

def getRecord (t : NodeFailureTracker) (nodeId : String) : Option FailureRecord :=
  t.records.lookup nodeId

def clearNode (t : NodeFailureTracker) (nodeId : String) : NodeFailureTracker :=
  { records := t.records.filter (·.1 ≠ nodeId) }

/-- The record after one more failure. -/
def FailureRecord.bump (r : FailureRecord) (nowMs : Int) : FailureRecord :=
  -- outside the window the count starts over
  let r := if 0 < r.firstFailureMs ∧ suspendWindowMs < nowMs - r.firstFailureMs
    then { r with failureCount := 0, firstFailureMs := nowMs } else r
  let r := if r.failureCount = 0 then { r with firstFailureMs := nowMs } else r
  let r := { r with failureCount := r.failureCount + 1, lastFailureMs := nowMs }
  if suspendThreshold ≤ r.failureCount then { r with suspended := true } else r

def recordFailure (t : NodeFailureTracker) (nodeId : String) (nowMs : Int) :
    NodeFailureTracker :=
  let r := (t.getRecord nodeId).getD {}
  { records := (nodeId, FailureRecord.bump r nowMs) :: (t.clearNode nodeId).records }

def isSuspended (t : NodeFailureTracker) (nodeId : String) : Bool :=
  match t.getRecord nodeId with
  | none => false
  | some r => r.suspended

def isInCooldown (t : NodeFailureTracker) (nodeId : String) (nowMs : Int) : Bool :=
  match t.getRecord nodeId with
  | none => false
  | some r => !r.suspended && nowMs - r.lastFailureMs < failureCooldownMs

end NodeFailureTracker

end MinRender
