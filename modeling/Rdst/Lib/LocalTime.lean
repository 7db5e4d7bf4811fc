import Mathlib.Data.Int.Basic

/-! Python's naive local times, in seconds on the face of the local clock. -/

namespace LocalTime

/-- What the machine's `localtime` shows at each instant. -/
structure Zone where
  shown : Int → Int

/-- A time on the clock, and whether it is the second one that shows the same. -/
structure Moment where
  face : Int
  fold : Bool
deriving DecidableEq

def maxFoldSeconds : Int := 86400

def daySeconds : Int := 86400

variable (zone : Zone)

/-- `datetime.fromtimestamp`. -/
def Zone.fromTimestamp (t : Int) : Moment :=
  let result := zone.shown t
  let trans := result - zone.shown (t - maxFoldSeconds) - maxFoldSeconds
  ⟨result, decide (trans < 0) && decide (zone.shown (t + trans) = result)⟩

/-- `datetime.timestamp`: of two instants the earlier one or, for a fold, the later one; in a gap by the offset
before it or, for a fold, after it. -/
def Zone.timestamp (moment : Moment) : Int :=
  let t := moment.face
  let a := zone.shown t - t
  let u1 := t - a
  let t1 := zone.shown u1
  let u2 := u1 + if moment.fold = true then maxFoldSeconds else -maxFoldSeconds
  let b := if t1 = t then zone.shown u2 - u2 else t1 - u1
  let other := t - b
  if t1 = t ∧ a = b then u1
  else if zone.shown other = t then other
  else if t1 = t then u1
  else if moment.fold = true then min u1 other
  else max u1 other

def Zone.day (t : Int) : Int := zone.shown t / daySeconds

def Zone.hour (t : Int) : Int := zone.shown t % daySeconds / 3600

/-- A clock that is ahead of UTC by so much all the time. -/
def Zone.fixed (offset : Int) : Zone := ⟨fun t => t + offset⟩

end LocalTime
