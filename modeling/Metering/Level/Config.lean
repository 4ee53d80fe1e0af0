import Metering.Level.Scale
/-!
How levels are reported, and how a session handles its streams.
-/

namespace Metering

structure EffectConfig where
  /-- Falling levels are slowed down. -/
  animate : Bool := true
  /-- The greatest fall between two levels reported one after the other. -/
  maxDecrement : Int32 := 8
  /-- A level equal to the one before it is not reported. -/
  changesOnly : Bool := false
deriving DecidableEq, Repr

structure SessionConfig where
  /-- Used for the local effect and for the effect of every stream. -/
  effect : EffectConfig := {}
  /-- Streams start as soon as they are realized. -/
  startStreams : Bool := true
deriving DecidableEq, Repr

/-- The level to report after another: falls are slowed down if levels are animated. -/
def EffectConfig.next (c : EffectConfig) (last : Option Int) (level : Int) : Int :=
  if c.animate then Level.animate last level c.maxDecrement.toInt else level

/-- What is wrong with the configuration, in words. -/
def EffectConfig.problem? (c : EffectConfig) : Option String :=
  let d := c.maxDecrement.toInt
  if d ≤ 0 ∨ d > Level.highest then
    some ("max decrement per frame must be in 1..=" ++ toString Level.highest ++ ", got " ++
      toString d)
  else none

def SessionConfig.problem? (c : SessionConfig) : Option String := c.effect.problem?

end Metering
