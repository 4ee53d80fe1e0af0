import Metering.Level.Config
import Metering.Media.Pcm
/-!
Turns the frames of one source into the levels to report.
-/

namespace Metering

structure Calculator where
  config : EffectConfig
  /-- The level reported last, if a frame was measured. -/
  last : Option Int := none
deriving DecidableEq, Repr

namespace Calculator

def reset (c : Calculator) : Calculator := { c with last := none }

/-- Measures a frame by a logarithm to base ten. A frame that cannot be measured gives `none` and
changes nothing. -/
def measureBy (log10 : Float → Float) (c : Calculator) (data : List UInt8) (f : AudioFormat) :
    Option Int × Calculator :=
  match Pcm.power? f data with
  | none => (none, c)
  | some rms =>
    let level := c.config.next c.last (Level.ofRmsBy log10 rms)
    (some level, { c with last := some level })

def measure : Calculator → List UInt8 → AudioFormat → Option Int × Calculator :=
  measureBy Float.log10

end Calculator

end Metering
