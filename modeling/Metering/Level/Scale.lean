import Metering.Binary64
/-!
The scale of audio levels. One step is a decibel: the highest level is a signal at full scale, the
lowest is silence or anything at least 127 decibels below full scale.
-/

namespace Metering.Level

def lowest : Int := 0

def highest : Int := 127

/-- The level of a root mean square, full scale being one, by a logarithm to base ten. Silence and
values that are no loudness give the lowest level. -/
def ofRmsBy (log10 : Float → Float) (rms : Float) : Int :=
  if rms ≤ 0.0 || !rms.isFinite then lowest
  else Binary64.nearest lowest highest (127.0 + 20.0 * log10 rms)

def ofRms : Float → Int := ofRmsBy Float.log10

/-- The level shown after `last` when `level` is measured: a rise shows at once, and a fall is
slowed down to `decrement` a frame. -/
def animate (last : Option Int) (level decrement : Int) : Int :=
  match last with
  | some l => if level < l then max level (l - decrement) else level
  | none => level

end Metering.Level
