import Metering.Level.Calculator
import Metering.Media.Buffer
/-!
The level effect: a plug-in that passes every frame on as it is, measures it, and tells one
listener. A new listener takes the place of the one before it and starts with no history, so it
never sees a level fall from frames that came before it. Without a listener nothing is measured.
-/

namespace Metering

abbrev ListenerId := Nat

structure LevelEffect where
  calculator : Calculator
  listener : Option ListenerId := none
  /-- The format agreed on, if there was an agreement. -/
  inputFormat : Option Format := none

namespace LevelEffect

def name : String := "Audio Level Effect"

def new (config : EffectConfig) : LevelEffect where
  calculator := { config }

/-- The level measured last, if any. -/
def last (e : LevelEffect) : Option Int := e.calculator.last

def setListener (e : LevelEffect) (listener : Option ListenerId) : LevelEffect :=
  { e with listener, calculator := e.calculator.reset }

def reset (e : LevelEffect) : LevelEffect := { e with calculator := e.calculator.reset }

/-- Audio is accepted and leaves the effect as it came. Other media are refused. -/
def offer (e : LevelEffect) (f : Format) : Option Format × LevelEffect :=
  if f.isAudio then (some f, { e with inputFormat := some f }) else (none, e)

/-- The audio format of a frame that has to be measured. -/
def frameFormat? (b : Buffer) : Option AudioFormat :=
  if b.discard || b.isEmpty then none else b.format.audio?

/-- Whether a level is told. -/
def tells (c : Calculator) (level : Int) : Bool :=
  !c.config.changesOnly || c.last != some level

/-- Looks at a frame by a logarithm to base ten: who has to be told which level, and the effect
afterwards. -/
def observeBy (log10 : Float → Float) (e : LevelEffect) (b : Buffer) :
    Option (ListenerId × Int) × LevelEffect :=
  match e.listener, frameFormat? b with
  | some listener, some f =>
    match e.calculator.measureBy log10 b.data f with
    | (some level, after) =>
      (if tells e.calculator level then some (listener, level) else none,
       { e with calculator := after })
    | (none, _) => (none, e)
  | _, _ => (none, e)

def observe : LevelEffect → Buffer → Option (ListenerId × Int) × LevelEffect :=
  observeBy Float.log10

end LevelEffect

end Metering
