import Metering.Level.Config
import Metering.Json.Record
/-!
Configurations as JSON. A document names the fields that differ from their defaults; what else it
holds is passed over.
-/

namespace Metering

namespace EffectConfig

def fields : List String := ["animate", "max_decrement_per_frame", "notify_on_change_only"]

def ofValue? (v : Json.Value) : Option EffectConfig :=
  match Json.record? fields v with
  | some [animate, decrement, changes] => do
    let animate ← Json.optional Json.bool? true animate
    let decrement ← Json.optional (Json.integer? (-2147483648) 2147483647) 8 decrement
    let changes ← Json.optional Json.bool? false changes
    return { animate, maxDecrement := Int32.ofInt decrement, changesOnly := changes }
  | _ => none

def ofText? (s : String) : Option EffectConfig := (Json.parse? s).bind ofValue?

def toJson (c : EffectConfig) : String :=
  "\x7b\"animate\":" ++ toString c.animate ++
  ",\"max_decrement_per_frame\":" ++ toString c.maxDecrement.toInt ++
  ",\"notify_on_change_only\":" ++ toString c.changesOnly ++ "\x7d"

def debug (c : EffectConfig) : String :=
  "LevelEffectConfig \x7b animate: " ++ toString c.animate ++
  ", max_decrement_per_frame: " ++ toString c.maxDecrement.toInt ++
  ", notify_on_change_only: " ++ toString c.changesOnly ++ " \x7d"

end EffectConfig

namespace SessionConfig

def fields : List String := ["level_effect", "start_receive_streams"]

def ofValue? (v : Json.Value) : Option SessionConfig :=
  match Json.record? fields v with
  | some [effect, start] => do
    let effect ← Json.optional EffectConfig.ofValue? {} effect
    let start ← Json.optional Json.bool? true start
    return { effect, startStreams := start }
  | _ => none

/-- Reads a configuration as it stands. -/
def ofText? (s : String) : Option SessionConfig := (Json.parse? s).bind ofValue?

def toJson (c : SessionConfig) : String :=
  "\x7b\"level_effect\":" ++ c.effect.toJson ++
  ",\"start_receive_streams\":" ++ toString c.startStreams ++ "\x7d"

def debug (c : SessionConfig) : String :=
  "SessionConfiguration \x7b level_effect: " ++ c.effect.debug ++
  ", start_receive_streams: " ++ toString c.startStreams ++ " \x7d"

end SessionConfig

end Metering
