import Metering.Media.Format
import Metering.Json.Record
import Metering.Text.Quoted
/-!
Formats as JSON and as diagnostic text. In a document for any kind of media the kind stands beside
the fields of the format, under a key of its own.
-/

namespace Metering

/-- How diagnostics show a double: the fewest digits, with a point alone for exponents from -4
to 15. -/
def diagnosticLayout : Decimal.Layout where
  tie := .up
  least := -4
  most := 15
  plus := ""
  notANumber := "NaN"
  infinity := "inf"
  negativeInfinity := "-inf"

namespace Encoding

def ofValue? (lenient : Bool) (v : Json.Value) : Option Encoding := do
  let (name, content) ← Json.choice? v
  if name = "linear" then if Json.isNothing lenient content then some .linear else none
  else if name = "ulaw" then if Json.isNothing lenient content then some .ulaw else none
  else if name = "alaw" then if Json.isNothing lenient content then some .alaw else none
  else if name = "other" then (Json.required Json.string? content).map .other
  else none

def ofText? (s : String) : Option Encoding := (Json.parse? s).bind (ofValue? false)

def toJson : Encoding → String
  | .linear => Json.quote "linear"
  | .ulaw => Json.quote "ulaw"
  | .alaw => Json.quote "alaw"
  | .other name => "\x7b\"other\":" ++ Json.quote name ++ "\x7d"

def debug : Encoding → String
  | .linear => "Linear"
  | .ulaw => "Ulaw"
  | .alaw => "Alaw"
  | .other name => "Other(" ++ Text.quoted name ++ ")"

end Encoding

namespace ByteOrder

def ofValue? (lenient : Bool) (v : Json.Value) : Option ByteOrder := do
  let (name, content) ← Json.choice? v
  if name = "little" then if Json.isNothing lenient content then some .little else none
  else if name = "big" then if Json.isNothing lenient content then some .big else none
  else none

def ofText? (s : String) : Option ByteOrder := (Json.parse? s).bind (ofValue? false)

def toJson : ByteOrder → String
  | .little => Json.quote "little"
  | .big => Json.quote "big"

def debug : ByteOrder → String
  | .little => "Little"
  | .big => "Big"

end ByteOrder

namespace AudioFormat

def fields : List String :=
  ["encoding", "sample_rate", "sample_size_bits", "channels", "endian", "signed"]

def ofValue? (lenient : Bool) (v : Json.Value) : Option AudioFormat :=
  match Json.record? fields v with
  | some [encoding, rate, bits, channels, order, signed] => do
    let encoding ← Json.required (Encoding.ofValue? lenient) encoding
    let rate ← Json.required Json.float? rate
    let bits ← Json.required (Json.integer? 0 65535) bits
    let channels ← Json.required (Json.integer? 0 65535) channels
    let order ← Json.required (ByteOrder.ofValue? lenient) order
    let signed ← Json.required Json.bool? signed
    return { encoding, sampleRate := rate, sampleBits := UInt16.ofNat bits.toNat
             channels := UInt16.ofNat channels.toNat, order, signed }
  | _ => none

def ofText? (s : String) : Option AudioFormat := (Json.parse? s).bind (ofValue? false)

/-- The members of the format's object, without the braces. -/
def members (f : AudioFormat) : String :=
  "\"encoding\":" ++ f.encoding.toJson ++
  ",\"sample_rate\":" ++ Json.layout.text f.sampleRate ++
  ",\"sample_size_bits\":" ++ toString f.sampleBits.toNat ++
  ",\"channels\":" ++ toString f.channels.toNat ++
  ",\"endian\":" ++ f.order.toJson ++
  ",\"signed\":" ++ toString f.signed

def toJson (f : AudioFormat) : String := "\x7b" ++ f.members ++ "\x7d"

def debug (f : AudioFormat) : String :=
  "AudioFormat \x7b encoding: " ++ f.encoding.debug ++
  ", sample_rate: " ++ diagnosticLayout.text f.sampleRate ++
  ", sample_size_bits: " ++ toString f.sampleBits.toNat ++
  ", channels: " ++ toString f.channels.toNat ++
  ", endian: " ++ f.order.debug ++
  ", signed: " ++ toString f.signed ++ " \x7d"

end AudioFormat

namespace VideoFormat

def fields : List String := ["encoding", "width", "height"]

def ofValue? (v : Json.Value) : Option VideoFormat :=
  match Json.record? fields v with
  | some [encoding, width, height] => do
    let encoding ← Json.required Json.string? encoding
    let width ← Json.required (Json.integer? 0 4294967295) width
    let height ← Json.required (Json.integer? 0 4294967295) height
    return { encoding, width := UInt32.ofNat width.toNat, height := UInt32.ofNat height.toNat }
  | _ => none

def ofText? (s : String) : Option VideoFormat := (Json.parse? s).bind ofValue?

def members (f : VideoFormat) : String :=
  "\"encoding\":" ++ Json.quote f.encoding ++
  ",\"width\":" ++ toString f.width.toNat ++
  ",\"height\":" ++ toString f.height.toNat

def toJson (f : VideoFormat) : String := "\x7b" ++ f.members ++ "\x7d"

def debug (f : VideoFormat) : String :=
  "VideoFormat \x7b encoding: " ++ Text.quoted f.encoding ++
  ", width: " ++ toString f.width.toNat ++
  ", height: " ++ toString f.height.toNat ++ " \x7d"

end VideoFormat

namespace Format

/-- Takes the kind out of a document. In an object it may stand anywhere but only once, in an
array it stands first. -/
def split? : Json.Value → Option (String × Json.Value)
  | .object members => do
    let keys ← Json.keyed? members
    let kind ← Json.single? (Json.under "kind" keys)
    let kind ← Json.required Json.string? kind
    some (kind, .object (members.filter fun m => Json.text? m.1 != some "kind"))
  | .array (kind :: rest) => (Json.string? kind).map (·, .array rest)
  | _ => none

def ofValue? (v : Json.Value) : Option Format := do
  let (kind, rest) ← split? v
  if kind = "audio" then (AudioFormat.ofValue? true rest).map .audio
  else if kind = "video" then (VideoFormat.ofValue? rest).map .video
  else none

/-- The most containers that may be open at once in a document whose kind is not yet known. -/
def deepest : Nat := 127

/-- Reads the whole document before its kind is looked at, so all of it has to have a meaning. -/
def ofText? (s : String) : Option Format := do
  let ts ← Json.tokens? s.toList
  if Json.depth ts ≤ deepest ∧ Json.meaningful ts then (Json.ofTokens? ts).bind ofValue? else none

def toJson : Format → String
  | .audio f => "\x7b\"kind\":\"audio\"," ++ f.members ++ "\x7d"
  | .video f => "\x7b\"kind\":\"video\"," ++ f.members ++ "\x7d"

/-- The format alone, without its kind. -/
def innerJson : Format → String
  | .audio f => f.toJson
  | .video f => f.toJson

def debug : Format → String
  | .audio f => "Audio(" ++ f.debug ++ ")"
  | .video f => "Video(" ++ f.debug ++ ")"

end Format

end Metering
