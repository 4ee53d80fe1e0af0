import Metering.Text.Quoted
/-!
Why a processor, a track, a plug-in or a configuration refuses.
-/

namespace Metering

inductive Fault
  | unsupportedPlugIn (text : String)
  | notConfigured (text : String)
  | invalidState (text : String)
  | unsupportedFormat (text : String)
  | noSuchTrack (index : Nat)
  | processingFailed (text : String)
  | invalidConfiguration (text : String)
deriving DecidableEq, Repr

namespace Fault

def kind : Fault → String
  | unsupportedPlugIn _ => "UnsupportedPlugIn"
  | notConfigured _ => "NotConfigured"
  | invalidState _ => "InvalidState"
  | unsupportedFormat _ => "UnsupportedFormat"
  | noSuchTrack _ => "NoSuchTrack"
  | processingFailed _ => "ProcessingFailed"
  | invalidConfiguration _ => "InvalidConfiguration"

/-- The sentence shown to people. -/
def message : Fault → String
  | unsupportedPlugIn text => "plug-in not supported: " ++ text
  | notConfigured text => "processor not configured: " ++ text
  | invalidState text => "invalid processor state: " ++ text
  | unsupportedFormat text => "unsupported format: " ++ text
  | noSuchTrack index => "no such track: " ++ toString index
  | processingFailed text => "processing failed: " ++ text
  | invalidConfiguration text => "invalid configuration: " ++ text

/-- What the fault says beside its kind, as diagnostics show it. -/
def detail : Fault → String
  | unsupportedPlugIn text | notConfigured text | invalidState text | unsupportedFormat text
  | processingFailed text | invalidConfiguration text => Text.quoted text
  | noSuchTrack index => toString index

def debug (f : Fault) : String := f.kind ++ "(" ++ f.detail ++ ")"

end Fault

end Metering
