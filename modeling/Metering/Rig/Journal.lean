import Metering.Pipeline.Processor
import Metering.Session.Device
/-!
The journal of a run: everything that happens, in order. Notices are what people read in a log;
the other entries say who was called and what changed.
-/

namespace Metering

inductive Severity
  | error
  | warning
  | info
  | debug
deriving DecidableEq, Repr

def Severity.name : Severity → String
  | error => "ERROR"
  | warning => "WARN"
  | info => "INFO"
  | debug => "DEBUG"

/-- What a processor reports. -/
inductive ProcessorNotice
  | configured (tracks : Nat)
  | realizeFailed (f : Fault)
  | realized
  | closed
deriving DecidableEq, Repr

/-- What the installation of an effect reports. -/
inductive InstallNotice
  | noControls (f : Fault)
  | noAudioTrack
  | installed (track : Nat)
  | refused (f : Fault)
deriving DecidableEq, Repr

/-- What a session reports. -/
inductive SessionNotice
  | captureReplaced
  | captureNotConfigured (f : Fault)
  | captureNotRealized (f : Fault)
  | captureRealized (d : Device)
  | captureEvent (e : Event)
  | captureClosed
  | captureFailed (message : String)
  | captureNotStarted (f : Fault)
  | streamAbsent (ssrc : Ssrc)
  | streamNotConfigured (ssrc : Ssrc) (f : Fault)
  | streamRemoved (ssrc : Ssrc)
  | streamNotRealized (ssrc : Ssrc) (f : Fault)
  | streamNotStarted (ssrc : Ssrc) (f : Fault)
  | streamFailed (ssrc : Ssrc) (message : String)
  | streamEvent (ssrc : Ssrc) (e : Event)
  | closed (d : Device)
deriving DecidableEq, Repr

inductive Notice
  | processor (name : String) (n : ProcessorNotice)
  | plugInNotOpened (name : String) (f : Fault)
  | install (side : Side) (n : InstallNotice)
  | session (label : String) (n : SessionNotice)
deriving DecidableEq, Repr

namespace ProcessorNotice

def severity : ProcessorNotice → Severity
  | realizeFailed _ => .error
  | _ => .debug

def text : ProcessorNotice → String
  | configured tracks => "Configured " ++ toString tracks ++ " track(s)"
  | realizeFailed f => "Realize failed: " ++ f.message
  | realized => "Realized"
  | closed => "Closed"

end ProcessorNotice

namespace InstallNotice

def severity : InstallNotice → Severity
  | noControls _ | refused _ => .error
  | noAudioTrack | installed _ => .debug

def text (side : Side) : InstallNotice → String
  | noControls f => "Track controls of the " ++ side.text ++ " are not available: " ++ f.message
  | noAudioTrack => "No audio track on the " ++ side.text ++ "; level effect not installed"
  | installed track =>
    "Installed level effect on track " ++ toString track ++ " of the " ++ side.text
  | refused f => "Effects are not supported by the " ++ side.text ++ ": " ++ f.message

end InstallNotice

namespace SessionNotice

def severity : SessionNotice → Severity
  | captureReplaced | captureRealized _ | streamRemoved _ | closed _ => .info
  | captureEvent _ | captureClosed | streamEvent .. => .debug
  | streamAbsent _ => .warning
  | _ => .error

def text : SessionNotice → String
  | captureReplaced => "Replacing capture processor"
  | captureNotConfigured f => "Failed to configure capture processor: " ++ f.message
  | captureNotRealized f => "Failed to realize capture processor: " ++ f.message
  | captureRealized d => "Capture processor realized for " ++ d.text
  | captureEvent e => "Capture processor " ++ e.debug
  | captureClosed => "Capture processor closed"
  | captureFailed message => "Capture processor error: " ++ message
  | captureNotStarted f => "Failed to start capture: " ++ f.message
  | streamAbsent ssrc => "Receive stream " ++ toString ssrc ++ " is no longer present"
  | streamNotConfigured ssrc f =>
    "Failed to configure receive stream " ++ toString ssrc ++ ": " ++ f.message
  | streamRemoved ssrc => "Removed receive stream " ++ toString ssrc
  | streamNotRealized ssrc f =>
    "Failed to realize receive stream " ++ toString ssrc ++ ": " ++ f.message
  | streamNotStarted ssrc f =>
    "Failed to start receive stream " ++ toString ssrc ++ ": " ++ f.message
  | streamFailed ssrc message => "Receive stream " ++ toString ssrc ++ " error: " ++ message
  | streamEvent ssrc e => "Receive stream " ++ toString ssrc ++ " " ++ e.debug
  | closed d => "Closed " ++ d.text

end SessionNotice

namespace Notice

def severity : Notice → Severity
  | processor _ n => n.severity
  | plugInNotOpened .. => .warning
  | install _ n => n.severity
  | session _ n => n.severity

def text : Notice → String
  | processor name n => "[" ++ name ++ "] " ++ n.text
  | plugInNotOpened name f => name ++ " failed to open: " ++ f.message
  | install side n => n.text side
  | session label n => "[session " ++ label ++ "] " ++ n.text

end Notice

/-- What a plug-in of the application can be called for. -/
inductive CodecMethod
  | setInputFormat
  | opens
  | close
  | process
deriving DecidableEq, Repr

def CodecMethod.name : CodecMethod → String
  | setInputFormat => "set_input_format"
  | opens => "open"
  | close => "close"
  | process => "process"

inductive Entry
  | notice (n : Notice)
  /-- A listener is told a level. -/
  | level (l : ListenerId) (level : Int)
  /-- A subscriber is told an event of a processor. -/
  | told (x : Subscriber) (p : ProcessorId) (e : Event)
  /-- A plug-in of the application is called. -/
  | codec (c : CodecId) (m : CodecMethod)
  /-- A processor of the application is asked for something. -/
  | request (p : ProcessorId) (r : Request)
  /-- The application writes a line of its own. -/
  | note (text : String)
  /-- A processor changes its phase. -/
  | moved (p : ProcessorId) (phase : Phase)
  /-- A processor begins to tell its subscribers an event. -/
  | announced (p : ProcessorId) (e : Event)
  /-- A processor has a new subscriber. -/
  | subscribed (p : ProcessorId) (x : Subscriber)
  /-- A processor is ready to realize. These tracks are enabled at this moment. -/
  | readied (p : ProcessorId) (tracks : List Nat)
  /-- A plug-in accepted the format that it was offered. -/
  | accepted (x : PlugIn)
  /-- A plug-in was opened with success. -/
  | opened (x : PlugIn)
  /-- A plug-in was closed. -/
  | closed (x : PlugIn)
deriving DecidableEq, Repr

end Metering
