import Metering.Media.Tone
import Metering.Session.Basic
import Metering.Rig.Journal
/-!
Scripts: applications written down as lists of steps. A step makes an object, drives one or asks
one. Objects are named by texts of the script's choice, each kind in a name space of its own.
Listeners, watchers and plug-ins may carry further steps, which they take when they are called.
-/

namespace Metering.Script

/-- How a scripted processor answers one request. -/
inductive Conduct
  | refuse (f : Fault)
  /-- Enters a phase and tells an event, where they are given. -/
  | proceed (phase : Option Phase) (event : Option Event)
deriving DecidableEq, Repr

structure ProcessorPlan where
  configure : Conduct := .proceed none none
  realize : Conduct := .proceed none none
  start : Conduct := .proceed none none
  stop : Conduct := .proceed none none
  /-- Why the tracks are not shown, if they are not. -/
  tracksFault : Option Fault := none
deriving DecidableEq, Repr

structure CodecPlan where
  name : String
  rejectsAudio : Bool := false
  rejectsVideo : Bool := false
  /-- What leaves the plug-in, if it is not what came. -/
  outFormat : Option Format := none
  openFault : Option Fault := none
  processFault : Option Fault := none
  /-- A byte is multiplied and then added to, modulo 256. -/
  factor : UInt8 := 1
  summand : UInt8 := 0
  discard : Bool := false

inductive Step
  -- Objects
  | processor (id name : String) (tracks : List TrackPlan)
  | ofFormats (id name : String) (formats : List Format)
  | scripted (id : String) (phase : Phase) (tracks : List TrackPlan) (plan : ProcessorPlan)
  | codec (id : String) (plan : CodecPlan) (on : List (CodecMethod × List Step)) (times : Nat)
  | effect (id : String) (config : EffectConfig)
  | listener (id : String) (on : List Step) (times : Nat)
  | tone (id : String) (tone : Tone)
  | session (id : String) (device : Device) (config : SessionConfig)
  | loadSession (id : String) (device : Device) (document : String)
  -- Processors
  | configure (p : String)
  | realize (p : String)
  | start (p : String)
  | stop (p : String)
  | close (p : String)
  | state (p : String)
  | trackControls (p : String)
  | track (p : String) (i : Nat)
  | summary (p : String)
  /-- The watcher's steps are listed under the names of events. -/
  | watch (p id : String) (on : List (String × List Step)) (times : Nat)
  | setChain (p : String) (i : Nat) (codecs : List String) (direct : Bool)
  | setEnabled (p : String) (i : Nat) (enabled : Bool)
  | process (p : String) (i : Nat) (b : Buffer) (times : Nat)
  | toneFrame (tone p : String) (i ms : Nat) (silence : Bool) (amplitude : Option Float)
  | enter (p : String) (phase : Phase)
  | emit (p : String) (e : Event)
  -- Plug-ins
  | resetCodec (c : String)
  | install (p e : String) (side : Side)
  | effectListener (e : String) (l : Option String)
  | effectReset (e : String)
  | effectOpen (e : String)
  | effectClose (e : String)
  | effectName (e : String)
  | effectFormat (e : String) (f : Format)
  | effectProcess (e : String) (b slot : Buffer) (times : Nat)
  -- Sessions
  | connect (s p : String)
  | addStream (s : String) (ssrc : Ssrc) (p : String)
  | removeStream (s : String) (ssrc : Ssrc)
  | startSession (s : String)
  | stopSession (s : String)
  | closeSession (s : String)
  | dropSession (s : String)
  | localListener (s : String) (l : Option String)
  | streamListener (s : String) (l : Option String)
  | captureUpdate (s p : String) (e : Event)
  | streamConfigured (s : String) (ssrc : Ssrc) (p : String)
  /-- Gives a name to the effect of a stream, or to the local effect. -/
  | grabEffect (s : String) (ssrc : Option Ssrc) (id : String)
  | sessionInfo (s : String)

/-- The word that stands for a step in the journal. -/
def Step.word : Step → String
  | processor .. => "processor"
  | ofFormats .. => "from_formats"
  | scripted .. => "scripted"
  | codec .. => "codec"
  | effect .. => "effect"
  | listener .. => "listener"
  | tone .. => "tone"
  | session .. | loadSession .. => "session"
  | configure .. => "configure"
  | realize .. => "realize"
  | start .. => "start"
  | stop .. => "stop"
  | close .. => "close"
  | state .. => "state"
  | trackControls .. => "track_controls"
  | track .. => "track"
  | summary .. => "name"
  | watch .. => "add_listener"
  | setChain .. => "set_chain"
  | setEnabled .. => "set_enabled"
  | process .. => "process"
  | toneFrame .. => "tone_frame"
  | enter .. => "set_state"
  | emit .. => "emit"
  | resetCodec .. => "codec_reset"
  | install .. => "install"
  | effectListener .. => "effect_listener"
  | effectReset .. => "effect_reset"
  | effectOpen .. => "effect_open"
  | effectClose .. => "effect_close"
  | effectName .. => "effect_name"
  | effectFormat .. => "effect_format"
  | effectProcess .. => "effect_process"
  | connect .. => "connect"
  | addStream .. => "add_stream"
  | removeStream .. => "remove_stream"
  | startSession .. => "session_start"
  | stopSession .. => "session_stop"
  | closeSession .. => "session_close"
  | dropSession .. => "session_drop"
  | localListener .. => "local_listener"
  | streamListener .. => "stream_listener"
  | captureUpdate .. => "capture_update"
  | streamConfigured .. => "configure_completed"
  | grabEffect .. => "grab_effect"
  | sessionInfo .. => "session_info"

/-- What a step gives back. -/
inductive Answer
  | done
  | flag (b : Bool)
  | text (t : String)
  | phase (p : Phase)
  | index (i : Option Nat)
  /-- Format and enabled flag of each track. -/
  | controls (tracks : List (Format × Bool))
  | format (f : Option Format)
  /-- Name, count of tracks and count of frames of a processor. -/
  | summary (name : String) (tracks frames : Nat)
  | buffer (b : Buffer)
  | info (device : String) (config : SessionConfig)

end Metering.Script
