import Metering.Media.Tone
import Metering.Monitor.Arguments
import Metering.Rig.Perform
import Metering.Session.Load
/-!
The level monitor: a fading tone is captured and a steady tone is received, and a meter shows the
levels of both sides.
-/

namespace Metering.Monitor

def padLeft (width : Nat) (s : String) : String :=
  String.ofList (List.replicate (width - s.length) ' ') ++ s

def padRight (width : Nat) (s : String) : String :=
  s ++ String.ofList (List.replicate (width - s.length) ' ')

/-- The widest bar. -/
def fullBar : Nat := 40

def barWidth (level : Int) : Nat := level.toNat * fullBar / Level.highest.toNat

/-- The line that shows a level. -/
def meterLine (label : String) (level : Int) : String :=
  padLeft 6 label ++ " " ++ padLeft 3 (toString level) ++ " |" ++
    padRight fullBar (String.ofList (List.replicate (barWidth level) '#')) ++ "|"

/-- Lines shown so far, the newest first. -/
abbrev Screen := List String

def localListener : ListenerId := 0

def remoteListener : ListenerId := 1

def showLine (s : String) : Program Screen Unit := Program.modify (s :: ·)

/-- Every level that a listener is told is shown. -/
def application : Application Screen :=
  { Application.silent Screen with
    level := fun l level =>
      showLine (meterLine (if l = localListener then "local" else "remote") level) }

def optionText : Option Int → String
  | some level => "Some(" ++ toString level ++ ")"
  | none => "None"

def finalLine (levels : Levels) (captured played : Nat) : String :=
  "final levels: local=" ++ optionText levels.capture ++ " remote=" ++ optionText levels.stream ++
    " (" ++ toString captured ++ " capture frames, " ++ toString played ++ " playback frames)"

/-- Sends one frame of each tone. -/
def pushFrame (capture playback : ProcessorId) (fromLocal fromRemote : Buffer) :
    Program Screen (Except Fault Unit) := do
  match ← Program.send (.process capture 0 fromLocal) with
  | .error f => return .error f
  | .ok _ => return (← Program.send (.process playback 0 fromRemote)).map fun _ => ()

/-- The part of the amplitude that is left at frame `i`. -/
def fade (a : Arguments) (i : Nat) : Float := 1.0 - Float.ofNat i / Float.ofNat (max a.frames 1)

/-- Sends the last `left` frames. -/
def pushFrames (a : Arguments) (capture playback : ProcessorId) (captured received : Tone) :
    Nat → Program Screen (Except Fault Unit)
  | 0 => return .ok ()
  | left + 1 => do
    let captured := captured.setAmplitude (a.amplitude * fade a (a.frames - (left + 1)))
    let (fromLocal, captured) := captured.nextFrame a.frameMs
    let (fromRemote, received) := received.nextFrame a.frameMs
    match ← pushFrame capture playback fromLocal fromRemote with
    | .error f => return .error f
    | .ok () => pushFrames a capture playback captured received left

def framesOf (r : Rig) (p : ProcessorId) : Nat :=
  ((r.processors[p]?).map (·.framesProcessed.toNat)).getD 0

def showFinal (s : SessionId) (capture playback : ProcessorId) : Program Screen Unit := do
  let text ← Program.see fun r =>
    finalLine (((r.sessions[s]?).map r.levels).getD {}) (framesOf r capture) (framesOf r playback)
  showLine text

/-- Connects both processors to the session and starts it. -/
def connect (s : SessionId) (capture playback : ProcessorId) :
    Program Screen (Except Fault Unit) := do
  match ← Program.send (.connectCapture s capture) with
  | .error f => return .error f
  | .ok () =>
    match ← Program.send (.addStream s 1 playback) with
    | .error f => return .error f
    | .ok () => Program.send (.startSession s)

def device : Device := ⟨"tone", "Tone Generator", true⟩

/-- The whole demonstration, with a configuration in force. -/
def monitor (a : Arguments) (config : SessionConfig) : Program Screen (Except Fault Unit) := do
  let s ← Program.send (.newSession "monitor" device config)
  Program.send (.setLocalListener s (some localListener))
  Program.send (.setStreamListener s (some remoteListener))
  let captured := Tone.new a.sampleRate 1 a.frequency a.amplitude
  let received := Tone.new a.sampleRate 1 (a.frequency * 1.5) 0.25
  let capture ← Program.send (.newProcessor "capture" [{ format := .audio captured.format }])
  let playback ← Program.send (.newProcessor "playback" [{ format := .audio received.format }])
  match ← connect s capture playback with
  | .error f => return .error f
  | .ok () =>
    match ← pushFrames a capture playback captured received a.frames with
    | .error f => return .error f
    | .ok () =>
      showFinal s capture playback
      Program.send (.closeSession s)
      return .ok ()

/-- What a run leaves behind: its exit code, the lines it showed, and what went wrong. -/
structure Outcome where
  exit : Nat
  lines : List String := []
  problem : Option String := none
deriving DecidableEq, Repr

def failed (lines : List String) (f : Fault) : Outcome :=
  ⟨1, lines, some ("Error: " ++ f.debug)⟩

def run (a : Arguments) (config : SessionConfig) : Outcome :=
  match ((monitor a config).execute application).run { app := [] } with
  | .ok (.ok (), w) => ⟨0, w.app.reverse, none⟩
  | .ok (.error f, w) => failed w.app.reverse f
  | .error _ => ⟨1, [], some "Error: calls are nested too deeply"⟩

/-- Runs with the configuration of a document. -/
def runWith (a : Arguments) (document : String)
    (explain : String → String := SessionConfig.unexplained) : Outcome :=
  match SessionConfig.load document explain with
  | .ok config => run a config
  | .error f => failed [] f

/-- What is said of a file that is not there. -/
def noSuchFile : String :=
  "Os \x7b code: 2, kind: NotFound, message: \"No such file or directory\" \x7d"

def usage : List String := [
  "Feeds a fading tone through a capture processor and a steady tone through a received stream,",
  "and prints the levels of both sides.",
  "",
  "Usage: level-monitor [OPTIONS]",
  "",
  "Options:",
  "  --sample-rate <HZ>   sample rate of the generated audio [default: 48000]",
  "  --frequency <HZ>     tone frequency [default: 440]",
  "  --amplitude <PART>   starting amplitude of the captured tone [default: 0.8]",
  "  --frames <COUNT>     frames for each processor [default: 25]",
  "  --frame-ms <MS>      duration of a frame [default: 20]",
  "  --config <FILE>      session configuration",
  "  -h, --help           print help"]

/-- The command, given what its files hold or why they cannot be read. -/
def command (args : List String) (file : String → Except String String)
    (explain : String → String := SessionConfig.unexplained) : Outcome :=
  match Arguments.read args with
  | .error .help => { exit := 0, lines := usage }
  | .error .rejected => { exit := 2, problem := some "usage: level-monitor [OPTIONS], see --help" }
  | .ok a =>
    match a.config with
    | none => run a {}
    | some path =>
      match file path with
      | .ok text => runWith a text explain
      | .error reason => ⟨1, [], some ("Error: " ++ reason)⟩

end Metering.Monitor
