import Metering.Rig.Lifecycle
/-!
Sessions at work. A session takes processors in, drives them through its subscriptions, and closes
those that it no longer uses.
-/

namespace Metering

variable {S : Type} (app : Application S) (again : {β : Type} → Call β → Run S β)

/-- A session with an effect of its own for capture. -/
def newSession (label : String) (device : Device) (config : SessionConfig) : Run S SessionId := do
  let e ← Run.newEffect (.new config.effect)
  Run.newSession { label, device, config, localEffect := e }

def setListener (e : EffectId) (l : Option ListenerId) : Run S Unit :=
  Run.modifyEffect e fun x => x.setListener l

def resetEffect (e : EffectId) : Run S Unit := Run.modifyEffect e fun x => x.reset

def setLocalListener (s : SessionId) (l : Option ListenerId) : Run S Unit := do
  setListener (← Run.session s).localEffect l

/-- Sets the listener for the streams of now and for those to come. -/
def setStreamListener (s : SessionId) (l : Option ListenerId) : Run S Unit := do
  Run.modifySession s fun x => { x with streamListener := l }
  Run.each (fun e => setListener e.2.effect l) (← Run.session s).streams

def subscribe (p : ProcessorId) (x : Subscriber) : Run S Unit := do
  let _ ← Run.processor p
  Run.modifyProcessor p fun y => { y with subscribers := y.subscribers ++ [x] }
  Run.record (.subscribed p x)

/-- Drives a processor to the configured phase. One that is there already will not tell it again,
so `configured` does at once what would follow. -/
def beginConfiguration (p : ProcessorId) (configured : Run S Unit) : Run S (Except Fault Unit) := do
  match (← Run.processor p).phase with
  | .unrealized => configure app again p
  | .configuring => return .ok ()
  | .configured =>
    configured
    return .ok ()
  | phase => return .error (.invalidState ("processor is already " ++ phase.name))

/-- Uses a processor for capture, in place of the one in use before, which is closed. -/
def connectCapture (s : SessionId) (p : ProcessorId) : Run S (Except Fault Unit) := do
  let x ← Run.session s
  Run.modifySession s fun x => { x with capture := some p }
  match x.capture with
  | some q =>
    sessionNotice s .captureReplaced
    close app again q
  | none => pure ()
  subscribe p (.capture s)
  let r ← beginConfiguration app again p (captureUpdate app again s p .configured)
  if let .error f := r then
    sessionNotice s (.captureNotConfigured f)
    Run.modifySession s fun x => { x with capture := none }
  return r

/-- Plays a received stream through a processor. The stream gets an effect of its own. -/
def addStream (s : SessionId) (ssrc : Ssrc) (p : ProcessorId) : Run S (Except Fault Unit) := do
  let x ← Run.session s
  if x.hasStream ssrc then
    return .error (.invalidState ("receive stream " ++ toString ssrc ++ " already added"))
  else
    let e ← Run.newEffect ((LevelEffect.new x.config.effect).setListener x.streamListener)
    Run.modifySession s fun x => x.addStream ssrc ⟨p, e⟩
    subscribe p (.stream s ssrc)
    let r ← beginConfiguration app again p (streamUpdate app again s ssrc p .configured)
    if let .error f := r then
      sessionNotice s (.streamNotConfigured ssrc f)
      Run.modifySession s fun x => x.removeStream ssrc
    return r

/-- Closes the processor of a stream, which tells nobody any more. -/
def closeStream (x : Stream) : Run S Unit := do
  close app again x.processor
  setListener x.effect none
  resetEffect x.effect

/-- Gives up a stream. The answer is false if there is none. -/
def removeStream (s : SessionId) (ssrc : Ssrc) : Run S Bool := do
  match (← Run.session s).stream? ssrc with
  | none => return false
  | some stream =>
    Run.modifySession s fun x => x.removeStream ssrc
    closeStream app again stream
    sessionNotice s (.streamRemoved ssrc)
    return true

def capture (s : SessionId) : Run S (Except Fault ProcessorId) := do
  match (← Run.session s).capture with
  | some p => return .ok p
  | none => return .error (.invalidState "no capture processor connected")

/-- Starts the capture processor. -/
def startSession (s : SessionId) : Run S (Except Fault Unit) := do
  match ← capture s with
  | .error f => return .error f
  | .ok p =>
    let r ← start app again p
    if let .error f := r then sessionNotice s (.captureNotStarted f)
    return r

/-- Stops the capture processor. -/
def stopSession (s : SessionId) : Run S (Except Fault Unit) := do
  match ← capture s with
  | .error f => return .error f
  | .ok p => stop app again p

/-- Closes the capture processor and the processor of every stream. -/
def closeSession (s : SessionId) : Run S Unit := do
  let x ← Run.session s
  Run.modifySession s fun x => { x with capture := none }
  match x.capture with
  | some p => close app again p
  | none => pure ()
  let streams := (← Run.session s).streams
  Run.modifySession s fun x => { x with streams := [] }
  Run.each (fun e => closeStream app again e.2) (app.arranged (← get).app streams)
  resetEffect x.localEffect
  sessionNotice s (.closed x.device)

/-- Takes one user away from a session. The last one to go closes it. -/
def releaseSession (s : SessionId) : Run S Unit := do
  let users := (← Run.session s).users
  Run.modifySession s fun x => { x with users := users - 1 }
  if users = 1 then closeSession app again s

/-- Uses a session as long as an operation on it takes. -/
def duringUse {α : Type} (s : SessionId) (body : Run S α) : Run S α := do
  Run.modifySession s fun x => { x with users := x.users + 1 }
  let a ← body
  releaseSession app again s
  return a

end Metering
