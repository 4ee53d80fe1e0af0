import Metering.Rig.Install
/-!
Events on their way from a processor to its subscribers. A session that hears of a configured
processor installs its effect and goes on to realize the processor; one that hears of a realized
stream starts it. Faults on the way are written down only.
-/

namespace Metering

variable {S : Type} (app : Application S) (again : {β : Type} → Call β → Run S β)

def sessionNotice (s : SessionId) (n : SessionNotice) : Run S Unit := do
  Run.notice (.session (← Run.session s).label n)

/-- What a session does about an event of its capture processor. -/
def captureUpdate (s : SessionId) (p : ProcessorId) (e : Event) : Run S Unit := do
  let x ← Run.session s
  match e with
  | .configured =>
    let _ ← install app again p x.localEffect .capture
    match ← again (.realize p) with
    | .ok () => pure ()
    | .error f => sessionNotice s (.captureNotRealized f)
  | .realized => sessionNotice s (.captureRealized x.device)
  | .started | .stopped => sessionNotice s (.captureEvent e)
  | .closed => sessionNotice s .captureClosed
  | .failed message => sessionNotice s (.captureFailed message)

/-- Installs the effect of a stream on its processor. -/
def streamConfigured (s : SessionId) (ssrc : Ssrc) (p : ProcessorId) : Run S Unit := do
  match (← Run.session s).stream? ssrc with
  | some stream =>
    let _ ← install app again p stream.effect .stream
  | none => sessionNotice s (.streamAbsent ssrc)

/-- What a session does about an event of a stream's processor. -/
def streamUpdate (s : SessionId) (ssrc : Ssrc) (p : ProcessorId) (e : Event) : Run S Unit := do
  match e with
  | .configured =>
    streamConfigured app again s ssrc p
    match ← again (.realize p) with
    | .ok () => pure ()
    | .error f => sessionNotice s (.streamNotRealized ssrc f)
  | .realized =>
    if (← Run.session s).config.startStreams then
      match ← again (.start p) with
      | .ok () => pure ()
      | .error f => sessionNotice s (.streamNotStarted ssrc f)
  | .failed message => sessionNotice s (.streamFailed ssrc message)
  | _ => sessionNotice s (.streamEvent ssrc e)

/-- Uses a session as long as a run takes, if it has not ended. Whoever uses it last ends it. -/
def whileUsed (s : SessionId) (body : Run S Unit) : Run S Unit := do
  if 0 < (← Run.session s).users then
    Run.modifySession s fun x => { x with users := x.users + 1 }
    body
    again (.releaseSession s)

/-- What a subscriber does about an event. -/
def hear (p : ProcessorId) (e : Event) : Subscriber → Run S Unit
  | .watcher w => (app.event w p e).run again
  | .capture s => whileUsed again s (captureUpdate app again s p e)
  | .stream s ssrc => whileUsed again s (streamUpdate app again s ssrc p e)

/-- Tells one subscriber an event. -/
def deliver (p : ProcessorId) (e : Event) (x : Subscriber) : Run S Unit := do
  Run.record (.told x p e)
  hear app again p e x

/-- Tells an event to all who are subscribers when it begins. -/
def emit (p : ProcessorId) (e : Event) : Run S Unit := do
  Run.record (.announced p e)
  Run.each (deliver app again p e) (← Run.processor p).subscribers

end Metering
