import Metering.Rig.Chain
import Metering.Rig.Events
/-!
The life of a processor. A transition stores the new phase before it tells the subscribers, so
that they may drive the processor further. Calls to a processor of the application are answered by
the application.
-/

namespace Metering

variable {S : Type} (app : Application S) (again : {β : Type} → Call β → Run S β)

/-- Asks a processor of the application. -/
def ask (p : ProcessorId) (r : Request) : Run S (Except Fault Unit) := do
  Run.record (.request p r)
  (app.request p r).run again

/-- Configures a processor, or leaves it as it is when that was done before. -/
def configure (p : ProcessorId) : Run S (Except Fault Unit) := do
  let x ← Run.processor p
  if x.isExternal then ask app again p .configure
  else match x.phase with
    | .unrealized =>
      Run.moveTo p .configuring
      Run.notice (.processor x.name (.configured x.tracks.length))
      Run.moveTo p .configured
      emit app again p .configured
      return .ok ()
    | .closed => return .error (.invalidState (x.name ++ " is closed"))
    | _ => return .ok ()

/-- Agrees on the formats of the tracks, one after the other. -/
def negotiateTracks (p : ProcessorId) : List Nat → Run S (Except Fault Unit)
  | [] => return .ok ()
  | i :: rest => do
    match ← Run.track? p i with
    | none => negotiateTracks p rest
    | some t =>
      match ← Run.holding p i (Chain.negotiate app again t.chain t.format) with
      | .ok _ => negotiateTracks p rest
      | .error f => return .error f

def openTrack (p : ProcessorId) (i : Nat) : Run S (Except Fault Unit) := do
  match ← Run.track? p i with
  | none => return .ok ()
  | some t =>
    match ← Run.holding p i (Chain.openAll app again [] t.chain) with
    | .ok () =>
      Run.modifyTrack p i fun t => { t with isOpen := true }
      return .ok ()
    | .error f => return .error f

/-- Closes the plug-ins of a track if they are open. -/
def closeTrack (p : ProcessorId) (i : Nat) : Run S Unit := do
  match ← Run.track? p i with
  | some t =>
    if t.isOpen then
      Run.modifyTrack p i fun t => { t with isOpen := false }
      Run.holding p i (Chain.closeAll app again t.chain)
  | none => pure ()

/-- Opens the chains of the tracks, one after the other. If one fails, those in `before`, which
were opened before it, are closed again. -/
def openTracks (p : ProcessorId) (before : List Nat) : List Nat → Run S (Except Fault Unit)
  | [] => return .ok ()
  | i :: rest => do
    match ← openTrack app again p i with
    | .ok () => openTracks p (before ++ [i]) rest
    | .error f =>
      Run.each (closeTrack app again p) before
      return .error f

/-- Goes back to the configured phase and tells why. -/
def failRealize (p : ProcessorId) (f : Fault) : Run S (Except Fault Unit) := do
  Run.notice (.processor (← Run.processor p).name (.realizeFailed f))
  Run.moveTo p .configured
  emit app again p (.failed f.message)
  return .error f

/-- Prepares the chains of the enabled tracks: first all formats are agreed on, then all plug-ins
are opened. -/
def prepare (p : ProcessorId) : Run S (Except Fault Unit) := do
  let enabled := (← Run.processor p).enabledTracks
  match ← negotiateTracks app again p enabled with
  | .ok () => openTracks app again p [] enabled
  | .error f => return .error f

/-- Locks the chains of all tracks. -/
def lockTracks (p : ProcessorId) : Run S Unit :=
  Run.modifyProcessor p fun x =>
    { x with tracks := x.tracks.map fun t => { t with locked := true } }

def realize (p : ProcessorId) : Run S (Except Fault Unit) := do
  let x ← Run.processor p
  if x.isExternal then ask app again p .realize
  else match x.phase with
    | .configured =>
      Run.moveTo p .realizing
      match ← prepare app again p with
      | .error f => failRealize app again p f
      | .ok () =>
        Run.record (.readied p (← Run.processor p).enabledTracks)
        lockTracks p
        Run.notice (.processor x.name .realized)
        Run.moveTo p .realized
        emit app again p .realized
        return .ok ()
    | .realized | .started => return .ok ()
    | _ => return .error (.notConfigured (x.cannot "realize"))

def start (p : ProcessorId) : Run S (Except Fault Unit) := do
  let x ← Run.processor p
  if x.isExternal then ask app again p .start
  else match x.phase with
    | .realized =>
      Run.moveTo p .started
      emit app again p .started
      return .ok ()
    | .started => return .ok ()
    | _ => return .error (.invalidState (x.cannot "start"))

def stop (p : ProcessorId) : Run S (Except Fault Unit) := do
  let x ← Run.processor p
  if x.isExternal then ask app again p .stop
  else match x.phase with
    | .started =>
      Run.moveTo p .realized
      emit app again p .stopped
      return .ok ()
    | .realized => return .ok ()
    | _ => return .error (.invalidState (x.cannot "stop"))

/-- Closes a processor for good, and the plug-ins of a processor that had realized. -/
def close (p : ProcessorId) : Run S Unit := do
  let x ← Run.processor p
  if x.isExternal then
    let _ ← ask app again p .close
  else if !x.phase.isClosed then
    Run.moveTo p .closed
    if x.phase.hadRealized then
      Run.each (closeTrack app again p) (List.range x.tracks.length)
    Run.notice (.processor x.name .closed)
    emit app again p .closed

/-- Sends a frame through a track. A track that is not enabled gives it back as it came. The chain
need not be waited for: none is held when a processor has started. -/
def process (p : ProcessorId) (i : Nat) (b : Buffer) : Run S (Except Fault Buffer) := do
  let x ← Run.processor p
  if x.phase != .started then return .error (.invalidState (x.cannot "process"))
  else match x.tracks[i]? with
    | none => return .error (.noSuchTrack i)
    | some t =>
      if !t.enabled then return .ok b
      else match ← Chain.send app again t.chain b with
        | .ok out =>
          Run.modifyProcessor p fun x => { x with framesProcessed := x.framesProcessed + 1 }
          return .ok out
        | .error f => return .error f

end Metering
