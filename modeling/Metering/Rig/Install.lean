import Metering.Rig.Run
/-!
The installation of a level effect on a processor. Only the first audio track gets the effect, and
whether it has a listener does not matter, because a chain can be set for a short time only.
-/

namespace Metering

variable {S : Type} (app : Application S) (again : {β : Type} → Call β → Run S β)

/-- The tracks of a processor, if it is in a phase to show them. -/
def trackControls (p : ProcessorId) : Run S (Except Fault (List Track)) := do
  let x ← Run.processor p
  if x.isExternal then
    Run.record (.request p .trackControls)
    match ← (app.request p .trackControls).run again with
    | .ok () => return .ok (← Run.processor p).tracks
    | .error f => return .error f
  else if x.phase.isConfigured then return .ok x.tracks
  else return .error (.notConfigured (x.name ++ " is " ++ x.phase.name))

/-- Exchanges the chain of a track. Only an exchange that is not refused waits for the chain. -/
def setChain (p : ProcessorId) (i : Nat) (chain : List PlugIn) : Run S (Except Fault Unit) := do
  match ← Run.track? p i with
  | none => return .error (.noSuchTrack i)
  | some t =>
    match t.setChain chain with
    | .ok t =>
      Run.awaitChain p i
      Run.modifyTrack p i fun _ => t
      return .ok ()
    | .error f => return .error f

def firstAudio (tracks : List Track) : Option Nat := tracks.findIdx? (·.format.isAudio)

/-- Makes the effect the chain of the first audio track and gives the position of that track.
What stands against it is written down and otherwise passed over. -/
def install (p : ProcessorId) (e : EffectId) (side : Side) : Run S (Option Nat) := do
  match ← trackControls app again p with
  | .error f =>
    Run.notice (.install side (.noControls f))
    return none
  | .ok tracks =>
    match firstAudio tracks with
    | none =>
      Run.notice (.install side .noAudioTrack)
      return none
    | some i =>
      match ← setChain p i [.effect e] with
      | .ok () =>
        Run.notice (.install side (.installed i))
        return some i
      | .error f =>
        Run.notice (.install side (.refused f))
        return none

end Metering
