import Metering.Rig.Sessions
/-!
The calls answered. A call may lead to programs of the application that call again, so the answers
are given to a depth of nested calls. Calls that end within a depth end in the same way within any
greater one.
-/

namespace Metering

variable {S : Type} (app : Application S)

/-- Answers a call. Calls made on the way are answered by `again`. -/
def answer (again : {β : Type} → Call β → Run S β) : {β : Type} → Call β → Run S β
  | _, .newProcessor name tracks => Run.newProcessor (.new name tracks)
  | _, .newExternal name phase tracks => Run.newProcessor (.newExternal name phase tracks)
  | _, .newEffect config => Run.newEffect (.new config)
  | _, .newSession label device config => newSession label device config
  | _, .configure p => configure app again p
  | _, .realize p => realize app again p
  | _, .start p => start app again p
  | _, .stop p => stop app again p
  | _, .close p => close app again p
  | _, .trackControls p => trackControls app again p
  | _, .setChain p i chain => setChain p i chain
  | _, .setEnabled p i enabled => Run.modifyTrack p i fun t => { t with enabled }
  | _, .watch p w => subscribe p (.watcher w)
  | _, .process p i b => process app again p i b
  | _, .enter p phase => do
    if (← Run.processor p).isExternal then Run.moveTo p phase
  | _, .emit p e => do
    if (← Run.processor p).isExternal then emit app again p e
  | _, .install p e side => install app again p e side
  | _, .setListener e l => setListener e l
  | _, .resetEffect e => resetEffect e
  | _, .offer e f => Chain.offerEffect e f
  | _, .observe e b slot => Chain.observe app again e b slot
  | _, .setLocalListener s l => setLocalListener s l
  | _, .setStreamListener s l => setStreamListener s l
  | _, .connectCapture s p => duringUse app again s (connectCapture app again s p)
  | _, .captureUpdate s p e => duringUse app again s (captureUpdate app again s p e)
  | _, .addStream s ssrc p => duringUse app again s (addStream app again s ssrc p)
  | _, .removeStream s ssrc => duringUse app again s (removeStream app again s ssrc)
  | _, .streamConfigured s ssrc p => duringUse app again s (streamConfigured app again s ssrc p)
  | _, .startSession s => duringUse app again s (startSession app again s)
  | _, .stopSession s => duringUse app again s (stopSession app again s)
  | _, .closeSession s => duringUse app again s (closeSession app again s)
  | _, .releaseSession s => releaseSession app again s

/-- Answers a call, nested calls included, to the given depth. -/
def perform : Nat → {β : Type} → Call β → Run S β
  | 0, _, _ => throw .tooDeep
  | depth + 1, _, c => answer app (perform depth) c

/-- Calls nested beyond this depth are given up. -/
def depthLimit : Nat := 1000000

/-- Runs a program from outside of every call. -/
def Program.execute {α : Type} (p : Program S α) : Run S α := p.run (perform app depthLimit)

end Metering
