import Metering.Session.Basic
/-!
What an application can do with a rig, and how it answers when the rig calls it. The answers are
programs: they may call the rig again, to any depth, but reach it in no other way.
-/

namespace Metering

/-- Everything that is wired together. An object is named by its position. -/
structure Rig where
  processors : List Processor := []
  effects : List LevelEffect := []
  sessions : List Session := []

namespace Rig

/-- The level measured last by an effect. -/
def lastLevel (r : Rig) (e : EffectId) : Option Int := (r.effects[e]?).bind (·.last)

/-- The loudest of the levels, if there is one. -/
def loudest (levels : List Int) : Option Int := levels.max?

/-- The last level on each side of a session. Of several streams the loudest counts. -/
def levels (r : Rig) (s : Session) : Levels where
  capture := r.lastLevel s.localEffect
  stream := loudest (s.streams.filterMap fun e => r.lastLevel e.2.effect)

end Rig

/-- The calls an application can make, with the type of their answers. -/
inductive Call : Type → Type
  -- Objects
  | newProcessor (name : String) (tracks : List TrackPlan) : Call ProcessorId
  | newExternal (name : String) (phase : Phase) (tracks : List TrackPlan) : Call ProcessorId
  | newEffect (config : EffectConfig) : Call EffectId
  | newSession (label : String) (device : Device) (config : SessionConfig) : Call SessionId
  -- Processors
  | configure (p : ProcessorId) : Call (Except Fault Unit)
  | realize (p : ProcessorId) : Call (Except Fault Unit)
  | start (p : ProcessorId) : Call (Except Fault Unit)
  | stop (p : ProcessorId) : Call (Except Fault Unit)
  | close (p : ProcessorId) : Call Unit
  | trackControls (p : ProcessorId) : Call (Except Fault (List Track))
  | setChain (p : ProcessorId) (track : Nat) (chain : List PlugIn) : Call (Except Fault Unit)
  | setEnabled (p : ProcessorId) (track : Nat) (enabled : Bool) : Call Unit
  | watch (p : ProcessorId) (w : WatcherId) : Call Unit
  | process (p : ProcessorId) (track : Nat) (b : Buffer) : Call (Except Fault Buffer)
  -- Processors of the application
  | enter (p : ProcessorId) (phase : Phase) : Call Unit
  | emit (p : ProcessorId) (e : Event) : Call Unit
  -- Effects
  | install (p : ProcessorId) (e : EffectId) (side : Side) : Call (Option Nat)
  | setListener (e : EffectId) (l : Option ListenerId) : Call Unit
  | resetEffect (e : EffectId) : Call Unit
  | offer (e : EffectId) (f : Format) : Call (Option Format)
  | observe (e : EffectId) (b slot : Buffer) : Call Buffer
  -- Sessions
  | setLocalListener (s : SessionId) (l : Option ListenerId) : Call Unit
  | setStreamListener (s : SessionId) (l : Option ListenerId) : Call Unit
  | connectCapture (s : SessionId) (p : ProcessorId) : Call (Except Fault Unit)
  | captureUpdate (s : SessionId) (p : ProcessorId) (e : Event) : Call Unit
  | addStream (s : SessionId) (ssrc : Ssrc) (p : ProcessorId) : Call (Except Fault Unit)
  | removeStream (s : SessionId) (ssrc : Ssrc) : Call Bool
  | streamConfigured (s : SessionId) (ssrc : Ssrc) (p : ProcessorId) : Call Unit
  | startSession (s : SessionId) : Call (Except Fault Unit)
  | stopSession (s : SessionId) : Call (Except Fault Unit)
  | closeSession (s : SessionId) : Call Unit
  /-- The application uses the session no longer. -/
  | releaseSession (s : SessionId) : Call Unit

/-- What an application did: a call without the type of its answer. -/
inductive Deed
  | newProcessor (name : String) (tracks : List TrackPlan)
  | newExternal (name : String) (phase : Phase) (tracks : List TrackPlan)
  | newEffect (config : EffectConfig)
  | newSession (label : String) (device : Device) (config : SessionConfig)
  | configure (p : ProcessorId)
  | realize (p : ProcessorId)
  | start (p : ProcessorId)
  | stop (p : ProcessorId)
  | close (p : ProcessorId)
  | trackControls (p : ProcessorId)
  | setChain (p : ProcessorId) (track : Nat) (chain : List PlugIn)
  | setEnabled (p : ProcessorId) (track : Nat) (enabled : Bool)
  | watch (p : ProcessorId) (w : WatcherId)
  | process (p : ProcessorId) (track : Nat) (b : Buffer)
  | enter (p : ProcessorId) (phase : Phase)
  | emit (p : ProcessorId) (e : Event)
  | install (p : ProcessorId) (e : EffectId) (side : Side)
  | setListener (e : EffectId) (l : Option ListenerId)
  | resetEffect (e : EffectId)
  | offer (e : EffectId) (f : Format)
  | observe (e : EffectId) (b slot : Buffer)
  | setLocalListener (s : SessionId) (l : Option ListenerId)
  | setStreamListener (s : SessionId) (l : Option ListenerId)
  | connectCapture (s : SessionId) (p : ProcessorId)
  | captureUpdate (s : SessionId) (p : ProcessorId) (e : Event)
  | addStream (s : SessionId) (ssrc : Ssrc) (p : ProcessorId)
  | removeStream (s : SessionId) (ssrc : Ssrc)
  | streamConfigured (s : SessionId) (ssrc : Ssrc) (p : ProcessorId)
  | startSession (s : SessionId)
  | stopSession (s : SessionId)
  | closeSession (s : SessionId)
  | releaseSession (s : SessionId)

/-- The deed of making a call. -/
def Call.deed {β : Type} : Call β → Deed
  | .newProcessor name tracks => .newProcessor name tracks
  | .newExternal name phase tracks => .newExternal name phase tracks
  | .newEffect config => .newEffect config
  | .newSession label device config => .newSession label device config
  | .configure p => .configure p
  | .realize p => .realize p
  | .start p => .start p
  | .stop p => .stop p
  | .close p => .close p
  | .trackControls p => .trackControls p
  | .setChain p track chain => .setChain p track chain
  | .setEnabled p track enabled => .setEnabled p track enabled
  | .watch p w => .watch p w
  | .process p track b => .process p track b
  | .enter p phase => .enter p phase
  | .emit p e => .emit p e
  | .install p e side => .install p e side
  | .setListener e l => .setListener e l
  | .resetEffect e => .resetEffect e
  | .offer e f => .offer e f
  | .observe e b slot => .observe e b slot
  | .setLocalListener s l => .setLocalListener s l
  | .setStreamListener s l => .setStreamListener s l
  | .connectCapture s p => .connectCapture s p
  | .captureUpdate s p e => .captureUpdate s p e
  | .addStream s ssrc p => .addStream s ssrc p
  | .removeStream s ssrc => .removeStream s ssrc
  | .streamConfigured s ssrc p => .streamConfigured s ssrc p
  | .startSession s => .startSession s
  | .stopSession s => .stopSession s
  | .closeSession s => .closeSession s
  | .releaseSession s => .releaseSession s

/-- A program of an application whose own state is `S`. -/
inductive Program (S α : Type) : Type 1
  | done (a : α)
  /-- Reads and writes the application's state. -/
  | update {β : Type} (f : S → β × S) (next : β → Program S α)
  /-- Looks at the rig. -/
  | look {β : Type} (f : Rig → β) (next : β → Program S α)
  /-- Writes a line into the journal. -/
  | note (text : String) (next : Program S α)
  | call {β : Type} (c : Call β) (next : β → Program S α)

namespace Program

variable {S α β : Type}

protected def bind (p : Program S α) (f : α → Program S β) : Program S β :=
  match p with
  | done a => f a
  | update g next => update g fun b => (next b).bind f
  | look g next => look g fun b => (next b).bind f
  | note text next => note text (next.bind f)
  | call c next => call c fun b => (next b).bind f

instance : Monad (Program S) where
  pure := done
  bind := Program.bind

def modify (f : S → S) : Program S Unit := update (fun s => ((), f s)) done

/-- What a function says of the application's state. -/
def ask (f : S → α) : Program S α := update (fun s => (f s, s)) done

def see (f : Rig → α) : Program S α := look f done

def send (c : Call α) : Program S α := call c done

def write (text : String) : Program S Unit := note text (done ())

/-- Runs the programs one after the other. -/
def sequence : List (Program S Unit) → Program S Unit
  | [] => done ()
  | p :: ps => do p; sequence ps

end Program

/-- How an application answers when it is called. -/
structure Application (S : Type) where
  /-- A listener is told a level. -/
  level : ListenerId → Int → Program S Unit
  /-- A watcher is told an event. -/
  event : WatcherId → ProcessorId → Event → Program S Unit
  /-- A plug-in is offered a format and says what it will produce from it. -/
  offer : CodecId → Format → Program S (Option Format)
  opens : CodecId → Program S (Except Fault Unit)
  close : CodecId → Program S Unit
  /-- A plug-in transforms a frame, given an empty slot for the result. -/
  transform : CodecId → Buffer → Buffer → Program S (Except Fault Buffer)
  /-- A processor of the application is asked for something. -/
  request : ProcessorId → Request → Program S (Except Fault Unit)
  /-- The order in which a session goes through its streams to close them, as positions. It may be
  any order, another one each time. -/
  order : S → Nat → List Nat := fun _ n => List.range n
  order_perm : ∀ s n, (order s n).Perm (List.range n) := by exact fun _ _ => .refl _

/-- The members of a list in the order in which they are gone through. -/
def Application.arranged {S α : Type} (app : Application S) (s : S) (xs : List α) : List α :=
  (app.order s xs.length).filterMap fun i => xs[i]?

/-- An application that does nothing when it is called and leaves every frame as it is. -/
def Application.silent (S : Type) : Application S where
  level _ _ := .done ()
  event _ _ _ := .done ()
  offer _ f := .done (some f)
  opens _ := .done (.ok ())
  close _ := .done ()
  transform _ b _ := .done (.ok b)
  request _ _ := .done (.ok ())

end Metering
