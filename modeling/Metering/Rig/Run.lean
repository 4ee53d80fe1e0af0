import Metering.Rig.Call
import Metering.Rig.Journal
/-!
Runs: what changes a rig, keeps its journal and calls the application. Here are the single steps
from which all operations are put together.
-/

namespace Metering

/-- A moment of a run: the rig as it stands and the journal kept so far. -/
structure Moment where
  rig : Rig
  journal : List Entry

/-- A page of the story of a run. -/
inductive Page
  /-- The application made a call. The rig stood like this before. -/
  | did (r : Rig) (d : Deed)
  /-- A listener was told a level. -/
  | heard (l : ListenerId) (level : Int)

/-- A rig, the application around it and the journal, the newest entry first. -/
structure World (S : Type) where
  app : S
  rig : Rig := {}
  journal : List Entry := []
  /-- The moments at which the application had the rig before it, the newest first: when it
  looked at the rig, when it made a call and when the call had been answered. -/
  moments : List Moment := []
  /-- What the application did with the rig and what its listeners were told, the newest first. -/
  story : List Page := []

def World.now {S : Type} (w : World S) : Moment := ⟨w.rig, w.journal⟩

/-- Why a run comes to no result. -/
inductive Halt
  /-- Calls are nested too deeply. -/
  | tooDeep
  /-- No such object was ever made. -/
  | unknown
  /-- A call waits for a chain that is held by a call around it. -/
  | stuck
deriving DecidableEq, Repr

abbrev Run (S : Type) := StateT (World S) (Except Halt)

namespace Run

variable {S α : Type}

def record (e : Entry) : Run S Unit := modify fun w => { w with journal := e :: w.journal }

def notice (n : Notice) : Run S Unit := record (.notice n)

/-- Keeps the present moment. -/
def mark : Run S Unit := modify fun w => { w with moments := w.now :: w.moments }

/-- Continues the story by a page about the rig. -/
def page (f : Rig → Page) : Run S Unit := modify fun w => { w with story := f w.rig :: w.story }

/-- An object that was made before. -/
def known (x : Option α) : Run S α :=
  match x with
  | some a => pure a
  | none => throw .unknown

def modifyRig (f : Rig → Rig) : Run S Unit := modify fun w => { w with rig := f w.rig }

def processor (p : ProcessorId) : Run S Processor := do known ((← get).rig.processors[p]?)

def effect (e : EffectId) : Run S LevelEffect := do known ((← get).rig.effects[e]?)

def session (s : SessionId) : Run S Session := do known ((← get).rig.sessions[s]?)

def modifyProcessor (p : ProcessorId) (f : Processor → Processor) : Run S Unit :=
  modifyRig fun r => { r with processors := r.processors.modify p f }

def modifyEffect (e : EffectId) (f : LevelEffect → LevelEffect) : Run S Unit :=
  modifyRig fun r => { r with effects := r.effects.modify e f }

def modifySession (s : SessionId) (f : Session → Session) : Run S Unit :=
  modifyRig fun r => { r with sessions := r.sessions.modify s f }

def modifyTrack (p : ProcessorId) (i : Nat) (f : Track → Track) : Run S Unit :=
  modifyProcessor p fun x => x.modifyTrack i f

/-- The track of a processor, if it has one at that position. -/
def track? (p : ProcessorId) (i : Nat) : Run S (Option Track) := do
  return (← processor p).tracks[i]?

/-- Waits until a chain is free. If it is held, it will never be, since the calls that hold it are
all waiting for this one. -/
def awaitChain (p : ProcessorId) (i : Nat) : Run S Unit := do
  if i ∈ (← processor p).held then throw .stuck

/-- Calls plug-ins of a chain as soon as it is free, and holds it meanwhile. -/
def holding (p : ProcessorId) (i : Nat) (calls : Run S α) : Run S α := do
  awaitChain p i
  modifyProcessor p (·.hold i)
  let a ← calls
  modifyProcessor p (·.letGo)
  return a

def moveTo (p : ProcessorId) (phase : Phase) : Run S Unit := do
  let _ ← processor p
  modifyProcessor p fun x => { x with phase }
  record (.moved p phase)

def newProcessor (x : Processor) : Run S ProcessorId := do
  let n := (← get).rig.processors.length
  modifyRig fun r => { r with processors := r.processors ++ [x] }
  return n

def newEffect (x : LevelEffect) : Run S EffectId := do
  let n := (← get).rig.effects.length
  modifyRig fun r => { r with effects := r.effects ++ [x] }
  return n

def newSession (x : Session) : Run S SessionId := do
  let n := (← get).rig.sessions.length
  modifyRig fun r => { r with sessions := r.sessions ++ [x] }
  return n

/-- Does one thing after the other for the members of a list. -/
def each {β : Type} (f : β → Run S Unit) : List β → Run S Unit
  | [] => pure ()
  | b :: bs => do
    f b
    each f bs

end Run

/-- Runs a program. Its calls are made by `again`. -/
def Program.run {S α : Type} (again : {β : Type} → Call β → Run S β) : Program S α → Run S α
  | .done a => pure a
  | .update f next => do
    let w ← get
    let (b, s) := f w.app
    set { w with app := s }
    (next b).run again
  | .look f next => do
    Run.mark
    let w ← get
    (next (f w.rig)).run again
  | .note text next => do
    Run.record (.note text)
    next.run again
  | .call c next => do
    Run.mark
    Run.page (.did · c.deed)
    let b ← again c
    Run.mark
    (next b).run again

end Metering
