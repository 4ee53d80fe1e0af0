import Metering.Rig.Perform
import Metering.Script.Application
/-!
What a script shows of its run: the lines of the journal that concern it, and the state of its
objects under their names.
-/

namespace Metering.Script

/-- The name that an object was given first. -/
def nameOf (objects : List (String × Nat)) (n : Nat) : String :=
  ((objects.find? fun o => o.2 == n).map Prod.fst).getD ""

def eventText : Event → String
  | .failed message => "Error:" ++ message
  | e => e.name

/-- The line of an entry. What happens inside the rig shows no line of its own: changes of phase,
announcements, what sessions are told, new subscribers, and the results of opening and closing
plug-ins. -/
def line (st : State) : Entry → Option String
  | .notice n => some ("log " ++ n.severity.name ++ " " ++ n.text)
  | .level l n =>
    some ("level " ++ ((st.listeners[l]?).map (·.id)).getD "" ++ " " ++ toString n)
  | .told (.watcher w) p e =>
    some ("event " ++ ((st.watchers[w]?).map (·.id)).getD "" ++ " " ++ nameOf st.processors p ++
      " " ++ eventText e)
  | .codec c m => some ("codec " ++ ((st.codecs[c]?).map (·.id)).getD "" ++ " " ++ m.name)
  | .request p r => some ("scripted " ++ nameOf st.processors p ++ " " ++ r.name)
  | .note text => some text
  | .told .. | .moved .. | .announced .. | .subscribed .. | .readied .. | .accepted _ | .opened _
  | .closed _ => none

structure TrackReport where
  enabled : Bool
  acceptsPlugIns : Bool
  chain : List String

structure ProcessorReport where
  phase : Phase
  /-- Not counted by the processors of a script. -/
  frames : Option Nat
  tracks : List TrackReport

structure EffectReport where
  hasListener : Bool
  last : Option Int
  inputFormat : Option Format

structure CodecReport where
  opens : Nat
  closes : Nat
  processed : Nat

structure SessionReport where
  levels : Levels
  capture : Option Phase
  localEffect : EffectReport
  /-- In the order of their names. -/
  streams : List (Ssrc × EffectReport)

structure Report where
  processors : List (String × ProcessorReport)
  effects : List (String × EffectReport)
  codecs : List (String × CodecReport)
  sessions : List (String × SessionReport)

def TrackReport.of (t : Track) : TrackReport :=
  ⟨t.enabled, t.acceptsPlugIns, t.chain.map PlugIn.name⟩

def ProcessorReport.of (p : Processor) : ProcessorReport where
  phase := p.phase
  frames := if p.isExternal then none else some p.framesProcessed.toNat
  tracks := p.tracks.map TrackReport.of

def EffectReport.of (e : LevelEffect) : EffectReport :=
  ⟨e.listener.isSome, e.last, e.inputFormat⟩

def SessionReport.of (r : Rig) (s : Session) : Option SessionReport := do
  let localEffect ← r.effects[s.localEffect]?
  let streams ← s.streams.mapM fun e => do
    return (e.1, EffectReport.of (← r.effects[e.2.effect]?))
  return {
    levels := r.levels s
    capture := s.capture.bind fun p => (r.processors[p]?).map (·.phase)
    localEffect := .of localEffect
    streams := streams.mergeSort fun a b => a.1 ≤ b.1 }

/-- The objects that are still known, each under its name. -/
def reports {α β : Type} (objects : List (String × Nat)) (all : List α) (f : α → Option β) :
    List (String × β) :=
  (current objects).filterMap fun o => ((all[o.2]?).bind f).map (o.1, ·)

def report (w : World State) : Report where
  processors := reports w.app.processors w.rig.processors fun p => some (.of p)
  effects := reports w.app.effects w.rig.effects fun e => some (.of e)
  codecs := (current (w.app.codecs.map fun c => (c.id, c))).map fun c =>
    (c.1, ⟨c.2.opens, c.2.closes, c.2.processed⟩)
  sessions := reports w.app.sessions w.rig.sessions (SessionReport.of w.rig)

/-- What became of a step. -/
structure Outcome where
  result : Result
  trace : List String
  report : Report

/-- Streams are closed in no particular order. A step that closes several shows its lines sorted. -/
def closesSeveral (w : World State) : Step → Bool
  | .closeSession id | .dropSession id =>
    ((w.app.session? id).bind (w.rig.sessions[·]?)).any fun s => 1 < s.streams.length
  | _ => false

/-- Takes a step in a world and gives what the script shows of it. -/
def step (s : Step) (w : World State) : Except Halt (Outcome × World State) := do
  let (result, after) ← (s.take.execute application).run { w with journal := [], moments := [] }
  let lines := after.journal.reverse.filterMap (line after.app)
  let trace := if closesSeveral w s then lines.mergeSort fun a b => !decide (b < a) else lines
  return ({ result, trace, report := report after }, after)

/-- Takes steps one after the other. -/
def steps (w : World State) : List Step → Except Halt (List Outcome)
  | [] => return []
  | s :: rest => do
    let (o, w) ← step s w
    return o :: (← steps w rest)

def run (script : List Step) : Except Halt (List Outcome) := steps { app := {} } script

end Metering.Script
