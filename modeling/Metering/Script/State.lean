import Metering.Script.Step
/-!
What a script keeps beside its rig: the names of objects, and what its listeners, watchers and
plug-ins have still to do. An object of the application is named by its position in its list.
-/

namespace Metering.Script

/-- A listener or watcher, with the steps it takes for each kind of call. -/
structure Reaction where
  id : String
  on : List (String × List Step)
  /-- How many more calls steps are taken for. -/
  times : Nat

/-- A plug-in of the script and what happened to it. -/
structure Codec where
  id : String
  plan : CodecPlan
  on : List (CodecMethod × List Step)
  times : Nat
  opens : Nat := 0
  closes : Nat := 0
  processed : Nat := 0

structure State where
  processors : List (String × ProcessorId) := []
  plans : List (ProcessorId × ProcessorPlan) := []
  effects : List (String × EffectId) := []
  sessions : List (String × SessionId) := []
  tones : List (String × Tone) := []
  listeners : List Reaction := []
  watchers : List Reaction := []
  codecs : List Codec := []

/-- The object that was named last by the text. -/
def named {α : Type} (id : String) (objects : List (String × α)) : Option α :=
  objects.reverse.lookup id

/-- The position of the last member with the given name. -/
def position {α : Type} (name : α → String) (id : String) (objects : List α) : Option Nat :=
  (objects.reverse.findIdx? fun x => name x == id).map fun i => objects.length - 1 - i

/-- The objects that their names still stand for. A name that is given again leaves its object. -/
def current {α : Type} : List (String × α) → List (String × α)
  | [] => []
  | o :: rest => if rest.any (fun x => x.1 == o.1) then current rest else o :: current rest

/-- The steps to take for a call, and how many times are left then. A call without steps is not
counted. -/
def due {κ : Type} [BEq κ] (key : κ) (on : List (κ × List Step)) (times : Nat) :
    List Step × Nat :=
  match on.lookup key with
  | some (s :: rest) => if times = 0 then ([], 0) else (s :: rest, times - 1)
  | _ => ([], times)

/-- Takes the steps due out of the reaction at a position. -/
def Reaction.take (key : String) (i : Nat) (rs : List Reaction) : List Step × List Reaction :=
  match rs[i]? with
  | some r =>
    let (steps, times) := due key r.on r.times
    (steps, rs.set i { r with times })
  | none => ([], rs)

def Codec.take (key : CodecMethod) (i : Nat) (cs : List Codec) : List Step × List Codec :=
  match cs[i]? with
  | some c =>
    let (steps, times) := due key c.on c.times
    (steps, cs.set i { c with times })
  | none => ([], cs)

end Metering.Script
