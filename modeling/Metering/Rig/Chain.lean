import Metering.Media.Document
import Metering.Rig.Run
/-!
Chains of plug-ins at work: formats are agreed on from the first plug-in to the last, then all are
opened, then frames go through them.
-/

namespace Metering.Chain

variable {S : Type} (app : Application S) (again : {β : Type} → Call β → Run S β)

/-- Shows a frame to an effect, which may tell its listener, and copies it to the slot. -/
def observe (e : EffectId) (b slot : Buffer) : Run S Buffer := do
  let (told, after) := (← Run.effect e).observe b
  Run.modifyEffect e fun _ => after
  match told with
  | some (l, level) =>
    Run.record (.level l level)
    Run.page fun _ => .heard l level
    (app.level l level).run again
  | none => pure ()
  return slot.copyFrom b

/-- Offers a format to an effect. -/
def offerEffect (e : EffectId) (f : Format) : Run S (Option Format) := do
  let (answer, after) := (← Run.effect e).offer f
  Run.modifyEffect e fun _ => after
  return answer

def offer (x : PlugIn) (f : Format) : Run S (Option Format) :=
  match x with
  | .effect e => offerEffect e f
  | .codec c _ => do
    Run.record (.codec c .setInputFormat)
    (app.offer c f).run again

def openPlugIn (x : PlugIn) : Run S (Except Fault Unit) := do
  let r ← match x with
    | .effect _ => pure (.ok ())
    | .codec c _ => do
      Run.record (.codec c .opens)
      (app.opens c).run again
  if let .ok () := r then Run.record (.opened x)
  return r

def closePlugIn (x : PlugIn) : Run S Unit := do
  match x with
  | .effect _ => pure ()
  | .codec c _ =>
    Run.record (.codec c .close)
    (app.close c).run again
  Run.record (.closed x)

def process (x : PlugIn) (b : Buffer) : Run S (Except Fault Buffer) :=
  match x with
  | .effect e => return .ok (← observe app again e b (.empty b.format))
  | .codec c _ => do
    Run.record (.codec c .process)
    (app.transform c b (.empty b.format)).run again

/-- Agrees on formats along a chain and gives the format that leaves it. -/
def negotiate : List PlugIn → Format → Run S (Except Fault Format)
  | [], f => return .ok f
  | x :: xs, f => do
    match ← offer app again x f with
    | some g =>
      Run.record (.accepted x)
      negotiate xs g
    | none => return .error (.unsupportedFormat (x.name ++ " rejected " ++ f.debug))

def closeAll : List PlugIn → Run S Unit := Run.each (closePlugIn app again)

/-- Opens a chain from the first plug-in to the last. If one fails, those in `before`, which were
opened before it, are closed again. -/
def openAll (before : List PlugIn) : List PlugIn → Run S (Except Fault Unit)
  | [] => return .ok ()
  | x :: xs => do
    match ← openPlugIn app again x with
    | .ok () => openAll (before ++ [x]) xs
    | .error f =>
      Run.notice (.plugInNotOpened x.name f)
      closeAll app again before
      return .error f

/-- Sends a frame through a chain. It stops at a fault or at a frame to discard. -/
def send : List PlugIn → Buffer → Run S (Except Fault Buffer)
  | [], b => return .ok b
  | x :: xs, b => do
    match ← process app again x b with
    | .ok out => if out.discard then return .ok out else send xs out
    | .error f => return .error f

end Metering.Chain
