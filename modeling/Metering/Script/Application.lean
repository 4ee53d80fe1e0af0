import Metering.Script.Execute
/-!
The application that a script makes up: its listeners, watchers and plug-ins take the steps that
are due, and its processors and plug-ins do what their plans say.
-/

namespace Metering.Script

/-- Takes the steps that a listener or watcher has for a call. -/
def react (list : State → List Reaction) (put : State → List Reaction → State) (i : Nat)
    (key : String) : Program State Unit := do
  takeAll (← Program.update (fun st =>
    let (steps, rs) := Reaction.take key i (list st)
    (steps, put st rs)) .done)

def level (l : ListenerId) (_ : Int) : Program State Unit :=
  react (·.listeners) (fun st rs => { st with listeners := rs }) l ""

def event (w : WatcherId) (_ : ProcessorId) (e : Event) : Program State Unit :=
  react (·.watchers) (fun st rs => { st with watchers := rs }) w e.name

/-- Takes the steps that a plug-in has for a call, and gives the plug-in as it is afterwards. -/
def called (c : CodecId) (m : CodecMethod) : Program State (Option Codec) := do
  takeAll (← Program.update (fun st =>
    let (steps, cs) := Codec.take m c st.codecs
    (steps, { st with codecs := cs })) .done)
  Program.ask fun st => st.codecs[c]?

def modifyCodec (c : CodecId) (f : Codec → Codec) : Program State Unit :=
  Program.modify fun st => { st with codecs := st.codecs.modify c f }

/-- The format that leaves a plug-in, if the plug-in accepts the one that comes. -/
def CodecPlan.offer (x : CodecPlan) (f : Format) : Option Format :=
  if (if f.isAudio then x.rejectsAudio else x.rejectsVideo) then none
  else some (x.outFormat.getD f)

/-- What a plug-in makes of a frame. A frame to discard stays one. -/
def CodecPlan.transform (x : CodecPlan) (b slot : Buffer) : Except Fault Buffer :=
  match x.processFault with
  | some f => .error f
  | none =>
    let out := slot.copyFrom b
    .ok { out with
      data := out.data.map fun n => n * x.factor + x.summand
      format := x.outFormat.getD out.format
      discard := out.discard || x.discard }

def offer (c : CodecId) (f : Format) : Program State (Option Format) := do
  return (← called c .setInputFormat).bind fun x => x.plan.offer f

def opens (c : CodecId) : Program State (Except Fault Unit) := do
  match (← called c .opens).bind fun x => x.plan.openFault with
  | some f => return .error f
  | none =>
    modifyCodec c fun x => { x with opens := x.opens + 1 }
    return .ok ()

def close (c : CodecId) : Program State Unit := do
  let _ ← called c .close
  modifyCodec c fun x => { x with closes := x.closes + 1 }

def transform (c : CodecId) (b slot : Buffer) : Program State (Except Fault Buffer) := do
  match ← called c .process with
  | some x =>
    modifyCodec c fun x => { x with processed := x.processed + 1 }
    return x.plan.transform b slot
  | none => return .ok b

/-- Answers a request as planned. -/
def Conduct.follow (p : ProcessorId) : Conduct → Program State (Except Fault Unit)
  | .refuse f => return .error f
  | .proceed phase e => do
    match phase with
    | some phase => Program.send (.enter p phase)
    | none => pure ()
    match e with
    | some e => Program.send (.emit p e)
    | none => pure ()
    return .ok ()

/-- Closes a scripted processor, once. -/
def shut (p : ProcessorId) : Program State (Except Fault Unit) := do
  match ← Program.see fun r => (r.processors[p]?).map Processor.phase with
  | some Phase.closed => return .ok ()
  | _ => (Conduct.proceed (some .closed) (some .closed)).follow p

def request (p : ProcessorId) (r : Request) : Program State (Except Fault Unit) := do
  match (← Program.ask fun st => st.plans.lookup p), r with
  | some plan, .configure => plan.configure.follow p
  | some plan, .realize => plan.realize.follow p
  | some plan, .start => plan.start.follow p
  | some plan, .stop => plan.stop.follow p
  | some plan, .trackControls =>
    match plan.tracksFault with
    | some f => return .error f
    | none => return .ok ()
  | some _, .close => shut p
  | none, _ => return .ok ()

def application : Application State where
  level := level
  event := event
  offer := offer
  opens := opens
  close := close
  transform := transform
  request := request

end Metering.Script
