import Metering.Rig.Call
import Metering.Script.State
import Metering.Session.Load
/-!
Steps as programs.
-/

namespace Metering.Script

abbrev Result := Except Fault Answer

namespace State

def processor? (st : State) (id : String) : Option ProcessorId := named id st.processors

def effect? (st : State) (id : String) : Option EffectId := named id st.effects

def session? (st : State) (id : String) : Option SessionId := named id st.sessions

def listener? (st : State) (id : String) : Option ListenerId := position Reaction.id id st.listeners

def codec? (st : State) (id : String) : Option CodecId := position Codec.id id st.codecs

/-- The plug-in of that name, or else the effect. -/
def plugIn? (st : State) (id : String) : Option PlugIn :=
  match st.codec? id with
  | some c => (st.codecs[c]?).map fun x => .codec c x.plan.name
  | none => (st.effect? id).map .effect

end State

/-- Goes on with the object that a name stands for. A step about an object that was never named
does nothing. -/
def withNamed {α : Type} (find : State → Option α) (f : α → Program State Result) :
    Program State Result := do
  match ← Program.ask find with
  | some a => f a
  | none => return .ok .done

/-- A call whose success says nothing more. -/
def plain (c : Call (Except Fault Unit)) : Program State Result := do
  return (← Program.send c).map fun _ => .done

def silent (c : Call Unit) : Program State Result := do
  Program.send c
  return .ok .done

/-- Does something several times and gives the result of the last time, or the given result when
it is not done at all. -/
def repeated (run : Program State Result) : Nat → Result → Program State Result
  | 0, last => return last
  | n + 1, _ => do repeated run n (← run)

def newProcessor (id name : String) (tracks : List TrackPlan) : Program State Result := do
  let p ← Program.send (.newProcessor name tracks)
  Program.modify fun st => { st with processors := st.processors ++ [(id, p)] }
  return .ok .done

def newScripted (id : String) (phase : Phase) (tracks : List TrackPlan) (plan : ProcessorPlan) :
    Program State Result := do
  let p ← Program.send (.newExternal id phase tracks)
  Program.modify fun st =>
    { st with processors := st.processors ++ [(id, p)], plans := st.plans ++ [(p, plan)] }
  return .ok .done

/-- Makes a session. A session that had the name before is released. -/
def newSession (id : String) (device : Device) (config : SessionConfig) :
    Program State Result := do
  let before ← Program.ask fun st => st.session? id
  let s ← Program.send (.newSession id device config)
  Program.modify fun st => { st with sessions := st.sessions ++ [(id, s)] }
  match before with
  | some old => silent (.releaseSession old)
  | none => return .ok .done

def processFrame (p : ProcessorId) (i : Nat) (b : Buffer) : Program State Result := do
  return (← Program.send (.process p i b)).map .buffer

def chain (p : ProcessorId) (i : Nat) (codecs : List String) (direct : Bool) :
    Program State Result := do
  let plugIns ← Program.ask fun st => codecs.filterMap st.plugIn?
  if direct then plain (.setChain p i plugIns)
  else match ← Program.send (.trackControls p) with
    | .ok _ => plain (.setChain p i plugIns)
    | .error f => return .error f

def frameOf (id : String) (tone : Tone) (p : ProcessorId) (i ms : Nat) (silence : Bool)
    (amplitude : Option Float) : Program State Result := do
  let tone := match amplitude with
    | some a => tone.setAmplitude a
    | none => tone
  let (b, tone) := if silence then tone.silence ms else tone.nextFrame ms
  Program.modify fun st => { st with tones := st.tones ++ [(id, tone)] }
  processFrame p i b

/-- Goes on with the listener that a name stands for. -/
def withListener (l : Option String) (f : Option ListenerId → Program State Result) :
    Program State Result := do
  match l with
  | none => f none
  | some id => f (← Program.ask fun st => st.listener? id)

def newCodec (c : Codec) : Program State Result := do
  Program.modify fun st => { st with codecs := st.codecs ++ [c] }
  return .ok .done

def newListener (r : Reaction) : Program State Result := do
  Program.modify fun st => { st with listeners := st.listeners ++ [r] }
  return .ok .done

def newWatcher (p : ProcessorId) (r : Reaction) : Program State Result := do
  let w ← Program.update
    (fun st => (st.watchers.length, { st with watchers := st.watchers ++ [r] })) .done
  silent (.watch p w)

/-- Names an effect of a session, if the session has it. -/
def nameEffect (s : SessionId) (ssrc : Option Ssrc) (id : String) : Program State Result := do
  let e ← Program.see fun r => (r.sessions[s]?).bind fun x =>
    match ssrc with
    | some n => (x.stream? n).map (·.effect)
    | none => some x.localEffect
  match e with
  | some e =>
    Program.modify fun st => { st with effects := st.effects ++ [(id, e)] }
    return .ok (.flag true)
  | none => return .ok (.flag false)

/-- Forgets the session. -/
def forget (id : String) (s : SessionId) : Program State Result := do
  Program.modify fun st => { st with sessions := st.sessions.filter fun o => o.1 != id }
  silent (.releaseSession s)

/-- What a look at an object gives. -/
def seen {α : Type} (x : Rig → Option α) (f : α → Answer) : Program State Result := do
  match ← Program.see x with
  | some a => return .ok (f a)
  | none => return .ok .done

open Program in
/-- Takes a step. -/
def Step.take : Step → Program State Result
  | .processor id name tracks => newProcessor id name tracks
  | .ofFormats id name formats => newProcessor id name (formats.map fun format => { format })
  | .scripted id phase tracks plan => newScripted id phase tracks plan
  | .codec id plan on times => newCodec { id, plan, on, times }
  | .effect id config => do
    let e ← send (.newEffect config)
    Program.modify fun st => { st with effects := st.effects ++ [(id, e)] }
    return .ok .done
  | .listener id on times => newListener { id, on := [("", on)], times }
  | .tone id t => do
    Program.modify fun st => { st with tones := st.tones ++ [(id, t)] }
    return .ok .done
  | .session id device config => newSession id device config
  | .loadSession id device document =>
    match SessionConfig.load document with
    | .ok config => newSession id device config
    | .error f => return .error f
  | .configure p => withNamed (·.processor? p) fun p => plain (.configure p)
  | .realize p => withNamed (·.processor? p) fun p => plain (.realize p)
  | .start p => withNamed (·.processor? p) fun p => plain (.start p)
  | .stop p => withNamed (·.processor? p) fun p => plain (.stop p)
  | .close p => withNamed (·.processor? p) fun p => silent (.close p)
  | .state id => withNamed (·.processor? id) fun p => do
    match ← see fun r => (r.processors[p]?).map (·.phase) with
    | some phase =>
      write ("state " ++ id ++ " " ++ phase.name)
      return .ok (.phase phase)
    | none => return .ok .done
  | .trackControls p => withNamed (·.processor? p) fun p => do
    return (← send (.trackControls p)).map fun tracks =>
      .controls (tracks.map fun t => (t.format, t.enabled))
  | .track p i => withNamed (·.processor? p) fun p =>
    seen (fun r => r.processors[p]?) fun x => .format ((x.tracks[i]?).map (·.format))
  | .summary p => withNamed (·.processor? p) fun p =>
    seen (fun r => r.processors[p]?) fun x =>
      .summary x.name x.tracks.length x.framesProcessed.toNat
  | .watch p id on times => withNamed (·.processor? p) fun p => newWatcher p { id, on, times }
  | .setChain p i codecs direct => withNamed (·.processor? p) fun p => chain p i codecs direct
  | .setEnabled p i enabled => withNamed (·.processor? p) fun p => silent (.setEnabled p i enabled)
  | .process p i b times => withNamed (·.processor? p) fun p =>
    repeated (processFrame p i b) times (.ok .done)
  | .toneFrame id p i ms silence amplitude => withNamed (·.processor? p) fun p =>
    withNamed (fun st => named id st.tones) fun t => frameOf id t p i ms silence amplitude
  | .enter p phase => withNamed (·.processor? p) fun p => silent (.enter p phase)
  | .emit p e => withNamed (·.processor? p) fun p => silent (.emit p e)
  | .resetCodec _ => return .ok .done
  | .install p e side => withNamed (·.processor? p) fun p => withNamed (·.effect? e) fun e => do
    return .ok (.index (← send (.install p e side)))
  | .effectListener e l => withNamed (·.effect? e) fun e => withListener l fun l =>
    silent (.setListener e l)
  | .effectReset e => withNamed (·.effect? e) fun e => silent (.resetEffect e)
  | .effectOpen _ | .effectClose _ => return .ok .done
  | .effectName _ => return .ok (.text LevelEffect.name)
  | .effectFormat e f => withNamed (·.effect? e) fun e => do
    return .ok (.format (← send (.offer e f)))
  | .effectProcess e b slot times => withNamed (·.effect? e) fun e =>
    repeated (do return .ok (.buffer (← send (.observe e b slot)))) times (.ok (.buffer slot))
  | .connect s p => withNamed (·.session? s) fun s => withNamed (·.processor? p) fun p =>
    plain (.connectCapture s p)
  | .addStream s ssrc p => withNamed (·.session? s) fun s => withNamed (·.processor? p) fun p =>
    plain (.addStream s ssrc p)
  | .removeStream s ssrc => withNamed (·.session? s) fun s => do
    return .ok (.flag (← send (.removeStream s ssrc)))
  | .startSession s => withNamed (·.session? s) fun s => plain (.startSession s)
  | .stopSession s => withNamed (·.session? s) fun s => plain (.stopSession s)
  | .closeSession s => withNamed (·.session? s) fun s => silent (.closeSession s)
  | .dropSession id => withNamed (·.session? id) fun s => forget id s
  | .localListener s l => withNamed (·.session? s) fun s => withListener l fun l =>
    silent (.setLocalListener s l)
  | .streamListener s l => withNamed (·.session? s) fun s => withListener l fun l =>
    silent (.setStreamListener s l)
  | .captureUpdate s p e => withNamed (·.session? s) fun s => withNamed (·.processor? p) fun p =>
    silent (.captureUpdate s p e)
  | .streamConfigured s ssrc p => withNamed (·.session? s) fun s =>
    withNamed (·.processor? p) fun p => silent (.streamConfigured s ssrc p)
  | .grabEffect s ssrc id => withNamed (·.session? s) fun s => nameEffect s ssrc id
  | .sessionInfo s => withNamed (·.session? s) fun s =>
    seen (fun r => r.sessions[s]?) fun x => .info x.device.text x.config

/-- The end of a step inside a call, as the journal shows it. -/
def ending : Result → String
  | .ok _ => "ok"
  | .error f => "error " ++ f.kind ++ " " ++ f.message

/-- Takes steps inside a call. -/
def takeAll : List Step → Program State Unit
  | [] => return ()
  | s :: rest => do
    let r ← s.take
    Program.write ("nested " ++ s.word ++ " " ++ ending r)
    takeAll rest

end Metering.Script
