import Metering.Proofs.Keeping
/-!
From the transitions of a processor to everything an application can call. A relation that is kept
by each transition and by each operation of a session is kept by every call to any depth, and by
every program. A `Lawful` relation is plain and kept by each transition, and that is enough.
-/

namespace Metering

variable {S α : Type}

/-- Each transition of a processor keeps the relation. -/
structure Driven (app : Application S) (R : World S → World S → Prop) : Prop where
  configure : ∀ (again : {β : Type} → Call β → Run S β), Answers R again →
    ∀ p, Keeps R (configure app again p)
  realize : ∀ (again : {β : Type} → Call β → Run S β), Answers R again →
    ∀ p, Keeps R (realize app again p)
  start : ∀ (again : {β : Type} → Call β → Run S β), Answers R again →
    ∀ p, Keeps R (start app again p)
  stop : ∀ (again : {β : Type} → Call β → Run S β), Answers R again →
    ∀ p, Keeps R (stop app again p)
  close : ∀ (again : {β : Type} → Call β → Run S β), Answers R again →
    ∀ p, Keeps R (close app again p)
  /-- A processor of the application takes a phase. -/
  enter : ∀ p phase, Keeps R (do if (← Run.processor p).isExternal then Run.moveTo p phase)
  /-- A processor of the application tells an event. -/
  emit : ∀ (again : {β : Type} → Call β → Run S β), Answers R again →
    ∀ p e, Keeps R (do if (← Run.processor p).isExternal then emit app again p e)

/-- Each transition of a processor and each operation of a session keeps the relation. -/
structure Abiding (app : Application S) (R : World S → World S → Prop) : Prop
    extends Tame R, Driven app R where
  newSession : ∀ label device config, Keeps R (newSession label device config)
  setStreamListener : ∀ s l, Keeps R (setStreamListener s l)
  connectCapture : ∀ (again : {β : Type} → Call β → Run S β), Answers R again →
    ∀ s p, Keeps R (connectCapture app again s p)
  addStream : ∀ (again : {β : Type} → Call β → Run S β), Answers R again →
    ∀ s ssrc p, Keeps R (addStream app again s ssrc p)
  removeStream : ∀ (again : {β : Type} → Call β → Run S β), Answers R again →
    ∀ s ssrc, Keeps R (removeStream app again s ssrc)
  closeSession : ∀ (again : {β : Type} → Call β → Run S β), Answers R again →
    ∀ s, Keeps R (closeSession app again s)

structure Lawful (app : Application S) (R : World S → World S → Prop) : Prop
    extends Plain R, Driven app R

namespace Loose

variable {R : World S → World S → Prop} (h : Loose R)
include h

theorem newEffect (x : LevelEffect) : Keeps R (Run.newEffect x : Run S _) := by
  intro w
  simp only [Run.newEffect, ensures_bind, ensures_get, ensures_modifyRig, ensures_pure]
  exact h.effects w _ (.append _ x)

theorem setListener (e : EffectId) (l : Option ListenerId) : Keeps R (setListener e l) :=
  h.modifyEffect e fun _ => rfl

theorem resetEffect (e : EffectId) : Keeps R (resetEffect e) :=
  h.modifyEffect e fun _ => rfl

theorem setLocalListener (s : SessionId) (l : Option ListenerId) :
    Keeps R (setLocalListener s l) :=
  h.bind (h.session s) fun _ => h.setListener _ l

theorem capture (s : SessionId) : Keeps R (Metering.capture s : Run S _) := by
  refine h.bind (h.session s) fun x => ?_
  split
  · exact h.pure _
  · exact h.pure _

end Loose

theorem Tame.beginConfiguration {app : Application S} {again : {β : Type} → Call β → Run S β}
    {R : World S → World S → Prop} (h : Tame R) {p : ProcessorId} {configured : Run S Unit}
    (configures : Keeps R (configure app again p)) (keeps : Keeps R configured) :
    Keeps R (beginConfiguration app again p configured) := by
  refine h.bind (h.processor p) fun x => ?_
  split
  · exact configures
  · exact h.pure _
  · exact h.bind keeps fun _ => h.pure _
  · exact h.pure _

namespace Abiding

variable {app : Application S} {again : {β : Type} → Call β → Run S β}
variable {R : World S → World S → Prop} (h : Abiding app R)
include h

theorem startSession (answers : Answers R again) (s : SessionId) :
    Keeps R (startSession app again s) := by
  refine h.bind (h.capture s) fun r => ?_
  cases r with
  | error f => exact h.pure _
  | ok p =>
    refine h.bind (h.start again answers p) fun r => ?_
    cases r with
    | ok => exact h.pure _
    | error f => exact h.bind (h.sessionNotice s _) fun _ => h.pure _

theorem stopSession (answers : Answers R again) (s : SessionId) :
    Keeps R (stopSession app again s) := by
  refine h.bind (h.capture s) fun r => ?_
  cases r with
  | error f => exact h.pure _
  | ok p => exact h.stop again answers p

theorem releaseSession (answers : Answers R again) (s : SessionId) :
    Keeps R (releaseSession app again s) := by
  refine h.bind (h.session s) fun x => h.bind (h.users s _) fun _ => ?_
  split
  · exact h.closeSession again answers s
  · exact h.pure _

theorem duringUse (answers : Answers R again) (s : SessionId) {body : Run S α}
    (keeps : Keeps R body) : Keeps R (duringUse app again s body) :=
  h.bind (h.users s _) fun _ => h.bind keeps fun _ =>
    h.bind (h.releaseSession answers s) fun _ => h.pure _

theorem answer (answers : Answers R again) {β : Type} (c : Call β) :
    Keeps R (answer app again c) := by
  cases c with
  | newProcessor name tracks => exact h.newProcessor name tracks
  | newExternal name phase tracks => exact h.newExternal name phase tracks
  | newEffect config => exact h.newEffect _
  | newSession label device config => exact h.newSession label device config
  | configure p => exact h.configure again answers p
  | realize p => exact h.realize again answers p
  | start p => exact h.start again answers p
  | stop p => exact h.stop again answers p
  | close p => exact h.close again answers p
  | trackControls p => exact h.trackControls answers p
  | setChain p i chain => exact h.setChain p i chain
  | setEnabled p i enabled => exact h.setEnabled p i enabled
  | watch p w => exact h.watch p w
  | process p i b => exact h.process answers p i b
  | enter p phase => exact h.enter p phase
  | emit p e => exact h.emit again answers p e
  | install p e side => exact h.install answers p e side
  | setListener e l => exact h.setListener e l
  | resetEffect e => exact h.resetEffect e
  | offer e f => exact h.offerEffect e f
  | observe e b slot => exact h.observe answers e b slot
  | setLocalListener s l => exact h.setLocalListener s l
  | setStreamListener s l => exact h.setStreamListener s l
  | connectCapture s p => exact h.duringUse answers s (h.connectCapture again answers s p)
  | captureUpdate s p e => exact h.duringUse answers s (h.captureUpdate answers s p e)
  | addStream s ssrc p => exact h.duringUse answers s (h.addStream again answers s ssrc p)
  | removeStream s ssrc => exact h.duringUse answers s (h.removeStream again answers s ssrc)
  | streamConfigured s ssrc p => exact h.duringUse answers s (h.streamConfigured answers s ssrc p)
  | startSession s => exact h.duringUse answers s (h.startSession answers s)
  | stopSession s => exact h.duringUse answers s (h.stopSession answers s)
  | closeSession s => exact h.duringUse answers s (h.closeSession again answers s)
  | releaseSession s => exact h.releaseSession answers s

/-- Calls of any depth keep the relation. -/
theorem perform (depth : Nat) : Answers R (perform app depth) := by
  induction depth with
  | zero => exact fun _ _ => ensures_throw
  | succ depth ih => exact fun c => h.answer ih c

/-- Whatever an application does, it keeps the relation. -/
theorem program (depth : Nat) (p : Program S α) : Keeps R (p.run (Metering.perform app depth)) :=
  h.run (h.perform depth) p

end Abiding

namespace Lawful

variable {app : Application S} {again : {β : Type} → Call β → Run S β}
variable {R : World S → World S → Prop} (h : Lawful app R)
include h

theorem newSession (label : String) (device : Device) (config : SessionConfig) :
    Keeps R (newSession label device config : Run S _) := by
  refine h.bind (h.newEffect _) fun e => ?_
  intro w
  simp only [Run.newSession, ensures_bind, ensures_get, ensures_modifyRig, ensures_pure]
  exact h.sessions w _

theorem setStreamListener (s : SessionId) (l : Option ListenerId) :
    Keeps R (setStreamListener s l) :=
  h.bind (h.modifySession s _) fun _ => h.bind (h.session s) fun _ =>
    h.each (fun _ => h.setListener _ l) _

theorem connectCapture (answers : Answers R again) (s : SessionId) (p : ProcessorId) :
    Keeps R (connectCapture app again s p) := by
  refine h.bind (h.session s) fun x => h.bind (h.modifySession s _) fun _ => ?_
  dsimp only
  split
  case' h_1 =>
    refine h.bind (h.sessionNotice s _) fun _ => h.bind (h.close again answers _) fun _ => ?_
  all_goals
    refine h.bind (h.subscribe p _) fun _ =>
      h.bind (h.beginConfiguration (h.configure again answers p)
        (h.captureUpdate answers s p _)) fun r => ?_
    cases r with
    | ok => exact h.pure _
    | error f =>
      exact h.bind (h.sessionNotice s _) fun _ => h.bind (h.modifySession s _) fun _ => h.pure _

theorem addStream (answers : Answers R again) (s : SessionId) (ssrc : Ssrc) (p : ProcessorId) :
    Keeps R (addStream app again s ssrc p) := by
  refine h.bind (h.session s) fun x => ?_
  split
  · exact h.pure _
  · refine h.bind (h.newEffect _) fun e => h.bind (h.modifySession s _) fun _ =>
      h.bind (h.subscribe p _) fun _ =>
      h.bind (h.beginConfiguration (h.configure again answers p)
        (h.streamUpdate answers s ssrc p _)) fun r => ?_
    cases r with
    | ok => exact h.pure _
    | error f =>
      exact h.bind (h.sessionNotice s _) fun _ => h.bind (h.modifySession s _) fun _ => h.pure _

theorem closeStream (answers : Answers R again) (x : Stream) :
    Keeps R (closeStream app again x) :=
  h.bind (h.close again answers _) fun _ => h.bind (h.setListener _ _) fun _ => h.resetEffect _

theorem removeStream (answers : Answers R again) (s : SessionId) (ssrc : Ssrc) :
    Keeps R (removeStream app again s ssrc) := by
  refine h.bind (h.session s) fun x => ?_
  split
  · exact h.pure _
  · exact h.bind (h.modifySession s _) fun _ => h.bind (h.closeStream answers _) fun _ =>
      h.bind (h.sessionNotice s _) fun _ => h.pure _

theorem closeSession (answers : Answers R again) (s : SessionId) :
    Keeps R (closeSession app again s) := by
  have closes (e : Ssrc × Stream) : Keeps R (Metering.closeStream app again e.2) :=
    h.closeStream answers e.2
  refine h.bind (h.session s) fun x => h.bind (h.modifySession s _) fun _ => ?_
  dsimp only
  split
  case' h_1 => refine h.bind (h.close again answers _) fun _ => ?_
  all_goals
    refine h.bind (h.session s) fun y => h.bind (h.modifySession s _) fun _ => ?_
    exact h.bind h.get fun _ => h.bind (h.each closes _) fun _ => h.bind (h.resetEffect _) fun _ =>
      h.sessionNotice s _

theorem abiding : Abiding app R where
  toTame := h.toTame
  toDriven := h.toDriven
  newSession := h.newSession
  setStreamListener := h.setStreamListener
  connectCapture _ := h.connectCapture
  addStream _ := h.addStream
  removeStream _ := h.removeStream
  closeSession _ := h.closeSession

theorem perform (depth : Nat) : Answers R (Metering.perform app depth) := h.abiding.perform depth

theorem program (depth : Nat) (p : Program S α) : Keeps R (p.run (Metering.perform app depth)) :=
  h.abiding.program depth p

end Lawful

end Metering
