import Mathlib.Logic.Relation
import Metering.Proofs.Capture
import Metering.Proofs.Keeping
/-!
What is measured in a rig: its effects and the levels that were told. Whatever an application does,
an effect is made, gets a listener, is reset, is offered a format or is shown a frame, and nothing
else happens to effects; a level is told only for a frame. So what each of these steps keeps, every
run keeps.
-/

namespace Metering

variable {S α β : Type}

structure Gauge where
  effects : List LevelEffect
  told : List (ListenerId × Int) := []

namespace Gauge

inductive Step : Gauge → Gauge → Prop
  | new (g : Gauge) (c : EffectConfig) (l : Option ListenerId) :
    Step g { g with effects := g.effects ++ [(LevelEffect.new c).setListener l] }
  | setListener (g : Gauge) (e : EffectId) (l : Option ListenerId) :
    Step g { g with effects := g.effects.modify e (·.setListener l) }
  | reset (g : Gauge) (e : EffectId) :
    Step g { g with effects := g.effects.modify e (·.reset) }
  | offer (g : Gauge) {e : EffectId} {x : LevelEffect} (known : g.effects[e]? = some x)
    (f : Format) : Step g { g with effects := g.effects.modify e fun _ => (x.offer f).2 }
  | observe (g : Gauge) {e : EffectId} {x : LevelEffect} (known : g.effects[e]? = some x)
    (b : Buffer) : Step g
      { effects := g.effects.modify e fun _ => (x.observe b).2
        told := g.told ++ (x.observe b).1.toList }

abbrev Steps : Gauge → Gauge → Prop := Relation.ReflTransGen Step

end Gauge

def World.gauge (w : World S) : Gauge := ⟨w.rig.effects, levels w.journal⟩

/-- A run leads from one world to the other as far as effects and levels are concerned. -/
def Gauged (w w' : World S) : Prop := w.gauge.Steps w'.gauge

namespace Gauged

variable {app : Application S} {again : {β : Type} → Call β → Run S β}

theorem flow : Flow (Gauged (S := S)) where
  refl _ := .refl
  trans first second := first.trans second

theorem of_same {m : Run S α} (same : ∀ w, Ensures m w fun _ w' => w'.gauge = w.gauge) :
    Keeps Gauged m := by
  intro w
  refine (same w).mono fun _ w' eq => ?_
  unfold Gauged
  rw [eq]

theorem of_step {m : Run S α} (steps : ∀ w, Ensures m w fun _ w' => w.gauge.Step w'.gauge) :
    Keeps Gauged m := by
  intro w
  exact (steps w).mono fun _ _ step => .single step

theorem modify {f : World S → World S} (same : ∀ w, (f w).gauge = w.gauge) :
    Keeps Gauged (modify f : Run S Unit) :=
  of_same fun w => ensures_modify.mpr (same w)

theorem record {e : Entry} (aside : e.level? = none) : Keeps Gauged (Run.record e : Run S Unit) :=
  modify fun w => by simp [World.gauge, aside]

theorem notice (n : Notice) : Keeps Gauged (Run.notice n : Run S Unit) := record rfl

theorem mark : Keeps Gauged (Run.mark : Run S Unit) := modify fun _ => rfl

theorem page (f : Rig → Page) : Keeps Gauged (Run.page f : Run S Unit) := modify fun _ => rfl

theorem modifyProcessor (p : ProcessorId) (f : Processor → Processor) :
    Keeps Gauged (Run.modifyProcessor p f : Run S Unit) := modify fun _ => rfl

theorem modifySession (s : SessionId) (f : Session → Session) :
    Keeps Gauged (Run.modifySession s f : Run S Unit) := modify fun _ => rfl

theorem newProcessor (x : Processor) : Keeps Gauged (Run.newProcessor x : Run S _) :=
  flow.bind flow.get fun _ => flow.bind (modify fun _ => rfl) fun _ => flow.pure _

theorem moveTo (p : ProcessorId) (phase : Phase) : Keeps Gauged (Run.moveTo p phase : Run S _) :=
  flow.bind (flow.processor p) fun _ => flow.bind (modifyProcessor p _) fun _ => record rfl

theorem holding (p : ProcessorId) (i : Nat) {calls : Run S α} (keeps : Keeps Gauged calls) :
    Keeps Gauged (Run.holding p i calls) :=
  flow.holding (fun _ => modifyProcessor p _) i keeps

section Effects

theorem newEffect (c : EffectConfig) (l : Option ListenerId) :
    Keeps Gauged (Run.newEffect ((LevelEffect.new c).setListener l) : Run S _) :=
  of_step fun w => by
    simp only [Run.newEffect, ensures_bind, ensures_get, ensures_modifyRig, ensures_pure]
    exact .new w.gauge c l

theorem setListener (e : EffectId) (l : Option ListenerId) :
    Keeps Gauged (setListener e l : Run S Unit) :=
  of_step fun w => ensures_modifyEffect.mpr (.setListener w.gauge e l)

theorem resetEffect (e : EffectId) : Keeps Gauged (resetEffect e : Run S Unit) :=
  of_step fun w => ensures_modifyEffect.mpr (.reset w.gauge e)

theorem offerEffect (e : EffectId) (f : Format) :
    Keeps Gauged (Chain.offerEffect e f : Run S _) :=
  of_step fun w => by
    refine ensures_bind.mpr (ensures_effect.mpr fun x known => ?_)
    exact ensures_bind.mpr (ensures_modifyEffect.mpr (ensures_pure.mpr (.offer w.gauge known f)))

end Effects

/-- A program reaches the rig by its calls only. -/
theorem run (answers : Answers Gauged again) (p : Program S α) : Keeps Gauged (p.run again) := by
  induction p with
  | done a => exact flow.pure a
  | update f next ih =>
    intro w
    simp only [Program.run, ensures_bind, ensures_get, ensures_set]
    exact ih _ _
  | look f next ih => exact flow.bind mark fun _ => flow.bind flow.get fun w => ih (f w.rig)
  | note text next ih => exact flow.bind (record rfl) fun _ => ih
  | call c next ih =>
    exact flow.bind mark fun _ => flow.bind (page _) fun _ => flow.bind (answers c) fun b =>
      flow.bind mark fun _ => ih b

section Answers

variable (answers : Answers Gauged again)
include answers

/-- A frame is looked at, and then comes what the listener does about its level. -/
theorem observe (e : EffectId) (b slot : Buffer) :
    Keeps Gauged (Chain.observe app again e b slot) := by
  intro w
  refine ensures_bind.mpr (ensures_effect.mpr fun x known => ?_)
  have step := Gauge.Step.observe w.gauge known b
  dsimp only
  refine ensures_bind.mpr (ensures_modifyEffect.mpr ?_)
  cases told : (x.observe b).1 with
  | none =>
    simp only [told, Option.toList_none, List.append_nil] at step
    exact flow.follow (.single step) (flow.bind (flow.pure _) fun _ => flow.pure _)
  | some t =>
    obtain ⟨l, n⟩ := t
    refine Ensures.record (flow.follow (.single ?_) (flow.bind (page _) fun _ =>
      flow.bind (run answers _) fun _ => flow.pure _))
    simpa [told, World.gauge, Entry.level?] using step

theorem send (chain : List PlugIn) (b : Buffer) :
    Keeps Gauged (Chain.send app again chain b) := by
  induction chain generalizing b with
  | nil => exact flow.pure _
  | cons x xs ih =>
    have passes : Keeps Gauged (Chain.process app again x b) := by
      cases x with
      | effect e => exact flow.bind (observe answers e b _) fun _ => flow.pure _
      | codec c _ => exact flow.bind (record rfl) fun _ => run answers _
    refine flow.bind passes fun r => ?_
    cases r with
    | error f => exact flow.pure _
    | ok out =>
      dsimp only
      split
      · exact flow.pure _
      · exact ih out

theorem process (p : ProcessorId) (i : Nat) (b : Buffer) :
    Keeps Gauged (process app again p i b) := by
  refine flow.bind (flow.processor p) fun x => ?_
  split
  · exact flow.pure _
  · split
    · exact flow.pure _
    · split
      · exact flow.pure _
      · refine flow.bind (send answers _ b) fun r => ?_
        cases r with
        | error f => exact flow.pure _
        | ok out => exact flow.bind (modifyProcessor p _) fun _ => flow.pure _

theorem negotiate (chain : List PlugIn) (f : Format) :
    Keeps Gauged (Chain.negotiate app again chain f) := by
  induction chain generalizing f with
  | nil => exact flow.pure _
  | cons x xs ih =>
    have offered : Keeps Gauged (Chain.offer app again x f) := by
      cases x with
      | effect e => exact offerEffect e f
      | codec c _ => exact flow.bind (record rfl) fun _ => run answers _
    refine flow.bind offered fun r => ?_
    cases r with
    | some g => exact flow.bind (record rfl) fun _ => ih g
    | none => exact flow.pure _

theorem negotiateTracks (p : ProcessorId) (is : List Nat) :
    Keeps Gauged (negotiateTracks app again p is) := by
  induction is with
  | nil => exact flow.pure _
  | cons i is ih =>
    refine flow.bind (flow.track p i) fun t => ?_
    cases t with
    | none => exact ih
    | some t =>
      refine flow.bind (holding p i (negotiate answers t.chain t.format)) fun r => ?_
      cases r with
      | ok => exact ih
      | error f => exact flow.pure _

theorem openPlugIn (x : PlugIn) : Keeps Gauged (Chain.openPlugIn app again x) := by
  have succeeds : Keeps Gauged
      (do Run.record (.opened x); return .ok () : Run S (Except Fault Unit)) :=
    flow.bind (record rfl) fun _ => flow.pure _
  cases x with
  | effect e => exact succeeds
  | codec c name =>
    refine flow.bind (record rfl) fun _ => flow.bind (run answers _) fun r => ?_
    cases r with
    | ok => exact succeeds
    | error f => exact flow.pure _

theorem closeAll (chain : List PlugIn) : Keeps Gauged (Chain.closeAll app again chain) := by
  refine flow.each (fun x => ?_) chain
  cases x with
  | effect e => exact record rfl
  | codec c name =>
    exact flow.bind (record rfl) fun _ => flow.bind (run answers _) fun _ => record rfl

theorem openAll (before chain : List PlugIn) :
    Keeps Gauged (Chain.openAll app again before chain) := by
  induction chain generalizing before with
  | nil => exact flow.pure _
  | cons x xs ih =>
    refine flow.bind (openPlugIn answers x) fun r => ?_
    cases r with
    | ok => exact ih _
    | error f =>
      exact flow.bind (notice _) fun _ => flow.bind (closeAll answers before) fun _ => flow.pure _

theorem openTrack (p : ProcessorId) (i : Nat) : Keeps Gauged (openTrack app again p i) := by
  refine flow.bind (flow.track p i) fun t => ?_
  cases t with
  | none => exact flow.pure _
  | some t =>
    refine flow.bind (holding p i (openAll answers [] t.chain)) fun r => ?_
    cases r with
    | ok => exact flow.bind (modifyProcessor p _) fun _ => flow.pure _
    | error f => exact flow.pure _

theorem closeTrack (p : ProcessorId) (i : Nat) : Keeps Gauged (closeTrack app again p i) := by
  refine flow.bind (flow.track p i) fun t => ?_
  cases t with
  | none => exact flow.pure _
  | some t =>
    dsimp only
    split
    · exact flow.bind (modifyProcessor p _) fun _ => holding p i (closeAll answers t.chain)
    · exact flow.pure _

theorem openTracks (p : ProcessorId) (before is : List Nat) :
    Keeps Gauged (openTracks app again p before is) := by
  induction is generalizing before with
  | nil => exact flow.pure _
  | cons i is ih =>
    refine flow.bind (openTrack answers p i) fun r => ?_
    cases r with
    | ok => exact ih _
    | error f => exact flow.bind (flow.each (closeTrack answers p) before) fun _ => flow.pure _

theorem prepare (p : ProcessorId) : Keeps Gauged (prepare app again p) := by
  refine flow.bind (flow.processor p) fun x => flow.bind (negotiateTracks answers p _) fun r => ?_
  cases r with
  | ok => exact openTracks answers p [] _
  | error f => exact flow.pure _

theorem ask (p : ProcessorId) (r : Request) : Keeps Gauged (ask app again p r) :=
  flow.bind (record rfl) fun _ => run answers _

theorem trackControls (p : ProcessorId) : Keeps Gauged (trackControls app again p) := by
  refine flow.bind (flow.processor p) fun x => ?_
  split
  · refine flow.bind (record rfl) fun _ => flow.bind (run answers _) fun r => ?_
    cases r with
    | ok => exact flow.bind (flow.processor p) fun _ => flow.pure _
    | error f => exact flow.pure _
  · split
    · exact flow.pure _
    · exact flow.pure _

theorem install (p : ProcessorId) (e : EffectId) (side : Side) :
    Keeps Gauged (install app again p e side) := by
  refine flow.bind (trackControls answers p) fun r => ?_
  cases r with
  | error f => exact flow.bind (notice _) fun _ => flow.pure _
  | ok tracks =>
    dsimp only
    split
    · exact flow.bind (notice _) fun _ => flow.pure _
    · refine flow.bind (flow.setChain (fun p _ => modifyProcessor p _) p _ _) fun r => ?_
      cases r with
      | ok => exact flow.bind (notice _) fun _ => flow.pure _
      | error f => exact flow.bind (notice _) fun _ => flow.pure _

omit answers in
theorem sessionNotice (s : SessionId) (n : SessionNotice) :
    Keeps Gauged (sessionNotice s n : Run S Unit) :=
  flow.bind (flow.session s) fun _ => notice _

omit answers in
/-- What comes of an attempt is written down only. -/
theorem attempt {m : Run S (Except Fault Unit)} (keeps : Keeps Gauged m) (s : SessionId)
    (n : Fault → SessionNotice) : Keeps Gauged (do
      match ← m with
      | .ok () => pure ()
      | .error f => Metering.sessionNotice s (n f)) := by
  refine flow.bind keeps fun r => ?_
  cases r with
  | ok => exact flow.pure _
  | error f => exact sessionNotice s _

theorem captureUpdate (s : SessionId) (p : ProcessorId) (e : Event) :
    Keeps Gauged (captureUpdate app again s p e) := by
  refine flow.bind (flow.session s) fun x => ?_
  cases e with
  | configured =>
    exact flow.bind (install answers p _ _) fun _ => attempt (answers _) s _
  | realized | started | stopped | closed | failed => exact sessionNotice s _

theorem streamConfigured (s : SessionId) (ssrc : Ssrc) (p : ProcessorId) :
    Keeps Gauged (streamConfigured app again s ssrc p) := by
  refine flow.bind (flow.session s) fun x => ?_
  split
  · exact flow.bind (install answers p _ _) fun _ => flow.pure _
  · exact sessionNotice s _

theorem streamUpdate (s : SessionId) (ssrc : Ssrc) (p : ProcessorId) (e : Event) :
    Keeps Gauged (streamUpdate app again s ssrc p e) := by
  cases e with
  | configured =>
    exact flow.bind (streamConfigured answers s ssrc p) fun _ => attempt (answers _) s _
  | realized =>
    refine flow.bind (flow.session s) fun x => ?_
    split
    · exact attempt (answers _) s _
    · exact flow.pure _
  | started | stopped | closed | failed => exact sessionNotice s _

theorem whileUsed (s : SessionId) {body : Run S Unit} (keeps : Keeps Gauged body) :
    Keeps Gauged (whileUsed again s body) := by
  refine flow.bind (flow.session s) fun x => ?_
  split
  · exact flow.bind (modifySession s _) fun _ => flow.bind keeps fun _ => answers _
  · exact flow.pure _

theorem deliver (p : ProcessorId) (e : Event) (x : Subscriber) :
    Keeps Gauged (deliver app again p e x) := by
  refine flow.bind (record rfl) fun _ => ?_
  cases x with
  | watcher w => exact run answers _
  | capture s => exact whileUsed answers s (captureUpdate answers s p e)
  | stream s ssrc => exact whileUsed answers s (streamUpdate answers s ssrc p e)

theorem emit (p : ProcessorId) (e : Event) : Keeps Gauged (emit app again p e) :=
  flow.bind (record rfl) fun _ => flow.bind (flow.processor p) fun _ =>
    flow.each (deliver answers p e) _

theorem settle (p : ProcessorId) (phase : Phase) (e : Event) (a : α) :
    Keeps Gauged (do Run.moveTo p phase; Metering.emit app again p e; return a) :=
  flow.bind (moveTo p phase) fun _ => flow.bind (emit answers p e) fun _ => flow.pure a

theorem configure (p : ProcessorId) : Keeps Gauged (configure app again p) := by
  refine flow.bind (flow.processor p) fun x => ?_
  split
  · exact ask answers p _
  · split
    · exact flow.bind (moveTo p _) fun _ => flow.bind (notice _) fun _ => settle answers p _ _ _
    · exact flow.pure _
    · exact flow.pure _

theorem realize (p : ProcessorId) : Keeps Gauged (realize app again p) := by
  refine flow.bind (flow.processor p) fun x => ?_
  split
  · exact ask answers p _
  · split
    · refine flow.bind (moveTo p _) fun _ => flow.bind (prepare answers p) fun r => ?_
      cases r with
      | error f =>
        exact flow.bind (flow.processor p) fun _ => flow.bind (notice _) fun _ =>
          settle answers p _ _ _
      | ok =>
        refine flow.bind (flow.processor p) fun _ => flow.bind (record rfl) fun _ => ?_
        exact flow.bind (modifyProcessor p _) fun _ => flow.bind (notice _) fun _ =>
          settle answers p _ _ _
    · exact flow.pure _
    · exact flow.pure _
    · exact flow.pure _

theorem start (p : ProcessorId) : Keeps Gauged (start app again p) := by
  refine flow.bind (flow.processor p) fun x => ?_
  split
  · exact ask answers p _
  · split
    · exact settle answers p _ _ _
    · exact flow.pure _
    · exact flow.pure _

theorem stop (p : ProcessorId) : Keeps Gauged (stop app again p) := by
  refine flow.bind (flow.processor p) fun x => ?_
  split
  · exact ask answers p _
  · split
    · exact settle answers p _ _ _
    · exact flow.pure _
    · exact flow.pure _

theorem close (p : ProcessorId) : Keeps Gauged (close app again p) := by
  refine flow.bind (flow.processor p) fun x => ?_
  split
  · exact flow.bind (ask answers p _) fun _ => flow.pure _
  · split
    · refine flow.bind (moveTo p _) fun _ => ?_
      split
      case' isTrue => refine flow.bind (flow.each (closeTrack answers p) _) fun _ => ?_
      all_goals exact flow.bind (notice _) fun _ => emit answers p _
    · exact flow.pure _

end Answers

section Sessions

theorem newSession (label : String) (device : Device) (config : SessionConfig) :
    Keeps Gauged (newSession label device config : Run S _) :=
  flow.bind (newEffect _ none) fun _ => flow.bind flow.get fun _ =>
    flow.bind (modify fun _ => rfl) fun _ => flow.pure _

theorem setStreamListener (s : SessionId) (l : Option ListenerId) :
    Keeps Gauged (setStreamListener s l : Run S Unit) :=
  flow.bind (modifySession s _) fun _ => flow.bind (flow.session s) fun _ =>
    flow.each (fun _ => setListener _ l) _

theorem subscribe (p : ProcessorId) (x : Subscriber) :
    Keeps Gauged (subscribe p x : Run S Unit) :=
  flow.bind (flow.processor p) fun _ => flow.bind (modifyProcessor p _) fun _ => record rfl

variable (answers : Answers Gauged again)
include answers

theorem beginConfiguration (p : ProcessorId) {configured : Run S Unit}
    (keeps : Keeps Gauged configured) :
    Keeps Gauged (beginConfiguration app again p configured) := by
  refine flow.bind (flow.processor p) fun x => ?_
  split
  · exact configure answers p
  · exact flow.pure _
  · exact flow.bind keeps fun _ => flow.pure _
  · exact flow.pure _

theorem connectCapture (s : SessionId) (p : ProcessorId) :
    Keeps Gauged (connectCapture app again s p) := by
  refine flow.bind (flow.session s) fun x => flow.bind (modifySession s _) fun _ => ?_
  dsimp only
  split
  case' h_1 =>
    refine flow.bind (sessionNotice s _) fun _ => flow.bind (close answers _) fun _ => ?_
  all_goals
    refine flow.bind (subscribe p _) fun _ =>
      flow.bind (beginConfiguration answers p (captureUpdate answers s p _)) fun r => ?_
    cases r with
    | ok => exact flow.pure _
    | error f =>
      exact flow.bind (sessionNotice s _) fun _ => flow.bind (modifySession s _) fun _ =>
        flow.pure _

theorem addStream (s : SessionId) (ssrc : Ssrc) (p : ProcessorId) :
    Keeps Gauged (addStream app again s ssrc p) := by
  refine flow.bind (flow.session s) fun x => ?_
  split
  · exact flow.pure _
  · refine flow.bind (newEffect _ _) fun e => flow.bind (modifySession s _) fun _ =>
      flow.bind (subscribe p _) fun _ =>
      flow.bind (beginConfiguration answers p (streamUpdate answers s ssrc p _)) fun r => ?_
    cases r with
    | ok => exact flow.pure _
    | error f =>
      exact flow.bind (sessionNotice s _) fun _ => flow.bind (modifySession s _) fun _ =>
        flow.pure _

theorem closeStream (x : Stream) : Keeps Gauged (closeStream app again x) :=
  flow.bind (close answers _) fun _ => flow.bind (setListener _ _) fun _ => resetEffect _

theorem removeStream (s : SessionId) (ssrc : Ssrc) :
    Keeps Gauged (removeStream app again s ssrc) := by
  refine flow.bind (flow.session s) fun x => ?_
  split
  · exact flow.pure _
  · exact flow.bind (modifySession s _) fun _ => flow.bind (closeStream answers _) fun _ =>
      flow.bind (sessionNotice s _) fun _ => flow.pure _

theorem closeSession (s : SessionId) : Keeps Gauged (closeSession app again s) := by
  have closes (e : Ssrc × Stream) : Keeps Gauged (Metering.closeStream app again e.2) :=
    closeStream answers e.2
  refine flow.bind (flow.session s) fun x => flow.bind (modifySession s _) fun _ => ?_
  dsimp only
  split
  case' h_1 => refine flow.bind (close answers _) fun _ => ?_
  all_goals
    refine flow.bind (flow.session s) fun y => flow.bind (modifySession s _) fun _ => ?_
    exact flow.bind flow.get fun _ => flow.bind (flow.each closes _) fun _ =>
      flow.bind (resetEffect _) fun _ => sessionNotice s _

omit answers in
/-- What is done with the capture processor of a session, if it has one. -/
theorem captured (s : SessionId) {f : ProcessorId → Run S (Except Fault Unit)}
    (keeps : ∀ p, Keeps Gauged (f p)) : Keeps Gauged (do
      match ← capture s with
      | .error f => return .error f
      | .ok p => f p) := by
  refine flow.bind (flow.bind (flow.session s) fun x => ?_) fun r => ?_
  · split
    · exact flow.pure _
    · exact flow.pure _
  · cases r with
    | error f => exact flow.pure _
    | ok p => exact keeps p

theorem startSession (s : SessionId) : Keeps Gauged (startSession app again s) := by
  refine captured s fun p => flow.bind (start answers p) fun r => ?_
  cases r with
  | ok => exact flow.pure _
  | error f => exact flow.bind (sessionNotice s _) fun _ => flow.pure _

theorem releaseSession (s : SessionId) : Keeps Gauged (releaseSession app again s) := by
  refine flow.bind (flow.session s) fun x => flow.bind (modifySession s _) fun _ => ?_
  split
  · exact closeSession answers s
  · exact flow.pure _

theorem duringUse (s : SessionId) {body : Run S α} (keeps : Keeps Gauged body) :
    Keeps Gauged (duringUse app again s body) :=
  flow.bind (modifySession s _) fun _ => flow.bind keeps fun _ =>
    flow.bind (releaseSession answers s) fun _ => flow.pure _

omit answers in
/-- What is done with an external processor alone. -/
theorem external (p : ProcessorId) {body : Run S Unit} (keeps : Keeps Gauged body) :
    Keeps Gauged (do if (← Run.processor p).isExternal then body) := by
  refine flow.bind (flow.processor p) fun x => ?_
  split
  · exact keeps
  · exact flow.pure _

theorem answer {β : Type} (c : Call β) : Keeps Gauged (answer app again c) := by
  cases c with
  | newProcessor name tracks => exact newProcessor _
  | newExternal name phase tracks => exact newProcessor _
  | newEffect config => exact newEffect config none
  | newSession label device config => exact newSession label device config
  | configure p => exact configure answers p
  | realize p => exact realize answers p
  | start p => exact start answers p
  | stop p => exact stop answers p
  | close p => exact close answers p
  | trackControls p => exact trackControls answers p
  | setChain p i chain => exact flow.setChain (fun p _ => modifyProcessor p _) p i chain
  | setEnabled p i enabled => exact modifyProcessor p _
  | watch p w => exact subscribe p _
  | process p i b => exact process answers p i b
  | enter p phase => exact external p (moveTo p phase)
  | emit p e => exact external p (emit answers p e)
  | install p e side => exact install answers p e side
  | setListener e l => exact setListener e l
  | resetEffect e => exact resetEffect e
  | offer e f => exact offerEffect e f
  | observe e b slot => exact observe answers e b slot
  | setLocalListener s l => exact flow.bind (flow.session s) fun _ => setListener _ l
  | setStreamListener s l => exact setStreamListener s l
  | connectCapture s p => exact duringUse answers s (connectCapture answers s p)
  | captureUpdate s p e => exact duringUse answers s (captureUpdate answers s p e)
  | addStream s ssrc p => exact duringUse answers s (addStream answers s ssrc p)
  | removeStream s ssrc => exact duringUse answers s (removeStream answers s ssrc)
  | streamConfigured s ssrc p => exact duringUse answers s (streamConfigured answers s ssrc p)
  | startSession s => exact duringUse answers s (startSession answers s)
  | stopSession s => exact duringUse answers s (captured s (stop answers))
  | closeSession s => exact duringUse answers s (closeSession answers s)
  | releaseSession s => exact releaseSession answers s

end Sessions

theorem perform (app : Application S) (depth : Nat) : Answers Gauged (perform app depth) := by
  induction depth with
  | zero => exact fun _ _ => ensures_throw
  | succ depth ih => exact fun c => answer ih c

/-- Whatever an application does, effects and levels go from step to step. -/
theorem program (app : Application S) (depth : Nat) (p : Program S α) :
    Keeps Gauged (p.run (Metering.perform app depth)) :=
  run (perform app depth) p

end Gauged

end Metering
