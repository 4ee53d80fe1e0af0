import Metering.Proofs.Annotating
import Metering.Proofs.Passing
/-!
Frames counted. An application with a log is answered by the rig as the application itself is, and
what the rig counts are the frames that the log says went through: whatever the plug-ins and the
listeners do, to the processor that is sending a frame or to others, at every moment at which the
application has the rig before it.
-/

namespace Metering

variable {S α β : Type}

namespace Companion

variable {app : Application S}
variable {again' : {β : Type} → Call β → Run (S × List Observation) β}
variable {again : {β : Type} → Call β → Run S β} (answers : Accompanied again' again)
include answers

section PlugIns

theorem observe (e : EffectId) (b slot : Buffer) :
    Companion (Chain.observe app.logged again' e b slot) (Chain.observe app again e b slot) := by
  refine (effect e).bind fun x => ?_
  obtain ⟨told, after⟩ := x.observe b
  refine (modifyEffect e _).bind fun _ => ?_
  cases told with
  | none => exact pure _
  | some told =>
    exact (record _).bind fun _ => (page _).bind fun _ => (run answers _).bind fun _ => pure _

theorem offer (x : PlugIn) (f : Format) :
    Companion (Chain.offer app.logged again' x f) (Chain.offer app again x f) := by
  cases x with
  | effect e => exact offerEffect e f
  | codec c _ => exact (record _).bind fun _ => run answers _

theorem openPlugIn (x : PlugIn) :
    Companion (Chain.openPlugIn app.logged again' x) (Chain.openPlugIn app again x) := by
  have opened : Companion (do Run.record (.opened x); return .ok ())
      (do Run.record (.opened x); return .ok () : Run S (Except Fault Unit)) :=
    (record _).bind fun _ => pure _
  cases x with
  | effect e => exact opened
  | codec c _ =>
    refine (record _).bind fun _ => (run answers _).bind fun r => ?_
    cases r with
    | ok => exact opened
    | error f => exact pure _

theorem closePlugIn (x : PlugIn) :
    Companion (Chain.closePlugIn app.logged again' x) (Chain.closePlugIn app again x) := by
  cases x with
  | effect e => exact (pure _).bind fun _ => record _
  | codec c _ => exact (bind (record _) fun _ => run answers _).bind fun _ => record _

theorem negotiate (chain : List PlugIn) (f : Format) :
    Companion (Chain.negotiate app.logged again' chain f) (Chain.negotiate app again chain f) := by
  induction chain generalizing f with
  | nil => exact pure _
  | cons x xs ih =>
    refine (offer answers x f).bind fun r => ?_
    cases r with
    | some g => exact (record _).bind fun _ => ih g
    | none => exact pure _

theorem closeAll (chain : List PlugIn) :
    Companion (Chain.closeAll app.logged again' chain) (Chain.closeAll app again chain) :=
  each (closePlugIn answers) chain

theorem openAll (before chain : List PlugIn) :
    Companion (Chain.openAll app.logged again' before chain)
      (Chain.openAll app again before chain) := by
  induction chain generalizing before with
  | nil => exact pure _
  | cons x xs ih =>
    refine (openPlugIn answers x).bind fun r => ?_
    cases r with
    | ok => exact ih _
    | error f => exact (notice _).bind fun _ => (closeAll answers before).bind fun _ => pure _

theorem send (chain : List PlugIn) (b : Buffer) :
    Companion (Chain.send app.logged again' chain b) (Chain.send app again chain b) := by
  induction chain generalizing b with
  | nil => exact pure _
  | cons x xs ih =>
    have enters : Companion (Chain.process app.logged again' x b)
        (Chain.process app again x b) := by
      cases x with
      | effect e => exact (observe answers e b _).bind fun _ => pure _
      | codec c _ => exact (record _).bind fun _ => run answers _
    refine enters.bind fun r => ?_
    cases r with
    | error f => exact pure _
    | ok out =>
      dsimp only
      split
      · exact pure _
      · exact ih out

end PlugIns

section Events

theorem ask (p : ProcessorId) (r : Request) :
    Companion (ask app.logged again' p r) (ask app again p r) :=
  (record _).bind fun _ => run answers _

theorem trackControls (p : ProcessorId) :
    Companion (trackControls app.logged again' p) (trackControls app again p) := by
  refine (processor p).bind fun x => ?_
  split
  · refine (record _).bind fun _ => (run answers _).bind fun r => ?_
    cases r with
    | ok => exact (processor p).bind fun _ => pure _
    | error f => exact pure _
  · split
    · exact pure _
    · exact pure _

theorem install (p : ProcessorId) (e : EffectId) (side : Side) :
    Companion (install app.logged again' p e side) (install app again p e side) := by
  refine (trackControls answers p).bind fun r => ?_
  cases r with
  | error f => exact (notice _).bind fun _ => pure _
  | ok tracks =>
    dsimp only
    split
    · exact (notice _).bind fun _ => pure _
    · refine (setChain p _ _).bind fun r => ?_
      cases r with
      | ok => exact (notice _).bind fun _ => pure _
      | error f => exact (notice _).bind fun _ => pure _

theorem captureUpdate (s : SessionId) (p : ProcessorId) (e : Event) :
    Companion (captureUpdate app.logged again' s p e) (captureUpdate app again s p e) := by
  refine (session s).bind fun x => ?_
  cases e with
  | configured =>
    exact (install answers p _ _).bind fun _ => (answers.call fun _ _ => rfl).bind fun r =>
      noted s r _
  | realized | started | stopped | closed | failed => exact sessionNotice s _

theorem streamConfigured (s : SessionId) (ssrc : Ssrc) (p : ProcessorId) :
    Companion (streamConfigured app.logged again' s ssrc p)
      (streamConfigured app again s ssrc p) := by
  refine (session s).bind fun x => ?_
  cases x.stream? ssrc with
  | some stream => exact (install answers p _ _).bind fun _ => pure _
  | none => exact sessionNotice s _

theorem streamUpdate (s : SessionId) (ssrc : Ssrc) (p : ProcessorId) (e : Event) :
    Companion (streamUpdate app.logged again' s ssrc p e) (streamUpdate app again s ssrc p e) := by
  cases e with
  | configured =>
    exact (streamConfigured answers s ssrc p).bind fun _ =>
      (answers.call fun _ _ => rfl).bind fun r => noted s r _
  | realized =>
    refine (session s).bind fun x => ?_
    split
    · exact (answers.call fun _ _ => rfl).bind fun r => noted s r _
    · exact pure _
  | started | stopped | closed | failed => exact sessionNotice s _

theorem whileUsed (s : SessionId) {body' : Run (S × List Observation) Unit} {body : Run S Unit}
    (within : Companion body' body) :
    Companion (whileUsed again' s body') (whileUsed again s body) := by
  refine (session s).bind fun x => ?_
  split
  · exact (modifySession s _).bind fun _ => within.bind fun _ => answers.call fun _ _ => rfl
  · exact pure _

theorem hear (p : ProcessorId) (e : Event) (x : Subscriber) :
    Companion (hear app.logged again' p e x) (hear app again p e x) := by
  cases x with
  | watcher w => exact run answers _
  | capture s => exact whileUsed answers s (captureUpdate answers s p e)
  | stream s ssrc => exact whileUsed answers s (streamUpdate answers s ssrc p e)

theorem emit (p : ProcessorId) (e : Event) :
    Companion (emit app.logged again' p e) (emit app again p e) := by
  refine (record _).bind fun _ => (processor p).bind fun x => each (fun y => ?_) _
  exact (record _).bind fun _ => hear answers p e y

end Events

section Processors

/-- A processor takes a phase, tells it and answers. -/
theorem settle (p : ProcessorId) (phase : Phase) (e : Event) (r : Except Fault Unit) :
    Companion
      (do Run.moveTo p phase; Metering.emit app.logged again' p e; return r)
      (do Run.moveTo p phase; Metering.emit app again p e; return r) :=
  (moveTo p _).bind fun _ => (emit answers p _).bind fun _ => pure _

theorem configure (p : ProcessorId) :
    Companion (configure app.logged again' p) (configure app again p) := by
  refine (processor p).bind fun x => ?_
  split
  · exact ask answers p _
  · cases x.phase with
    | unrealized =>
      exact (moveTo p _).bind fun _ => (notice _).bind fun _ => settle answers p _ _ _
    | closed | configuring | configured | realizing | realized | started => exact pure _

theorem negotiateTracks (p : ProcessorId) (is : List Nat) :
    Companion (negotiateTracks app.logged again' p is) (negotiateTracks app again p is) := by
  induction is with
  | nil => exact pure _
  | cons i is ih =>
    refine (track p i).bind fun t => ?_
    cases t with
    | none => exact ih
    | some t =>
      refine (holding p i (negotiate answers t.chain t.format)).bind fun r => ?_
      cases r with
      | ok => exact ih
      | error f => exact pure _

theorem openTrack (p : ProcessorId) (i : Nat) :
    Companion (openTrack app.logged again' p i) (openTrack app again p i) := by
  refine (track p i).bind fun t => ?_
  cases t with
  | none => exact pure _
  | some t =>
    refine (holding p i (openAll answers [] t.chain)).bind fun r => ?_
    cases r with
    | ok => exact (modifyTrack p i _).bind fun _ => pure _
    | error f => exact pure _

theorem closeTrack (p : ProcessorId) (i : Nat) :
    Companion (closeTrack app.logged again' p i) (closeTrack app again p i) := by
  refine (track p i).bind fun t => ?_
  cases t with
  | none => exact pure _
  | some t =>
    dsimp only
    split
    · exact (modifyTrack p i _).bind fun _ => holding p i (closeAll answers _)
    · exact pure _

theorem openTracks (p : ProcessorId) (before is : List Nat) :
    Companion (openTracks app.logged again' p before is) (openTracks app again p before is) := by
  induction is generalizing before with
  | nil => exact pure _
  | cons i is ih =>
    refine (openTrack answers p i).bind fun r => ?_
    cases r with
    | ok => exact ih _
    | error f => exact (each (closeTrack answers p) before).bind fun _ => pure _

theorem prepare (p : ProcessorId) :
    Companion (prepare app.logged again' p) (prepare app again p) := by
  refine (processor p).bind fun x => (negotiateTracks answers p _).bind fun r => ?_
  cases r with
  | ok => exact openTracks answers p [] _
  | error f => exact pure _

theorem failRealize (p : ProcessorId) (f : Fault) :
    Companion (failRealize app.logged again' p f) (failRealize app again p f) :=
  (processor p).bind fun _ => (notice _).bind fun _ => settle answers p _ _ _

theorem realize (p : ProcessorId) :
    Companion (realize app.logged again' p) (realize app again p) := by
  refine (processor p).bind fun x => ?_
  split
  · exact ask answers p _
  · cases x.phase with
    | configured =>
      refine (moveTo p _).bind fun _ => (prepare answers p).bind fun r => ?_
      cases r with
      | error f => exact failRealize answers p f
      | ok =>
        exact (processor p).bind fun _ => (record _).bind fun _ =>
          bind (modifyProcessor p fun _ => rfl) fun _ => (notice _).bind fun _ =>
          settle answers p _ _ _
    | realized | started | unrealized | configuring | realizing | closed => exact pure _

theorem start (p : ProcessorId) : Companion (start app.logged again' p) (start app again p) := by
  refine (processor p).bind fun x => ?_
  split
  · exact ask answers p _
  · cases x.phase with
    | realized => exact settle answers p _ _ _
    | started | unrealized | configuring | configured | realizing | closed => exact pure _

theorem stop (p : ProcessorId) : Companion (stop app.logged again' p) (stop app again p) := by
  refine (processor p).bind fun x => ?_
  split
  · exact ask answers p _
  · cases x.phase with
    | started => exact settle answers p _ _ _
    | realized | unrealized | configuring | configured | realizing | closed => exact pure _

theorem close (p : ProcessorId) : Companion (close app.logged again' p) (close app again p) := by
  have closed (x : Processor) : Companion
      (do Run.notice (.processor x.name .closed); Metering.emit app.logged again' p .closed)
      (do Run.notice (.processor x.name .closed); Metering.emit app again p .closed) :=
    (notice _).bind fun _ => emit answers p _
  refine (processor p).bind fun x => ?_
  split
  · exact (ask answers p _).bind fun _ => pure _
  · split
    · refine (moveTo p _).bind fun _ => ?_
      dsimp only
      split
      · exact (each (closeTrack answers p) _).bind fun _ => closed x
      · exact closed x
    · exact pure _

end Processors

section Sessions

theorem beginConfiguration (p : ProcessorId) {configured' : Run (S × List Observation) Unit}
    {configured : Run S Unit} (follows : Companion configured' configured) :
    Companion (beginConfiguration app.logged again' p configured')
      (beginConfiguration app again p configured) := by
  refine (processor p).bind fun x => ?_
  cases x.phase with
  | unrealized => exact configure answers p
  | configured => exact follows.bind fun _ => pure _
  | configuring | realizing | realized | started | closed => exact pure _

theorem connectCapture (s : SessionId) (p : ProcessorId) :
    Companion (connectCapture app.logged again' s p) (connectCapture app again s p) := by
  refine (session s).bind fun x => (modifySession s _).bind fun _ => ?_
  dsimp only
  cases x.capture
  case' some q => refine (sessionNotice s _).bind fun _ => (close answers q).bind fun _ => ?_
  all_goals
    refine (subscribe p _).bind fun _ =>
      (beginConfiguration answers p (captureUpdate answers s p _)).bind fun r => ?_
    cases r with
    | ok => exact pure _
    | error f =>
      exact (sessionNotice s _).bind fun _ => (modifySession s _).bind fun _ => pure _

theorem addStream (s : SessionId) (ssrc : Ssrc) (p : ProcessorId) :
    Companion (addStream app.logged again' s ssrc p) (addStream app again s ssrc p) := by
  refine (session s).bind fun x => ?_
  split
  · exact pure _
  · refine (newEffect _).bind fun e => (modifySession s _).bind fun _ =>
      (subscribe p _).bind fun _ =>
      (beginConfiguration answers p (streamUpdate answers s ssrc p _)).bind fun r => ?_
    cases r with
    | ok => exact pure _
    | error f =>
      exact (sessionNotice s _).bind fun _ => (modifySession s _).bind fun _ => pure _

theorem closeStream (x : Stream) :
    Companion (closeStream app.logged again' x) (closeStream app again x) :=
  (close answers _).bind fun _ => (setListener _ _).bind fun _ => resetEffect _

theorem removeStream (s : SessionId) (ssrc : Ssrc) :
    Companion (removeStream app.logged again' s ssrc) (removeStream app again s ssrc) := by
  refine (session s).bind fun x => ?_
  cases x.stream? ssrc with
  | none => exact pure _
  | some stream =>
    exact (modifySession s _).bind fun _ => (closeStream answers _).bind fun _ =>
      (sessionNotice s _).bind fun _ => pure _

theorem startSession (s : SessionId) :
    Companion (startSession app.logged again' s) (startSession app again s) := by
  refine (capture s).bind fun r => ?_
  cases r with
  | error f => exact pure _
  | ok p =>
    refine (start answers p).bind fun r => ?_
    cases r with
    | ok => exact pure _
    | error f => exact (sessionNotice s _).bind fun _ => pure _

theorem stopSession (s : SessionId) :
    Companion (stopSession app.logged again' s) (stopSession app again s) := by
  refine (capture s).bind fun r => ?_
  cases r with
  | error f => exact pure _
  | ok p => exact stop answers p

theorem closeSession (s : SessionId) :
    Companion (closeSession app.logged again' s) (closeSession app again s) := by
  have closes (e : Ssrc × Stream) : Companion (Metering.closeStream app.logged again' e.2)
      (Metering.closeStream app again e.2) := closeStream answers e.2
  refine (session s).bind fun x => (modifySession s _).bind fun _ => ?_
  dsimp only
  cases x.capture
  case' some p => refine (close answers p).bind fun _ => ?_
  all_goals
    refine (session s).bind fun y => (modifySession s _).bind fun _ => ?_
    refine own fun v w same => ?_
    rw [← same]
    exact (each closes _).bind fun _ => (resetEffect _).bind fun _ => sessionNotice s _

theorem releaseSession (s : SessionId) :
    Companion (releaseSession app.logged again' s) (releaseSession app again s) := by
  refine (session s).bind fun x => (modifySession s _).bind fun _ => ?_
  split
  · exact closeSession answers s
  · exact pure _

theorem duringUse (s : SessionId) {body' : Run (S × List Observation) α} {body : Run S α}
    (within : Companion body' body) :
    Companion (duringUse app.logged again' s body') (duringUse app again s body) :=
  (modifySession s _).bind fun _ => within.bind fun _ =>
    (releaseSession answers s).bind fun _ => pure _

end Sessions

end Companion

/-- A frame that is sent to a processor is counted if it goes through an enabled track, and what is
written down about it says so. -/
theorem Accompanied.process {app : Application S}
    {again' : {β : Type} → Call β → Run (S × List Observation) β}
    {again : {β : Type} → Call β → Run S β} (answers : Accompanied again' again)
    {v : World (S × List Observation)} {w : World S} (h : Annotates [] v w) (p : ProcessorId)
    (i : Nat) (b : Buffer) :
    Accompanies (process app.logged again' p i b) v (process app again p i b) w
      (Call.due w.rig (.process p i b)) := by
  have fault (f : Fault) : Annotates (Call.due w.rig (.process p i b) (.error f)) v w :=
    h.idle fun _ => processed_failed
  unfold Metering.process
  refine .processor h fun x known => ?_
  split
  · exact .pure (fault _)
  · cases there : x.tracks[i]? with
    | none => exact .pure (fault _)
    | some t =>
      have seen := Rig.isEnabled_eq known there
      dsimp only
      cases enabled : t.enabled with
      | false =>
        refine .pure (h.idle fun q => ?_)
        rw [Call.due, seen, enabled]
        exact processed_bypassed
      | true =>
        refine (Companion.send answers t.chain b v w h).bind fun r v' w' longer sent => ?_
        cases r with
        | error f => exact .pure (sent.idle fun _ => processed_failed)
        | ok out =>
          -- Plug-ins may have made processors, but the one that is to count is still there.
          have held : p < w.rig.processors.length := (List.getElem?_eq_some_iff.mp known).1
          have counted := sent.counted (Nat.lt_of_lt_of_le held longer) out
          refine ensures_bind.mpr (ensures_modifyProcessor.mpr (ensures_pure.mpr ⟨?_, ?_⟩))
          · simp
          · refine yields_bind.mpr (yields_modifyProcessor.mpr (yields_pure.mpr ⟨rfl, ?_⟩))
            rw [Call.due, seen, enabled]
            exact counted

section Calls

variable {app : Application S}

theorem Accompanied.answer {again' : {β : Type} → Call β → Run (S × List Observation) β}
    {again : {β : Type} → Call β → Run S β} (answers : Accompanied again' again) :
    Accompanied (answer app.logged again') (answer app again) := by
  intro β c v w h
  cases c with
  | process p i b => exact answers.process h p i b
  | newProcessor name tracks => exact Companion.newProcessor rfl v w h
  | newExternal name phase tracks => exact Companion.newProcessor rfl v w h
  | newEffect config => exact Companion.newEffect _ v w h
  | newSession label device config =>
    exact Companion.bind (.newEffect _) (fun _ => .newSession _) v w h
  | configure p => exact Companion.configure answers p v w h
  | realize p => exact Companion.realize answers p v w h
  | start p => exact Companion.start answers p v w h
  | stop p => exact Companion.stop answers p v w h
  | close p => exact Companion.close answers p v w h
  | trackControls p => exact Companion.trackControls answers p v w h
  | setChain p i chain => exact Companion.setChain p i chain v w h
  | setEnabled p i enabled => exact Companion.modifyTrack p i _ v w h
  | watch p x => exact Companion.subscribe p _ v w h
  | enter p phase =>
    refine Companion.bind (.processor p) (fun x => ?_) v w h
    split
    · exact .moveTo p phase
    · exact .pure _
  | emit p e =>
    refine Companion.bind (.processor p) (fun x => ?_) v w h
    split
    · exact .emit answers p e
    · exact .pure _
  | install p e side => exact Companion.install answers p e side v w h
  | setListener e l => exact Companion.setListener e l v w h
  | resetEffect e => exact Companion.resetEffect e v w h
  | offer e f => exact Companion.offerEffect e f v w h
  | observe e b slot => exact Companion.observe answers e b slot v w h
  | setLocalListener s l => exact Companion.bind (.session s) (fun _ => .setListener _ l) v w h
  | setStreamListener s l => exact Companion.setStreamListener s l v w h
  | connectCapture s p =>
    exact Companion.duringUse answers s (.connectCapture answers s p) v w h
  | captureUpdate s p e =>
    exact Companion.duringUse answers s (.captureUpdate answers s p e) v w h
  | addStream s ssrc p =>
    exact Companion.duringUse answers s (.addStream answers s ssrc p) v w h
  | removeStream s ssrc =>
    exact Companion.duringUse answers s (.removeStream answers s ssrc) v w h
  | streamConfigured s ssrc p =>
    exact Companion.duringUse answers s (.streamConfigured answers s ssrc p) v w h
  | startSession s => exact Companion.duringUse answers s (.startSession answers s) v w h
  | stopSession s => exact Companion.duringUse answers s (.stopSession answers s) v w h
  | closeSession s => exact Companion.duringUse answers s (.closeSession answers s) v w h
  | releaseSession s => exact Companion.releaseSession answers s v w h

/-- Calls of any depth are answered alike. -/
theorem accompanied (depth : Nat) :
    Accompanied (perform app.logged depth) (perform app depth) := by
  induction depth with
  | zero => exact fun _ _ _ _ => ensures_throw
  | succ depth ih => exact ih.answer

end Calls

/-- A frame that is handed to a processor goes the way that its phase, its track and the plug-ins
of the track lead to, and no other. At each moment at which the application had the rig before it,
and at the end of its run, a processor had counted the frames that were sent to an enabled track of
it and were answered without a fault, from zero again after 64 bits: what the application does, also
when plug-ins and listeners call it from within, can be followed by one that keeps a log, which says
so. -/
theorem process_passes_and_counts (app : Application S) (depth : Nat) :
    (∀ (p : ProcessorId) (x : Processor) (i : Nat) (b : Buffer) (w v : World S)
        (r : Except Fault Buffer), w.rig.processors[p]? = some x →
      (perform app (depth + 1) (.process p i b) w = .ok (r, v) ↔
        Handling app (perform app depth) p x i b w r v)) ∧
    ∀ {α : Type} (program : Program S α) (s : S) (a : α) (w : World S),
      program.run (perform app depth) { app := s } = .ok (a, w) →
      ∃ v, program.logged.run (perform app.logged depth) { app := (s, []) } = .ok (a, v) ∧
        v.app.1 = w.app ∧ v.rig = w.rig ∧ v.journal = w.journal ∧ v.story = w.story ∧
        sightings v.app.2 = w.moments.map (·.rig) ∧ Faithful v.app.2 ∧
        ∀ (p : ProcessorId) (x : Processor), w.rig.processors[p]? = some x →
          x.framesProcessed.toNat = processed p v.app.2 % UInt64.size := by
  constructor
  · intro p x i b w v r known
    exact ⟨Handling.of_process known, Handling.runs known⟩
  · intro α program s a w run
    have start : Annotates [] { app := (s, []) } { app := s } :=
      { app := rfl, rig := rfl, journal := rfl, story := rfl, sightings := rfl,
        count := fun _ => rfl, faithful := trivial }
    obtain ⟨-, _, v, logged, rfl, h⟩ :=
      Companion.run (accompanied depth) program _ _ start a w run
    refine ⟨v, logged, h.app, h.rig, h.journal, h.story, h.sightings, h.faithful, ?_⟩
    intro p x known
    have count := h.count p
    rw [Rig.frameCount, known, Option.map_some, Option.getD_some] at count
    rw [count]
    exact UInt64.toNat_ofNat'

/-- The first plug-in sends each frame to another track too and stops the processor, the second
discards what it gets, and every other one fails. -/
def Application.reentrant : Application Unit :=
  { Application.silent Unit with
    transform := fun c b _ => match c with
      | 0 => do
        let _ ← .send (.process 0 1 b)
        let _ ← .send (.stop 0)
        return .ok b
      | 1 => return .ok { b with discard := true }
      | _ => return .error (.processingFailed "c") }

/-- Frames on the way through the plug-ins, while the processor is stopped, to a track that is
disabled and to one that fails. -/
def Program.reentered : Program Unit Unit := do
  let b := Buffer.empty (.audio .telephone)
  let t : TrackPlan := ⟨.audio .telephone, true⟩
  let p ← .send (.newProcessor "p" [t, t, t])
  let _ ← .send (.configure p)
  let _ ← .send (.setChain p 0 [.codec 0 "c", .codec 1 "d", .codec 2 "e"])
  let _ ← .send (.setChain p 1 [.codec 1 "d"])
  let _ ← .send (.setChain p 2 [.codec 2 "e"])
  let _ ← .send (.realize p)
  let _ ← .send (.start p)
  let _ ← .send (.process p 0 b)
  let _ ← .send (.process p 0 b)
  let _ ← .send (.start p)
  let _ ← .send (.setEnabled p 1 false)
  let _ ← .send (.process p 1 b)
  let _ ← .send (.process p 2 b)

/-- The frame that the first plug-in sends on counts, and so does the one it was called for, though
the processor has been stopped by then. -/
theorem process_passes_and_counts_reentrant : ∃ w : World Unit,
    Program.reentered.run (perform .reentrant 5) { app := () } = .ok ((), w) ∧
      (w.rig.processors[0]?).map (·.framesProcessed) = some 2 ∧
      (∃ v, Program.reentered.logged.run (perform Application.reentrant.logged 5)
          { app := ((), []) } = .ok ((), v) ∧ processed 0 v.app.2 = 2) ∧
      ∀ b, perform .reentrant 6 (.process 0 3 b) w = .ok (.error (.noSuchTrack 3), w) := by
  have ends : (Program.reentered.run (perform .reentrant 5)).Ends { app := () } fun w =>
      (w.rig.processors[0]?).any fun x =>
        x.phase == .started && x.framesProcessed == 2 && x.tracks.length == 3 := by
    decide +kernel
  obtain ⟨_, w, run, processor⟩ := ends
  obtain ⟨x, known, kind⟩ := (Option.any_eq_true _ _).mp processor
  simp only [Bool.and_eq_true, beq_iff_eq] at kind
  obtain ⟨⟨phase, two⟩, three⟩ := kind
  obtain ⟨passes, counts⟩ := process_passes_and_counts Application.reentrant 5
  obtain ⟨v, logged, -, -, -, -, -, -, count⟩ := counts Program.reentered () () w run
  have less : (Program.reentered.logged.run (perform Application.reentrant.logged 5)).Ends
      { app := ((), []) } fun v => processed 0 v.app.2 < UInt64.size := by decide +kernel
  obtain ⟨_, v', logged', few⟩ := less
  obtain ⟨-, rfl⟩ := Prod.mk.inj (Except.ok.inj (logged.symm.trans logged'))
  refine ⟨w, run, by rw [known, Option.map_some, two], ⟨v, logged, ?_⟩, fun b => ?_⟩
  · have counted := count 0 x known
    rw [two, Nat.mod_eq_of_lt (by simpa using few)] at counted
    exact counted.symm
  · exact (passes 0 x 3 b w w _ known).mpr (.absent phase (by simp [three]))

end Metering
