import Metering.Proofs.Run
/-!
Relations that are kept whatever happens. A `Flow` can be followed along a run. A `Loose` flow is
kept by what plug-ins do among themselves, and a `Plain` one by everything that changes no phase,
tells nobody of an event and opens or closes no plug-in. A `Tame` flow need not be kept when a
session takes processors in or gives them away. A tame flow is kept by all that the application
does, given that the answers to its calls keep it.
-/

namespace Metering

variable {S α β : Type}

def Answers (R : World S → World S → Prop) (again : {β : Type} → Call β → Run S β) : Prop :=
  ∀ {β : Type} (c : Call β), Keeps R (again c)

/-- The effects are still there, each with its configuration. There may be more of them. -/
def Outlast (before after : List LevelEffect) : Prop :=
  before.map (·.calculator.config) <+: after.map (·.calculator.config)

structure Flow (R : World S → World S → Prop) : Prop where
  refl : ∀ w, R w w
  trans : ∀ {u v w}, R u v → R v w → R u w

/-- Entries about notices, levels, plug-ins and requests, and what the application writes. -/
def Entry.isAside : Entry → Bool
  | .notice _ | .level .. | .codec .. | .request .. | .note _ | .accepted _ => true
  | _ => false

structure Loose (R : World S → World S → Prop) : Prop extends Flow R where
  own : ∀ w s, R w { w with app := s }
  aside : ∀ e, e.isAside = true → Keeps R (Run.record e)
  effects : ∀ w es, Outlast w.rig.effects es → R w { w with rig := { w.rig with effects := es } }
  story : ∀ w page, R w { w with story := page :: w.story }

structure Tame (R : World S → World S → Prop) : Prop extends Loose R where
  mark : Keeps R Run.mark
  users : ∀ s (f : Session → Nat), Keeps R (Run.modifySession s fun x => { x with users := f x })
  newProcessor : ∀ name tracks, Keeps R (Run.newProcessor (.new name tracks))
  newExternal : ∀ name phase tracks, Keeps R (Run.newProcessor (.newExternal name phase tracks))
  watch : ∀ p x, Keeps R (subscribe p (.watcher x))
  setChain : ∀ p i chain, Keeps R (setChain p i chain)
  setEnabled : ∀ p i enabled, Keeps R (Run.modifyTrack p i fun t => { t with enabled })
  counted : ∀ p, Keeps R (Run.modifyProcessor p fun x =>
    { x with framesProcessed := x.framesProcessed + 1 })

structure Plain (R : World S → World S → Prop) : Prop extends Tame R where
  sessions : ∀ w ss, R w { w with rig := { w.rig with sessions := ss } }
  subscribe : ∀ p x, Keeps R (subscribe p x)
  users := fun _ _ w => ensures_modifySession.mpr (sessions w _)
  watch := fun p x => subscribe p (.watcher x)

/-- A program that keeps to itself: it reads and writes the application's own state and the
journal, but neither calls the rig nor looks at it. -/
def Program.Quiet : Program S α → Prop
  | .done _ => True
  | .update _ next => ∀ b, (next b).Quiet
  | .look _ _ => False
  | .note _ next => next.Quiet
  | .call _ _ => False

theorem Outlast.modify {es : List LevelEffect} {e : EffectId} {f : LevelEffect → LevelEffect}
    (same : ∀ x, es[e]? = some x → (f x).calculator.config = x.calculator.config) :
    Outlast es (es.modify e f) := by
  have equal : (es.modify e f).map (·.calculator.config) = es.map (·.calculator.config) :=
    (map_modify (k := id) same).trans (List.modify_id ..)
  exact ⟨[], (List.append_nil _).trans equal.symm⟩

theorem Outlast.append (es : List LevelEffect) (x : LevelEffect) : Outlast es (es ++ [x]) := by
  unfold Outlast
  rw [List.map_append]
  exact List.prefix_append _ _

theorem LevelEffect.observe_config (x : LevelEffect) (b : Buffer) :
    (x.observe b).2.calculator.config = x.calculator.config := by
  unfold LevelEffect.observe LevelEffect.observeBy
  split
  · unfold Calculator.measureBy
    cases Pcm.power? _ b.data with
    | none => rfl
    | some rms => rfl
  · rfl

theorem LevelEffect.offer_config (x : LevelEffect) (f : Format) :
    (x.offer f).2.calculator.config = x.calculator.config := by
  unfold LevelEffect.offer
  split
  · rfl
  · rfl

namespace Flow

variable {R : World S → World S → Prop} (h : Flow R)
include h

theorem pure (a : α) : Keeps R (pure a : Run S α) := by
  intro w
  exact ensures_pure.mpr (h.refl w)

theorem follow {m : Run S α} {u w : World S} (first : R u w) (rest : Keeps R m) :
    Ensures m w fun _ w' => R u w' :=
  (rest w).mono fun _ _ next => h.trans first next

theorem bind {m : Run S β} {f : β → Run S α} (first : Keeps R m) (rest : ∀ b, Keeps R (f b)) :
    Keeps R (m >>= f) := by
  intro w
  exact ensures_bind.mpr ((first w).mono fun b _ step => h.follow step (rest b))

theorem processor (p : ProcessorId) : Keeps R (Run.processor p) := by
  intro w
  exact ensures_processor.mpr fun _ _ => h.refl w

theorem effect (e : EffectId) : Keeps R (Run.effect e) := by
  intro w
  exact ensures_effect.mpr fun _ _ => h.refl w

theorem session (s : SessionId) : Keeps R (Run.session s) := by
  intro w
  exact ensures_session.mpr fun _ _ => h.refl w

theorem track (p : ProcessorId) (i : Nat) : Keeps R (Run.track? p i) := by
  intro w
  exact ensures_track.mpr fun _ _ => h.refl w

theorem get : Keeps R (get : Run S (World S)) := by
  intro w
  exact ensures_get.mpr (h.refl w)

theorem awaitChain (p : ProcessorId) (i : Nat) : Keeps R (Run.awaitChain p i) := by
  intro w
  exact ensures_awaitChain.mpr fun _ _ _ => h.refl w

/-- To hold a chain keeps what does not depend on which chains are held. -/
theorem holding {p : ProcessorId} (held : ∀ f : List Nat → List Nat,
    Keeps R (Run.modifyProcessor p fun x => { x with held := f x.held }))
    (i : Nat) {calls : Run S α} (keeps : Keeps R calls) : Keeps R (Run.holding p i calls) :=
  h.bind (h.awaitChain p i) fun _ => h.bind (held (i :: ·)) fun _ => h.bind keeps fun _ =>
    h.bind (held (·.tail)) fun _ => h.pure _

/-- Setting a chain keeps what every change of tracks keeps. -/
theorem setChain (tracks : ∀ p (f : List Track → List Track),
    Keeps R (Run.modifyProcessor p fun x => { x with tracks := f x.tracks }))
    (p : ProcessorId) (i : Nat) (chain : List PlugIn) : Keeps R (setChain p i chain) := by
  refine h.bind (h.track p i) fun t => ?_
  split
  · exact h.pure _
  · split
    · exact h.bind (h.awaitChain p i) fun _ => h.bind (tracks p _) fun _ => h.pure _
    · exact h.pure _

theorem each {f : β → Run S Unit} (keeps : ∀ b, Keeps R (f b)) (bs : List β) :
    Keeps R (Run.each f bs) := by
  induction bs with
  | nil => exact h.pure ()
  | cons b bs ih => exact h.bind (keeps b) fun _ => ih

/-- A quiet program changes the application's state and writes notes, nothing else. -/
theorem quiet {again : {β : Type} → Call β → Run S β} (own : ∀ w s, R w { w with app := s })
    (notes : ∀ text, Keeps R (Run.record (.note text))) {p : Program S α} (q : p.Quiet) :
    Keeps R (p.run again) := by
  induction p with
  | done a => exact h.pure a
  | update f next ih =>
    intro w
    simp only [Program.run, ensures_bind, ensures_get, ensures_set]
    exact h.follow (own w _) (ih _ (q _))
  | look f next ih => exact q.elim
  | note text next ih => exact h.bind (notes text) fun _ => ih q
  | call c next ih => exact q.elim

end Flow

namespace Loose

variable {again : {β : Type} → Call β → Run S β}
variable {R : World S → World S → Prop} (h : Loose R)
include h

theorem notice (n : Notice) : Keeps R (Run.notice n) := h.aside (.notice n) rfl

theorem modifyEffect (e : EffectId) {f : LevelEffect → LevelEffect}
    (same : ∀ x, (f x).calculator.config = x.calculator.config) :
    Keeps R (Run.modifyEffect e f) := by
  intro w
  exact ensures_modifyEffect.mpr (h.effects w _ (.modify fun x _ => same x))

/-- An effect becomes another one with the same configuration. -/
theorem become {w : World S} {e : EffectId} {x y : LevelEffect}
    (known : w.rig.effects[e]? = some x) (same : y.calculator.config = x.calculator.config) :
    R w { w with rig := { w.rig with effects := w.rig.effects.modify e fun _ => y } } := by
  refine h.effects w _ (.modify fun z there => ?_)
  obtain rfl := Option.some.inj (known.symm.trans there)
  exact same

theorem page (f : Rig → Page) : Keeps R (Run.page f) := by
  intro w
  exact ensures_page.mpr (h.story w _)

theorem offerEffect (e : EffectId) (f : Format) : Keeps R (Chain.offerEffect e f : Run S _) := by
  intro w
  refine ensures_bind.mpr (ensures_effect.mpr fun x known => ?_)
  refine ensures_bind.mpr (ensures_modifyEffect.mpr (ensures_pure.mpr ?_))
  exact h.become known (x.offer_config f)

theorem quiet {p : Program S α} (q : p.Quiet) : Keeps R (p.run again) :=
  h.toFlow.quiet h.own (fun _ => h.aside _ rfl) q

end Loose

theorem Plain.modifySession {R : World S → World S → Prop} (h : Plain R) (s : SessionId)
    (f : Session → Session) : Keeps R (Run.modifySession s f) := by
  intro w
  exact ensures_modifySession.mpr (h.sessions w _)

namespace Tame

variable {app : Application S} {again : {β : Type} → Call β → Run S β}
variable {R : World S → World S → Prop} (h : Tame R)
include h

/-- A program reaches the rig by its calls only. -/
theorem run (answers : Answers R again) (p : Program S α) : Keeps R (p.run again) := by
  induction p with
  | done a => exact h.pure a
  | update f next ih =>
    intro w
    simp only [Program.run, ensures_bind, ensures_get, ensures_set]
    exact h.follow (h.own w _) (ih _)
  | look f next ih => exact h.bind h.mark fun _ => h.bind h.get fun w => ih (f w.rig)
  | note text next ih => exact h.bind (h.aside _ rfl) fun _ => ih
  | call c next ih =>
    exact h.bind h.mark fun _ => h.bind (h.page _) fun _ => h.bind (answers c) fun b =>
      h.bind h.mark fun _ => ih b

theorem trackControls (answers : Answers R again) (p : ProcessorId) :
    Keeps R (trackControls app again p) := by
  refine h.bind (h.processor p) fun x => ?_
  split
  · refine h.bind (h.aside _ rfl) fun _ => h.bind (h.run answers _) fun r => ?_
    cases r with
    | ok => exact h.bind (h.processor p) fun _ => h.pure _
    | error f => exact h.pure _
  · split
    · exact h.pure _
    · exact h.pure _

theorem install (answers : Answers R again) (p : ProcessorId) (e : EffectId) (side : Side) :
    Keeps R (install app again p e side) := by
  refine h.bind (h.trackControls answers p) fun r => ?_
  cases r with
  | error f => exact h.bind (h.notice _) fun _ => h.pure _
  | ok tracks =>
    dsimp only
    split
    · exact h.bind (h.notice _) fun _ => h.pure _
    · refine h.bind (h.setChain p _ _) fun r => ?_
      cases r with
      | ok => exact h.bind (h.notice _) fun _ => h.pure _
      | error f => exact h.bind (h.notice _) fun _ => h.pure _

theorem sessionNotice (s : SessionId) (n : SessionNotice) : Keeps R (sessionNotice s n) :=
  h.bind (h.session s) fun _ => h.notice _

theorem captureUpdate (answers : Answers R again) (s : SessionId) (p : ProcessorId) (e : Event) :
    Keeps R (captureUpdate app again s p e) := by
  refine h.bind (h.session s) fun x => ?_
  cases e with
  | configured =>
    refine h.bind (h.install answers p _ _) fun _ => h.bind (answers _) fun r => ?_
    cases r with
    | ok => exact h.pure _
    | error f => exact h.sessionNotice s _
  | realized | started | stopped | closed | failed => exact h.sessionNotice s _

theorem streamConfigured (answers : Answers R again) (s : SessionId) (ssrc : Ssrc)
    (p : ProcessorId) : Keeps R (streamConfigured app again s ssrc p) := by
  refine h.bind (h.session s) fun x => ?_
  split
  · exact h.bind (h.install answers p _ _) fun _ => h.pure _
  · exact h.sessionNotice s _

theorem streamUpdate (answers : Answers R again) (s : SessionId) (ssrc : Ssrc) (p : ProcessorId)
    (e : Event) : Keeps R (streamUpdate app again s ssrc p e) := by
  cases e with
  | configured =>
    refine h.bind (h.streamConfigured answers s ssrc p) fun _ => h.bind (answers _) fun r => ?_
    cases r with
    | ok => exact h.pure _
    | error f => exact h.sessionNotice s _
  | realized =>
    refine h.bind (h.session s) fun x => ?_
    split
    · refine h.bind (answers _) fun r => ?_
      cases r with
      | ok => exact h.pure _
      | error f => exact h.sessionNotice s _
    · exact h.pure _
  | started | stopped | closed | failed => exact h.sessionNotice s _

theorem whileUsed (answers : Answers R again) (s : SessionId) {body : Run S Unit}
    (keeps : Keeps R body) : Keeps R (whileUsed again s body) := by
  refine h.bind (h.session s) fun x => ?_
  split
  · exact h.bind (h.users s _) fun _ => h.bind keeps fun _ => answers _
  · exact h.pure _

theorem hear (answers : Answers R again) (p : ProcessorId) (e : Event) (x : Subscriber) :
    Keeps R (hear app again p e x) := by
  cases x with
  | watcher w => exact h.run answers _
  | capture s => exact h.whileUsed answers s (h.captureUpdate answers s p e)
  | stream s ssrc => exact h.whileUsed answers s (h.streamUpdate answers s ssrc p e)

/-- Subscribers that are told an event keep the relation when the entry about it does. -/
theorem deliver (answers : Answers R again) {p : ProcessorId} {e : Event}
    (told : ∀ x, Keeps R (Run.record (.told x p e))) (x : Subscriber) :
    Keeps R (deliver app again p e x) :=
  h.bind (told x) fun _ => h.hear answers p e x

theorem observe (answers : Answers R again) (e : EffectId) (b slot : Buffer) :
    Keeps R (Chain.observe app again e b slot) := by
  intro w
  refine ensures_bind.mpr (ensures_effect.mpr fun x known => ?_)
  dsimp only
  refine ensures_bind.mpr (ensures_modifyEffect.mpr ?_)
  refine h.follow (h.become known (x.observe_config b)) ?_
  split
  · exact h.bind (h.aside _ rfl) fun _ => h.bind (h.page _) fun _ =>
      h.bind (h.run answers _) fun _ => h.pure _
  · exact h.bind (h.pure _) fun _ => h.pure _

theorem send (answers : Answers R again) (chain : List PlugIn) (b : Buffer) :
    Keeps R (Chain.send app again chain b) := by
  induction chain generalizing b with
  | nil => exact h.pure _
  | cons x xs ih =>
    have passes : Keeps R (Chain.process app again x b) := by
      cases x with
      | effect e => exact h.bind (h.observe answers e b _) fun _ => h.pure _
      | codec c _ => exact h.bind (h.aside _ rfl) fun _ => h.run answers _
    refine h.bind passes fun r => ?_
    cases r with
    | error f => exact h.pure _
    | ok out =>
      dsimp only
      split
      · exact h.pure _
      · exact ih out

theorem process (answers : Answers R again) (p : ProcessorId) (i : Nat) (b : Buffer) :
    Keeps R (process app again p i b) := by
  refine h.bind (h.processor p) fun x => ?_
  split
  · exact h.pure _
  · split
    · exact h.pure _
    · split
      · exact h.pure _
      · refine h.bind (h.send answers _ b) fun r => ?_
        cases r with
        | error f => exact h.pure _
        | ok out => exact h.bind (h.counted p) fun _ => h.pure _

/-- Asks a processor of the application. -/
theorem ask (answers : Answers R again) (p : ProcessorId) (r : Request) :
    Keeps R (ask app again p r) :=
  h.bind (h.aside _ rfl) fun _ => h.run answers _

end Tame

end Metering
