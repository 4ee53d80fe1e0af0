import Metering.Proofs.Run
/-!
An application that keeps a log. It does what another application does, and writes down how the
rig looked whenever it had the rig before it, and how each of its frames was answered. The log is
the application's own: the rig, the journal and the story of a run are as they would be without it.
Here is what a run keeps of the counts of frames as long as calls within it are answered likewise:
every count is the number of frames that the log says were processed.
-/

namespace Metering

variable {S α β : Type}

inductive Observation
  /-- The application had the rig before it. -/
  | saw (r : Rig)
  /-- A frame was sent to a track of a processor, which was enabled at that time or was not. -/
  | sent (p : ProcessorId) (enabled : Bool) (answer : Except Fault Buffer)

/-- The frame went through an enabled track of the processor. -/
def Observation.countsFor (p : ProcessorId) : Observation → Bool
  | .sent q true (.ok _) => q == p
  | _ => false

/-- How many frames the log says a processor has processed. -/
def processed (p : ProcessorId) (log : List Observation) : Nat := log.countP (·.countsFor p)

namespace Rig

/-- There is such a track, and it is enabled. -/
def isEnabled (r : Rig) (p : ProcessorId) (i : Nat) : Bool :=
  ((r.processors[p]?).bind (·.tracks[i]?)).any (·.enabled)

/-- How many frames a processor itself says it has processed. -/
def frameCount (r : Rig) (p : ProcessorId) : UInt64 :=
  ((r.processors[p]?).map (·.framesProcessed)).getD 0

end Rig

/-- What is to be written down about a call that was made when the rig stood like this. -/
def Call.due (r : Rig) : Call β → β → List Observation
  | .process p i _, answer => [.sent p (r.isEnabled p i) answer]
  | _, _ => []

/-- Writes down what was observed, the newest first. -/
def Program.observe (seen : List Observation) (next : Program (S × List Observation) α) :
    Program (S × List Observation) α :=
  .update (fun s => ((), s.1, seen ++ s.2)) fun _ => next

/-- The same program with a log of its own. -/
def Program.logged : Program S α → Program (S × List Observation) α
  | .done a => .done a
  | .update f next => .update (fun s => ((f s.1).1, (f s.1).2, s.2)) fun b => (next b).logged
  | .look f next => .look id fun r => observe [.saw r] (next (f r)).logged
  | .note text next => .note text next.logged
  | .call c next =>
    .look id fun r => observe [.saw r] <|
    .call c fun b => observe (c.due r b) <|
    .look id fun r' => observe [.saw r'] (next b).logged

/-- The same application with a log of its own. -/
def Application.logged (app : Application S) : Application (S × List Observation) where
  level l n := (app.level l n).logged
  event w p e := (app.event w p e).logged
  offer c f := (app.offer c f).logged
  opens c := (app.opens c).logged
  close c := (app.close c).logged
  transform c b slot := (app.transform c b slot).logged
  request p r := (app.request p r).logged
  order s := app.order s.1
  order_perm s := app.order_perm s.1

/-- Whenever the rig was seen, every count was the number of frames processed until then, as far as
its 64 bits go. -/
def Faithful : List Observation → Prop
  | [] => True
  | .saw r :: before => (∀ p, r.frameCount p = .ofNat (processed p before)) ∧ Faithful before
  | .sent .. :: before => Faithful before

/-- The rigs that were seen, the newest first. -/
def sightings : List Observation → List Rig
  | [] => []
  | .saw r :: before => r :: sightings before
  | .sent .. :: before => sightings before

/-- The first world is the second with a log. What is due will still be written down. -/
structure Annotates (due : List Observation) (v : World (S × List Observation)) (w : World S) :
    Prop where
  app : v.app.1 = w.app
  rig : v.rig = w.rig
  journal : v.journal = w.journal
  story : v.story = w.story
  sightings : sightings v.app.2 = w.moments.map (·.rig)
  count : ∀ p, w.rig.frameCount p = .ofNat (processed p (due ++ v.app.2))
  faithful : Faithful v.app.2

/-- The first run goes as the second does, and leaves a world annotated but for what is due. -/
def Accompanies (m' : Run (S × List Observation) α) (v : World (S × List Observation))
    (m : Run S α) (w : World S) (due : α → List Observation) : Prop :=
  Ensures m w fun a w' => w.rig.processors.length ≤ w'.rig.processors.length ∧
    Yields m' v fun a' v' => a' = a ∧ Annotates (due a) v' w'

/-- From every annotated world the first run goes as the second does. -/
def Companion (m' : Run (S × List Observation) α) (m : Run S α) : Prop :=
  ∀ v w, Annotates [] v w → Accompanies m' v m w fun _ => []

/-- Each call is answered in an annotated world as it is in the world without a log. -/
def Accompanied (again' : {β : Type} → Call β → Run (S × List Observation) β)
    (again : {β : Type} → Call β → Run S β) : Prop :=
  ∀ {β : Type} (c : Call β) v w, Annotates [] v w →
    Accompanies (again' c) v (again c) w (c.due w.rig)

section Log

variable {p : ProcessorId} {seen log : List Observation}

@[simp]
theorem processed_append : processed p (seen ++ log) = processed p seen + processed p log :=
  List.countP_append

@[simp]
theorem processed_saw {r : Rig} : processed p (.saw r :: log) = processed p log :=
  List.countP_cons_of_neg (by simp [Observation.countsFor])

theorem processed_failed {e : Bool} {f : Fault} {q : ProcessorId} :
    processed p (.sent q e (.error f) :: log) = processed p log := by
  apply List.countP_cons_of_neg
  cases e <;> simp [Observation.countsFor]

theorem processed_bypassed {r : Except Fault Buffer} {q : ProcessorId} :
    processed p (.sent q false r :: log) = processed p log :=
  List.countP_cons_of_neg (by simp [Observation.countsFor])

theorem processed_passed {out : Buffer} {q : ProcessorId} :
    processed p (.sent q true (.ok out) :: log) = processed p log + if q = p then 1 else 0 := by
  simp [processed, List.countP_cons, Observation.countsFor]

theorem sightings_due (r : Rig) (c : Call β) (b : β) :
    sightings (c.due r b ++ log) = sightings log := by
  cases c with
  | process => rfl
  | _ => rfl

theorem Faithful.due (h : Faithful log) (r : Rig) (c : Call β) (b : β) :
    Faithful (c.due r b ++ log) := by
  cases c with
  | process => exact h
  | _ => exact h

end Log

section Count

variable {r : Rig} {p : ProcessorId}

theorem Rig.isEnabled_eq {x : Processor} {i : Nat} {t : Track}
    (known : r.processors[p]? = some x) (there : x.tracks[i]? = some t) :
    r.isEnabled p i = t.enabled := by
  simp [isEnabled, known, there]

theorem Rig.frameCount_modify {f : Processor → Processor}
    (same : ∀ x, (f x).framesProcessed = x.framesProcessed) (q : ProcessorId) :
    ({ r with processors := r.processors.modify q f } : Rig).frameCount p = r.frameCount p := by
  simp only [frameCount, List.getElem?_modify]
  cases r.processors[p]? with
  | none => rfl
  | some x =>
    simp only [Option.map_eq_map, Option.map_some, Option.getD_some]
    split
    · exact same x
    · rfl

theorem Rig.frameCount_counted {q : ProcessorId} (known : q < r.processors.length) :
    ({ r with processors := r.processors.modify q fun x =>
        { x with framesProcessed := x.framesProcessed + 1 } } : Rig).frameCount p =
      r.frameCount p + if q = p then 1 else 0 := by
  simp only [frameCount, List.getElem?_modify]
  by_cases here : q = p
  · subst here
    simp [List.getElem?_eq_getElem known]
  · simp [here]

/-- A new processor has processed nothing yet. -/
theorem Rig.frameCount_append {x : Processor} (new : x.framesProcessed = 0) :
    ({ r with processors := r.processors ++ [x] } : Rig).frameCount p = r.frameCount p := by
  simp only [frameCount, List.getElem?_append]
  split
  case isTrue => rfl
  case isFalse beyond =>
    rw [List.getElem?_eq_none (Nat.le_of_not_lt beyond)]
    cases p - r.processors.length with
    | zero => simp [new]
    | succ n => rfl

end Count

namespace Annotates

variable {due : List Observation} {v : World (S × List Observation)} {w : World S}

/-- The rig is changed, but no count. -/
theorem setRig (h : Annotates due v w) {r : Rig}
    (same : ∀ p, r.frameCount p = w.rig.frameCount p) :
    Annotates due { v with rig := r } { w with rig := r } :=
  { h with rig := rfl, count := fun p => (same p).trans (h.count p) }

/-- The moments that the run of the application with a log keeps do not matter. -/
theorem moments (h : Annotates due v w) (ms : List Moment) :
    Annotates due { v with moments := ms } w :=
  { h with }

theorem page (h : Annotates due v w) (f : Rig → Page) :
    Annotates due { v with story := f v.rig :: v.story } { w with story := f w.rig :: w.story } :=
  { h with story := by rw [h.rig, h.story] }

/-- What was due is written down. -/
theorem observe {r : Rig} {c : Call β} {b : β} (h : Annotates (c.due r b) v w) :
    Annotates [] { v with app := (v.app.1, c.due r b ++ v.app.2) } w :=
  { h with
    sightings := (sightings_due r c b).trans h.sightings
    faithful := h.faithful.due r c b }

/-- Nothing is due that would count. -/
theorem idle (h : Annotates [] v w) (none : ∀ p, processed p due = 0) : Annotates due v w :=
  { h with count := fun p => by rw [processed_append, none, Nat.zero_add]; exact h.count p }

/-- The frame that a processor counts is the one that is to be written down. -/
theorem counted (h : Annotates [] v w) {p : ProcessorId}
    (known : p < w.rig.processors.length) (out : Buffer) :
    Annotates [.sent p true (.ok out)]
      (v.modify p fun x => { x with framesProcessed := x.framesProcessed + 1 })
      (w.modify p fun x => { x with framesProcessed := x.framesProcessed + 1 }) :=
  { h with
    rig := by rw [World.modify, World.modify, h.rig]
    count := fun q => by
      rw [World.modify, Rig.frameCount_counted known, h.count q, List.cons_append, processed_passed]
      split
      · exact (UInt64.ofNat_add _ 1).symm
      · exact UInt64.add_zero _ }

end Annotates

section Bind

variable {m' : Run (S × List Observation) β} {m : Run S β}
variable {f' : β → Run (S × List Observation) α} {f : β → Run S α}
variable {v : World (S × List Observation)} {w : World S}

theorem Accompanies.pure {a : α} {due : α → List Observation} (h : Annotates (due a) v w) :
    Accompanies (pure a) v (pure a) w due :=
  ensures_pure.mpr ⟨Nat.le_refl _, yields_pure.mpr ⟨rfl, h⟩⟩

theorem Accompanies.bind {due : β → List Observation} {after : α → List Observation}
    (h : Accompanies m' v m w due)
    (rest : ∀ b v' w', w.rig.processors.length ≤ w'.rig.processors.length →
      Annotates (due b) v' w' → Accompanies (f' b) v' (f b) w' after) :
    Accompanies (m' >>= f') v (m >>= f) w after := by
  refine Ensures.bind h fun b w' ⟨longer, yields⟩ => ?_
  obtain ⟨b', v', run, rfl, annotates⟩ := yields
  refine (rest b' v' w' longer annotates).mono fun a w'' ⟨further, yields⟩ => ?_
  refine ⟨Nat.le_trans longer further, ?_⟩
  exact yields_bind.mpr ⟨b', v', run, yields⟩

theorem Accompanies.processor {p : ProcessorId} {f' : Processor → Run (S × List Observation) α}
    {f : Processor → Run S α} {due : α → List Observation} (h : Annotates [] v w)
    (rest : ∀ x, w.rig.processors[p]? = some x → Accompanies (f' x) v (f x) w due) :
    Accompanies (Run.processor p >>= f') v (Run.processor p >>= f) w due := by
  refine Ensures.processor fun x known => (rest x known).mono fun a w' ⟨longer, yields⟩ => ?_
  exact ⟨longer, Yields.processor (by rw [h.rig, known]) yields⟩

end Bind

namespace Companion

variable {m' : Run (S × List Observation) β} {m : Run S β}
variable {f' : β → Run (S × List Observation) α} {f : β → Run S α}

theorem pure (a : α) : Companion (pure a) (pure a : Run S α) := by
  intro v w h
  exact Accompanies.pure h

theorem bind (first : Companion m' m) (rest : ∀ b, Companion (f' b) (f b)) :
    Companion (m' >>= f') (m >>= f) :=
  fun v w h => (first v w h).bind fun b v' w' _ => rest b v' w'

theorem each {g' : β → Run (S × List Observation) Unit} {g : β → Run S Unit}
    (one : ∀ b, Companion (g' b) (g b)) (bs : List β) :
    Companion (Run.each g' bs) (Run.each g bs) := by
  induction bs with
  | nil => exact pure ()
  | cons b bs ih => exact (one b).bind fun _ => ih

/-- The application's own state is the same as without a log. -/
theorem own {g' : World (S × List Observation) → Run (S × List Observation) α}
    {g : World S → Run S α} (rest : ∀ v w, v.app.1 = w.app → Companion (g' v) (g w)) :
    Companion (get >>= g') (get >>= g) :=
  fun v w h => rest v w h.app v w h

theorem record (e : Entry) : Companion (Run.record e) (Run.record e : Run S Unit) := by
  intro v w h
  refine ensures_record.mpr ⟨Nat.le_refl _, yields_record.mpr ⟨rfl, { h with journal := ?_ }⟩⟩
  exact congrArg (e :: ·) h.journal

theorem notice (n : Notice) : Companion (Run.notice n) (Run.notice n : Run S Unit) :=
  record (.notice n)

theorem page (f : Rig → Page) : Companion (Run.page f) (Run.page f : Run S Unit) := by
  intro v w h
  exact ensures_page.mpr ⟨Nat.le_refl _, yields_page.mpr ⟨rfl, h.page f⟩⟩

/-- The rig is changed, but no count. -/
theorem modifyRig {f : Rig → Rig} (longer : ∀ r, r.processors.length ≤ (f r).processors.length)
    (same : ∀ r p, (f r).frameCount p = r.frameCount p) :
    Companion (Run.modifyRig f) (Run.modifyRig f : Run S Unit) := by
  intro v w h
  refine ensures_modifyRig.mpr ⟨longer w.rig, yields_modifyRig.mpr ⟨rfl, ?_⟩⟩
  rw [h.rig]
  exact h.setRig (same w.rig)

theorem modifyProcessor (p : ProcessorId) {f : Processor → Processor}
    (same : ∀ x, (f x).framesProcessed = x.framesProcessed) :
    Companion (Run.modifyProcessor p f) (Run.modifyProcessor p f : Run S Unit) :=
  modifyRig (fun r => by simp) fun _ _ => Rig.frameCount_modify same p

theorem modifyTrack (p : ProcessorId) (i : Nat) (f : Track → Track) :
    Companion (Run.modifyTrack p i f) (Run.modifyTrack p i f : Run S Unit) :=
  modifyProcessor p fun _ => rfl

theorem modifyEffect (e : EffectId) (f : LevelEffect → LevelEffect) :
    Companion (Run.modifyEffect e f) (Run.modifyEffect e f : Run S Unit) :=
  modifyRig (fun _ => Nat.le_refl _) fun _ _ => rfl

theorem modifySession (s : SessionId) (f : Session → Session) :
    Companion (Run.modifySession s f) (Run.modifySession s f : Run S Unit) :=
  modifyRig (fun _ => Nat.le_refl _) fun _ _ => rfl

theorem newProcessor {x : Processor} (new : x.framesProcessed = 0) :
    Companion (Run.newProcessor x) (Run.newProcessor x : Run S _) := by
  intro v w h
  simp only [Accompanies, Run.newProcessor, ensures_bind, ensures_get, ensures_modifyRig,
    ensures_pure, yields_bind, yields_get, yields_modifyRig, yields_pure, h.rig]
  exact ⟨by simp, trivial, h.setRig fun _ => Rig.frameCount_append new⟩

theorem newEffect (x : LevelEffect) : Companion (Run.newEffect x) (Run.newEffect x : Run S _) := by
  intro v w h
  simp only [Accompanies, Run.newEffect, ensures_bind, ensures_get, ensures_modifyRig,
    ensures_pure, yields_bind, yields_get, yields_modifyRig, yields_pure, h.rig]
  exact ⟨Nat.le_refl _, trivial, h.setRig fun _ => rfl⟩

theorem newSession (x : Session) : Companion (Run.newSession x) (Run.newSession x : Run S _) := by
  intro v w h
  simp only [Accompanies, Run.newSession, ensures_bind, ensures_get, ensures_modifyRig,
    ensures_pure, yields_bind, yields_get, yields_modifyRig, yields_pure, h.rig]
  exact ⟨Nat.le_refl _, trivial, h.setRig fun _ => rfl⟩

/-- What both runs look up in their rigs is the same. -/
theorem lookUp (f : Rig → Option α) :
    Companion (do Run.known (f (← get).rig)) (do Run.known (f (← get).rig) : Run S α) := by
  intro v w h
  simp only [Accompanies, ensures_bind, ensures_get, ensures_known, yields_bind, yields_get,
    yields_known, h.rig]
  intro a known
  exact ⟨Nat.le_refl _, a, known, rfl, h⟩

theorem processor (p : ProcessorId) : Companion (Run.processor p) (Run.processor p : Run S _) :=
  lookUp (·.processors[p]?)

theorem effect (e : EffectId) : Companion (Run.effect e) (Run.effect e : Run S _) :=
  lookUp (·.effects[e]?)

theorem session (s : SessionId) : Companion (Run.session s) (Run.session s : Run S _) :=
  lookUp (·.sessions[s]?)

theorem track (p : ProcessorId) (i : Nat) : Companion (Run.track? p i) (Run.track? p i : Run S _) :=
  (processor p).bind fun _ => pure _

/-- Where the one run waits for good, the other may do so too. -/
theorem halt (e : Halt) : Companion (throw e) (throw e : Run S α) := by
  rintro v w - a w' ⟨⟩

theorem awaitChain (p : ProcessorId) (i : Nat) :
    Companion (Run.awaitChain p i) (Run.awaitChain p i : Run S Unit) := by
  refine (processor p).bind fun x => ?_
  split
  · exact halt .stuck
  · exact pure _

theorem holding (p : ProcessorId) (i : Nat) (calls : Companion m' m) :
    Companion (Run.holding p i m') (Run.holding p i m) := by
  refine (awaitChain p i).bind fun _ => (modifyProcessor p ?_).bind fun _ => calls.bind fun _ =>
    (modifyProcessor p ?_).bind fun _ => pure _
  · exact fun _ => rfl
  · exact fun _ => rfl

theorem moveTo (p : ProcessorId) (phase : Phase) :
    Companion (Run.moveTo p phase) (Run.moveTo p phase : Run S Unit) :=
  (processor p).bind fun _ => bind (modifyProcessor p fun _ => rfl) fun _ => record _

theorem subscribe (p : ProcessorId) (x : Subscriber) :
    Companion (subscribe p x) (subscribe p x : Run S Unit) :=
  (processor p).bind fun _ => bind (modifyProcessor p fun _ => rfl) fun _ => record _

theorem setChain (p : ProcessorId) (i : Nat) (chain : List PlugIn) :
    Companion (setChain p i chain) (setChain p i chain : Run S _) := by
  refine (track p i).bind fun t => ?_
  cases t with
  | none => exact pure _
  | some t =>
    dsimp only
    cases t.setChain chain with
    | ok t => exact (awaitChain p i).bind fun _ => (modifyTrack p i _).bind fun _ => pure _
    | error f => exact pure _

theorem sessionNotice (s : SessionId) (n : SessionNotice) :
    Companion (sessionNotice s n) (sessionNotice s n : Run S Unit) :=
  (session s).bind fun _ => notice _

/-- A session writes down that its processor refused. -/
theorem noted (s : SessionId) (a : Except Fault Unit) (n : Fault → SessionNotice) :
    Companion
      (match a with
        | .ok () => Pure.pure ()
        | .error f => Metering.sessionNotice s (n f))
      (match a with
        | .ok () => Pure.pure ()
        | .error f => Metering.sessionNotice s (n f) : Run S Unit) := by
  cases a with
  | ok => exact pure _
  | error f => exact sessionNotice s _

theorem offerEffect (e : EffectId) (f : Format) :
    Companion (Chain.offerEffect e f) (Chain.offerEffect e f : Run S _) :=
  (effect e).bind fun _ => (modifyEffect e _).bind fun _ => pure _

theorem setListener (e : EffectId) (l : Option ListenerId) :
    Companion (setListener e l) (setListener e l : Run S Unit) :=
  modifyEffect e _

theorem resetEffect (e : EffectId) : Companion (resetEffect e) (resetEffect e : Run S Unit) :=
  modifyEffect e _

theorem setStreamListener (s : SessionId) (l : Option ListenerId) :
    Companion (setStreamListener s l) (setStreamListener s l : Run S Unit) :=
  (modifySession s _).bind fun _ => (session s).bind fun _ => each (fun _ => setListener _ l) _

theorem capture (s : SessionId) : Companion (capture s) (capture s : Run S _) := by
  refine (session s).bind fun x => ?_
  cases x.capture with
  | some p => exact pure _
  | none => exact pure _

end Companion

section Program

variable {again' : {β : Type} → Call β → Run (S × List Observation) β}
variable {again : {β : Type} → Call β → Run S β}
variable {v : World (S × List Observation)} {w : World S}

/-- Calls that are not written down need no more than any other step. -/
theorem Accompanied.call (h : Accompanied again' again) {c : Call β}
    (none : ∀ r b, c.due r b = []) : Companion (again' c) (again c) := by
  intro v w annotates
  have calls := h c v w annotates
  simp only [Accompanies, none] at calls
  exact calls

/-- Both worlds are changed, neither in its number of processors. -/
theorem Accompanies.modify {g' : World (S × List Observation) → World (S × List Observation)}
    {g : World S → World S} {f' : Unit → Run (S × List Observation) α} {f : Unit → Run S α}
    {due : α → List Observation} (same : (g w).rig.processors = w.rig.processors)
    (rest : Accompanies (f' ()) (g' v) (f ()) (g w) due) :
    Accompanies (modify g' >>= f') v (modify g >>= f) w due := by
  simp only [Accompanies, ensures_bind, ensures_modify, yields_bind, yields_modify, ← same]
  exact rest

/-- The application has seen the rig and written down what it saw. -/
def World.sighted (v : World (S × List Observation)) : World (S × List Observation) :=
  { v with app := (v.app.1, .saw v.rig :: v.app.2), moments := v.now :: v.moments }

theorem Annotates.sighted (h : Annotates [] v w) :
    Annotates [] v.sighted { w with moments := w.now :: w.moments } :=
  { h with
    sightings := by
      change v.rig :: Metering.sightings v.app.2 = w.rig :: w.moments.map (·.rig)
      rw [h.rig, h.sightings]
    count := fun p => (h.count p).trans (congrArg UInt64.ofNat processed_saw.symm)
    faithful := ⟨fun p => by rw [h.rig]; exact h.count p, h.faithful⟩ }

theorem accompanies_observe {seen : List Observation}
    {next : Program (S × List Observation) α} {m : Run S α} {due : α → List Observation} :
    Accompanies ((Program.observe seen next).run again') v m w due ↔
      Accompanies (next.run again') { v with app := (v.app.1, seen ++ v.app.2) } m w due := by
  simp only [Accompanies, Program.observe, Program.run, yields_bind, yields_get, yields_set]

theorem accompanies_look {next : Rig → Program (S × List Observation) α} {m : Run S α}
    {due : α → List Observation} :
    Accompanies ((Program.look id fun r => .observe [.saw r] (next r)).run again') v m w due ↔
      Accompanies ((next v.rig).run again') v.sighted m w due := by
  simp only [Accompanies, Program.observe, Program.run, yields_bind, yields_mark, yields_get,
    yields_set]
  rfl

/-- A program with a log goes as the program itself does. -/
theorem Companion.run (answers : Accompanied again' again) (p : Program S α) :
    Companion (p.logged.run again') (p.run again) := by
  induction p with
  | done a => exact pure a
  | update f next ih =>
    intro v w h
    have updated : Annotates [] { v with app := ((f v.app.1).2, v.app.2) }
        { w with app := (f w.app).2 } := { h with app := by rw [h.app] }
    simp only [Accompanies, Program.logged, Program.run, ensures_bind, ensures_get, ensures_set,
      yields_bind, yields_get, yields_set, h.app] at updated ⊢
    exact ih _ _ _ updated
  | look f next ih =>
    intro v w h
    rw [Program.logged, accompanies_look, h.rig]
    simp only [Accompanies, Program.run, ensures_bind, ensures_mark, ensures_get]
    exact ih (f w.rig) v.sighted _ h.sighted
  | note text next ih => exact (record _).bind fun _ => ih
  | call c next ih =>
    intro v w h
    rw [Program.logged, accompanies_look, h.rig]
    refine Accompanies.modify rfl (Accompanies.modify rfl ?_)
    -- The call is made in the rig that was seen: a moment and a page were kept in between, no more.
    have called := (h.sighted.moments (v.sighted.now :: v.sighted.moments)).page (.did · c.deed)
    refine (answers c _ _ called).bind fun b v' w' _ answered => ?_
    refine Accompanies.modify rfl ?_
    rw [accompanies_observe, accompanies_look]
    exact ih b _ _ (answered.observe.moments _).sighted

end Program

end Metering
