import Metering.Proofs.Standing
import Metering.Proofs.Tending
/-!
A session in use. Whatever an application does with a session, with frames and with processors, in
its listeners too, the rig stays as the board says, and listeners are told what the board lets them
be told. The processors that are passed to the session are passed once, before they are realized.
-/

namespace Metering

variable {S α β : Type}

def Deed.Uses (s : SessionId) : Deed → Prop
  | .setLocalListener t _ | .setStreamListener t _ | .connectCapture t _ | .addStream t _ _
  | .removeStream t _ | .startSession t | .stopSession t | .closeSession t => t = s
  | .configure _ | .realize _ | .start _ | .stop _ | .close _ | .process .. => True
  | _ => False

def Deed.passed : Deed → Option ProcessorId
  | .connectCapture _ p | .addStream _ _ p => some p
  | _ => none

def passed : List Page → List ProcessorId
  | [] => []
  | .did _ d :: ps => d.passed.toList ++ passed ps
  | .heard .. :: ps => passed ps

/-- Every processor is passed to a session once at most, and is configured at most by then. -/
def Orderly : List Page → Prop
  | [] => True
  | .did r d :: ps => (∀ p ∈ d.passed, p ∉ passed ps ∧ ∀ x ∈ r.processors[p]?, x.phase.Early) ∧
    Orderly ps
  | .heard .. :: ps => Orderly ps

instance (a : Phase) : Decidable a.Early := inferInstanceAs (Decidable (_ ∨ _))

instance Orderly.decide : (ps : List Page) → Decidable (Orderly ps)
  | [] => isTrue trivial
  | .did .. :: ps => haveI := decide ps; inferInstanceAs (Decidable (_ ∧ _))
  | .heard .. :: ps => decide ps

theorem Orderly.tail {page : Page} {ps : List Page} (h : Orderly (page :: ps)) : Orderly ps := by
  cases page with
  | did r d => exact h.2
  | heard => exact h

theorem Orderly.of_suffix {ps later : List Page} (h : Orderly later) (suffix : ps <:+ later) :
    Orderly ps := by
  obtain ⟨first, rfl⟩ := suffix
  induction first with
  | nil => exact h
  | cons page first ih => exact ih h.tail

def Grows (w w' : World S) : Prop := w.story <:+ w'.story

namespace Grows

theorem flow : Flow (Grows (S := S)) where
  refl _ := List.suffix_rfl
  trans first second := first.trans second

theorem of_story {m : Run S α} (same : ∀ w, Ensures m w fun _ w' => w'.story = w.story) :
    Keeps Grows m := by
  intro w
  exact (same w).mono fun _ w' eq => (⟨[], eq.symm⟩ : w.story <:+ w'.story)

theorem modify {f : World S → World S} (same : ∀ w, (f w).story = w.story) :
    Keeps Grows (modify f : Run S Unit) :=
  of_story fun w => ensures_modify.mpr (same w)

theorem newProcessor (x : Processor) : Keeps Grows (Run.newProcessor x : Run S _) :=
  of_story fun w => by
    simp only [Run.newProcessor, ensures_bind, ensures_get, ensures_modifyRig, ensures_pure]

theorem plain : Plain (Grows (S := S)) where
  refl := flow.refl
  trans := flow.trans
  own _ _ := List.suffix_rfl
  aside _ _ := modify fun _ => rfl
  effects _ _ _ := List.suffix_rfl
  story _ _ := List.suffix_cons _ _
  mark := modify fun _ => rfl
  sessions _ _ := List.suffix_rfl
  newProcessor _ _ := newProcessor _
  newExternal _ _ _ := newProcessor _
  subscribe p _ := flow.bind (flow.processor p) fun _ =>
    flow.bind (modify fun _ => rfl) fun _ => modify fun _ => rfl
  setChain := flow.setChain fun _ _ => modify fun _ => rfl
  setEnabled _ _ _ := modify fun _ => rfl
  counted _ := modify fun _ => rfl

theorem lawful {app : Application S} : Lawful app (Grows (S := S)) := by
  have steady : Steady app (fun _ => True) (Grows (S := S)) :=
    { plain with
      holding := fun p _ => flow.holding fun _ => modify fun _ => rfl
      opened := fun _ => modify fun _ => rfl
      closed := fun _ => modify fun _ => rfl
      setOpen := fun _ _ _ => modify fun _ => rfl
      moveTo := fun p _ _ => flow.bind (flow.processor p) fun _ =>
        flow.bind (modify fun _ => rfl) fun _ => modify fun _ => rfl
      readied := fun _ _ _ => modify fun _ => rfl
      lockTracks := fun _ _ => modify fun _ => rfl
      emit := fun again answers p _ e => plain.emit (fun _ _ => modify fun _ => rfl)
        (fun _ _ _ => modify fun _ => rfl) again answers p e }
  exact steady.lawful fun _ => trivial

end Grows

def Setting.reference (g : Setting) : Reference Board where
  start := { effects := g.effects }
  after := Board.after g
  tells := Board.tells g
  fits b r := (r.sessions[g.session]?).map (·.users) = some 1 ∧
    (∀ (p : ProcessorId) (x : Processor), r.core.processors[p]? = some x → x.Own g.session) ∧
    b.Fits g r.core

namespace Setting

variable {g : Setting} {w : World S} {ps : List Page} {r : Rig}

theorem taken_passed (g : Setting) (ps : List Page) :
    (g.reference.state ps).taken ⊆ passed ps := by
  induction ps with
  | nil => exact List.nil_subset _
  | cons page ps ih =>
    cases page with
    | heard => exact ih
    | did r d =>
      have new : ((g.reference.state ps).after g d).taken ⊆
          d.passed.toList ++ (g.reference.state ps).taken := by
        cases d with
        | addStream s ssrc p =>
          intro q member
          simp only [Board.after, Board.added, List.mem_append] at member
          split at member
          · simpa using Or.inr member
          · simpa [Deed.passed] using member
        | _ => simp [Board.after, Board.added, Deed.passed]
      intro q member
      obtain now | before := List.mem_append.mp (new member)
      · exact List.mem_append_left _ now
      · exact List.mem_append_right _ (ih before)

/-- The run so far is as the board says. -/
abbrev Holds (g : Setting) (w : World S) : Prop := g.reference.Holds Orderly w

/-- The rig as it is, seen by its core. -/
theorem at_core {b : Board} (fits : g.reference.fits b w.rig) :
    w.At g.session 1 w.rig.core w.story where
  core := rfl
  users := fits.1
  story := rfl
  own := fits.2.1

theorem fits_of_at {b : Board} {n : List Page} (h : w.At g.session 1 r n) (fits : b.Fits g r) :
    g.reference.fits b w.rig :=
  ⟨h.users, h.core ▸ h.own, h.core ▸ fits⟩

/-- A deed that tells nobody anything comes to its end. -/
theorem Holds.ends {w' : World S} {d : Deed} (story : w.story = .did w.rig d :: ps)
    (follows : g.reference.Follows ps none) (stood : g.reference.fits (g.reference.state ps) w.rig)
    (silent : (g.reference.state ps).tells g d = none) (h : w'.At g.session 1 r w.story)
    (fits : ((g.reference.state ps).after g d).Fits g r) : g.Holds w' := by
  intro _
  have here := Reference.Follows.did d follows stood
  rw [show g.reference.tells (g.reference.state ps) d = none from silent] at here
  rw [h.story, story]
  exact ⟨here, fits_of_at h fits⟩

/-- A deed has let a listener be told a level. -/
theorem Holds.tells {w' : World S} {d : Deed} (story : w.story = .did w.rig d :: ps)
    (follows : g.reference.Follows ps none) (stood : g.reference.fits (g.reference.state ps) w.rig)
    {l : ListenerId} {m : Int} (told : (g.reference.state ps).tells g d = some (l, m))
    (h : w'.At g.session 1 r (.heard l m :: w.story))
    (fits : ((g.reference.state ps).after g d).Fits g r) : g.Holds w' := by
  intro _
  have here := Reference.Follows.did d follows stood
  rw [show g.reference.tells (g.reference.state ps) d = some (l, m) from told] at here
  rw [h.story, story]
  exact ⟨.heard here, fits_of_at h fits⟩

/-- A processor that is passed to the session was not used before. -/
theorem fresh {b : Board} (fits : b.Fits g r) {p : ProcessorId} (new : p ∉ b.taken)
    (early : ∀ x, r.processors[p]? = some x → x.phase.Early) (x : Processor)
    (known : r.processors[p]? = some x) :
    x.subscribers = [] ∧ (x.phase = .unrealized ∨ x.phase = .configured) :=
  ⟨((fits.seats.placed p x known).blank new).nobody, early x known⟩

/-- Nobody hears of a processor that the session has not come to realize. -/
theorem nobody {b : Board} (fits : b.Fits g r) {p : ProcessorId} (x : Processor)
    (known : r.processors[p]? = some x) (early : x.phase.Early) : x.subscribers = [] := by
  have placed := fits.seats.placed p x known
  by_cases taken : p ∈ b.taken
  · by_cases used : ∃ q ∈ b.seats, q.processor = p
    · obtain ⟨q, member, here⟩ := used
      exact absurd early (placed.seat q member here).2.1
    · have closed := placed.left taken fun q member here => used ⟨q, member, here⟩
      simp [closed, Phase.Early] at early
  · exact (placed.blank taken).nobody

section Deeds

variable {app : Application S} {depth : Nat} {b : Board} {p : ProcessorId} {i : Nat} {f : Buffer}

/-- The session has got a processor for capture that was not used before. -/
theorem captures (inUse : w.At g.session 2 r ps) (fits : b.Fits g r) (unused : p ∉ b.taken)
    (early : ∀ x, r.processors[p]? = some x → x.phase.Early) :
    Ensures (connectCapture app (perform app depth) g.session p) w fun _ w' =>
      ∃ r', w'.At g.session 2 r' ps ∧ (b.after g (.connectCapture g.session p)).Fits g r' := by
  obtain ⟨y, session, shows⟩ := fits.session
  refine (inUse.connectCapture (Nat.succ_pos 1) session (fresh fits unused early)
    (fits.capture_ne shows unused)).mono ?_
  rintro _ w' ⟨known, connected⟩
  exact ⟨_, connected, fits.connectCapture session shows known unused early⟩

/-- The session has got a stream, unless there was one of that name. -/
theorem adds (inUse : w.At g.session 2 r ps) (fits : b.Fits g r) (unused : p ∉ b.taken)
    (early : ∀ x, r.processors[p]? = some x → x.phase.Early) (ssrc : Ssrc) :
    Ensures (addStream app (perform app depth) g.session ssrc p) w fun _ w' =>
      ∃ r', w'.At g.session 2 r' ps ∧ (b.after g (.addStream g.session ssrc p)).Fits g r' := by
  obtain ⟨y, session, shows⟩ := fits.session
  refine (inUse.addStream (Nat.succ_pos 1) session (fresh fits unused early) ssrc).mono ?_
  intro _ w' added
  split at added
  case isTrue present => exact ⟨_, added, fits.addStream_refused shows present⟩
  case isFalse absent =>
    obtain ⟨known, added⟩ := added
    exact ⟨_, added, fits.addStream session shows absent known unused early⟩

/-- What a deed other than sending a frame makes of the rig. -/
theorem changes (h : w.At g.session 1 r ps) (fits : b.Fits g r) {c : Call β}
    (uses : c.deed.Uses g.session) (frame : ∀ p i f, c.deed ≠ .process p i f)
    (new : ∀ p, c.deed.passed = some p →
      p ∉ b.taken ∧ ∀ x, r.processors[p]? = some x → x.phase.Early) :
    Ensures (answer app (perform app depth) c) w fun _ w' =>
      ∃ r', w'.At g.session 1 r' ps ∧ (b.after g c.deed).Fits g r' := by
  obtain ⟨y, session, shows⟩ := fits.session
  cases c with
  | setLocalListener s l =>
    obtain rfl : s = g.session := uses
    exact (h.setLocalListener session l).mono fun _ _ set => ⟨_, set, fits.setLocalListener shows⟩
  | setStreamListener s l =>
    obtain rfl : s = g.session := uses
    exact (h.setStreamListener session l).mono fun _ _ set =>
      ⟨_, set, fits.setStreamListener session shows⟩
  | connectCapture s p =>
    obtain rfl : s = g.session := uses
    obtain ⟨unused, early⟩ := new p rfl
    exact h.duringUse Nat.one_pos fun _ inUse => captures inUse fits unused early
  | addStream s ssrc p =>
    obtain rfl : s = g.session := uses
    obtain ⟨unused, early⟩ := new p rfl
    exact h.duringUse Nat.one_pos fun _ inUse => adds inUse fits unused early ssrc
  | removeStream s ssrc =>
    obtain rfl : s = g.session := uses
    refine h.duringUse Nat.one_pos fun _ inUse => ?_
    exact (inUse.removeStream (Nat.succ_pos 1) session ssrc).mono fun _ _ removed =>
      ⟨_, removed, fits.removeStream session shows⟩
  | startSession s =>
    obtain rfl : s = g.session := uses
    refine h.duringUse Nat.one_pos fun _ inUse => ?_
    exact (inUse.startSession (Nat.succ_pos 1) session).mono fun _ _ started =>
      ⟨_, started, fits.startSession shows⟩
  | stopSession s =>
    obtain rfl : s = g.session := uses
    refine h.duringUse Nat.one_pos fun _ inUse => ?_
    exact (inUse.stopSession (Nat.succ_pos 1) session).mono fun _ _ stopped =>
      ⟨_, stopped, fits.stopSession shows⟩
  | closeSession s =>
    obtain rfl : s = g.session := uses
    refine h.duringUse Nat.one_pos fun _ inUse => ?_
    exact (inUse.closeSession (Nat.succ_pos 1) session).mono fun _ _ closed =>
      ⟨_, closed, fits.closeSession session shows⟩
  | configure p =>
    refine (h.configureAlone fun x known unrealized =>
      nobody fits x known (.inl unrealized)).mono fun _ _ done => ⟨_, done, fits.configure p⟩
  | realize p =>
    refine (h.realizeAlone fun x known configured =>
      nobody fits x known (.inr configured)).mono fun _ _ done => ⟨_, done, fits.realize p⟩
  | start p => exact (h.start Nat.one_pos p).mono fun _ _ done => ⟨_, done, fits.start p⟩
  | stop p => exact (h.stop Nat.one_pos p).mono fun _ _ done => ⟨_, done, fits.stop p⟩
  | close p => exact (h.close Nat.one_pos p).mono fun _ _ done => ⟨_, done, fits.close p⟩
  | process p i f => exact absurd rfl (frame p i f)
  | _ => exact uses.elim

/-- Frames are counted, which no level depends on. -/
theorem Holds.counted (h : g.Holds w) (p : ProcessorId) :
    g.Holds (w.modify p fun x => { x with framesProcessed := x.framesProcessed + 1 }) := by
  intro orderly
  obtain ⟨follows, fits⟩ := h orderly
  have counted := (at_core fits).modify_same (p := p)
    (f := fun x => { x with framesProcessed := x.framesProcessed + 1 }) fun _ _ => rfl
  exact ⟨follows, fits_of_at counted fits.2.2⟩

/-- What sending a frame makes of the rig, if the listener that is told its level does what it may
do. -/
theorem frame (story : w.story = .did w.rig (.process p i f) :: ps)
    (follows : g.reference.Follows ps none) (stood : g.reference.fits (g.reference.state ps) w.rig)
    (listens : ∀ l m (w : World S), g.Holds w →
      Ensures ((app.level l m).run (perform app depth)) w fun _ => g.Holds) :
    Ensures (process app (perform app depth) p i f) w fun _ => g.Holds := by
  have fits := stood.2.2
  refine (at_core stood).process (fun v holds => holds.counted p) ?_ ?_
  · intro x known none v at_v
    have found := Option.map_eq_none_iff.mp ((fits.meets known i).symm.trans none)
    refine Holds.ends story follows stood ?_ at_v ?_
    · simp [Board.tells, found]
    · rw [Board.Fits.process_none found]
      exact fits
  · intro x e known meets
    obtain ⟨t, found, rfl⟩ := Option.map_eq_some_iff.mp ((fits.meets known i).symm.trans meets)
    have post := List.mem_of_find?_eq_some found
    obtain ⟨z, effect, of⟩ := fits.tenants.known _ (fits.post_tenant post)
    have told : (z.observe f).1 = (g.reference.state ps).tells g (.process p i f) := by
      simpa [Board.tells, found] using (of.observe f).1
    refine (at_core stood).observe effect ?_ ?_
    · intro silent v at_v
      exact Holds.ends story follows stood (told ▸ silent) at_v (fits.process found effect)
    · intro l m tells v at_v
      exact listens l m v
        (Holds.tells story follows stood (told ▸ tells) at_v (fits.process found effect))

theorem answers (listens : ∀ l m (w : World S), g.Holds w →
      Meets (fun _ => True) ((app.level l m).run (perform app depth)) w fun _ => g.Holds)
    (c : Call β) (uses : c.deed.Uses g.session)
    (begins : g.reference.Begins Orderly c.deed w) :
    Meets (fun _ => True) (answer app (perform app depth) c) w fun _ => g.Holds := by
  obtain ⟨ps, story, before⟩ := begins
  apply Meets.of_ensures
  by_cases orderly : Orderly w.story
  · obtain ⟨follows, stood⟩ := before orderly
    by_cases frames : ∃ p i f, c.deed = .process p i f
    · obtain ⟨p, i, f, eq⟩ := frames
      cases c with
      | process p' i' f' =>
        exact frame story follows stood fun l m v holds => (listens l m v holds).ensures
      | _ => cases eq
    · have new : Orderly (.did w.rig c.deed :: ps) := story ▸ orderly
      refine (changes (at_core stood) stood.2.2 uses (fun p i f eq => frames ⟨p, i, f, eq⟩) ?_).mono
        ?_
      · intro p passes
        obtain ⟨unused, early⟩ := new.1 p passes
        refine ⟨fun taken => unused (g.taken_passed ps taken), ?_⟩
        intro x known
        simp only [Rig.core, List.getElem?_map, Option.map_eq_some_iff] at known
        obtain ⟨y, known, rfl⟩ := known
        exact early y known
      · rintro _ w' ⟨r', at_w', fits⟩
        refine Holds.ends story follows stood ?_ at_w' fits
        cases c with
        | process p i f => exact absurd ⟨p, i, f, rfl⟩ frames
        | _ => rfl
  · have grows : Keeps Grows (answer app (perform app depth) c) :=
      Grows.lawful.abiding.answer (Grows.lawful.perform depth) c
    refine (grows w).mono ?_
    intro _ w' suffix said
    exact absurd (said.of_suffix suffix) orderly

end Deeds

/-- Whatever is done with the session, the rig stays as the board says. -/
theorem runs {app : Application S} (listens : ∀ l n, (app.level l n).Confined (Deed.Uses g.session))
    {program : Program S α} (confined : program.Confined (Deed.Uses g.session))
    (start : g.Holds w) (depth : Nat) :
    Ensures (program.run (perform app depth)) w fun _ => g.Holds := by
  have run : Meets (fun _ => True) (program.run (perform app depth)) w fun _ => g.Holds := by
    refine start.program (fun _ => True) trivial (fun _ _ => Orderly.tail) listens ?_ depth confined
    intro depth told β c uses w begins
    exact answers told c uses begins
  exact run.ensures

end Setting

/-- A session that was not used yet, and processors that nobody has used either. -/
structure Rig.Opens (r : Rig) (s : SessionId) (y : Session) : Prop where
  session : r.sessions[s]? = some y
  silent : y.streamListener = none
  capture : y.capture = none
  streams : y.streams = []
  users : y.users = 1
  effect : r.effects[y.localEffect]? = some (.new y.config.effect)
  processors : ∀ (p : ProcessorId) (x : Processor), r.processors[p]? = some x →
    x.isExternal = false ∧ x.Blank

def Rig.setting (r : Rig) (s : SessionId) (y : Session) : Setting where
  session := s
  localEffect := y.localEffect
  config := y.config
  effects := r.effects.length
  meters p i := (r.processors[p]?).any (·.meters i)

theorem Processor.core_meters (x : Processor) : x.core.meters = x.meters := by
  funext i
  rw [Processor.meters, Processor.meters, Processor.core_firstAudio, Processor.core_track]
  cases x.tracks[i]? with
  | none => rfl
  | some t => rfl

theorem Processor.Blank.core {x : Processor} (h : x.Blank) : x.core.Blank where
  nobody := h.nobody
  bare t member := by
    obtain ⟨u, before, rfl⟩ := List.mem_map.mp member
    exact h.bare u before
  free early t member := by
    obtain ⟨u, before, rfl⟩ := List.mem_map.mp member
    exact h.free early u before

namespace Rig.Opens

variable {r : Rig} {s : SessionId} {y : Session}

theorem own (h : r.Opens s y) (p : ProcessorId) (x : Processor)
    (known : r.core.processors[p]? = some x) : x.Own s := by
  simp only [Rig.core, List.getElem?_map, Option.map_eq_some_iff] at known
  obtain ⟨x, known, rfl⟩ := known
  obtain ⟨internal, blank⟩ := h.processors p x known
  refine ⟨internal, ?_, fun t member => .inl (blank.core.bare t member)⟩
  intro z member
  rw [blank.core.nobody] at member
  cases member

theorem seats (h : r.Opens s y) : r.core.Seats (r.setting s y) [] [] where
  single := List.nodup_nil
  within q member := (List.not_mem_nil member).elim
  known q member := (List.not_mem_nil member).elim
  placed p x known := by
    simp only [Rig.core, List.getElem?_map, Option.map_eq_some_iff] at known
    obtain ⟨x, known, rfl⟩ := known
    have meters : x.core.meters = (r.setting s y).meters p := by
      rw [Processor.core_meters]
      funext i
      simp [Rig.setting, known]
    exact ⟨meters, fun q member => (List.not_mem_nil member).elim,
      fun taken => (List.not_mem_nil taken).elim, fun _ => (h.processors p x known).2.core⟩

theorem fits (h : r.Opens s y) :
    (r.setting s y).reference.fits { effects := r.effects.length } r := by
  have users : (r.sessions[s]?).map (·.users) = some 1 := by simp [h.session, h.users]
  have session : r.core.sessions[s]? = some y.core := by simp [Rig.core, h.session]
  have effect : r.core.effects[y.localEffect]? = some (.new y.config.effect) := by
    simp [Rig.core, h.effect, LevelEffect.core, LevelEffect.new]
  refine ⟨users, h.own, ?_⟩
  exact
    { session := ⟨y.core, session, ⟨rfl, rfl, h.silent, h.capture, h.streams⟩⟩
      seats := h.seats
      tenants :=
        { single := by simp [Board.tenants]
          known := by
            intro t member
            obtain rfl := List.mem_singleton.mp member
            exact ⟨_, effect, .new _⟩ }
      effects := by simp [Rig.core]
      names := List.nodup_nil
      captured := fun q member => (Option.not_mem_none q member).elim }

/-- Before anything is done the rig is as the empty board says. -/
theorem holds (h : r.Opens s y) {w : World S} (rig : w.rig = r) (blank : w.story = []) :
    (r.setting s y).Holds w := by
  intro _
  rw [blank, rig]
  exact ⟨.nil, h.fits⟩

end Rig.Opens

end Metering
