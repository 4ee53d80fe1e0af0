import Metering.Proofs.Preparing
import Metering.Proofs.Proceeding
/-!
A session drives its processors. As long as no other subscriber hears of the processors and no
other plug-ins stand in their chains, every operation of the session takes the rig from one state to
another that can be written down: what it does to phases, chains, effects and its own entries.
-/

namespace Metering

variable {S α β : Type}

/-- A processor apart from what is open or held in it and what it has counted. -/
def Processor.core (x : Processor) : Processor := { x.shut with framesProcessed := 0, held := [] }

/-- An effect apart from the format agreed on. -/
def LevelEffect.core (x : LevelEffect) : LevelEffect := { x with inputFormat := none }

/-- A session apart from who uses it. -/
def Session.core (x : Session) : Session := { x with users := 0 }

/-- A rig apart from what no level depends on. -/
def Rig.core (r : Rig) : Rig where
  processors := r.processors.map Processor.core
  effects := r.effects.map LevelEffect.core
  sessions := r.sessions.map Session.core

def Rig.modifyProcessor (r : Rig) (p : ProcessorId) (f : Processor → Processor) : Rig :=
  { r with processors := r.processors.modify p f }

def Rig.modifyEffect (r : Rig) (e : EffectId) (f : LevelEffect → LevelEffect) : Rig :=
  { r with effects := r.effects.modify e f }

def Rig.modifySession (r : Rig) (s : SessionId) (f : Session → Session) : Rig :=
  { r with sessions := r.sessions.modify s f }

def Rig.setPhase (r : Rig) (p : ProcessorId) (a : Phase) : Rig :=
  r.modifyProcessor p fun x => { x with phase := a }

/-- A processor that has come to one phase goes on to another. -/
def Rig.advance (r : Rig) (p : ProcessorId) (a b : Phase) : Rig :=
  r.modifyProcessor p fun x => if x.phase = a then { x with phase := b } else x

/-- An event about which a session does nothing but write it down. -/
def Event.isMere : Event → Bool
  | .configured | .realized => false
  | _ => true

def Subscriber.IsOf (s : SessionId) : Subscriber → Prop
  | .watcher _ => False
  | .capture t | .stream t _ => t = s

/-- The chain is empty, or a level effect stands in it alone, on an audio track. -/
def Track.Simple (t : Track) : Prop :=
  t.chain = [] ∨ ∃ e, t.chain = [.effect e] ∧ t.format.isAudio = true

/-- Nobody but the session has to do with the processor. -/
structure Processor.Own (s : SessionId) (x : Processor) : Prop where
  internal : x.isExternal = false
  heard : ∀ z ∈ x.subscribers, z.IsOf s
  simple : ∀ t ∈ x.tracks, t.Simple

/-- The core of the rig is known, and so are the users of the session and the story so far. -/
structure World.At (w : World S) (s : SessionId) (n : Nat) (r : Rig) (ps : List Page) : Prop where
  core : w.rig.core = r
  users : (w.rig.sessions[s]?).map (·.users) = some n
  story : w.story = ps
  own : ∀ (p : ProcessorId) (x : Processor), r.processors[p]? = some x → x.Own s

section Rig

variable {r : Rig} {p : ProcessorId} {a b : Phase} {x : Processor}

theorem Rig.modifyProcessor_congr {f g : Processor → Processor}
    (same : ∀ x, r.processors[p]? = some x → f x = g x) :
    r.modifyProcessor p f = r.modifyProcessor p g := by
  unfold modifyProcessor
  rw [modify_congr same]

theorem Rig.modifyProcessor_congr_of {f g : Processor → Processor}
    (known : r.processors[p]? = some x) (same : f x = g x) :
    r.modifyProcessor p f = r.modifyProcessor p g := by
  unfold modifyProcessor
  rw [modify_congr_of known same]

theorem Rig.modifyProcessor_of_fixed {f : Processor → Processor}
    (known : r.processors[p]? = some x) (fixed : f x = x) : r.modifyProcessor p f = r := by
  unfold modifyProcessor
  rw [modify_of_fixed known fixed]

theorem Rig.modifyProcessor_id : r.modifyProcessor p id = r := by
  unfold modifyProcessor
  simp

theorem Rig.advance_of (known : r.processors[p]? = some x) (phase : x.phase = a) :
    r.advance p a b = r.setPhase p b :=
  modifyProcessor_congr_of known (if_pos phase)

theorem Rig.advance_same (other : ∀ x, r.processors[p]? = some x → x.phase ≠ a) :
    r.advance p a b = r := by
  have same : r.advance p a b = r.modifyProcessor p id :=
    modifyProcessor_congr fun x known => if_neg (other x known)
  rw [same, modifyProcessor_id]

/-- A processor that is put into the phase it is in stays as it is. -/
theorem Rig.setPhase_of (known : r.processors[p]? = some x) (phase : x.phase = a) :
    r.setPhase p a = r := by
  subst phase
  exact modifyProcessor_of_fixed known rfl

end Rig

namespace World.At

variable {s : SessionId} {n : Nat} {r : Rig} {ps : List Page} {w : World S}

section Basic

variable {p : ProcessorId} {x : Processor}

theorem processor (h : w.At s n r ps) (known : w.rig.processors[p]? = some x) :
    r.processors[p]? = some x.core := by
  rw [← h.core]
  simp [Rig.core, known]

theorem session (h : w.At s n r ps) {t : SessionId} {y : Session}
    (known : w.rig.sessions[t]? = some y) : r.sessions[t]? = some y.core := by
  rw [← h.core]
  simp [Rig.core, known]

theorem effect (h : w.At s n r ps) {e : EffectId} {z : LevelEffect}
    (known : w.rig.effects[e]? = some z) : r.effects[e]? = some z.core := by
  rw [← h.core]
  simp [Rig.core, known]

theorem internal (h : w.At s n r ps) (known : w.rig.processors[p]? = some x) :
    x.isExternal = false := (h.own p _ (h.processor known)).internal

theorem known_users (h : w.At s n r ps) {y : Session} (known : w.rig.sessions[s]? = some y) :
    y.users = n := by
  simpa [known] using h.users

section Reading

variable {Q : α → World S → Prop}

/-- A processor is read of which the core is known. -/
theorem readProcessor (h : w.At s n r ps) (known : r.processors[p]? = some x)
    {f : Processor → Run S α}
    (rest : ∀ y, w.rig.processors[p]? = some y → y.core = x → Ensures (f y) w Q) :
    Ensures (Run.processor p >>= f) w Q :=
  Ensures.processor fun y there =>
    rest y there (Option.some.inj ((h.processor there).symm.trans known))

/-- A session is read of which all is known but the number of its users. -/
theorem readSession (h : w.At s n r ps) {t : SessionId} {y : Session}
    (session : r.sessions[t]? = some y) {f : Session → Run S α}
    (rest : ∀ users, Ensures (f { y with users }) w Q) : Ensures (Run.session t >>= f) w Q := by
  refine ensures_bind.mpr (ensures_session.mpr fun y' known => ?_)
  obtain rfl : y'.core = y := Option.some.inj ((h.session known).symm.trans session)
  exact rest y'.users

end Reading

/-- Neither the journal nor what the application keeps for itself matters. -/
theorem same {v : World S} (h : w.At s n r ps) (rig : v.rig = w.rig) (story : v.story = w.story) :
    v.At s n r ps where
  core := rig ▸ h.core
  users := rig ▸ h.users
  story := story.trans h.story
  own := h.own

theorem record (h : w.At s n r ps) (e : Entry) : (w.record e).At s n r ps := h.same rfl rfl

theorem modify (h : w.At s n r ps) {f g : Processor → Processor}
    (same : ∀ x, w.rig.processors[p]? = some x → (f x).core = g x.core)
    (own : ∀ x, r.processors[p]? = some x → x.Own s → (g x).Own s) :
    (w.modify p f).At s n (r.modifyProcessor p g) ps where
  core := by
    rw [← h.core]
    simp only [Rig.core, Rig.modifyProcessor, World.modify]
    rw [map_modify same]
  users := h.users
  story := h.story
  own q x known := by
    simp only [Rig.modifyProcessor, List.getElem?_modify] at known
    by_cases here : p = q
    · subst here
      simp only [if_true, Option.map_eq_map, Option.map_eq_some_iff] at known
      obtain ⟨y, known, rfl⟩ := known
      exact own y known (h.own p y known)
    · exact h.own q x (by simpa [here] using known)

/-- A change that is none in the core. -/
theorem modify_same (h : w.At s n r ps) {f : Processor → Processor}
    (same : ∀ x, w.rig.processors[p]? = some x → (f x).core = x.core) :
    (w.modify p f).At s n r ps where
  core := by
    rw [← h.core]
    simp only [Rig.core, World.modify]
    rw [map_modify (k := id) same]
    simp
  users := h.users
  story := h.story
  own := h.own

theorem modifyEffect (h : w.At s n r ps) {e : EffectId} {f g : LevelEffect → LevelEffect}
    (same : ∀ z, w.rig.effects[e]? = some z → (f z).core = g z.core) :
    ({ w with rig := { w.rig with effects := w.rig.effects.modify e f } } : World S).At s n
      (r.modifyEffect e g) ps where
  core := by
    rw [← h.core]
    simp only [Rig.core, Rig.modifyEffect]
    rw [map_modify same]
  users := h.users
  story := h.story
  own := h.own

theorem modifySession (h : w.At s n r ps) {f g : Session → Session}
    (same : ∀ y, w.rig.sessions[s]? = some y → (f y).core = g y.core) (m : Nat)
    (users : ∀ y, y.users = n → (f y).users = m) :
    ({ w with rig := { w.rig with sessions := w.rig.sessions.modify s f } } : World S).At s m
      (r.modifySession s g) ps where
  core := by
    rw [← h.core]
    simp only [Rig.core, Rig.modifySession]
    rw [map_modify same]
  users := by
    obtain ⟨y, known, eq⟩ := Option.map_eq_some_iff.mp h.users
    simp [known, users y eq]
  story := h.story
  own := h.own

/-- The number of users changes. -/
theorem used (h : w.At s n r ps) {f : Session → Session} (m : Nat)
    (users : ∀ y, y.users = n → f y = { y with users := m }) :
    ({ w with rig := { w.rig with sessions := w.rig.sessions.modify s f } } : World S).At s m
      r ps where
  core := by
    obtain ⟨y, known, eq⟩ := Option.map_eq_some_iff.mp h.users
    rw [← h.core]
    simp only [Rig.core, Rig.mk.injEq, true_and]
    apply List.ext_getElem?
    intro t
    rw [List.getElem?_map, List.getElem?_map, List.getElem?_modify]
    by_cases here : s = t
    · subst here
      simp [known, users y eq, Session.core]
    · simp [here]
  users := by
    obtain ⟨y, known, eq⟩ := Option.map_eq_some_iff.mp h.users
    simp [known, users y eq]
  story := h.story
  own := h.own

end Basic

section Hearing

variable {app : Application S} {depth : Nat} {p : ProcessorId}

theorem moveTo (h : w.At s n r ps) (p : ProcessorId) (a : Phase) :
    Ensures (Run.moveTo p a) w fun _ w' => w'.At s n (r.setPhase p a) ps :=
  ensures_moveTo.mpr fun _ _ => (h.modify (g := fun x => { x with phase := a })
    (fun _ _ => rfl)
    fun _ _ own => ⟨own.internal, own.heard, own.simple⟩).record _

theorem notice (h : w.At s n r ps) (k : Notice) :
    Ensures (Run.notice k) w fun _ w' => w'.At s n r ps :=
  ensures_notice.mpr (h.record _)

theorem sessionNotice (h : w.At s n r ps) (t : SessionId) (k : SessionNotice) :
    Ensures (sessionNotice t k) w fun _ w' => w'.At s n r ps :=
  ensures_bind.mpr (ensures_session.mpr fun _ _ => h.notice _)

/-- Others still use the session. -/
theorem release {again : {β : Type} → Call β → Run S β} (h : w.At s (n + 1) r ps)
    (others : 0 < n) :
    Ensures (releaseSession app again s) w fun _ w' => w'.At s n r ps := by
  refine ensures_bind.mpr (ensures_session.mpr fun y known => ?_)
  have users := h.known_users known
  refine ensures_bind.mpr (ensures_modifySession.mpr ?_)
  rw [if_neg (by omega)]
  refine ensures_pure.mpr (h.used n fun z same => ?_)
  rw [users]
  rfl

/-- An operation of the session happens with one more user. -/
theorem duringUse {again : {β : Type} → Call β → Run S β} {body : Run S α} {P : Rig → Prop}
    (h : w.At s n r ps) (used : 0 < n) (does : ∀ w, w.At s (n + 1) r ps →
      Ensures body w fun _ w' => ∃ r', w'.At s (n + 1) r' ps ∧ P r') :
    Ensures (duringUse app again s body) w fun _ w' => ∃ r', w'.At s n r' ps ∧ P r' := by
  have enters := h.used (f := fun y => { y with users := y.users + 1 }) (n + 1)
    fun _ same => by rw [same]
  refine ensures_bind.mpr (ensures_modifySession.mpr ?_)
  refine (does _ enters).bind ?_
  rintro a v ⟨r', done, holds⟩
  refine (done.release used).bind fun _ v left => ?_
  exact ensures_pure.mpr ⟨r', left, holds⟩

/-- What a session does about an event happens with one more user. -/
theorem whileUsed {body : Run S Unit} {r' : Rig} (h : w.At s n r ps) (used : 0 < n)
    (does : ∀ w, w.At s (n + 1) r ps → Ensures body w fun _ w' => w'.At s (n + 1) r' ps) :
    Ensures (whileUsed (perform app depth) s body) w fun _ w' => w'.At s n r' ps := by
  refine ensures_bind.mpr (ensures_session.mpr fun y known => ?_)
  rw [if_pos (h.known_users known ▸ used)]
  have enters := h.used (f := fun y => { y with users := y.users + 1 }) (n + 1)
    fun _ same => by rw [same]
  refine ensures_bind.mpr (ensures_modifySession.mpr ?_)
  refine (does _ enters).bind fun _ v done => ?_
  cases depth with
  | zero => exact ensures_throw
  | succ depth => exact done.release used

/-- A session only writes down that its processor was started, stopped or closed. -/
theorem hear_mere (h : w.At s n r ps) (used : 0 < n) {e : Event} (mere : e.isMere = true)
    {z : Subscriber} (own : z.IsOf s) :
    Ensures (hear app (perform app depth) p e z) w fun _ w' => w'.At s n r ps := by
  cases z with
  | watcher => exact own.elim
  | capture t =>
    obtain rfl : t = s := own
    refine h.whileUsed used fun v inUse => ?_
    refine ensures_bind.mpr (ensures_session.mpr fun y _ => ?_)
    cases e with
    | configured | realized => cases mere
    | started | stopped | closed | failed => exact inUse.sessionNotice t _
  | stream t ssrc =>
    obtain rfl : t = s := own
    refine h.whileUsed used fun v inUse => ?_
    cases e with
    | configured | realized => cases mere
    | started | stopped | closed | failed => exact inUse.sessionNotice t _

/-- An event is told to the subscribers one after the other. -/
theorem emit (h : w.At s n r ps) {e : Event} {r' : Rig}
    (hears : ∀ x v, r.processors[p]? = some x → v.At s n r ps →
      Ensures (Run.each (deliver app (perform app depth) p e) x.subscribers) v
        fun _ w' => w'.At s n r' ps) :
    Ensures (emit app (perform app depth) p e) w fun _ w' => w'.At s n r' ps := by
  apply Ensures.record
  apply Ensures.processor
  intro x known
  exact hears x.core _ (h.processor known) (h.record _)

theorem emit_mere (h : w.At s n r ps) (used : 0 < n) {e : Event} (mere : e.isMere = true) :
    Ensures (Metering.emit app (perform app depth) p e) w fun _ w' => w'.At s n r ps := by
  refine h.emit fun x v known at_v => ?_
  have own := (h.own p x known).heard
  generalize x.subscribers = subscribers at own
  induction subscribers generalizing v with
  | nil => exact ensures_pure.mpr at_v
  | cons z zs ih =>
    refine Ensures.bind (P := fun _ w' => w'.At s n r ps) ?_ fun _ v' at_v' =>
      ih v' at_v' fun z' member => own z' (List.mem_cons_of_mem z member)
    apply Ensures.record
    exact (at_v.record _).hear_mere used mere (own z List.mem_cons_self)

/-- A processor with one subscriber tells that one. -/
theorem emit_one (h : w.At s n r ps) {e : Event} {r' : Rig} {x : Processor} {z : Subscriber}
    (known : r.processors[p]? = some x) (one : x.subscribers = [z])
    (hears : ∀ v : World S, v.At s n r ps →
      Ensures (hear app (perform app depth) p e z) v fun _ w' => w'.At s n r' ps) :
    Ensures (Metering.emit app (perform app depth) p e) w fun _ w' => w'.At s n r' ps := by
  refine h.emit fun y v known' at_v => ?_
  obtain rfl := Option.some.inj (known.symm.trans known')
  rw [one]
  refine Ensures.bind (P := fun _ w' => w'.At s n r' ps) ?_ fun _ _ told =>
    ensures_pure.mpr told
  apply Ensures.record
  exact hears _ (at_v.record _)

end Hearing

section Phases

variable {app : Application S} {depth : Nat} {p : ProcessorId}

/-- A processor in another phase does not leave it. -/
theorem advance_stays (h : w.At s n r ps) {x : Processor} {a c : Phase}
    (known : w.rig.processors[p]? = some x) (other : x.phase ≠ a) : r.advance p a c = r :=
  Rig.advance_same fun y known' => by
    obtain rfl := Option.some.inj ((h.processor known).symm.trans known')
    exact other

/-- A processor leaves its phase, and tells so. -/
theorem advance_moves (h : w.At s n r ps) (used : 0 < n) {x : Processor} {a c : Phase}
    (known : w.rig.processors[p]? = some x) (here : x.phase = a) {e : Event}
    (mere : e.isMere = true) : Ensures (do
      Run.moveTo p c
      Metering.emit app (perform app depth) p e
      return .ok ()) w fun (_ : Except Fault Unit) w' => w'.At s n (r.advance p a c) ps := by
  refine (h.moveTo p c).bind fun _ v moved => ?_
  have goes : r.setPhase p c = r.advance p a c := (Rig.advance_of (h.processor known) here).symm
  rw [goes] at moved
  exact (moved.emit_mere used mere).bind fun _ v told => ensures_pure.mpr told

theorem start (h : w.At s n r ps) (used : 0 < n) (p : ProcessorId) :
    Ensures (start app (perform app depth) p) w fun _ w' =>
      w'.At s n (r.advance p .realized .started) ps := by
  apply Ensures.processor
  intro x known
  rw [if_neg (by simp [h.internal known])]
  split
  case h_1 realized => exact h.advance_moves used known realized rfl
  case h_2 started =>
    have other : x.phase ≠ .realized := by simp [started]
    exact ensures_pure.mpr (by rwa [h.advance_stays known other])
  case h_3 other _ => exact ensures_pure.mpr (by rwa [h.advance_stays known other])

theorem stop (h : w.At s n r ps) (used : 0 < n) (p : ProcessorId) :
    Ensures (stop app (perform app depth) p) w fun _ w' =>
      w'.At s n (r.advance p .started .realized) ps := by
  apply Ensures.processor
  intro x known
  rw [if_neg (by simp [h.internal known])]
  split
  case h_1 started => exact h.advance_moves used known started rfl
  case h_2 realized =>
    have other : x.phase ≠ .started := by simp [realized]
    exact ensures_pure.mpr (by rwa [h.advance_stays known other])
  case h_3 other _ => exact ensures_pure.mpr (by rwa [h.advance_stays known other])

/-- The chain of a track holds nothing but the effect of its stream. -/
theorem track_simple (h : w.At s n r ps) {x : Processor} (known : w.rig.processors[p]? = some x)
    {i : Nat} {t : Track} (track : x.tracks[i]? = some t) : t.Simple := by
  have core_track : x.core.tracks[i]? = some { t with isOpen := false } := by
    rw [Processor.core, Processor.shut_track, track]
    rfl
  exact (h.own p _ (h.processor known)).simple { t with isOpen := false }
    (List.mem_of_getElem? core_track)

/-- Whether the plug-ins of a track are open is not part of the core. -/
theorem setOpen (h : w.At s n r ps) (i : Nat) (isOpen : Bool) :
    (w.modify p fun x => x.modifyTrack i fun t => { t with isOpen }).At s n r ps :=
  h.modify_same fun x _ => by
    unfold Processor.core
    rw [Processor.shut_modifyTrack]

/-- Whether a chain is held is not part of the core. -/
theorem holding (h : w.At s n r ps) {r' : Rig} (i : Nat) {calls : Run S α} {Q : α → Prop}
    (does : ∀ v : World S, v.At s n r ps → Ensures calls v fun a w' => Q a ∧ w'.At s n r' ps) :
    Ensures (Run.holding p i calls) w fun a w' => Q a ∧ w'.At s n r' ps := by
  have held : (w.modify p (·.hold i)).At s n r ps := h.modify_same fun _ _ => rfl
  refine ensures_holding.mpr fun _ _ _ => (does _ held).mono ?_
  rintro a v ⟨holds, at_v⟩
  exact ⟨holds, at_v.modify_same fun _ _ => rfl⟩

theorem closeTrack (h : w.At s n r ps) {again : {β : Type} → Call β → Run S β} (i : Nat) :
    Ensures (closeTrack app again p i) w fun _ w' => w'.At s n r ps := by
  apply Ensures.track
  intro x known
  cases track : x.tracks[i]? with
  | none => exact ensures_pure.mpr h
  | some t =>
    dsimp only
    split
    case isFalse => exact ensures_pure.mpr h
    case isTrue =>
      have closes (v : World S) (at_v : v.At s n r ps) :
          Ensures (Chain.closeAll app again t.chain) v fun _ w' => True ∧ w'.At s n r ps := by
        obtain bare | ⟨e, only, -⟩ := h.track_simple known track
        · rw [bare]
          exact ensures_pure.mpr ⟨trivial, at_v⟩
        · rw [only]
          refine Ensures.bind (P := fun _ w' => w'.At s n r ps) ?_ fun _ _ closed =>
            ensures_pure.mpr ⟨trivial, closed⟩
          exact ensures_record.mpr (at_v.record _)
      refine ensures_bind.mpr (ensures_modifyProcessor.mpr ?_)
      exact ((h.setOpen i false).holding i closes).mono fun _ _ => And.right

theorem closeTracks (h : w.At s n r ps) {again : {β : Type} → Call β → Run S β} (is : List Nat) :
    Ensures (Run.each (Metering.closeTrack app again p) is) w fun _ w' => w'.At s n r ps := by
  induction is generalizing w with
  | nil => exact ensures_pure.mpr h
  | cons i is ih => exact (h.closeTrack i).bind fun _ _ shut => ih shut

theorem close (h : w.At s n r ps) (used : 0 < n) (p : ProcessorId) :
    Ensures (close app (perform app depth) p) w fun _ w' =>
      w'.At s n (r.setPhase p .closed) ps := by
  apply Ensures.processor
  intro x known
  rw [if_neg (by simp [h.internal known])]
  split
  case isFalse closed =>
    have closed : x.phase = .closed := by simpa [Phase.isClosed] using closed
    exact ensures_pure.mpr (by rwa [Rig.setPhase_of (h.processor known) closed])
  case isTrue =>
    refine (h.moveTo p .closed).bind fun _ v moved => ?_
    have ends {v : World S} (at_v : v.At s n (r.setPhase p .closed) ps) (k : Notice) :
        Ensures (do Run.notice k; Metering.emit app (perform app depth) p .closed) v
          fun _ w' => w'.At s n (r.setPhase p .closed) ps :=
      (at_v.notice k).bind fun _ _ told => told.emit_mere used rfl
    dsimp only
    split
    case isFalse => exact ends moved _
    case isTrue => exact (moved.closeTracks _).bind fun _ _ shut => ends shut _

end Phases

end World.At

end Metering
