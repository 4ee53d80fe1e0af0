import Metering.Proofs.Using
/-!
Who is told about a frame. At every moment the effects of a session hold the listeners that were
given last, whenever they were given, and a frame reaches nobody but the listener of the side that
its processor is on. Processors that are not in use any more reach nobody.
-/

namespace Metering

variable {S α : Type}

def Deed.localListener : Deed → Option (Option ListenerId)
  | .setLocalListener _ l => some l
  | _ => none

def Deed.streamListener : Deed → Option (Option ListenerId)
  | .setStreamListener _ l => some l
  | _ => none

def given (gives : Deed → Option (Option ListenerId)) : List Page → Option ListenerId
  | [] => none
  | .did _ d :: ps => (gives d).getD (given gives ps)
  | .heard .. :: ps => given gives ps

abbrev localListener (ps : List Page) : Option ListenerId := given Deed.localListener ps

abbrev streamListener (ps : List Page) : Option ListenerId := given Deed.streamListener ps

/-- The local effect of a session holds one listener, and the effects of its streams another. -/
def Rig.Listens (r : Rig) (s : SessionId) (near far : Option ListenerId) : Prop :=
  ∃ y, r.sessions[s]? = some y ∧
    (∃ z, r.effects[y.localEffect]? = some z ∧ z.listener = near) ∧
    ∀ k ∈ y.streams, ∃ z, r.effects[k.2.effect]? = some z ∧ z.listener = far

/-- A frame on a processor can reach a listener: the processor is started, and it is in use for
capture or plays a stream, and the listener is that of its side. -/
structure Rig.Reaches (r : Rig) (s : SessionId) (p : ProcessorId) (near far : Option ListenerId)
    (l : ListenerId) : Prop where
  started : ∃ x, r.processors[p]? = some x ∧ x.phase = .started
  used : ∃ y, r.sessions[s]? = some y ∧
    (y.capture = some p ∨ ∃ k ∈ y.streams, k.2.processor = p)
  capture : ∀ y, r.sessions[s]? = some y → y.capture = some p → near = some l
  stream : ∀ y, r.sessions[s]? = some y → ∀ k ∈ y.streams, k.2.processor = p → far = some l

section Core

variable {r : Rig}

theorem Rig.of_core_session {s : SessionId} {y : Session} (known : r.core.sessions[s]? = some y) :
    ∃ y', r.sessions[s]? = some y' ∧ y'.core = y := by
  simpa [Rig.core] using known

theorem Rig.of_core_effect {e : EffectId} {z : LevelEffect} (known : r.core.effects[e]? = some z) :
    ∃ z', r.effects[e]? = some z' ∧ z'.core = z := by
  simpa [Rig.core] using known

theorem Rig.of_core_processor {p : ProcessorId} {x : Processor}
    (known : r.core.processors[p]? = some x) : ∃ x', r.processors[p]? = some x' ∧ x'.core = x := by
  simpa [Rig.core] using known

end Core

theorem History.hears_listener (h : History) (b : Buffer) : (h.hears b).listener = h.listener := by
  unfold History.hears
  split
  · rfl
  · rfl

section Board

variable {g : Setting} {b : Board}

/-- A stream that is added listens as the others do. -/
theorem Board.added_listener {d : Deed} {f : Feed} (added : f ∈ b.added g d) :
    f.history.listener = b.streamListener ∧ Deed.streamListener d = none := by
  cases d with
  | addStream s ssrc p =>
    simp only [Board.added] at added
    split at added
    · cases added
    · obtain rfl := List.mem_singleton.mp added
      exact ⟨rfl, rfl⟩
  | _ => cases added

/-- A deed gives a stream the listener that it gives to all streams, or none. -/
theorem Feed.after_listener {f f' : Feed} {d : Deed} (after : f.after g d = some f') :
    f'.history.listener = (Deed.streamListener d).getD f.history.listener := by
  cases d with
  | removeStream s ssrc =>
    simp only [Feed.after] at after
    split at after
    · cases after
    · cases after
      rfl
  | closeSession s => cases after
  | process p i b =>
    simp only [Feed.after, Option.some.injEq] at after
    subst after
    split
    · exact History.hears_listener _ _
    · rfl
  | _ =>
    cases after
    rfl

theorem Intake.after_listener (k : Intake) (d : Deed) :
    (k.after g d).history.listener = (Deed.localListener d).getD k.history.listener := by
  cases d with
  | process p i b =>
    simp only [Intake.after]
    split
    · exact History.hears_listener _ _
    · rfl
  | _ => rfl

/-- The board says who listens: on either side the listener that was given last. -/
theorem Setting.listeners (g : Setting) (ps : List Page) :
    (g.reference.state ps).intake.history.listener = localListener ps ∧
    (g.reference.state ps).streamListener = streamListener ps ∧
    ∀ f ∈ (g.reference.state ps).streams, f.history.listener = streamListener ps := by
  induction ps with
  | nil => exact ⟨rfl, rfl, fun f member => (List.not_mem_nil member).elim⟩
  | cons page ps ih =>
    obtain ⟨near, far, streams⟩ := ih
    cases page with
    | heard => exact ⟨near, far, streams⟩
    | did r d =>
      refine ⟨?_, ?_, ?_⟩
      · exact (Intake.after_listener _ d).trans (by rw [near]; rfl)
      · change ((g.reference.state ps).after g d).streamListener = _
        cases d with
        | setStreamListener s l => rfl
        | _ => exact far
      · intro f member
        obtain kept | added := List.mem_append.mp member
        · obtain ⟨before, member, after⟩ := List.mem_filterMap.mp kept
          exact (Feed.after_listener after).trans (by rw [streams before member]; rfl)
        · obtain ⟨listener, none⟩ := Board.added_listener added
          change f.history.listener = (Deed.streamListener d).getD (streamListener ps)
          rw [listener, far, none]
          rfl

end Board

namespace Setting

variable {g : Setting} {r : Rig} {ps : List Page}

/-- The effects hold the listeners that were given last. -/
theorem listens (fits : g.reference.fits (g.reference.state ps) r) :
    r.Listens g.session (localListener ps) (streamListener ps) := by
  obtain ⟨near, -, far⟩ := g.listeners ps
  obtain ⟨-, -, fits⟩ := fits
  obtain ⟨y, cored, shows⟩ := fits.session
  obtain ⟨y, known, rfl⟩ := Rig.of_core_session cored
  refine ⟨y, known, ?_, ?_⟩
  · obtain ⟨z, cored, of⟩ := fits.tenants.known _ List.mem_cons_self
    obtain ⟨z, effect, rfl⟩ := Rig.of_core_effect cored
    have local_eq : y.localEffect = g.localEffect := shows.effect
    exact ⟨z, local_eq ▸ effect, of.listener.trans near⟩
  · intro k member
    have streams : y.streams = _ := shows.streams
    rw [streams] at member
    obtain ⟨f, stream, rfl⟩ := List.mem_map.mp member
    obtain ⟨z, cored, of⟩ := fits.tenants.known (f.effect, f.history)
      (List.mem_cons_of_mem _ (List.mem_map.mpr ⟨f, stream, rfl⟩))
    obtain ⟨z, effect, rfl⟩ := Rig.of_core_effect cored
    exact ⟨z, effect, of.listener.trans (far f stream)⟩

/-- Whoever is told about a frame is the listener of the side that its processor is on. -/
theorem reaches (fits : g.reference.fits (g.reference.state ps) r) {d : Deed} {l : ListenerId}
    {n : Int} (tells : (g.reference.state ps).tells g d = some (l, n)) :
    ∃ p i b, d = .process p i b ∧
      r.Reaches g.session p (localListener ps) (streamListener ps) l := by
  obtain ⟨near, -, far⟩ := g.listeners ps
  obtain ⟨-, -, fits⟩ := fits
  obtain ⟨y, cored, shows⟩ := fits.session
  obtain ⟨y, session, rfl⟩ := Rig.of_core_session cored
  cases d with
  | process p i b =>
    refine ⟨p, i, b, rfl, ?_⟩
    obtain ⟨t, found, told⟩ := Option.bind_eq_some_iff.mp tells
    have hears : g.hears t.1 p i = true := by
      simpa using List.find?_some (p := fun t : Seat × History => g.hears t.1 p i) found
    obtain ⟨here, started, -⟩ := Setting.hears_iff.mp hears
    have post := List.mem_of_find?_eq_some found
    have seat := Board.Fits.post_seat post
    have listener := History.told_listener told
    have capture : y.capture = (g.reference.state ps).intake.seat.map (·.processor) :=
      shows.capture
    have streams : y.streams = _ := shows.streams
    have one (y' : Session) (known : r.sessions[g.session]? = some y') : y' = y :=
      Option.some.inj (known.symm.trans session)
    -- The four conditions of `Reaches`: the processor is started, the session has it, and the
    -- listener is that of the capture or of the streams.
    refine ⟨?_, ?_, ?_, ?_⟩
    · obtain ⟨x, cored⟩ := fits.seats.known t.1 seat
      have phase := ((fits.seats.placed _ x cored).seat t.1 seat rfl).1
      obtain ⟨x, known, rfl⟩ := Rig.of_core_processor cored
      exact ⟨x, here ▸ known, phase.trans started⟩
    · refine ⟨y, session, ?_⟩
      obtain intake | ⟨f, stream, same⟩ := Board.mem_seats.mp seat
      · exact .inl (by rw [capture, intake, Option.map_some, here])
      · refine .inr ⟨_, streams ▸ List.mem_map.mpr ⟨f, stream, rfl⟩, ?_⟩
        exact (congrArg Seat.processor same).trans here
    · intro y' known captured
      obtain rfl := one y' known
      rw [capture, Option.map_eq_some_iff] at captured
      obtain ⟨q, intake, same⟩ := captured
      obtain ⟨-, history⟩ | ⟨f, stream, rfl⟩ := Board.mem_posts.mp post
      · rw [← near, ← history, listener]
      · exact absurd (here.trans same.symm) (fits.processor_ne_capture stream intake)
    · intro y' known k member same
      obtain rfl := one y' known
      rw [streams] at member
      obtain ⟨f, stream, rfl⟩ := List.mem_map.mp member
      obtain ⟨intake, -⟩ | ⟨f', stream', rfl⟩ := Board.mem_posts.mp post
      · exact absurd (same.trans here.symm) (fits.processor_ne_capture stream intake)
      · rw [← far f' stream', listener]
  | _ => cases tells

end Setting

/-- At every moment the effects of the session hold the listeners that were given last, and nobody
is told about a frame but the listener of the side that the processor of the frame is on. -/
theorem levels_reach_listeners {app : Application S} {s : SessionId} {y : Session} {w : World S}
    (opens : w.rig.Opens s y) (blank : w.story = [])
    (listens : ∀ l n, (app.level l n).Confined (Deed.Uses s)) {program : Program S α}
    (confined : program.Confined (Deed.Uses s)) (depth : Nat) :
    Ensures (program.run (perform app depth)) w fun _ w' => Orderly w'.story →
      w'.rig.Listens s (localListener w'.story) (streamListener w'.story) ∧
      (∀ later r d earlier, w'.story = later ++ .did r d :: earlier →
        r.Listens s (localListener earlier) (streamListener earlier)) ∧
      ∀ later l n earlier, w'.story = later ++ .heard l n :: earlier →
        ∃ r p i b rest, earlier = .did r (.process p i b) :: rest ∧
          r.Reaches s p (localListener rest) (streamListener rest) l := by
  have runs := Setting.runs (g := w.rig.setting s y) listens confined (opens.holds rfl blank) depth
  refine runs.mono ?_
  intro _ w' holds orderly
  obtain ⟨follows, fits⟩ := holds orderly
  refine ⟨Setting.listens fits, ?_, ?_⟩
  · intro later r d earlier eq
    exact Setting.listens (follows.stood eq)
  · intro later l n earlier eq
    obtain ⟨r, d, rest, rfl, stood, tells⟩ := follows.told eq
    obtain ⟨p, i, b, rfl, reaches⟩ := Setting.reaches stood tells
    exact ⟨r, p, i, b, rest, rfl, reaches⟩

def Session.unused : Session where
  label := "call"
  device := { id := "1", name := "headset" }
  config := {}
  localEffect := 0

/-- The session, and a microphone and two speakers that nobody has used either. -/
def Rig.unused : Rig where
  processors := ["microphone", "left speaker", "right speaker"].map fun name =>
    .new name [⟨.audio (.linear16 8000.0 1), true⟩]
  effects := [.new {}]
  sessions := [.unused]

theorem Rig.unused_opens : Rig.unused.Opens 0 .unused := by
  refine ⟨rfl, rfl, rfl, rfl, rfl, rfl, ?_⟩
  intro p x known
  have bare (name : String) (t : TrackPlan) : (Processor.new name [t]).Blank := by
    refine ⟨rfl, ?_, fun _ => ?_⟩
    · intro u member
      rw [List.mem_singleton.mp member]
      rfl
    · intro u member
      rw [List.mem_singleton.mp member]
      rfl
  match p, known with
  | 0, rfl => exact ⟨rfl, bare _ _⟩
  | 1, rfl => exact ⟨rfl, bare _ _⟩
  | 2, rfl => exact ⟨rfl, bare _ _⟩

def Program.calling : Program Unit Unit := do
  .send (.setLocalListener 0 (some 1))
  .send (.setStreamListener 0 (some 2))
  let _ ← .send (.connectCapture 0 0)
  let _ ← .send (.addStream 0 7 1)
  let _ ← .send (.startSession 0)
  let _ ← .send (.process 0 0 .tick)
  let _ ← .send (.process 1 0 .tick)
  let _ ← .send (.removeStream 0 7)
  .send (.closeSession 0)

/-- Whoever is told a level lets the next one listen to the streams. -/
def Application.relay : Application Unit :=
  { Application.silent Unit with level := fun l _ => .send (.setStreamListener 0 (some (l + 1))) }

def Page.listener? : Page → Option ListenerId
  | .did .. => none
  | .heard l _ => some l

theorem levels_reach_listeners_calling : Rig.unused.Opens 0 .unused ∧
    (∀ l n, (Application.relay.level l n).Confined (Deed.Uses 0)) ∧
    Program.calling.Confined (Deed.Uses 0) ∧
    (Program.calling.run (perform Application.relay 9)).Ends { app := (), rig := .unused } fun w =>
      Orderly w.story ∧ w.story.filterMap Page.listener? = [2, 1] ∧
        w.rig.Listens 0 (localListener w.story) (streamListener w.story) := by
  have listens (l : ListenerId) (n : Int) :
      (Application.relay.level l n).Confined (Deed.Uses 0) := ⟨rfl, fun _ => trivial⟩
  have confined : Program.calling.Confined (Deed.Uses 0) := by
    refine ⟨rfl, fun _ => ⟨rfl, fun _ => ⟨rfl, fun _ => ⟨rfl, fun _ => ⟨rfl, fun _ => ?_⟩⟩⟩⟩⟩
    exact ⟨trivial, fun _ => ⟨trivial, fun _ => ⟨rfl, fun _ => ⟨rfl, fun _ => trivial⟩⟩⟩⟩
  have ends : (Program.calling.run (perform Application.relay 9)).Ends
      { app := (), rig := .unused } fun w =>
        Orderly w.story ∧ w.story.filterMap Page.listener? = [2, 1] := by
    decide +kernel
  obtain ⟨a, w, run, orderly, told⟩ := ends
  have reach := levels_reach_listeners Rig.unused_opens rfl listens confined 9 a w run orderly
  exact ⟨Rig.unused_opens, listens, confined, a, w, run, orderly, told, reach.1⟩

end Metering
