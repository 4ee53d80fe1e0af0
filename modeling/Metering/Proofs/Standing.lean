import Metering.Proofs.Board
/-!
The rig stays as the board says. For each change that an operation makes to the core of a rig there
is one lemma, which says how the board changes with it.
-/

namespace Metering

variable {g : Setting} {b : Board} {r : Rig} {p : ProcessorId}

theorem Setting.hears_iff {q : Seat} {i : Nat} : g.hears q p i = true ↔
    q.processor = p ∧ q.phase = .started ∧ g.meters p i = true := by
  simp [Setting.hears, and_assoc]

theorem Session.Shows.hasStream {y : Session} (shows : y.Shows g b) (ssrc : Ssrc) :
    y.hasStream ssrc = b.streams.any (·.ssrc == ssrc) := by
  rw [Session.hasStream, shows.streams, List.any_map]
  rfl

theorem Session.Shows.stream? {y : Session} (shows : y.Shows g b) (ssrc : Ssrc) :
    y.stream? ssrc = (b.streams.find? (·.ssrc == ssrc)).map fun f => ⟨f.processor, f.effect⟩ := by
  rw [Session.stream?, shows.streams]
  induction b.streams with
  | nil => rfl
  | cons f fs ih =>
    rw [List.map_cons, List.lookup_cons, ih]
    by_cases here : f.ssrc = ssrc
    · simp [here]
    · have there : (ssrc == f.ssrc) = false := by simpa using fun same => here same.symm
      simp [here, there]

namespace Board

@[simp]
theorem mem_seats {q : Seat} :
    q ∈ b.seats ↔ q ∈ b.intake.seat ∨ ∃ f ∈ b.streams, f.toSeat = q := by
  simp [seats]

theorem mem_posts {t : Seat × History} : t ∈ b.posts ↔
    (t.1 ∈ b.intake.seat ∧ t.2 = b.intake.history) ∨
      ∃ f ∈ b.streams, t = (f.toSeat, f.history) := by
  unfold posts
  cases seat : b.intake.seat with
  | none => simp [eq_comm]
  | some q =>
    obtain ⟨q', h⟩ := t
    simp [eq_comm, Prod.ext_iff]

def turn (b : Board) (p : ProcessorId) (f : Phase → Phase) : Board :=
  { b with
    intake := { b.intake with seat := b.intake.seat.map (·.turn p f) }
    streams := b.streams.map fun x => { x with toSeat := x.toSeat.turn p f } }

theorem turn_seats (f : Phase → Phase) : (b.turn p f).seats = b.seats.map (·.turn p f) := by
  unfold seats turn
  cases b.intake.seat with
  | none => simp [Function.comp_def]
  | some q => simp [Function.comp_def]

theorem turn_tenants (f : Phase → Phase) : (b.turn p f).tenants g = b.tenants g := by
  simp [tenants, turn, Function.comp_def]

namespace Fits

/-- A processor in use has one seat, and so it has one history. -/
theorem post {q : Seat} (member : q ∈ b.seats) : ∃ k, (q, k) ∈ b.posts := by
  obtain seat | ⟨f, stream, rfl⟩ := mem_seats.mp member
  · exact ⟨b.intake.history, mem_posts.mpr (.inl ⟨seat, rfl⟩)⟩
  · exact ⟨f.history, mem_posts.mpr (.inr ⟨f, stream, rfl⟩)⟩

theorem post_seat {t : Seat × History} (member : t ∈ b.posts) : t.1 ∈ b.seats := by
  obtain ⟨seat, -⟩ | ⟨f, stream, rfl⟩ := mem_posts.mp member
  · exact mem_seats.mpr (.inl seat)
  · exact mem_seats.mpr (.inr ⟨f, stream, rfl⟩)

theorem post_tenant (h : b.Fits g r) {t : Seat × History} (member : t ∈ b.posts) :
    (t.1.effect, t.2) ∈ b.tenants g := by
  obtain ⟨seat, same⟩ | ⟨f, stream, rfl⟩ := mem_posts.mp member
  · rw [h.captured t.1 seat, same]
    exact List.mem_cons_self
  · exact List.mem_cons_of_mem _ (List.mem_map.mpr ⟨f, stream, rfl⟩)

/-- The effect that a frame meets. -/
theorem meets (h : b.Fits g r) {x : Processor} (known : r.processors[p]? = some x) (i : Nat) :
    x.meets i = (b.posts.find? fun t => g.hears t.1 p i).map (·.1.effect) := by
  have placed := h.seats.placed p x known
  cases found : b.posts.find? fun t => g.hears t.1 p i with
  | some t =>
    have member := post_seat (List.mem_of_find?_eq_some found)
    have hears : g.hears t.1 p i = true := by
      simpa using List.find?_some (p := fun t : Seat × History => g.hears t.1 p i) found
    obtain ⟨here, started, meters⟩ := Setting.hears_iff.mp hears
    obtain ⟨phase, -, wired⟩ := placed.seat t.1 member here
    rw [wired.meets, placed.meters, if_pos ⟨phase.trans started, meters⟩]
    rfl
  | none =>
    have silent (t : Seat × History) (member : t ∈ b.posts) : g.hears t.1 p i = false := by
      simpa using List.find?_eq_none.mp found t member
    by_cases used : ∃ q ∈ b.seats, q.processor = p
    · obtain ⟨q, member, here⟩ := used
      obtain ⟨phase, -, wired⟩ := placed.seat q member here
      obtain ⟨k, post⟩ := post member
      have quiet := silent _ post
      rw [wired.meets, placed.meters]
      refine if_neg ?_
      rintro ⟨started, meters⟩
      simp [Setting.hears, here, ← phase, started, meters] at quiet
    · by_cases before : p ∈ b.taken
      · have closed := placed.left before fun q member here => used ⟨q, member, here⟩
        simp [Processor.meets, closed]
      · exact (placed.blank before).meets i

theorem turn (h : b.Fits g r) (p : ProcessorId) {f : Phase → Phase} (closed : f .closed = .closed)
    (early : ∀ a, (f a).Early → a.Early) :
    (b.turn p f).Fits g (r.modifyProcessor p fun x => { x with phase := f x.phase }) where
  session := by
    obtain ⟨y, known, shows⟩ := h.session
    refine ⟨y, known, shows.config, shows.effect, shows.listener, ?_, ?_⟩
    · rw [shows.capture]
      simp [Board.turn, Function.comp_def]
    · rw [shows.streams]
      simp [Board.turn, Function.comp_def]
  seats := by
    rw [turn_seats]
    exact h.seats.turn closed early
  tenants := by
    rw [turn_tenants]
    exact h.tenants.of_effects rfl
  effects := h.effects
  names := by simpa [Board.turn, Function.comp_def] using h.names
  captured q member := by
    obtain ⟨q', before, rfl⟩ := Option.map_eq_some_iff.mp member
    rw [Seat.turn_effect]
    exact h.captured q' before

end Fits

section After

variable {s : SessionId} {l : Option ListenerId} {ssrc : Ssrc}

theorem after_setLocalListener : b.after g (.setLocalListener s l) =
    { b with intake := { b.intake with history := { listener := l } } } := by
  simp [after, added, Feed.after, Intake.after, Seat.after]

theorem after_setStreamListener : b.after g (.setStreamListener s l) =
    { b with
      streamListener := l
      streams := b.streams.map fun f => { f with history := { listener := l } } } := by
  simp [after, added, Feed.after, Intake.after, Seat.after]

theorem after_connectCapture : b.after g (.connectCapture s p) =
    { b with
      taken := p :: b.taken
      intake := { b.intake with seat := some ⟨p, g.localEffect, .realized⟩ } } := by
  simp [after, added, Feed.after, Intake.after, Seat.after]

theorem after_addStream (absent : b.streams.any (·.ssrc == ssrc) = false) :
    b.after g (.addStream s ssrc p) =
      { b with
        taken := p :: b.taken
        effects := b.effects + 1
        streams := b.streams ++
          [⟨⟨p, b.effects, g.goal⟩, ssrc, { listener := b.streamListener }⟩] } := by
  simp [after, added, absent, Feed.after, Intake.after, Seat.after]

theorem after_addStream_refused (present : b.streams.any (·.ssrc == ssrc) = true) :
    b.after g (.addStream s ssrc p) = b := by
  simp [after, added, present, Feed.after, Intake.after, Seat.after]

theorem after_removeStream : b.after g (.removeStream s ssrc) =
    { b with streams := b.streams.filter (·.ssrc != ssrc) } := by
  have streams : b.streams.filterMap (fun f => if f.ssrc = ssrc then none else some f) =
      b.streams.filter (·.ssrc != ssrc) := by
    rw [← List.filterMap_eq_filter]
    apply List.filterMap_congr
    intro f _
    by_cases here : f.ssrc = ssrc
    · simp [Option.guard, here]
    · simp [Option.guard, here]
  simp [after, added, Feed.after, Intake.after, Seat.after, streams]

theorem after_closeSession : b.after g (.closeSession s) =
    { b with
      intake := { seat := none, history := { b.intake.history with levels := [] } }
      streams := [] } := by
  simp [after, added, Feed.after, Intake.after]

theorem after_startSession : b.after g (.startSession s) =
    { b with intake := { b.intake with
      seat := b.intake.seat.map fun q => q.turn q.processor (.step .realized .started) } } := by
  simp [after, added, Feed.after, Intake.after, Seat.after]

theorem after_stopSession : b.after g (.stopSession s) =
    { b with intake := { b.intake with
      seat := b.intake.seat.map fun q => q.turn q.processor (.step .started .realized) } } := by
  simp [after, added, Feed.after, Intake.after, Seat.after]

theorem after_start : b.after g (.start p) = b.turn p (.step .realized .started) := by
  simp [after, added, Feed.after, Intake.after, Seat.after, turn]

theorem after_stop : b.after g (.stop p) = b.turn p (.step .started .realized) := by
  simp [after, added, Feed.after, Intake.after, Seat.after, turn]

theorem after_close : b.after g (.close p) = b.turn p fun _ => .closed := by
  simp [after, added, Feed.after, Intake.after, Seat.after, turn]

end After

namespace Fits

section Alone

theorem effects_nodup (h : b.Fits g r) : (g.localEffect :: b.streams.map (·.effect)).Nodup := by
  simpa [Board.tenants, Function.comp_def] using h.tenants.single

/-- Every stream has an effect of its own. -/
theorem feed_of_effect (h : b.Fits g r) {f f' : Feed} (one : f ∈ b.streams) (two : f' ∈ b.streams)
    (same : f.effect = f'.effect) : f = f' :=
  List.inj_on_of_nodup_map (List.nodup_cons.mp h.effects_nodup).2 one two same

theorem effect_ne_local (h : b.Fits g r) {f : Feed} (stream : f ∈ b.streams) :
    f.effect ≠ g.localEffect := by
  intro same
  exact (List.nodup_cons.mp h.effects_nodup).1 (same ▸ List.mem_map_of_mem stream)

theorem processors_nodup (h : b.Fits g r) : (b.streams.map (·.processor)).Nodup := by
  have single := h.seats.single
  rw [Board.seats, List.map_append, List.map_map] at single
  exact (List.nodup_append.mp single).2.1

/-- Every stream has a processor of its own. -/
theorem feed_of_processor (h : b.Fits g r) {f f' : Feed} (one : f ∈ b.streams)
    (two : f' ∈ b.streams) (same : f.processor = f'.processor) : f = f' :=
  List.inj_on_of_nodup_map h.processors_nodup one two same

theorem processor_ne_capture (h : b.Fits g r) {f : Feed} (stream : f ∈ b.streams) {q : Seat}
    (seat : q ∈ b.intake.seat) : f.processor ≠ q.processor := by
  have single := h.seats.single
  rw [Board.seats, List.map_append, List.map_map] at single
  intro same
  refine (List.nodup_append.mp single).2.2 q.processor ?_ f.processor ?_ same.symm
  · exact List.mem_map_of_mem (Option.mem_toList.mpr seat)
  · exact List.mem_map.mpr ⟨f, stream, rfl⟩

theorem feed_of_name (h : b.Fits g r) {f f' : Feed} (one : f ∈ b.streams) (two : f' ∈ b.streams)
    (same : f.ssrc = f'.ssrc) : f = f' :=
  List.inj_on_of_nodup_map h.names one two same

end Alone

section Effects

variable {F : LevelEffect → LevelEffect} {k : History}

/-- The local effect changes, and so does its history. -/
theorem modifyLocal (h : b.Fits g r) (keeps : ∀ z, r.effects[g.localEffect]? = some z →
    b.intake.history.Of g.config.effect z → k.Of g.config.effect (F z)) :
    ({ b with intake := { b.intake with history := k } } : Board).Fits g
      (r.modifyEffect g.localEffect F) := by
  have changed := h.tenants.modify (e := g.localEffect) (f := F) (k := fun _ => k)
    fun t member here z known of => by
      obtain rfl := h.tenants.eq_of_effect (u := (g.localEffect, b.intake.history)) member
        List.mem_cons_self here
      exact keeps z known of
  have same : ((b.tenants g).map fun t => if t.1 = g.localEffect then (t.1, k) else t) =
      ({ b with intake := { b.intake with history := k } } : Board).tenants g := by
    simp only [Board.tenants, List.map_cons, if_true, List.map_map]
    congr 1
    apply List.map_congr_left
    intro f stream
    exact if_neg (h.effect_ne_local stream)
  obtain ⟨y, known, shows⟩ := h.session
  refine ⟨⟨y, known, { shows with }⟩, h.seats.of_processors rfl, same ▸ changed, ?_, h.names,
    h.captured⟩
  simpa [Rig.modifyEffect] using h.effects

/-- Apart from its history, a stream stays as it is. -/
theorem map_feed {γ : Type} {f : Feed} (key : Feed → γ)
    (keeps : ∀ x, key { x with history := k } = key x) (feeds : List Feed) :
    (feeds.map fun x => if x.processor = f.processor then { x with history := k } else x).map key =
      feeds.map key := by
  rw [List.map_map]
  apply List.map_congr_left
  intro x _
  by_cases here : x.processor = f.processor
  · simp [here, keeps]
  · simp [here]

/-- The effect of a stream changes, and so does its history. -/
theorem modifyFeed (h : b.Fits g r) {f : Feed} (stream : f ∈ b.streams)
    (keeps : ∀ z, r.effects[f.effect]? = some z → f.history.Of g.config.effect z →
      k.Of g.config.effect (F z)) :
    ({ b with streams := b.streams.map fun x =>
        if x.processor = f.processor then { x with history := k } else x } : Board).Fits g
      (r.modifyEffect f.effect F) := by
  have changed := h.tenants.modify (e := f.effect) (f := F) (k := fun _ => k)
    fun t member here z known of => by
      obtain rfl := h.tenants.eq_of_effect (u := (f.effect, f.history)) member
        (List.mem_cons_of_mem _ (List.mem_map.mpr ⟨f, stream, rfl⟩)) here
      exact keeps z known of
  have same : ((b.tenants g).map fun t => if t.1 = f.effect then (t.1, k) else t) =
      ({ b with streams := b.streams.map fun x =>
        if x.processor = f.processor then { x with history := k } else x } : Board).tenants g := by
    have mine : g.localEffect ≠ f.effect := (h.effect_ne_local stream).symm
    simp only [Board.tenants, List.map_cons, if_neg mine, List.map_map]
    congr 1
    apply List.map_congr_left
    intro x member
    by_cases here : x = f
    · simp [here]
    · have effect : x.effect ≠ f.effect := fun same => here (h.feed_of_effect member stream same)
      have processor : x.processor ≠ f.processor := fun same =>
        here (h.feed_of_processor member stream same)
      simp [effect, processor]
  obtain ⟨y, known, shows⟩ := h.session
  refine ⟨⟨y, known, { shows with streams := ?_ }⟩, ?_, same ▸ changed, ?_, ?_, h.captured⟩
  · rw [shows.streams]
    exact (map_feed (fun x => (x.ssrc, (⟨x.processor, x.effect⟩ : Stream))) (fun _ => rfl) _).symm
  · unfold Board.seats
    rw [map_feed (·.toSeat) fun _ => rfl]
    exact h.seats.of_processors rfl
  · simpa [Rig.modifyEffect] using h.effects
  · rw [map_feed (·.ssrc) fun _ => rfl]
    exact h.names

end Effects

variable {y : Session} {l : Option ListenerId} {ssrc : Ssrc}

theorem setLocalListener (h : b.Fits g r) (shows : y.Shows g b) :
    (b.after g (.setLocalListener g.session l)).Fits g
      (r.modifyEffect y.localEffect (·.setListener l)) := by
  rw [after_setLocalListener, shows.effect]
  exact h.modifyLocal fun _ _ of => of.setListener l

/-- All streams get a listener, which has heard nothing yet. -/
theorem tenants_listening (h : b.Fits g r) : ((b.tenants g).map fun t =>
    if t.1 ∈ b.streams.map (·.effect) then (t.1, { listener := l }) else t) =
    (b.after g (.setStreamListener g.session l)).tenants g := by
  have mine : g.localEffect ∉ b.streams.map (·.effect) := by
    intro member
    obtain ⟨f, stream, same⟩ := List.mem_map.mp member
    exact h.effect_ne_local stream same
  rw [after_setStreamListener]
  simp only [Board.tenants, List.map_cons, if_neg mine, List.map_map]
  congr 1
  apply List.map_congr_left
  intro f stream
  exact if_pos (List.mem_map_of_mem stream)

theorem setStreamListener (h : b.Fits g r) (known : r.sessions[g.session]? = some y)
    (shows : y.Shows g b) : (b.after g (.setStreamListener g.session l)).Fits g
      (y.streams.foldl (fun r k => r.modifyEffect k.2.effect (·.setListener l))
        (r.modifySession g.session fun y => { y with streamListener := l })) := by
  have effects : y.streams.foldl (fun r k => r.modifyEffect k.2.effect (·.setListener l))
      (r.modifySession g.session fun y => { y with streamListener := l }) =
      (b.streams.map (·.effect)).foldl (fun r e => r.modifyEffect e (·.setListener l))
        (r.modifySession g.session fun y => { y with streamListener := l }) := by
    rw [shows.streams, List.foldl_map, List.foldl_map]
  obtain ⟨sessions, processors, length⟩ := Rig.modifyAll_frame
    (r := r.modifySession g.session fun y => { y with streamListener := l }) (·.setListener l)
    (b.streams.map (·.effect))
  have changed := (h.tenants.of_effects
    (v := r.modifySession g.session fun y => { y with streamListener := l }) rfl).modifyAll
      (f := (·.setListener l)) (k := { listener := l }) (fun _ _ of => of.setListener l)
      (b.streams.map (·.effect))
  rw [effects]
  refine ⟨⟨{ y with streamListener := l }, ?_, ?_⟩, ?_, h.tenants_listening ▸ changed, ?_, ?_, ?_⟩
  · rw [sessions]
    exact Rig.modifySession_known known
  · rw [after_setStreamListener]
    exact { shows with
      listener := rfl
      streams := by simpa [Function.comp_def] using shows.streams }
  · have seats : (b.after g (.setStreamListener g.session l)).seats = b.seats := by
      rw [after_setStreamListener]
      simp [Board.seats, Function.comp_def]
    rw [seats, after_setStreamListener]
    exact h.seats.of_processors processors
  · rw [length, after_setStreamListener]
    exact h.effects
  · rw [after_setStreamListener]
    simpa [Function.comp_def] using h.names
  · rw [after_setStreamListener]
    exact h.captured

section Turning

variable {f : Phase → Phase}

theorem advance_eq {a c : Phase} : r.advance p a c =
    r.modifyProcessor p fun x => { x with phase := Phase.step a c x.phase } := by
  refine Rig.modifyProcessor_congr fun x _ => ?_
  unfold Phase.step
  by_cases here : x.phase = a
  · rw [if_pos here, if_pos here]
  · rw [if_neg here, if_neg here]

theorem turn_same (same : ∀ q ∈ b.seats, q.turn p f = q) : b.turn p f = b := by
  have seat : b.intake.seat.map (·.turn p f) = b.intake.seat := by
    cases seat : b.intake.seat with
    | none => rfl
    | some q => exact congrArg some (same q (mem_seats.mpr (.inl seat)))
  have streams : (b.streams.map fun x => { x with toSeat := x.toSeat.turn p f }) = b.streams := by
    have each :
        (b.streams.map fun x => { x with toSeat := x.toSeat.turn p f }) = b.streams.map id :=
      List.map_congr_left fun x member => by
        rw [same x.toSeat (mem_seats.mpr (.inr ⟨x, member, rfl⟩))]
        rfl
    rw [each, List.map_id]
  unfold Board.turn
  rw [seat, streams]

/-- The phase of the processor in use for capture changes, and no other. -/
theorem turn_intake (h : b.Fits g r) {q : Seat} (seat : b.intake.seat = some q) :
    b.turn q.processor f =
      { b with intake := { b.intake with seat := some (q.turn q.processor f) } } := by
  have streams : (b.streams.map fun x => { x with toSeat := x.toSeat.turn q.processor f }) =
      b.streams.map id :=
    List.map_congr_left fun x member => by
      rw [Seat.turn_other (h.processor_ne_capture member seat)]
      rfl
  unfold Board.turn
  rw [streams, List.map_id, seat]
  rfl

theorem step (h : b.Fits g r) (p : ProcessorId) {a c : Phase} (open_ : a ≠ .closed)
    (late : ¬c.Early) : (b.turn p (.step a c)).Fits g (r.advance p a c) := by
  rw [advance_eq]
  refine h.turn p (if_neg open_.symm) ?_
  intro d early
  unfold Phase.step at early
  split at early
  · exact absurd early late
  · exact early

theorem start (h : b.Fits g r) (p : ProcessorId) :
    (b.after g (.start p)).Fits g (r.advance p .realized .started) := by
  rw [after_start]
  exact h.step p (by decide) (by simp [Phase.Early])

theorem stop (h : b.Fits g r) (p : ProcessorId) :
    (b.after g (.stop p)).Fits g (r.advance p .started .realized) := by
  rw [after_stop]
  exact h.step p (by decide) (by simp [Phase.Early])

theorem close (h : b.Fits g r) (p : ProcessorId) :
    (b.after g (.close p)).Fits g (r.setPhase p .closed) := by
  rw [after_close]
  exact h.turn p rfl fun _ early => absurd early (by simp [Phase.Early])

/-- A processor in use was configured before. -/
theorem configure (h : b.Fits g r) (p : ProcessorId) :
    (b.after g (.configure p)).Fits g (r.advance p .unrealized .configured) := by
  have same : b.turn p (.step .unrealized .configured) = b := turn_same fun q member => by
    obtain ⟨x, known⟩ := h.seats.known q member
    obtain ⟨phase, late, -⟩ := (h.seats.placed _ x known).seat q member rfl
    unfold Seat.turn Phase.step
    split
    · rw [if_neg fun unrealized => late (.inl (phase.trans unrealized))]
    · rfl
  rw [after_configure, ← same, advance_eq]
  refine h.turn p (by decide) ?_
  intro d early
  unfold Phase.step at early
  split at early
  · next here => exact .inl here
  · exact early

theorem realize (h : b.Fits g r) (p : ProcessorId) :
    (b.after g (.realize p)).Fits g (r.modifyProcessor p fun x =>
      if x.phase = .configured then { x.lock with phase := .realized } else x) := by
  rw [after_realize]
  exact { h with
    session := h.session
    seats := h.seats.realizeAlone
    tenants := h.tenants.of_effects rfl }

/-- The session drives the processor that it uses for capture. -/
theorem stepCapture (h : b.Fits g r) (shows : y.Shows g b) {a c : Phase} (open_ : a ≠ .closed)
    (late : ¬c.Early) : ({ b with intake := { b.intake with
      seat := b.intake.seat.map fun q => q.turn q.processor (.step a c) } } : Board).Fits g
        (match y.capture with
          | some p => r.advance p a c
          | none => r) := by
  rw [shows.capture]
  cases seat : b.intake.seat with
  | none =>
    have same : ({ b with intake := { b.intake with seat := none } } : Board) = b := by
      rw [← seat]
    simpa [same] using h
  | some q =>
    have stepped := h.step q.processor open_ late
    rw [h.turn_intake seat] at stepped
    simpa using stepped

theorem startSession (h : b.Fits g r) (shows : y.Shows g b) :
    (b.after g (.startSession g.session)).Fits g (match y.capture with
      | some p => r.advance p .realized .started
      | none => r) := by
  rw [after_startSession]
  exact h.stepCapture shows (by decide) (by simp [Phase.Early])

theorem stopSession (h : b.Fits g r) (shows : y.Shows g b) :
    (b.after g (.stopSession g.session)).Fits g (match y.capture with
      | some p => r.advance p .started .realized
      | none => r) := by
  rw [after_stopSession]
  exact h.stepCapture shows (by decide) (by simp [Phase.Early])

end Turning

section Using

/-- The processor in use for capture is given up. -/
theorem seats_dropCapture (h : b.Fits g r) {v : Rig} (same : v.processors = r.processors)
    (shows : y.Shows g b) :
    (v.dropCapture y.capture).Seats g b.taken (b.streams.map (·.toSeat)) := by
  have seats := h.seats.of_processors same
  rw [shows.capture]
  cases seat : b.intake.seat with
  | none => simpa [Rig.dropCapture, Board.seats, seat] using seats
  | some q =>
    have retired := seats.retire q.processor
    have others : (b.streams.map (·.toSeat)).filter (·.processor != q.processor) =
        b.streams.map (·.toSeat) := by
      rw [List.filter_eq_self]
      intro q' member
      obtain ⟨f, stream, rfl⟩ := List.mem_map.mp member
      simpa using h.processor_ne_capture stream seat
    simpa [Rig.dropCapture, Board.seats, seat, others] using retired

/-- What the session has not taken yet is not in use for capture. -/
theorem capture_ne (h : b.Fits g r) (shows : y.Shows g b) (new : p ∉ b.taken) :
    y.capture ≠ some p := by
  intro same
  rw [shows.capture, Option.map_eq_some_iff] at same
  obtain ⟨q, seat, rfl⟩ := same
  exact new (h.seats.within q (mem_seats.mpr (.inl seat)))

theorem connectCapture (h : b.Fits g r) (known : r.sessions[g.session]? = some y)
    (shows : y.Shows g b) (there : ∃ x, r.processors[p]? = some x) (new : p ∉ b.taken)
    (early : ∀ x, r.processors[p]? = some x → x.phase.Early) :
    (b.after g (.connectCapture g.session p)).Fits g
      (((r.modifySession g.session fun y => { y with capture := some p }).dropCapture
        y.capture).modifyProcessor p fun x =>
          (x.joined (.capture g.session)).brought y.localEffect .realized) := by
  have other : y.capture ≠ some p := h.capture_ne shows new
  have dropped := h.seats_dropCapture
    (v := r.modifySession g.session fun y => { y with capture := some p }) rfl shows
  have still := Rig.dropCapture_other
    (r := r.modifySession g.session fun y => { y with capture := some p }) other
  have taken := dropped.takeIn (p := p) (still ▸ there) new (still ▸ early)
    (.capture g.session) y.localEffect (a := .realized) (by simp [Phase.Early])
  rw [after_connectCapture, shows.effect] at *
  refine ⟨⟨{ y with capture := some p }, ?_, { shows with capture := rfl }⟩, taken, ?_, ?_, h.names,
    ?_⟩
  · exact (congrArg (·[g.session]?) (Rig.dropCapture_sessions y.capture)).trans
      (Rig.modifySession_known known)
  · exact h.tenants.of_effects (Rig.dropCapture_effects y.capture)
  · exact (congrArg List.length (Rig.dropCapture_effects y.capture)).trans h.effects
  · intro q member
    cases member
    rfl

theorem addStream (h : b.Fits g r) (known : r.sessions[g.session]? = some y)
    (shows : y.Shows g b) (absent : ¬y.hasStream ssrc = true)
    (there : ∃ x, r.processors[p]? = some x) (new : p ∉ b.taken)
    (early : ∀ x, r.processors[p]? = some x → x.phase.Early) :
    (b.after g (.addStream g.session ssrc p)).Fits g ((({ r with effects := r.effects ++
      [(LevelEffect.new y.config.effect).setListener y.streamListener] } : Rig).modifySession
        g.session (·.addStream ssrc ⟨p, r.effects.length⟩)).modifyProcessor p fun x =>
          (x.joined (.stream g.session ssrc)).brought r.effects.length
            ((Subscriber.stream g.session ssrc).goal y.config.startStreams)) := by
  have none : b.streams.any (·.ssrc == ssrc) = false := by
    simpa [shows.hasStream] using absent
  have late : ¬g.goal.Early := by
    unfold Setting.goal
    split
    · simp [Phase.Early]
    · simp [Phase.Early]
  have goal : (Subscriber.stream g.session ssrc).goal y.config.startStreams = g.goal := by
    rw [shows.config]
    rfl
  have taken := h.seats.takeIn there new early (.stream g.session ssrc) r.effects.length late
  have of : History.Of g.config.effect { listener := b.streamListener }
      ((LevelEffect.new y.config.effect).setListener y.streamListener) := by
    rw [shows.config, shows.listener]
    exact (History.Of.new _).setListener _
  rw [goal, after_addStream none, ← h.effects]
  -- In the order of `Fits`: the session, its seats, its tenants, the effects and the names.
  refine ⟨⟨_, Rig.modifySession_known known, ?_⟩, ?_, ?_, ?_, ?_, h.captured⟩
  · exact { shows with
      streams := by simp [Session.addStream, shows.streams] }
  · refine (taken.perm ?_).of_processors rfl
    simp only [Board.seats, List.map_append, List.map_cons, List.map_nil, ← List.append_assoc]
    exact List.perm_append_singleton _ _
  · simp only [Board.tenants, List.map_append, List.map_cons, List.map_nil, ← List.cons_append]
    exact (h.tenants.append of).of_effects rfl
  · simp [Rig.modifySession, Rig.modifyProcessor]
  · rw [List.map_append, List.nodup_append]
    refine ⟨h.names, by simp, ?_⟩
    intro k member k' last same
    obtain ⟨f, stream, rfl⟩ := List.mem_map.mp member
    have last : k' = ssrc := by simpa using last
    have other := List.any_eq_false.mp none f stream
    simp [same, last] at other

/-- A stream of that name is there already. -/
theorem addStream_refused (h : b.Fits g r) (shows : y.Shows g b)
    (present : y.hasStream ssrc = true) : (b.after g (.addStream g.session ssrc p)).Fits g r := by
  rw [shows.hasStream] at present
  rw [after_addStream_refused present]
  exact h

/-- Without a stream, the seat on its processor is free. -/
theorem seats_without (h : b.Fits g r) {f : Feed} (stream : f ∈ b.streams) :
    b.seats.filter (·.processor != f.processor) =
      ({ b with streams := b.streams.filter (·.ssrc != f.ssrc) } : Board).seats := by
  have intake : b.intake.seat.toList.filter (·.processor != f.processor) =
      b.intake.seat.toList := by
    rw [List.filter_eq_self]
    intro q member
    simpa using (h.processor_ne_capture stream (Option.mem_toList.mp member)).symm
  unfold Board.seats
  rw [List.filter_append, intake, List.filter_map]
  congr 2
  apply List.filter_congr
  intro x member
  by_cases here : x = f
  · simp [here]
  · have processor : x.processor ≠ f.processor := fun same =>
      here (h.feed_of_processor member stream same)
    have other : x.ssrc ≠ f.ssrc := fun same => here (h.feed_of_name member stream same)
    exact (bne_iff_ne.mpr processor).trans (bne_iff_ne.mpr other).symm

/-- Without a stream, nobody has its effect. -/
theorem tenants_without (h : b.Fits g r) {f : Feed} (stream : f ∈ b.streams)
    (t : EffectId × History) (member :
      t ∈ ({ b with streams := b.streams.filter (·.ssrc != f.ssrc) } : Board).tenants g) :
    t.1 ≠ f.effect := by
  obtain rfl | member := List.mem_cons.mp member
  · exact (h.effect_ne_local stream).symm
  · obtain ⟨x, kept, rfl⟩ := List.mem_map.mp member
    obtain ⟨before, other⟩ := List.mem_filter.mp kept
    intro same
    obtain rfl := h.feed_of_effect before stream same
    simp at other

/-- A stream is given up. -/
theorem removeStream (h : b.Fits g r) (known : r.sessions[g.session]? = some y)
    (shows : y.Shows g b) : (b.after g (.removeStream g.session ssrc)).Fits g
      (match y.stream? ssrc with
        | some stream => (r.modifySession g.session (·.removeStream ssrc)).dropStream stream
        | none => r) := by
  rw [shows.stream?, after_removeStream]
  cases found : b.streams.find? (·.ssrc == ssrc) with
  | none =>
    have same : b.streams.filter (·.ssrc != ssrc) = b.streams := by
      rw [List.filter_eq_self]
      intro f stream
      simpa using List.find?_eq_none.mp found f stream
    rw [same]
    exact h
  | some f =>
    have stream := List.mem_of_find?_eq_some found
    obtain rfl : f.ssrc = ssrc := by simpa using List.find?_some found
    have tenants : (({ b with streams := b.streams.filter (·.ssrc != f.ssrc) } : Board).tenants
        g).Sublist (b.tenants g) :=
      (List.filter_sublist.map _).cons_cons _
    change Board.Fits g { b with streams := b.streams.filter (·.ssrc != f.ssrc) }
      ((r.modifySession g.session (·.removeStream f.ssrc)).dropStream ⟨f.processor, f.effect⟩)
    have retired := (h.seats.of_processors (v := r.modifySession g.session (·.removeStream f.ssrc))
      rfl).dropStream ⟨f.processor, f.effect⟩
    rw [h.seats_without stream] at retired
    refine ⟨⟨_, Rig.modifySession_known known, ?_⟩, retired, ?_, ?_, ?_, h.captured⟩
    · exact { shows with
        streams := by
          rw [Session.removeStream, shows.streams, List.filter_map]
          rfl }
    · refine Rig.Tenants.dropStream (x := ⟨f.processor, f.effect⟩) ?_ (h.tenants_without stream)
      exact (h.tenants.sublist tenants).of_effects rfl
    · simpa [Rig.dropStream, Rig.modifyEffect, Rig.setPhase, Rig.modifyProcessor,
        Rig.modifySession] using h.effects
    · exact h.names.sublist (List.filter_sublist.map _)

/-- The session gives up all that it uses. -/
theorem closeSession (h : b.Fits g r) (known : r.sessions[g.session]? = some y)
    (shows : y.Shows g b) : (b.after g (.closeSession g.session)).Fits g
      ((y.streams.foldl (fun r k => r.dropStream k.2)
        (((r.modifySession g.session fun y => { y with capture := none }).dropCapture
          y.capture).modifySession g.session fun y => { y with streams := [] })).modifyEffect
            y.localEffect (·.reset)) := by
  have dropped := h.seats_dropCapture
    (v := r.modifySession g.session fun y => { y with capture := none }) rfl shows
  have sessions := Rig.dropCapture_sessions
    (r := r.modifySession g.session fun y => { y with capture := none }) y.capture
  have effects := Rig.dropCapture_effects
    (r := r.modifySession g.session fun y => { y with capture := none }) y.capture
  generalize (r.modifySession g.session fun y => { y with capture := none }).dropCapture
    y.capture = r₁ at dropped sessions effects ⊢
  have here : r₁.sessions[g.session]? = some { y with capture := none } := by
    rw [sessions]
    exact Rig.modifySession_known known
  have drops : y.streams.foldl (fun r k => r.dropStream k.2)
      (r₁.modifySession g.session fun y => { y with streams := [] }) =
      (r₁.modifySession g.session fun y => { y with streams := [] }).dropAll b.streams := by
    rw [shows.streams, List.foldl_map]
    rfl
  obtain ⟨frame, length⟩ := Rig.dropAll_frame
    (r := r₁.modifySession g.session fun y => { y with streams := [] }) b.streams
  -- The capture is gone by now. Once the streams are dropped nothing is on the board but the local
  -- effect, which is reset at last.
  have emptied : Board.Fits g { b with intake := { b.intake with seat := none }, streams := [] }
      ((r₁.modifySession g.session fun y => { y with streams := [] }).dropAll b.streams) := by
    refine ⟨⟨{ y with capture := none, streams := [] }, ?_, { shows with
      capture := rfl, streams := rfl }⟩, ?_, ?_, ?_, List.nodup_nil, nofun⟩
    · rw [frame]
      exact Rig.modifySession_known here
    · exact Rig.Seats.dropAll (dropped.of_processors rfl)
    · refine Rig.Tenants.dropAll ?_ ((h.tenants.sublist ?_).of_effects effects)
      · intro f stream t member
        obtain rfl := List.mem_singleton.mp member
        exact (h.effect_ne_local stream).symm
      · exact (List.nil_sublist _).cons_cons _
    · rw [length]
      exact (congrArg List.length effects).trans h.effects
  rw [drops, after_closeSession, shows.effect]
  exact emptied.modifyLocal fun _ _ of => of.reset

end Using

section Frames

variable {i : Nat} {f : Buffer}

/-- Streams that do not hear a frame have it nowhere in their history. -/
theorem streams_deaf (deaf : ∀ x ∈ b.streams, ¬g.hears x.toSeat p i = true) :
    b.streams.filterMap (fun x => some
      (if g.hears x.toSeat p i then { x with history := x.history.hears f } else x)) =
      b.streams := by
  have same : b.streams.filterMap (fun x => some
      (if g.hears x.toSeat p i then { x with history := x.history.hears f } else x)) =
      b.streams.filterMap some :=
    List.filterMap_congr fun x member => by rw [if_neg (deaf x member)]
  rw [same, List.filterMap_some]

/-- Nothing is measured of a frame that meets no effect. -/
theorem process_none (none : (b.posts.find? fun t => g.hears t.1 p i) = none) :
    b.after g (.process p i f) = b := by
  have silent (t : Seat × History) (member : t ∈ b.posts) : g.hears t.1 p i = false := by
    simpa using List.find?_eq_none.mp none t member
  have intake : (b.intake.seat.any fun q => g.hears q p i) = false := by
    cases seat : b.intake.seat with
    | none => rfl
    | some q => exact silent (q, b.intake.history) (mem_posts.mpr (.inl ⟨seat, rfl⟩))
  have streams := streams_deaf (b := b) (g := g) (p := p) (i := i) (f := f) fun x member => by
    simp [silent (x.toSeat, x.history) (mem_posts.mpr (.inr ⟨x, member, rfl⟩))]
  simp only [after, added, Feed.after, Intake.after, intake, streams]
  simp

/-- A frame on the processor in use for capture. -/
theorem after_process_intake (h : b.Fits g r) {q : Seat} (seat : b.intake.seat = some q)
    (hears : g.hears q p i = true) : b.after g (.process p i f) =
      { b with intake := { b.intake with history := b.intake.history.hears f } } := by
  have here : q.processor = p := (Setting.hears_iff.mp hears).1
  have streams := streams_deaf (b := b) (g := g) (p := p) (i := i) (f := f) fun x member same =>
    h.processor_ne_capture member seat ((Setting.hears_iff.mp same).1.trans here.symm)
  simp only [after, added, Feed.after, Intake.after, streams, seat, Option.any_some, hears, if_true]
  simp

/-- A frame on the processor of a stream. -/
theorem after_process_feed (h : b.Fits g r) {x : Feed} (stream : x ∈ b.streams)
    (hears : g.hears x.toSeat p i = true) : b.after g (.process p i f) =
      { b with streams := b.streams.map fun x' =>
        if x'.processor = x.processor then { x' with history := x.history.hears f } else x' } := by
  have here : x.processor = p := (Setting.hears_iff.mp hears).1
  have intake : ¬(b.intake.seat.any fun q => g.hears q p i) = true := by
    cases seat : b.intake.seat with
    | none => simp
    | some q =>
      intro heard
      exact h.processor_ne_capture stream seat (here.trans (Setting.hears_iff.mp heard).1.symm)
  have streams : b.streams.filterMap (fun x' => some
      (if g.hears x'.toSeat p i then { x' with history := x'.history.hears f } else x')) =
      b.streams.map fun x' =>
        if x'.processor = x.processor then { x' with history := x.history.hears f } else x' := by
    rw [← List.filterMap_eq_map]
    apply List.filterMap_congr
    intro x' member
    by_cases same : x'.processor = x.processor
    · obtain rfl := h.feed_of_processor member stream same
      simp [hears]
    · have other : ¬g.hears x'.toSeat p i = true := fun heard =>
        same ((Setting.hears_iff.mp heard).1.trans here.symm)
      simp [other, same]
  simp only [after, added, Feed.after, Intake.after, streams, if_neg intake]
  simp

/-- A frame is measured by the effect that it meets. -/
theorem process (h : b.Fits g r) {t : Seat × History} {z : LevelEffect}
    (found : (b.posts.find? fun t => g.hears t.1 p i) = some t)
    (known : r.effects[t.1.effect]? = some z) : (b.after g (.process p i f)).Fits g
      (r.modifyEffect t.1.effect fun _ => (z.observe f).2) := by
  have hears : g.hears t.1 p i = true := by
    simpa using List.find?_some (p := fun t : Seat × History => g.hears t.1 p i) found
  obtain ⟨seat, same⟩ | ⟨x, stream, rfl⟩ := mem_posts.mp (List.mem_of_find?_eq_some found)
  · rw [h.after_process_intake seat hears, h.captured t.1 seat] at *
    refine h.modifyLocal fun z' there of => ?_
    obtain rfl := Option.some.inj (known.symm.trans there)
    exact (of.observe f).2
  · rw [h.after_process_feed stream hears]
    refine h.modifyFeed stream fun z' there of => ?_
    obtain rfl := Option.some.inj (known.symm.trans there)
    exact (of.observe f).2

end Frames

end Fits

end Board

end Metering
