import Metering.Proofs.Driving
/-!
A session brings a processor up. A processor that was configured at most, with nobody else hearing
of it, gets the effect of the session into the chain of its first audio track, is realized with all
chains locked, and for a stream is started if the session is set so.
-/

namespace Metering

variable {S α β : Type}

/-- The processor with an effect as the chain of its first audio track, if that takes it. -/
def Processor.wire (x : Processor) (e : EffectId) : Processor :=
  match firstAudio x.tracks with
  | none => x
  | some i => x.modifyTrack i fun t =>
    if t.acceptsPlugIns = true ∧ t.locked = false then { t with chain := [.effect e] } else t

def Processor.brought (x : Processor) (e : EffectId) (a : Phase) : Processor :=
  { (x.wire e).lock with phase := a }

/-- How far a session brings a processor that it uses so. -/
def Subscriber.goal (startStreams : Bool) : Subscriber → Phase
  | .stream .. => if startStreams then .started else .realized
  | _ => .realized

def Session.effectFor (y : Session) : Subscriber → Option EffectId
  | .watcher _ => none
  | .capture _ => some y.localEffect
  | .stream _ ssrc => (y.stream? ssrc).map (·.effect)

section Wire

variable {x : Processor} {s : SessionId} {e : EffectId} {a b : Phase}

theorem Processor.core_track (i : Nat) :
    x.core.tracks[i]? = (x.tracks[i]?).map fun t => { t with isOpen := false } :=
  x.shut_track i

theorem Processor.shut_firstAudio : firstAudio x.shut.tracks = firstAudio x.tracks := by
  simp only [firstAudio, Processor.shut, List.findIdx?_map]
  rfl

theorem Processor.core_firstAudio : firstAudio x.core.tracks = firstAudio x.tracks :=
  shut_firstAudio

theorem firstAudio_isAudio {tracks : List Track} {i : Nat} {t : Track}
    (first : firstAudio tracks = some i) (track : tracks[i]? = some t) :
    t.format.isAudio = true := by
  obtain ⟨within, audio, -⟩ := List.findIdx?_eq_some_iff_getElem.mp first
  rw [List.getElem?_eq_getElem within] at track
  obtain rfl := Option.some.inj track
  exact audio

theorem Processor.wire_track (i : Nat) : (x.wire e).tracks[i]? = (x.tracks[i]?).map fun t =>
    if firstAudio x.tracks = some i ∧ t.acceptsPlugIns = true ∧ t.locked = false then
      { t with chain := [.effect e] } else t := by
  unfold wire
  cases first : firstAudio x.tracks with
  | none => simp
  | some j =>
    simp only [modifyTrack, List.getElem?_modify, Option.some.injEq]
    by_cases here : j = i
    · simp [here]
    · simp [here]

theorem Processor.wire_phase : ({ x with phase := a } : Processor).wire e =
    { x.wire e with phase := a } := by
  unfold wire
  cases firstAudio x.tracks with
  | none => rfl
  | some i => rfl

theorem Processor.wire_shut : x.shut.wire e = (x.wire e).shut := by
  unfold wire
  rw [shut_firstAudio]
  cases firstAudio x.tracks with
  | none => rfl
  | some i =>
    have tracks := map_modify (l := x.tracks) (i := i)
      (f := fun t => if t.acceptsPlugIns = true ∧ t.locked = false then
        { t with chain := [.effect e] } else t)
      (h := fun t : Track => { t with isOpen := false })
      (k := fun t => if t.acceptsPlugIns = true ∧ t.locked = false then
        { t with chain := [.effect e] } else t) fun t _ => by
          by_cases takes : t.acceptsPlugIns = true ∧ t.locked = false
          · simp [takes]
          · simp [takes]
    exact congrArg (fun ts => { x with tracks := ts }) tracks.symm

theorem Processor.wire_core : x.core.wire e = (x.wire e).core := by
  have counted : x.core.wire e = { x.shut.wire e with framesProcessed := 0, held := [] } := by
    unfold wire core
    dsimp only
    cases firstAudio x.shut.tracks with
    | none => rfl
    | some i => rfl
  rw [counted, wire_shut]
  rfl

/-- The first audio track is where the effect goes. -/
theorem Processor.wire_eq {i : Nat} {t : Track} (first : firstAudio x.tracks = some i)
    (track : x.tracks[i]? = some t) : x.wire e = x.modifyTrack i fun _ =>
      if t.acceptsPlugIns = true ∧ t.locked = false then { t with chain := [.effect e] }
      else t := by
  unfold wire
  rw [first]
  exact modifyTrack_congr_of track rfl

theorem Processor.brought_phase :
    ({ x with phase := b } : Processor).brought e a = x.brought e a := by
  rw [brought, wire_phase]
  rfl

/-- Only the tracks change. -/
theorem Processor.wire_rest (x : Processor) (e : EffectId) : (x.wire e).phase = x.phase ∧
    (x.wire e).subscribers = x.subscribers ∧ (x.wire e).isExternal = x.isExternal := by
  unfold wire
  split
  · exact ⟨rfl, rfl, rfl⟩
  · exact ⟨rfl, rfl, rfl⟩

theorem Processor.Own.wire (h : x.Own s) : (x.wire e).Own s := by
  obtain ⟨-, subscribers, external⟩ := x.wire_rest e
  refine ⟨external.trans h.internal, subscribers ▸ h.heard, ?_⟩
  intro t member
  obtain ⟨i, track⟩ := List.mem_iff_getElem?.mp member
  rw [Processor.wire_track, Option.map_eq_some_iff] at track
  obtain ⟨u, track, rfl⟩ := track
  split
  case isTrue here =>
    have audio := firstAudio_isAudio here.1 track
    exact .inr ⟨e, rfl, audio⟩
  case isFalse => exact h.simple u (List.mem_of_getElem? track)

theorem Processor.Own.lock (h : x.Own s) (a : Phase) : ({ x.lock with phase := a }).Own s where
  internal := h.internal
  heard := h.heard
  simple t member := by
    obtain ⟨u, before, rfl⟩ := List.mem_map.mp member
    exact h.simple u before

end Wire

theorem Rig.modifyProcessor_comp {r : Rig} {p : ProcessorId} (f g : Processor → Processor) :
    (r.modifyProcessor p f).modifyProcessor p g = r.modifyProcessor p fun x => g (f x) := by
  unfold modifyProcessor
  rw [List.modify_modify_eq]
  rfl

theorem Rig.modifyProcessor_known {r : Rig} {p : ProcessorId} {x : Processor}
    (known : r.processors[p]? = some x) (f : Processor → Processor) :
    (r.modifyProcessor p f).processors[p]? = some (f x) := by
  simp [Rig.modifyProcessor, known]

namespace World.At

variable {s : SessionId} {n : Nat} {r : Rig} {ps : List Page} {w : World S}
variable {p : ProcessorId} {x : Processor} {app : Application S}

theorem install (h : w.At s n r ps) {again : {β : Type} → Call β → Run S β}
    (known : r.processors[p]? = some x) (configured : x.phase = .configured) (e : EffectId)
    (side : Side) : Ensures (install app again p e side) w fun _ w' =>
      w'.At s n (r.modifyProcessor p (·.wire e)) ps := by
  have shows : Ensures (trackControls app again p) w fun shown v =>
      ∃ y, w.rig.processors[p]? = some y ∧ y.core = x ∧ shown = .ok y.tracks ∧ v = w := by
    refine h.readProcessor known ?_
    rintro y known' rfl
    have internal : y.isExternal = false := (h.own p _ known).internal
    have phase : y.phase = .configured := configured
    rw [if_neg (by simp [internal]), if_pos (by simp [phase, Phase.isConfigured, Phase.rank])]
    exact ensures_pure.mpr ⟨y, known', rfl, rfl, rfl⟩
  refine Ensures.bind shows ?_
  rintro _ v ⟨y, known', rfl, rfl, rfl⟩
  have same : firstAudio y.core.tracks = firstAudio y.tracks := Processor.core_firstAudio
  -- If no chain takes the effect, the rig with its core remains as it is and only a notice is
  -- written.
  have stays (still : y.core.wire e = y.core) : r.modifyProcessor p (·.wire e) = r :=
    Rig.modifyProcessor_of_fixed known still
  dsimp only
  split
  case h_1 none =>
    have still : y.core.wire e = y.core := by
      rw [Processor.wire, same, none]
    rw [stays still]
    refine (h.notice _).bind fun _ _ noted => ?_
    exact ensures_pure.mpr noted
  case h_2 i first =>
    refine ensures_bind.mpr ?_
    refine Ensures.track_of known' ?_
    obtain ⟨within, -, -⟩ := List.findIdx?_eq_some_iff_getElem.mp first
    obtain ⟨t, track⟩ : ∃ t, y.tracks[i]? = some t := ⟨_, List.getElem?_eq_getElem within⟩
    rw [track]
    dsimp only
    by_cases takes : t.acceptsPlugIns = true ∧ t.locked = false
    · rw [Track.setChain_takes takes]
      refine Ensures.awaitChain ?_
      refine ensures_bind.mpr (ensures_modifyProcessor.mpr (ensures_pure.mpr ?_))
      have placed : (v.modify p fun z => z.modifyTrack i
          fun _ => { t with chain := [.effect e] }).At s n
          (r.modifyProcessor p (·.wire e)) ps := by
        refine h.modify (g := (·.wire e)) (fun z there => ?_) fun _ _ own => own.wire
        obtain rfl := Option.some.inj (known'.symm.trans there)
        rw [Processor.wire_core, Processor.wire_eq first track, if_pos takes]
      refine (placed.notice _).bind fun _ _ noted => ?_
      exact ensures_pure.mpr noted
    · obtain ⟨f, refused⟩ := Track.setChain_refuses takes [.effect e]
      have same : y.modifyTrack i (fun _ => t) = y := Processor.modifyTrack_of_fixed track rfl
      have still : y.core.wire e = y.core := by
        rw [Processor.wire_core, Processor.wire_eq first track, if_neg takes, same]
      rw [refused, stays still]
      refine ensures_pure.mpr ((h.notice _).bind fun _ _ noted => ?_)
      exact ensures_pure.mpr noted

/-- An effect may agree on a format, which makes no difference to its core. -/
theorem modifyEffect_same (h : w.At s n r ps) {e : EffectId} {f : LevelEffect → LevelEffect}
    (same : ∀ z, w.rig.effects[e]? = some z → (f z).core = z.core) :
    ({ w with rig := { w.rig with effects := w.rig.effects.modify e f } } : World S).At s n
      r ps := by
  have changed := h.modifyEffect (g := id) same
  have id_eq : r.modifyEffect e id = r := by
    unfold Rig.modifyEffect
    simp
  rwa [id_eq] at changed

section Preparing

variable {again : {β : Type} → Call β → Run S β}

/-- A chain with nothing but a level effect takes what is audio. -/
theorem negotiate (h : w.At s n r ps) {t : Track} (simple : t.Simple) :
    Ensures (Chain.negotiate app again t.chain t.format) w fun agreed w' =>
      agreed = .ok t.format ∧ w'.At s n r ps := by
  obtain bare | ⟨e, only, audio⟩ := simple
  · rw [bare]
    exact ensures_pure.mpr ⟨rfl, h⟩
  · rw [only]
    simp only [Chain.negotiate, Chain.offer, Chain.offerEffect, LevelEffect.offer, audio, if_true,
      ensures_bind, ensures_effect, ensures_modifyEffect, ensures_pure, ensures_record]
    intro z known
    have agreed := h.modifyEffect_same (e := e)
      (f := fun _ => { z with inputFormat := some t.format }) fun y there => by
        obtain rfl := Option.some.inj (known.symm.trans there)
        rfl
    exact ⟨trivial, agreed.record _⟩

theorem negotiateTracks (h : w.At s n r ps) (is : List Nat) :
    Ensures (negotiateTracks app again p is) w fun agreed w' =>
      agreed = .ok () ∧ w'.At s n r ps := by
  induction is generalizing w with
  | nil => exact ensures_pure.mpr ⟨rfl, h⟩
  | cons i is ih =>
    apply Ensures.track
    intro y known
    cases track : y.tracks[i]? with
    | none => exact ih h
    | some t =>
      have simple := h.track_simple known track
      refine Ensures.bind (h.holding i fun _ at_v => at_v.negotiate simple) ?_
      rintro _ v ⟨rfl, at_v⟩
      exact ih at_v

theorem openTrack (h : w.At s n r ps) (i : Nat) :
    Ensures (openTrack app again p i) w fun opened w' => opened = .ok () ∧ w'.At s n r ps := by
  apply Ensures.track
  intro y known
  cases track : y.tracks[i]? with
  | none => exact ensures_pure.mpr ⟨rfl, h⟩
  | some t =>
    have opens (v : World S) (at_v : v.At s n r ps) :
        Ensures (Chain.openAll app again [] t.chain) v fun opened w' =>
          opened = .ok () ∧ w'.At s n r ps := by
      obtain bare | ⟨e, only, -⟩ := h.track_simple known track
      · rw [bare]
        exact ensures_pure.mpr ⟨rfl, at_v⟩
      · rw [only]
        simpa [Chain.openAll, Chain.openPlugIn] using at_v.record _
    refine Ensures.bind (h.holding i opens) ?_
    rintro _ v ⟨rfl, at_v⟩
    exact ensures_bind.mpr (ensures_modifyProcessor.mpr (ensures_pure.mpr
      ⟨rfl, at_v.setOpen i true⟩))

theorem openTracks (h : w.At s n r ps) (before is : List Nat) :
    Ensures (openTracks app again p before is) w fun opened w' =>
      opened = .ok () ∧ w'.At s n r ps := by
  induction is generalizing w before with
  | nil => exact ensures_pure.mpr ⟨rfl, h⟩
  | cons i is ih =>
    refine Ensures.bind (h.openTrack i) ?_
    rintro _ v ⟨rfl, at_v⟩
    exact ih at_v _

/-- Nothing keeps the chains from being prepared. -/
theorem prepare (h : w.At s n r ps) :
    Ensures (prepare app again p) w fun ready w' => ready = .ok () ∧ w'.At s n r ps := by
  apply Ensures.processor
  intro y known
  refine Ensures.bind (h.negotiateTracks y.enabledTracks) ?_
  rintro _ v ⟨rfl, at_v⟩
  exact at_v.openTracks [] _

end Preparing

section Realizing

variable (app) (depth : Nat)

/-- A configured processor is realized, and then its subscriber is told. -/
theorem realize (h : w.At s n r ps) {again : {β : Type} → Call β → Run S β} {r' : Rig}
    (known : r.processors[p]? = some x) (configured : x.phase = .configured)
    (tells : ∀ v : World S,
      v.At s n (r.modifyProcessor p fun x => { x.lock with phase := .realized }) ps →
      Ensures (Metering.emit app again p .realized) v fun _ w' => w'.At s n r' ps) :
    Ensures (realize app again p) w fun answer w' => answer = .ok () ∧ w'.At s n r' ps := by
  refine h.readProcessor known ?_
  rintro y - rfl
  have internal : y.isExternal = false := (h.own p _ known).internal
  have phase : y.phase = .configured := configured
  simp only [internal, phase, Bool.false_eq_true, if_false]
  refine (h.moveTo p .realizing).bind fun _ v begun => ?_
  refine begun.prepare.bind ?_
  rintro _ v ⟨rfl, ready⟩
  apply Ensures.processor
  intro z _
  refine Ensures.record (Ensures.lockTracks ?_)
  have locked := (ready.record (.readied p z.enabledTracks)).modify (p := p) (f := Processor.lock)
    (g := Processor.lock) (fun x _ => by simp [Processor.core, Processor.shut, Processor.lock])
    fun x _ own => own.lock x.phase
  refine (locked.notice _).bind fun _ v noted => ?_
  refine (noted.moveTo p .realized).bind fun _ v moved => ?_
  rw [Rig.setPhase, Rig.setPhase, Rig.modifyProcessor_comp, Rig.modifyProcessor_comp] at moved
  refine (tells v moved).bind fun _ v told => ?_
  exact ensures_pure.mpr ⟨rfl, told⟩

/-- Nobody but the subscriber hears that the processor is realized. -/
theorem hearRealized (h : w.At s n r ps) (used : 0 < n) {y : Session}
    (session : r.sessions[s]? = some y) (known : r.processors[p]? = some x)
    (realized : x.phase = .realized) {z : Subscriber} (own : z.IsOf s) :
    Ensures (hear app (perform app depth) p .realized z) w fun _ w' =>
      w'.At s n (r.setPhase p (z.goal y.config.startStreams)) ps := by
  -- A capture stays realized. A stream goes on to be started if its session is configured so.
  have stays : r.setPhase p .realized = r := Rig.setPhase_of known realized
  cases z with
  | watcher => exact own.elim
  | capture t =>
    obtain rfl : t = s := own
    have same : r.setPhase p (Subscriber.goal y.config.startStreams (.capture t)) = r := stays
    rw [same]
    refine h.whileUsed used fun v inUse => ?_
    exact ensures_bind.mpr (ensures_session.mpr fun _ _ => inUse.sessionNotice t _)
  | stream t ssrc =>
    obtain rfl : t = s := own
    refine h.whileUsed used fun v inUse => ?_
    refine inUse.readSession session fun _ => ?_
    rw [Subscriber.goal]
    split
    case isFalse =>
      rw [stays]
      exact ensures_pure.mpr inUse
    case isTrue =>
      have starts : Ensures (perform app depth (.start p)) v fun _ w' =>
          w'.At t (n + 1) (r.setPhase p .started) ps := by
        cases depth with
        | zero => exact ensures_throw
        | succ depth =>
          rw [← Rig.advance_of known realized]
          exact inUse.start (Nat.succ_pos n) p
      refine starts.bind fun answer v started => ?_
      cases answer with
      | ok => exact ensures_pure.mpr started
      | error f => exact started.sessionNotice t _

/-- A configured processor with its effect in place is realized and goes on as it is used. -/
theorem realizeUsed (h : w.At s n r ps) (used : 0 < n) {y : Session}
    (session : r.sessions[s]? = some y) (known : r.processors[p]? = some x)
    (configured : x.phase = .configured) {z : Subscriber} (one : x.subscribers = [z]) :
    Ensures (perform app depth (.realize p)) w fun _ w' => w'.At s n
      (r.modifyProcessor p fun x => { x.lock with phase := z.goal y.config.startStreams }) ps := by
  cases depth with
  | zero => exact ensures_throw
  | succ depth =>
    have own : z.IsOf s := (h.own p x known).heard z (by simp [one])
    have tells (v : World S) (at_v : v.At s n
        (r.modifyProcessor p fun x => { x.lock with phase := .realized }) ps) :
        Ensures (Metering.emit app (perform app depth) p .realized) v fun _ w' =>
          w'.At s n (r.modifyProcessor p fun x =>
            { x.lock with phase := z.goal y.config.startStreams }) ps := by
      have there := Rig.modifyProcessor_known known fun x => { x.lock with phase := .realized }
      refine at_v.emit_one there one fun v at_v => ?_
      have heard := at_v.hearRealized app depth used session there rfl own
      rwa [Rig.setPhase, Rig.modifyProcessor_comp] at heard
    exact (h.realize app known configured tells).mono fun _ _ => And.right

/-- The effect of the session is put in place and the processor is realized. -/
theorem bring (h : w.At s n r ps) (used : 0 < n) {y : Session} (session : r.sessions[s]? = some y)
    (known : r.processors[p]? = some x) (configured : x.phase = .configured) {z : Subscriber}
    (one : x.subscribers = [z]) (e : EffectId) (side : Side) (mishap : Fault → SessionNotice) :
    Ensures (do
      let _ ← Metering.install app (perform app depth) p e side
      match ← perform app depth (.realize p) with
      | .ok () => pure ()
      | .error f => Metering.sessionNotice s (mishap f)) w fun _ w' => w'.At s n
        (r.modifyProcessor p (·.brought e (z.goal y.config.startStreams))) ps := by
  obtain ⟨phase, subscribers, -⟩ := x.wire_rest e
  refine (h.install known configured e side).bind fun _ v placed => ?_
  have there := Rig.modifyProcessor_known known (·.wire e)
  have realizes := placed.realizeUsed app depth used session there
    (phase.trans configured) (subscribers.trans one)
  rw [Rig.modifyProcessor_comp] at realizes
  refine realizes.bind fun answer v realized => ?_
  cases answer with
  | ok => exact ensures_pure.mpr realized
  | error f => exact realized.sessionNotice s _

theorem captureConfigured (h : w.At s n r ps) (used : 0 < n) {y : Session}
    (session : r.sessions[s]? = some y) (known : r.processors[p]? = some x)
    (configured : x.phase = .configured) (one : x.subscribers = [.capture s]) :
    Ensures (captureUpdate app (perform app depth) s p .configured) w fun _ w' => w'.At s n
      (r.modifyProcessor p (·.brought y.localEffect .realized)) ps := by
  refine h.readSession session fun _ => ?_
  exact h.bring app depth used session known configured one y.localEffect .capture
    .captureNotRealized

theorem streamConfigured (h : w.At s n r ps) (used : 0 < n) {y : Session}
    (session : r.sessions[s]? = some y) (known : r.processors[p]? = some x)
    (configured : x.phase = .configured) {ssrc : Ssrc} (one : x.subscribers = [.stream s ssrc])
    {stream : Stream} (present : y.stream? ssrc = some stream) :
    Ensures (streamUpdate app (perform app depth) s ssrc p .configured) w fun _ w' => w'.At s n
      (r.modifyProcessor p (·.brought stream.effect
        ((Subscriber.stream s ssrc).goal y.config.startStreams))) ps := by
  have brings := h.bring app depth used session known configured one
    stream.effect .stream (.streamNotRealized ssrc)
  have finds : Ensures (Metering.streamConfigured app (perform app depth) s ssrc p) w
      fun _ w' => Ensures (do
        match ← perform app depth (.realize p) with
        | .ok () => pure ()
        | .error f => Metering.sessionNotice s (.streamNotRealized ssrc f)) w' fun _ w' => w'.At s n
          (r.modifyProcessor p (·.brought stream.effect
            ((Subscriber.stream s ssrc).goal y.config.startStreams))) ps := by
    refine h.readSession session fun users => ?_
    have same : ({ y with users } : Session).stream? ssrc = y.stream? ssrc := rfl
    rw [same, present]
    simpa using brings
  exact ensures_bind.mpr finds

/-- What a session does when it hears that its processor is configured. -/
theorem hearConfigured (h : w.At s n r ps) (used : 0 < n) {y : Session}
    (session : r.sessions[s]? = some y) (known : r.processors[p]? = some x)
    (configured : x.phase = .configured) {z : Subscriber} (one : x.subscribers = [z])
    {e : EffectId} (effect : y.effectFor z = some e) :
    Ensures (hear app (perform app depth) p .configured z) w fun _ w' => w'.At s n
      (r.modifyProcessor p (·.brought e (z.goal y.config.startStreams))) ps := by
  have own : z.IsOf s := (h.own p x known).heard z (by simp [one])
  cases z with
  | watcher => exact own.elim
  | capture t =>
    obtain rfl : t = s := own
    obtain rfl : y.localEffect = e := Option.some.inj effect
    refine h.whileUsed used fun v inUse => ?_
    exact inUse.captureConfigured app depth (Nat.succ_pos n) session known configured one
  | stream t ssrc =>
    obtain rfl : t = s := own
    obtain ⟨stream, present, rfl⟩ := Option.map_eq_some_iff.mp effect
    refine h.whileUsed used fun v inUse => ?_
    exact inUse.streamConfigured app depth (Nat.succ_pos n) session known configured one present

/-- A processor is configured, and then its subscribers are told. -/
theorem configure (h : w.At s n r ps) {again : {β : Type} → Call β → Run S β} {r' : Rig}
    (known : r.processors[p]? = some x) (unrealized : x.phase = .unrealized)
    (tells : ∀ v : World S, v.At s n (r.setPhase p .configured) ps →
      Ensures (Metering.emit app again p .configured) v fun _ w' => w'.At s n r' ps) :
    Ensures (configure app again p) w fun answer w' => answer = .ok () ∧ w'.At s n r' ps := by
  refine h.readProcessor known ?_
  rintro y - rfl
  have internal : y.isExternal = false := (h.own p _ known).internal
  have phase : y.phase = .unrealized := unrealized
  simp only [internal, phase, Bool.false_eq_true, if_false]
  refine (h.moveTo p .configuring).bind fun _ v begun => ?_
  refine (begun.notice _).bind fun _ v noted => ?_
  refine (noted.moveTo p .configured).bind fun _ v moved => ?_
  rw [Rig.setPhase, Rig.setPhase, Rig.modifyProcessor_comp] at moved
  refine (tells v moved).bind fun _ v told => ?_
  exact ensures_pure.mpr ⟨rfl, told⟩

/-- A processor that was configured at most is brought up. -/
theorem beginConfiguration (h : w.At s n r ps) (used : 0 < n) {y : Session}
    (session : r.sessions[s]? = some y) (known : r.processors[p]? = some x)
    (early : x.phase = .unrealized ∨ x.phase = .configured) {z : Subscriber}
    (one : x.subscribers = [z]) {e : EffectId} (effect : y.effectFor z = some e)
    {body : Run S Unit} (does : x.phase = .configured → Ensures body w fun _ w' => w'.At s n
      (r.modifyProcessor p (·.brought e (z.goal y.config.startStreams))) ps) :
    Ensures (beginConfiguration app (perform app depth) p body) w fun answer w' =>
      answer = .ok () ∧ w'.At s n
        (r.modifyProcessor p (·.brought e (z.goal y.config.startStreams))) ps := by
  refine h.readProcessor known fun x' _ core => ?_
  have phase : x'.phase = x.phase := congrArg (·.phase) core
  obtain unrealized | configured := early
  · rw [phase, unrealized]
    refine h.configure app known unrealized fun v moved => ?_
    have there := Rig.modifyProcessor_known known fun x => { x with phase := .configured }
    refine moved.emit_one there one fun v at_v => ?_
    have heard := at_v.hearConfigured app depth used session there rfl one effect
    rw [Rig.setPhase, Rig.modifyProcessor_comp] at heard
    simpa only [Processor.brought_phase] using heard
  · rw [phase, configured]
    refine (does configured).bind fun _ v done => ?_
    exact ensures_pure.mpr ⟨rfl, done⟩

end Realizing

end World.At

end Metering
