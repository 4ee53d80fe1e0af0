import Mathlib.Data.List.Nodup
import Metering.Proofs.Operating
/-!
The board of a session: which processors it uses, how far each of them has come, and what the
effects have measured for whom. Every deed with the session, or with a processor, changes the board
in a way that is simple to say, and the rig stays as the board says.
-/

namespace Metering

variable {S α β : Type}

/-- What does not change while a session is used. -/
structure Setting where
  session : SessionId
  localEffect : EffectId
  config : SessionConfig
  /-- How many effects there are before the first stream is added. -/
  effects : Nat
  /-- The tracks whose frames pass the effect of their processor. -/
  meters : ProcessorId → Nat → Bool

/-- A processor in use, and the effect that it was given. -/
structure Seat where
  processor : ProcessorId
  effect : EffectId
  phase : Phase

/-- A stream in use, and what its effect has measured. -/
structure Feed extends Seat where
  ssrc : Ssrc
  history : History

/-- The processor in use for capture, and what the local effect has measured. -/
structure Intake where
  seat : Option Seat := none
  history : History := {}

structure Board where
  /-- The processors that the session has taken in so far. -/
  taken : List ProcessorId := []
  effects : Nat
  intake : Intake := {}
  streamListener : Option ListenerId := none
  streams : List Feed := []

def Phase.step (a b c : Phase) : Phase := if c = a then b else c

def Phase.Early (a : Phase) : Prop := a = .unrealized ∨ a = .configured

def Seat.turn (q : Seat) (p : ProcessorId) (h : Phase → Phase) : Seat :=
  if q.processor = p then { q with phase := h q.phase } else q

def Seat.after (q : Seat) : Deed → Seat
  | .start p => q.turn p (.step .realized .started)
  | .stop p => q.turn p (.step .started .realized)
  | .close p => q.turn p fun _ => .closed
  | _ => q

def Setting.hears (g : Setting) (q : Seat) (p : ProcessorId) (i : Nat) : Bool :=
  q.processor == p && q.phase == .started && g.meters p i

/-- How far a stream is brought when it is added. -/
def Setting.goal (g : Setting) : Phase :=
  if g.config.startStreams then .started else .realized

/-- A stream after a deed, or none if the deed gives it up. -/
def Feed.after (g : Setting) (f : Feed) : Deed → Option Feed
  | .setStreamListener _ l => some { f with history := { listener := l } }
  | .removeStream _ ssrc => if f.ssrc = ssrc then none else some f
  | .closeSession _ => none
  | .process p i b =>
    some (if g.hears f.toSeat p i then { f with history := f.history.hears b } else f)
  | d => some { f with toSeat := f.toSeat.after d }

def Intake.after (g : Setting) (k : Intake) : Deed → Intake
  | .setLocalListener _ l => { k with history := { listener := l } }
  | .connectCapture _ p => { k with seat := some ⟨p, g.localEffect, .realized⟩ }
  | .startSession _ =>
    { k with seat := k.seat.map fun q => q.turn q.processor (.step .realized .started) }
  | .stopSession _ =>
    { k with seat := k.seat.map fun q => q.turn q.processor (.step .started .realized) }
  | .closeSession _ => { seat := none, history := { k.history with levels := [] } }
  | .process p i b =>
    if k.seat.any (g.hears · p i) then { k with history := k.history.hears b } else k
  | d => { k with seat := k.seat.map (·.after d) }

namespace Board

/-- The stream that a deed adds, if there is no stream of that name. -/
def added (g : Setting) (b : Board) : Deed → List Feed
  | .addStream _ ssrc p =>
    if b.streams.any (·.ssrc == ssrc) then []
    else [⟨⟨p, b.effects, g.goal⟩, ssrc, { listener := b.streamListener }⟩]
  | _ => []

def after (g : Setting) (b : Board) (d : Deed) : Board where
  taken :=
    match d with
    | .connectCapture _ p => p :: b.taken
    | d => (b.added g d).map (·.processor) ++ b.taken
  effects := b.effects + (b.added g d).length
  intake := b.intake.after g d
  streamListener :=
    match d with
    | .setStreamListener _ l => l
    | _ => b.streamListener
  streams := b.streams.filterMap (·.after g d) ++ b.added g d

def seats (b : Board) : List Seat := b.intake.seat.toList ++ b.streams.map (·.toSeat)

/-- The processors in use, each with what its effect has measured. -/
def posts (b : Board) : List (Seat × History) :=
  b.intake.seat.toList.map (·, b.intake.history) ++ b.streams.map fun f => (f.toSeat, f.history)

/-- The effects in use, each with what it has measured. -/
def tenants (g : Setting) (b : Board) : List (EffectId × History) :=
  (g.localEffect, b.intake.history) :: b.streams.map fun f => (f.effect, f.history)

/-- What a deed lets a listener be told. -/
def tells (g : Setting) (b : Board) : Deed → Option (ListenerId × Int)
  | .process p i f =>
    (b.posts.find? fun t => g.hears t.1 p i).bind fun t => t.2.told g.config.effect f
  | _ => none

end Board

section Alone

variable {g : Setting} {b : Board} {p : ProcessorId}

theorem Board.after_configure : b.after g (.configure p) = b := by
  simp [Board.after, Board.added, Feed.after, Intake.after, Seat.after]

theorem Board.after_realize : b.after g (.realize p) = b := by
  simp [Board.after, Board.added, Feed.after, Intake.after, Seat.after]

end Alone

/-- The tracks whose frames pass an effect in the chain of the first audio track. -/
def Processor.meters (x : Processor) (i : Nat) : Bool :=
  firstAudio x.tracks == some i && (x.tracks[i]?).any fun t => t.acceptsPlugIns && t.enabled

/-- The effect stands in the chain of the first audio track, if that takes one, and nothing
stands in any other chain. -/
def Processor.Wired (x : Processor) (e : EffectId) : Prop :=
  ∀ i t, x.tracks[i]? = some t →
    t.chain = if firstAudio x.tracks = some i ∧ t.acceptsPlugIns = true then [.effect e] else []

structure Processor.Blank (x : Processor) : Prop where
  nobody : x.subscribers = []
  bare : ∀ t ∈ x.tracks, t.chain = []
  free : x.phase.Early → ∀ t ∈ x.tracks, t.locked = false

structure Processor.Placed (g : Setting) (taken : List ProcessorId) (seats : List Seat)
    (p : ProcessorId) (x : Processor) : Prop where
  meters : x.meters = g.meters p
  seat : ∀ q ∈ seats, q.processor = p → x.phase = q.phase ∧ ¬x.phase.Early ∧ x.Wired q.effect
  left : p ∈ taken → (∀ q ∈ seats, q.processor ≠ p) → x.phase = .closed
  blank : p ∉ taken → x.Blank

structure Rig.Seats (g : Setting) (taken : List ProcessorId) (seats : List Seat) (r : Rig) :
    Prop where
  single : (seats.map (·.processor)).Nodup
  within : ∀ q ∈ seats, q.processor ∈ taken
  known : ∀ q ∈ seats, ∃ x, r.processors[q.processor]? = some x
  placed : ∀ (p : ProcessorId) (x : Processor), r.processors[p]? = some x → x.Placed g taken seats p

structure Rig.Tenants (c : EffectConfig) (tenants : List (EffectId × History)) (r : Rig) :
    Prop where
  single : (tenants.map (·.1)).Nodup
  known : ∀ t ∈ tenants, ∃ z, r.effects[t.1]? = some z ∧ t.2.Of c z

structure Session.Shows (g : Setting) (b : Board) (y : Session) : Prop where
  config : y.config = g.config
  effect : y.localEffect = g.localEffect
  listener : y.streamListener = b.streamListener
  capture : y.capture = b.intake.seat.map (·.processor)
  streams : y.streams = b.streams.map fun f => (f.ssrc, ⟨f.processor, f.effect⟩)

structure Board.Fits (g : Setting) (b : Board) (r : Rig) : Prop where
  session : ∃ y, r.sessions[g.session]? = some y ∧ y.Shows g b
  seats : r.Seats g b.taken b.seats
  tenants : r.Tenants g.config.effect (b.tenants g)
  effects : r.effects.length = b.effects
  names : (b.streams.map (·.ssrc)).Nodup
  captured : ∀ q ∈ b.intake.seat, q.effect = g.localEffect

section Processor

variable {x : Processor} {e : EffectId} {a : Phase}

/-- What stands in the chain of a track decides what its frames meet. -/
theorem Processor.Wired.meets (h : x.Wired e) (i : Nat) :
    x.meets i = if x.phase = .started ∧ x.meters i = true then some e else none := by
  unfold Processor.meets Processor.meters
  by_cases started : x.phase = .started
  · cases track : x.tracks[i]? with
    | none => simp [started]
    | some t =>
      have chain := h i t track
      by_cases first : firstAudio x.tracks = some i
      · by_cases accepts : t.acceptsPlugIns = true
        · cases enabled : t.enabled with
          | false => simp [started, enabled]
          | true => simp [started, first, accepts, chain, enabled]
        · cases enabled : t.enabled with
          | false => simp [started, enabled]
          | true => simp [started, accepts, chain, enabled]
      · cases enabled : t.enabled with
        | false => simp [started, enabled]
        | true => simp [started, first, chain, enabled]
  · simp [started]

theorem Processor.Blank.meets (h : x.Blank) (i : Nat) : x.meets i = none := by
  unfold Processor.meets
  cases track : x.tracks[i]? with
  | none => simp
  | some t => simp [h.bare t (List.mem_of_getElem? track)]

theorem Processor.Blank.turn (h : x.Blank) (early : a.Early → x.phase.Early) :
    ({ x with phase := a } : Processor).Blank where
  nobody := h.nobody
  bare := h.bare
  free before := h.free (early before)

/-- The first audio track is the first track with an audio format. -/
theorem firstAudio_congr {xs ys : List Track} (same : xs.map (·.format) = ys.map (·.format)) :
    firstAudio xs = firstAudio ys := by
  have formats (zs : List Track) :
      firstAudio zs = (zs.map (·.format)).findIdx? (·.isAudio) := by
    rw [List.findIdx?_map]
    rfl
  rw [formats, formats, same]

theorem Processor.brought_track (i : Nat) : (x.brought e a).tracks[i]? = (x.tracks[i]?).map fun t =>
    { t with
      locked := true
      chain := if firstAudio x.tracks = some i ∧ t.acceptsPlugIns = true ∧ t.locked = false then
        [.effect e] else t.chain } := by
  unfold Processor.brought Processor.lock
  rw [List.getElem?_map, Processor.wire_track]
  cases x.tracks[i]? with
  | none => rfl
  | some t =>
    by_cases here : firstAudio x.tracks = some i ∧ t.acceptsPlugIns = true ∧ t.locked = false
    · simp [here]
    · simp [here]

theorem Processor.brought_firstAudio :
    firstAudio (x.brought e a).tracks = firstAudio x.tracks := by
  apply firstAudio_congr
  apply List.ext_getElem?
  intro i
  rw [List.getElem?_map, List.getElem?_map, Processor.brought_track]
  cases x.tracks[i]? with
  | none => rfl
  | some t => rfl

theorem Processor.brought_meters : (x.brought e a).meters = x.meters := by
  funext i
  unfold Processor.meters
  rw [Processor.brought_firstAudio, Processor.brought_track]
  cases x.tracks[i]? with
  | none => rfl
  | some t => rfl

/-- A processor that was not used before is wired when it was brought up. -/
theorem Processor.Blank.brought (h : x.Blank) (early : x.phase.Early) :
    (x.brought e a).Wired e := by
  intro i t track
  rw [Processor.brought_track, Option.map_eq_some_iff] at track
  obtain ⟨u, track, rfl⟩ := track
  have member := List.mem_of_getElem? track
  rw [Processor.brought_firstAudio]
  simp [h.bare u member, h.free early u member]

/-- Somebody who hears of a processor makes no difference to its wiring. -/
theorem Processor.Blank.joined (h : x.Blank) (early : x.phase.Early) (z : Subscriber) :
    ((x.joined z).brought e a).Wired e := by
  have tracks : ((x.joined z).brought e a).tracks = (x.brought e a).tracks := by
    apply List.ext_getElem?
    intro i
    rw [Processor.brought_track, Processor.brought_track]
    rfl
  have brought := h.brought (e := e) (a := a) early
  unfold Processor.Wired at brought ⊢
  rwa [tracks]

end Processor

section Seats

variable {g : Setting} {taken : List ProcessorId} {seats : List Seat} {r : Rig}
variable {p : ProcessorId} {x : Processor}

@[simp]
theorem Seat.turn_processor (q : Seat) (p : ProcessorId) (h : Phase → Phase) :
    (q.turn p h).processor = q.processor := by
  unfold Seat.turn
  split
  · rfl
  · rfl

@[simp]
theorem Seat.turn_effect (q : Seat) (p : ProcessorId) (h : Phase → Phase) :
    (q.turn p h).effect = q.effect := by
  unfold Seat.turn
  split
  · rfl
  · rfl

theorem Seat.turn_other {q : Seat} {h : Phase → Phase} (other : q.processor ≠ p) :
    q.turn p h = q := if_neg other

/-- Processors other than the one that a deed is about stay as they are. -/
theorem Processor.Placed.congr {taken' : List ProcessorId} {seats' : List Seat}
    (h : x.Placed g taken seats p) (same : ∀ q, q.processor = p → (q ∈ seats' ↔ q ∈ seats))
    (takes : p ∈ taken' ↔ p ∈ taken) : x.Placed g taken' seats' p where
  meters := h.meters
  seat q member here := h.seat q ((same q here).mp member) here
  left before gone := h.left (takes.mp before) fun q member here =>
    gone q ((same q here).mpr member) here
  blank new := h.blank fun before => new (takes.mpr before)

namespace Rig.Seats

theorem of_processors {v : Rig} (h : r.Seats g taken seats) (same : v.processors = r.processors) :
    v.Seats g taken seats where
  single := h.single
  within := h.within
  known q member := same ▸ h.known q member
  placed p x known := h.placed p x (same ▸ known)

theorem perm {seats' : List Seat} (h : r.Seats g taken seats) (order : seats'.Perm seats) :
    r.Seats g taken seats' where
  single := ((order.map _).nodup_iff).mpr h.single
  within q member := h.within q (order.mem_iff.mp member)
  known q member := h.known q (order.mem_iff.mp member)
  placed p x known := (h.placed p x known).congr (fun _ _ => order.mem_iff) Iff.rfl

/-- One processor changes. -/
theorem modify (h : r.Seats g taken seats) {f : Processor → Processor}
    {taken' : List ProcessorId} {seats' : List Seat} (single : (seats'.map (·.processor)).Nodup)
    (within : ∀ q ∈ seats', q.processor ∈ taken')
    (known : ∀ q ∈ seats', ∃ x, r.processors[q.processor]? = some x)
    (others : ∀ q, q.processor ≠ p → (q ∈ seats' ↔ q ∈ seats))
    (takes : ∀ p', p' ≠ p → (p' ∈ taken' ↔ p' ∈ taken))
    (here : ∀ x, r.processors[p]? = some x → x.Placed g taken seats p →
      (f x).Placed g taken' seats' p) : (r.modifyProcessor p f).Seats g taken' seats' where
  single := single
  within := within
  known q member := by
    obtain ⟨x, there⟩ := known q member
    by_cases same : p = q.processor
    · exact ⟨f x, by rw [same, Rig.modifyProcessor_known there]⟩
    · exact ⟨x, by rw [Rig.modifyProcessor_other same, there]⟩
  placed p' x there := by
    by_cases same : p = p'
    · subst same
      simp only [Rig.modifyProcessor, List.getElem?_modify, if_true, Option.map_eq_map,
        Option.map_eq_some_iff] at there
      obtain ⟨y, there, rfl⟩ := there
      exact here y there (h.placed p y there)
    · rw [Rig.modifyProcessor_other same] at there
      have other : p' ≠ p := fun eq => same eq.symm
      exact (h.placed p' x there).congr (fun q at_q => others q (at_q ▸ other)) (takes p' other)

/-- The phase of a processor changes, and is written on the board. -/
theorem turn (h : r.Seats g taken seats) {f : Phase → Phase} (closed : f .closed = .closed)
    (early : ∀ a, (f a).Early → a.Early) :
    (r.modifyProcessor p fun x => { x with phase := f x.phase }).Seats g taken
      (seats.map (·.turn p f)) := by
  -- Every seat on the new board is one of the old board with its phase changed.
  have origin {q : Seat} (member : q ∈ seats.map (·.turn p f)) :
      ∃ q' ∈ seats, q'.turn p f = q ∧ q'.processor = q.processor := by
    obtain ⟨q', before, rfl⟩ := List.mem_map.mp member
    exact ⟨q', before, rfl, (q'.turn_processor p f).symm⟩
  refine h.modify ?_ ?_ ?_ ?_ (fun _ _ => Iff.rfl) ?_
  · simpa [Function.comp_def] using h.single
  · intro q member
    obtain ⟨q', before, -, same⟩ := origin member
    exact same ▸ h.within q' before
  · intro q member
    obtain ⟨q', before, -, same⟩ := origin member
    exact same ▸ h.known q' before
  · intro q other
    constructor
    · intro member
      obtain ⟨q', before, rfl, same⟩ := origin member
      rwa [Seat.turn_other (same ▸ other)]
    · intro member
      exact List.mem_map.mpr ⟨q, member, Seat.turn_other other⟩
  · intro x _ placed
    refine ⟨placed.meters, ?_, ?_, fun new => (placed.blank new).turn (early x.phase)⟩
    · intro q member here
      obtain ⟨q', before, rfl, same⟩ := origin member
      obtain ⟨phase, late, wired⟩ := placed.seat q' before (same.trans here)
      have turned : q'.turn p f = { q' with phase := f q'.phase } := if_pos (same.trans here)
      rw [turned]
      exact ⟨congrArg f phase, fun soon => late (early x.phase soon), wired⟩
    · intro before gone
      have was : x.phase = .closed := placed.left before fun q member here =>
        gone (q.turn p f) (List.mem_map_of_mem member) ((q.turn_processor p f).trans here)
      exact (congrArg f was).trans closed

/-- A processor is closed and used no longer. -/
theorem retire (h : r.Seats g taken seats) (p : ProcessorId) :
    (r.setPhase p .closed).Seats g taken (seats.filter (·.processor != p)) := by
  have origin {q : Seat} (member : q ∈ seats.filter (·.processor != p)) :
      q ∈ seats ∧ q.processor ≠ p := by
    simpa using List.mem_filter.mp member
  refine h.modify ?_ ?_ ?_ ?_ (fun _ _ => Iff.rfl) ?_
  · exact h.single.sublist (List.filter_sublist.map _)
  · intro q member
    exact h.within q (origin member).1
  · intro q member
    exact h.known q (origin member).1
  · intro q other
    simp [other]
  · intro x _ placed
    have late : ¬Phase.Early .closed := by simp [Phase.Early]
    exact ⟨placed.meters, fun q member here => absurd here (origin member).2, fun _ _ => rfl,
      fun new => (placed.blank new).turn fun soon => absurd soon late⟩

/-- A processor that was not used before is taken in. -/
theorem takeIn (h : r.Seats g taken seats) (known : ∃ x, r.processors[p]? = some x)
    (new : p ∉ taken) (early : ∀ x, r.processors[p]? = some x → x.phase.Early) (z : Subscriber)
    (e : EffectId) {a : Phase} (late : ¬a.Early) :
    (r.modifyProcessor p fun x => (x.joined z).brought e a).Seats g (p :: taken)
      (⟨p, e, a⟩ :: seats) := by
  have unused (q : Seat) (member : q ∈ seats) : q.processor ≠ p := by
    intro same
    exact new (same ▸ h.within q member)
  -- The new seat is for a processor that was in none, so the seats stay single and every other
  -- processor is where it was.
  refine h.modify ?_ ?_ ?_ ?_ ?_ ?_
  · rw [List.map_cons, List.nodup_cons]
    refine ⟨?_, h.single⟩
    rintro member
    obtain ⟨q, member, same⟩ := List.mem_map.mp member
    exact unused q member same
  · intro q member
    obtain rfl | member := List.mem_cons.mp member
    · exact List.mem_cons_self
    · exact List.mem_cons_of_mem p (h.within q member)
  · intro q member
    obtain rfl | member := List.mem_cons.mp member
    · exact known
    · exact h.known q member
  · intro q other
    constructor
    · intro member
      obtain rfl | member := List.mem_cons.mp member
      · exact absurd rfl other
      · exact member
    · exact List.mem_cons_of_mem _
  · intro p' other
    simp [other]
  · intro x there placed
    have joined : (x.joined z).meters = x.meters := rfl
    refine ⟨?_, ?_, fun _ gone => absurd rfl (gone _ List.mem_cons_self),
      fun out => absurd List.mem_cons_self out⟩
    · rw [Processor.brought_meters, joined]
      exact placed.meters
    · intro q member here
      obtain rfl | member := List.mem_cons.mp member
      · exact ⟨rfl, late, (placed.blank new).joined (early x there) z⟩
      · exact absurd here (unused q member)

/-- The application realizes a processor, which no session uses then. -/
theorem realizeAlone (h : r.Seats g taken seats) :
    (r.modifyProcessor p fun x =>
      if x.phase = .configured then { x.lock with phase := .realized } else x).Seats g taken
        seats := by
  refine h.modify h.single h.within h.known (fun _ _ => Iff.rfl) (fun _ _ => Iff.rfl) ?_
  intro x _ placed
  -- A seat is never for a processor that is only configured, so this one was blank.
  by_cases configured : x.phase = .configured
  · have unused (q : Seat) (member : q ∈ seats) : q.processor ≠ p := fun same =>
      (placed.seat q member same).2.1 (.inr configured)
    have new : p ∉ taken := by
      intro before
      cases configured.symm.trans (placed.left before unused)
    have blank := placed.blank new
    rw [if_pos configured]
    refine ⟨?_, fun q member same => absurd same (unused q member),
      fun before => absurd before new, fun _ => ⟨blank.nobody, ?_, ?_⟩⟩
    · rw [← placed.meters]
      have formats : firstAudio x.lock.tracks = firstAudio x.tracks :=
        firstAudio_congr (by simp [Processor.lock, Function.comp_def])
      funext i
      change (firstAudio x.lock.tracks == some i && (x.lock.tracks[i]?).any _) = _
      rw [formats, Processor.meters]
      simp [Processor.lock, Option.any_map]
    · intro t member
      obtain ⟨u, before, rfl⟩ := List.mem_map.mp member
      exact blank.bare u before
    · intro soon
      simp [Phase.Early] at soon
  · rwa [if_neg configured]

end Rig.Seats

end Seats

section Tenants

variable {g : Setting} {r : Rig}

namespace Rig.Tenants

variable {c : EffectConfig} {tenants : List (EffectId × History)} {e : EffectId}

theorem of_effects {v : Rig} (h : r.Tenants c tenants) (same : v.effects = r.effects) :
    v.Tenants c tenants where
  single := h.single
  known t member := same ▸ h.known t member

theorem sublist {tenants' : List (EffectId × History)} (h : r.Tenants c tenants)
    (sub : tenants'.Sublist tenants) : r.Tenants c tenants' where
  single := h.single.sublist (sub.map _)
  known t member := h.known t (sub.subset member)

/-- There is one history for an effect at most. -/
theorem eq_of_effect (h : r.Tenants c tenants) {t u : EffectId × History} (one : t ∈ tenants)
    (two : u ∈ tenants) (same : t.1 = u.1) : t = u :=
  List.inj_on_of_nodup_map h.single one two same

/-- An effect changes, and so does its history. -/
theorem modify (h : r.Tenants c tenants) {f : LevelEffect → LevelEffect} {k : History → History}
    (keeps : ∀ t ∈ tenants, t.1 = e → ∀ z, r.effects[e]? = some z → t.2.Of c z →
      (k t.2).Of c (f z)) :
    (r.modifyEffect e f).Tenants c (tenants.map fun t => if t.1 = e then (t.1, k t.2) else t) where
  single := by
    have same : (tenants.map fun t => if t.1 = e then (t.1, k t.2) else t).map (·.1) =
        tenants.map (·.1) := by
      rw [List.map_map]
      apply List.map_congr_left
      intro t _
      by_cases here : t.1 = e
      · simp [here]
      · simp [here]
    exact same ▸ h.single
  known t member := by
    obtain ⟨u, before, rfl⟩ := List.mem_map.mp member
    obtain ⟨z, known, of⟩ := h.known u before
    by_cases here : u.1 = e
    · rw [if_pos here]
      refine ⟨f z, ?_, keeps u before here z (here ▸ known) of⟩
      simp [Rig.modifyEffect, here, here ▸ known]
    · rw [if_neg here]
      refine ⟨z, ?_, of⟩
      have other : e ≠ u.1 := fun same => here same.symm
      simpa [Rig.modifyEffect, other] using known

/-- An effect changes that is no longer in use. -/
theorem other (h : r.Tenants c tenants) {f : LevelEffect → LevelEffect}
    (unused : ∀ t ∈ tenants, t.1 ≠ e) : (r.modifyEffect e f).Tenants c tenants := by
  have changed := h.modify (e := e) (f := f) (k := id) fun t member here =>
    absurd here (unused t member)
  have same : (tenants.map fun t => if t.1 = e then (t.1, id t.2) else t) = tenants.map id :=
    List.map_congr_left fun t member => if_neg (unused t member)
  rw [List.map_id] at same
  rwa [same] at changed

/-- There is one effect more. -/
theorem append (h : r.Tenants c tenants) {z : LevelEffect} {k : History} (of : k.Of c z) :
    ({ r with effects := r.effects ++ [z] } : Rig).Tenants c
      (tenants ++ [(r.effects.length, k)]) where
  single := by
    rw [List.map_append, List.nodup_append]
    refine ⟨h.single, by simp, ?_⟩
    intro e member e' last same
    obtain ⟨t, before, rfl⟩ := List.mem_map.mp member
    obtain ⟨z, known, -⟩ := h.known t before
    obtain ⟨within, -⟩ := List.getElem?_eq_some_iff.mp known
    have at_end : e' = r.effects.length := by simpa using last
    exact absurd (same.trans at_end) (Nat.ne_of_lt within)
  known t member := by
    obtain before | last := List.mem_append.mp member
    · obtain ⟨z', known, of'⟩ := h.known t before
      obtain ⟨within, -⟩ := List.getElem?_eq_some_iff.mp known
      exact ⟨z', by rw [List.getElem?_append_left within, known], of'⟩
    · obtain rfl := List.mem_singleton.mp last
      exact ⟨z, by simp, of⟩

/-- A stream is given up whose effect is no longer in use. -/
theorem dropStream (h : r.Tenants c tenants) {x : Stream} (unused : ∀ t ∈ tenants, t.1 ≠ x.effect) :
    (r.dropStream x).Tenants c tenants :=
  ((h.of_effects (v := r.setPhase x.processor .closed) rfl).other unused).other unused

/-- Several effects change in the same way, and they begin the same history. -/
theorem modifyAll {f : LevelEffect → LevelEffect} {k : History}
    (keeps : ∀ z h, History.Of c h z → k.Of c (f z)) (h : r.Tenants c tenants)
    (es : List EffectId) :
    (es.foldl (fun r e => r.modifyEffect e f) r).Tenants c
      (tenants.map fun t => if t.1 ∈ es then (t.1, k) else t) := by
  induction es generalizing r tenants with
  | nil => simpa using h
  | cons e es ih =>
    have first := h.modify (e := e) (f := f) (k := fun _ => k) fun t _ _ z _ of => keeps z t.2 of
    have rest := ih first
    rw [List.map_map] at rest
    have same : (tenants.map ((fun t => if t.1 ∈ es then (t.1, k) else t) ∘
        fun t => if t.1 = e then (t.1, k) else t)) =
        tenants.map fun t => if t.1 ∈ e :: es then (t.1, k) else t := by
      apply List.map_congr_left
      intro t _
      by_cases here : t.1 = e
      · simp [here]
      · simp [here]
    rwa [same] at rest

end Rig.Tenants

theorem Rig.Seats.dropStream {taken : List ProcessorId} {seats : List Seat}
    (h : r.Seats g taken seats) (x : Stream) :
    (r.dropStream x).Seats g taken (seats.filter (·.processor != x.processor)) :=
  (h.retire x.processor).of_processors rfl

def Rig.dropAll (r : Rig) (fs : List Feed) : Rig :=
  fs.foldl (fun r f => r.dropStream ⟨f.processor, f.effect⟩) r

theorem Rig.dropAll_frame (fs : List Feed) : (r.dropAll fs).sessions = r.sessions ∧
    (r.dropAll fs).effects.length = r.effects.length := by
  induction fs generalizing r with
  | nil => exact ⟨rfl, rfl⟩
  | cons f fs ih =>
    obtain ⟨sessions, effects⟩ := ih (r := r.dropStream ⟨f.processor, f.effect⟩)
    exact ⟨sessions, effects.trans (by simp [Rig.dropStream, Rig.modifyEffect, Rig.setPhase,
      Rig.modifyProcessor])⟩

theorem Rig.Seats.dropAll {taken : List ProcessorId} {fs : List Feed}
    (h : r.Seats g taken (fs.map (·.toSeat))) : (r.dropAll fs).Seats g taken [] := by
  induction fs generalizing r with
  | nil => exact h
  | cons f fs ih =>
    have single := h.single
    rw [List.map_cons, List.map_cons, List.nodup_cons] at single
    have others : (fs.map (·.toSeat)).filter (·.processor != f.processor) =
        fs.map (·.toSeat) := by
      rw [List.filter_eq_self]
      intro q member
      have other : q.processor ≠ f.processor := fun same =>
        single.1 (same ▸ List.mem_map_of_mem member)
      simpa using other
    have dropped := h.dropStream ⟨f.processor, f.effect⟩
    rw [List.map_cons, List.filter_cons_of_neg (by simp), others] at dropped
    exact ih dropped

theorem Rig.Tenants.dropAll {c : EffectConfig} {tenants : List (EffectId × History)}
    {fs : List Feed} (unused : ∀ f ∈ fs, ∀ t ∈ tenants, t.1 ≠ f.effect) (h : r.Tenants c tenants) :
    (r.dropAll fs).Tenants c tenants := by
  induction fs generalizing r with
  | nil => exact h
  | cons f fs ih =>
    have dropped := h.dropStream (x := ⟨f.processor, f.effect⟩) (unused f List.mem_cons_self)
    exact ih (fun f' member => unused f' (List.mem_cons_of_mem f member)) dropped

/-- What changes effects only. -/
theorem Rig.modifyAll_frame (f : LevelEffect → LevelEffect) (es : List EffectId) :
    (es.foldl (fun r e => r.modifyEffect e f) r).sessions = r.sessions ∧
    (es.foldl (fun r e => r.modifyEffect e f) r).processors = r.processors ∧
    (es.foldl (fun r e => r.modifyEffect e f) r).effects.length = r.effects.length := by
  induction es generalizing r with
  | nil => exact ⟨rfl, rfl, rfl⟩
  | cons e es ih =>
    obtain ⟨sessions, processors, effects⟩ := ih (r := r.modifyEffect e f)
    exact ⟨sessions, processors, effects.trans (by simp [Rig.modifyEffect])⟩

end Tenants

end Metering
