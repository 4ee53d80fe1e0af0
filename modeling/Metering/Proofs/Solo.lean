import Metering.Proofs.Routing
/-!
One side of a session by itself: a single stream, or what is captured. Each of them is changed by
its own deeds only, so what it reports can be told from these, without the others.
-/

namespace Metering

variable {S α : Type}

/-- The deeds of a story, the newest first. -/
def deeds : List Page → List Deed
  | [] => []
  | .did _ d :: ps => d :: deeds ps
  | .heard .. :: ps => deeds ps

def playing (ssrc : Ssrc) : List Deed → Option ProcessorId
  | [] => none
  | .addStream _ k p :: ds => if k = ssrc then (playing ssrc ds).or (some p) else playing ssrc ds
  | .removeStream _ k :: ds => if k = ssrc then none else playing ssrc ds
  | .closeSession _ :: _ => none
  | _ :: ds => playing ssrc ds

def isOwnFrame (ssrc : Ssrc) : List Deed → Bool
  | .process p _ _ :: ds => playing ssrc ds == some p
  | _ => false

/-- The levels that were told about the frames of a stream, from the first to the last. -/
def reports (ssrc : Ssrc) : List Page → List (ListenerId × Int)
  | [] => []
  | .did .. :: ps => reports ssrc ps
  | .heard l n :: ps => reports ssrc ps ++ if isOwnFrame ssrc (deeds ps) then [(l, n)] else []

def Deed.player (ssrc : Ssrc) : Deed → Option ProcessorId
  | .addStream _ k p => if k = ssrc then some p else none
  | _ => none

/-- A deed with a stream, or with one of its processors. -/
def Deed.concerns (ssrc : Ssrc) (players : List ProcessorId) : Deed → Bool
  | .addStream _ k _ | .removeStream _ k => k == ssrc
  | .setStreamListener .. | .closeSession _ => true
  | .start p | .stop p | .close p | .process p .. => players.contains p
  | _ => false

/-- The deeds with a stream, and with the processors that were passed for it. -/
def streamDeeds (ssrc : Ssrc) (ds : List Deed) : List Deed :=
  ds.filter (Deed.concerns ssrc (ds.filterMap (Deed.player ssrc)))

def Deed.capturer : Deed → Option ProcessorId
  | .connectCapture _ p => some p
  | _ => none

/-- A deed with what is captured, or with one of its processors. -/
def Deed.concernsCapture (players : List ProcessorId) : Deed → Bool
  | .setLocalListener .. | .connectCapture .. => true
  | .startSession _ | .stopSession _ | .closeSession _ => true
  | .start p | .stop p | .close p | .process p .. => players.contains p
  | _ => false

/-- The deeds with what is captured, and with the processors that were passed for capture. -/
def captureDeeds (ds : List Deed) : List Deed :=
  ds.filter (Deed.concernsCapture (ds.filterMap Deed.capturer))

/-- The deeds with a stream are their own deeds with the stream. -/
theorem streamDeeds_streamDeeds (ssrc : Ssrc) (ds : List Deed) :
    streamDeeds ssrc (streamDeeds ssrc ds) = streamDeeds ssrc ds := by
  have players : (streamDeeds ssrc ds).filterMap (Deed.player ssrc) =
      ds.filterMap (Deed.player ssrc) := by
    rw [streamDeeds, List.filterMap_filter]
    apply List.filterMap_congr
    intro d _
    cases d with
    | addStream s k p =>
      by_cases here : k = ssrc
      · simp [Deed.concerns, here]
      · simp [Deed.player, here]
    | _ => exact ite_self _
  conv_lhs => rw [streamDeeds, players]
  rw [streamDeeds, List.filter_filter]
  simp

/-- A stream by itself, with the listener that the streams have. -/
structure Solo where
  listener : Option ListenerId := none
  feed : Option Feed := none

namespace Solo

/-- What becomes of the stream when a deed is done. -/
def after (g : Setting) (ssrc : Ssrc) (a : Solo) (d : Deed) : Solo where
  listener := (Deed.streamListener d).getD a.listener
  feed :=
    match d with
    | .addStream _ k p =>
      if k = ssrc then a.feed.or (some ⟨⟨p, 0, g.goal⟩, ssrc, { listener := a.listener }⟩)
      else a.feed
    | d => a.feed.bind (·.after g d)

/-- What a deed lets a listener be told about the stream. -/
def tells (g : Setting) (a : Solo) : Deed → Option (ListenerId × Int)
  | .process p i b => a.feed.bind fun f =>
    if g.hears f.toSeat p i then f.history.told g.config.effect b else none
  | _ => none

def state (g : Setting) (ssrc : Ssrc) (a : Solo) (ds : List Deed) : Solo :=
  ds.foldr (fun d a => a.after g ssrc d) a

/-- What some deeds let listeners be told about the stream, from the first to the last. -/
def reports (g : Setting) (ssrc : Ssrc) (a : Solo) : List Deed → List (ListenerId × Int)
  | [] => []
  | d :: ds => reports g ssrc a ds ++ ((state g ssrc a ds).tells g d).toList

end Solo

def Intake.state (g : Setting) (ds : List Deed) : Intake := ds.foldr (fun d k => k.after g d) {}

/-- Deeds that change nothing can be left out. -/
theorem foldr_filter {step : Deed → α → α} {keep : Deed → Bool} {Inv : α → Prop} {a : α}
    {ds : List Deed} (start : Inv a) (keeps : ∀ d ∈ ds, ∀ b, Inv b → Inv (step d b))
    (skips : ∀ d ∈ ds, keep d = false → ∀ b, Inv b → step d b = b) :
    (ds.filter keep).foldr step a = ds.foldr step a ∧ Inv (ds.foldr step a) := by
  induction ds with
  | nil => exact ⟨rfl, start⟩
  | cons d ds ih =>
    obtain ⟨same, inv⟩ := ih (fun d member => keeps d (List.mem_cons_of_mem _ member))
      (fun d member => skips d (List.mem_cons_of_mem _ member))
    refine ⟨?_, keeps d List.mem_cons_self _ inv⟩
    cases kept : keep d with
    | true => rw [List.filter_cons_of_pos kept, List.foldr_cons, List.foldr_cons, same]
    | false =>
      rw [List.filter_cons_of_neg (by simp [kept]), List.foldr_cons, same]
      exact (skips d List.mem_cons_self kept _ inv).symm

section Feed

variable {g : Setting} {f f' : Feed} {d : Deed} {ssrc : Ssrc} {players : List ProcessorId}

/-- A deed changes neither the name of a stream nor its processor. -/
theorem Feed.after_keeps (after : f.after g d = some f') :
    f'.ssrc = f.ssrc ∧ f'.processor = f.processor := by
  cases d with
  | removeStream s k =>
    simp only [Feed.after] at after
    split at after
    · cases after
    · cases after
      exact ⟨rfl, rfl⟩
  | closeSession s => cases after
  | process p i b =>
    simp only [Feed.after, Option.some.injEq] at after
    subst after
    split
    · exact ⟨rfl, rfl⟩
    · exact ⟨rfl, rfl⟩
  | start p | stop p | close p =>
    cases after
    exact ⟨rfl, Seat.turn_processor _ _ _⟩
  | _ =>
    cases after
    exact ⟨rfl, rfl⟩

/-- The processor of a stream that a deed does not give up. -/
theorem Feed.after_processor (f : Feed) (d : Deed) : (f.after g d).map (·.processor) =
    match d with
    | .removeStream _ k => if f.ssrc = k then none else some f.processor
    | .closeSession _ => none
    | _ => some f.processor := by
  cases d with
  | removeStream s k =>
    by_cases here : f.ssrc = k
    · simp [Feed.after, here]
    · simp [Feed.after, here]
  | process p i b =>
    simp only [Feed.after, Option.map_some]
    split
    · rfl
    · rfl
  | start p | stop p | close p => exact congrArg some (Seat.turn_processor _ _ _)
  | _ => rfl

/-- Whether a deed gives a stream up depends on the name of the stream only. -/
theorem Feed.after_none (same : f'.ssrc = f.ssrc) (gone : f.after g d = none) :
    f'.after g d = none := by
  cases d with
  | removeStream s k =>
    have given_up : f.ssrc = k := by simpa [Feed.after] using gone
    simp [Feed.after, same, given_up]
  | closeSession s => rfl
  | _ => cases gone

/-- A processor hears nothing of frames on another one. -/
theorem Setting.hears_other {q : Seat} {p : ProcessorId} {i : Nat} (other : q.processor ≠ p) :
    g.hears q p i = false := by
  simp [Setting.hears, other]

/-- A deed that does not concern a stream leaves it as it is. -/
theorem Feed.after_other (name : f.ssrc = ssrc) (player : f.processor ∈ players)
    (other : d.concerns ssrc players = false) : f.after g d = some f := by
  have absent {p : ProcessorId} (out : players.contains p = false) : f.processor ≠ p := by
    intro same
    simp [← same, player] at out
  cases d with
  | removeStream s k =>
    have different : f.ssrc ≠ k := fun same => by simp [Deed.concerns, ← name, same] at other
    simp [Feed.after, different]
  | setStreamListener s l => cases other
  | closeSession s => cases other
  | process p i b => simp [Feed.after, Setting.hears_other (absent other)]
  | start p | stop p | close p => simp [Feed.after, Seat.after, Seat.turn_other (absent other)]
  | _ => rfl

end Feed

namespace Solo

variable {g : Setting} {ssrc : Ssrc} {a : Solo} {ds : List Deed} {d : Deed}
variable {players : List ProcessorId}

/-- The stream is the one of the name, and is played by one of the processors. -/
def Among (ssrc : Ssrc) (players : List ProcessorId) (a : Solo) : Prop :=
  ∀ f ∈ a.feed, f.ssrc = ssrc ∧ f.processor ∈ players

theorem Among.after (among : a.Among ssrc players) (passed : ∀ p ∈ d.player ssrc, p ∈ players) :
    (a.after g ssrc d).Among ssrc players := by
  have kept : ∀ f ∈ a.feed.bind (·.after g d), f.ssrc = ssrc ∧ f.processor ∈ players := by
    intro f member
    obtain ⟨before, here, after⟩ := Option.bind_eq_some_iff.mp member
    obtain ⟨name, processor⟩ := Feed.after_keeps after
    obtain ⟨own, player⟩ := among before here
    exact ⟨name.trans own, processor ▸ player⟩
  cases d with
  | addStream s k p =>
    intro f member
    simp only [Solo.after] at member
    by_cases here : k = ssrc
    · rw [if_pos here] at member
      cases feed : a.feed with
      | none =>
        rw [feed] at member
        cases member
        exact ⟨rfl, passed p (by simp [Deed.player, here])⟩
      | some before =>
        rw [feed] at member
        cases member
        exact among f feed
    · rw [if_neg here] at member
      exact among f member
  | _ => exact kept

/-- A deed that does not concern the stream leaves it as it is, and nothing is told about it. -/
theorem after_other (among : a.Among ssrc players) (other : d.concerns ssrc players = false) :
    a.after g ssrc d = a ∧ a.tells g d = none := by
  have kept : a.feed.bind (·.after g d) = a.feed := by
    cases feed : a.feed with
    | none => rfl
    | some f => exact Feed.after_other (among f feed).1 (among f feed).2 other
  have same : a.after g ssrc d = a := by
    cases d with
    | addStream s k p =>
      have different : k ≠ ssrc := by simpa [Deed.concerns] using other
      simp [Solo.after, Deed.streamListener, different]
    | setStreamListener s l => cases other
    | _ => exact congrArg (Solo.mk a.listener) kept
  refine ⟨same, ?_⟩
  cases d with
  | process p i b =>
    refine Option.bind_eq_none_iff.mpr fun f feed => ?_
    have unheard : f.processor ≠ p := by
      rintro rfl
      simp [Deed.concerns, (among f feed).2] at other
    simp [Setting.hears_other unheard]
  | _ => rfl

/-- The stream is the same after the deeds that concern it. -/
theorem state_filter (absent : a.feed = none)
    (passed : ∀ d ∈ ds, ∀ p ∈ d.player ssrc, p ∈ players) :
    state g ssrc a (ds.filter (Deed.concerns ssrc players)) = state g ssrc a ds ∧
      (state g ssrc a ds).Among ssrc players :=
  foldr_filter (fun f member => by cases absent.symm.trans member)
    (fun d member _ among => among.after (passed d member))
    (fun _ _ other _ among => (after_other among other).1)

theorem reports_filter (absent : a.feed = none)
    (passed : ∀ d ∈ ds, ∀ p ∈ d.player ssrc, p ∈ players) :
    reports g ssrc a (ds.filter (Deed.concerns ssrc players)) = reports g ssrc a ds := by
  induction ds with
  | nil => rfl
  | cons d ds ih =>
    have before (d : Deed) (member : d ∈ ds) := passed d (List.mem_cons_of_mem _ member)
    obtain ⟨same, among⟩ := state_filter (g := g) absent before
    cases kept : d.concerns ssrc players with
    | true => rw [List.filter_cons_of_pos kept, reports, reports, ih before, same]
    | false =>
      rw [List.filter_cons_of_neg (by simp [kept]), ih before, reports, (after_other among kept).2]
      simp

/-- What becomes of a stream depends on its own deeds only. -/
theorem state_streamDeeds (absent : a.feed = none) :
    state g ssrc a (streamDeeds ssrc ds) = state g ssrc a ds :=
  (state_filter absent fun d member _ passed => List.mem_filterMap.mpr ⟨d, member, passed⟩).1

/-- The stream is played by a processor that was passed for it. -/
theorem state_among (absent : a.feed = none) :
    (state g ssrc a ds).Among ssrc (ds.filterMap (Deed.player ssrc)) :=
  (state_filter absent fun d member _ passed => List.mem_filterMap.mpr ⟨d, member, passed⟩).2

/-- What is told about a stream depends on its own deeds only. -/
theorem reports_streamDeeds (absent : a.feed = none) :
    reports g ssrc a (streamDeeds ssrc ds) = reports g ssrc a ds :=
  reports_filter absent fun d member _ passed => List.mem_filterMap.mpr ⟨d, member, passed⟩

theorem state_append (later earlier : List Deed) :
    state g ssrc a (later ++ earlier) = state g ssrc (state g ssrc a earlier) later :=
  List.foldr_append

theorem reports_append (later earlier : List Deed) : reports g ssrc a (later ++ earlier) =
    reports g ssrc a earlier ++ reports g ssrc (state g ssrc a earlier) later := by
  induction later with
  | nil => simp [reports]
  | cons d later ih =>
    rw [List.cons_append, reports, reports, ih, state_append, List.append_assoc]

/-- The processor that plays the stream. -/
theorem state_playing : (state g ssrc {} ds).feed.map (·.processor) = playing ssrc ds := by
  induction ds with
  | nil => rfl
  | cons d ds ih =>
    have step : state g ssrc {} (d :: ds) = (state g ssrc {} ds).after g ssrc d := rfl
    rw [step]
    cases feed : (state g ssrc {} ds).feed with
    | none =>
      rw [feed] at ih
      cases d with
      | addStream s k p =>
        by_cases here : k = ssrc
        · simp [Solo.after, playing, feed, ← ih, here]
        · simp [Solo.after, playing, feed, ← ih, here]
      | _ => simp [Solo.after, playing, feed, ← ih]
    | some f =>
      rw [feed] at ih
      have name : f.ssrc = ssrc := (state_among rfl f feed).1
      cases d with
      | addStream s k p =>
        by_cases here : k = ssrc
        · simp [Solo.after, playing, feed, ← ih, here]
        · simp [Solo.after, playing, feed, ← ih, here]
      | removeStream s k =>
        simp [Solo.after, playing, feed, ← ih, Feed.after_processor, name, eq_comm]
      | _ => simp [Solo.after, playing, feed, ← ih, Feed.after_processor]

end Solo

namespace Intake

variable {g : Setting} {k : Intake} {ds : List Deed} {d : Deed} {players : List ProcessorId}

/-- What is captured comes from one of the processors. -/
def Among (players : List ProcessorId) (k : Intake) : Prop :=
  ∀ q ∈ k.seat, q.processor ∈ players

theorem Among.after (among : k.Among players) (passed : ∀ p ∈ d.capturer, p ∈ players) :
    (k.after g d).Among players := by
  have turned (h : Seat → Seat) (keeps : ∀ q, (h q).processor = q.processor) :
      ∀ q ∈ k.seat.map h, q.processor ∈ players := by
    intro q member
    obtain ⟨before, here, rfl⟩ := Option.map_eq_some_iff.mp member
    rw [keeps]
    exact among before here
  cases d with
  | setLocalListener s l => exact among
  | connectCapture s p =>
    intro q member
    cases member
    exact passed p rfl
  | startSession s | stopSession s => exact turned _ fun q => Seat.turn_processor q _ _
  | closeSession s =>
    intro q member
    cases member
  | process p i b =>
    simp only [Intake.after]
    split
    · exact among
    · exact among
  | start p | stop p | close p => exact turned _ fun q => Seat.turn_processor q _ _
  | _ => exact turned _ fun _ => rfl

/-- A deed that does not concern what is captured leaves it as it is. -/
theorem after_other (among : k.Among players) (other : d.concernsCapture players = false) :
    k.after g d = k := by
  have absent {p : ProcessorId} (out : players.contains p = false) (q : Seat) (seat : q ∈ k.seat) :
      q.processor ≠ p := by
    intro same
    simp [← same, among q seat] at out
  have kept (h : Seat → Seat) (keeps : ∀ q ∈ k.seat, h q = q) :
      { k with seat := k.seat.map h } = k := by
    have same : k.seat.map h = k.seat := by
      cases seat : k.seat with
      | none => rfl
      | some q => exact congrArg some (keeps q seat)
    rw [same]
  cases d with
  | setLocalListener s l => cases other
  | connectCapture s p => cases other
  | startSession s => cases other
  | stopSession s => cases other
  | closeSession s => cases other
  | process p i b =>
    have unheard : k.seat.any (g.hears · p i) = false := by
      cases seat : k.seat with
      | none => rfl
      | some q => exact Setting.hears_other (absent other q seat)
    simp [Intake.after, unheard]
  | start p | stop p | close p =>
    exact kept _ fun q seat => by simp [Seat.after, Seat.turn_other (absent other q seat)]
  | _ => exact kept _ fun _ _ => rfl

/-- What is captured depends on its own deeds only. -/
theorem state_captureDeeds : state g (captureDeeds ds) = state g ds := by
  have start : ({} : Intake).Among (ds.filterMap Deed.capturer) := fun _ member => by cases member
  have keeps (d : Deed) (member : d ∈ ds) (k : Intake)
      (among : k.Among (ds.filterMap Deed.capturer)) :
      (k.after g d).Among (ds.filterMap Deed.capturer) :=
    among.after fun _ passed => List.mem_filterMap.mpr ⟨d, member, passed⟩
  exact (foldr_filter start keeps fun _ _ other _ among => after_other among other).1

end Intake

end Metering
