import Metering.Proofs.Solo
/-!
Streams do not influence each other. What is told about a stream, and its last level, depends on
the deeds with this stream only, and what a session shows depends on the streams and on what is
captured, each by itself.
-/

namespace Metering

variable {S T α : Type}

/-- A run that starts with the rig, and uses nothing but a session and processors, ends in a world.
Each processor is passed to the session once at most. -/
def Rig.LeadsTo (r : Rig) (s : SessionId) (w : World S) : Prop :=
  ∃ (app : Application S) (α : Type) (program : Program S α) (start : World S) (depth : Nat)
    (a : α), (∀ l n, (app.level l n).Confined (Deed.Uses s)) ∧ program.Confined (Deed.Uses s) ∧
    start.rig = r ∧ start.story = [] ∧ program.run (perform app depth) start = .ok (a, w) ∧
    Orderly w.story

def Rig.streamLevel (r : Rig) (y : Session) (ssrc : Ssrc) : Option Int :=
  (y.stream? ssrc).bind fun x => r.lastLevel x.effect

def Rig.measures (r : Rig) (p : ProcessorId) (i : Nat) : Bool :=
  (r.processors[p]?).any fun x => x.phase == .started && x.meters i

/-- The levels of the frames that a stream has measured since it was added, or since the streams
were given a listener, from the first to the last. -/
def measured (ssrc : Ssrc) : List Page → List Int
  | [] => []
  | .heard .. :: ps => measured ssrc ps
  | .did r d :: ps =>
    match d with
    | .setStreamListener .. | .closeSession _ => []
    | .removeStream _ k => if k = ssrc then [] else measured ssrc ps
    | .process p i b =>
      if playing ssrc (deeds ps) = some p ∧ r.measures p i ∧ (streamListener ps).isSome ∧ b.counts
      then measured ssrc ps ++ [b.level]
      else measured ssrc ps
    | _ => measured ssrc ps

/-- A stream apart from which effect measures it. -/
def Feed.voice (f : Feed) : Feed := { f with effect := 0 }

def Solo.levels (a : Solo) : List Int := (a.feed.map (·.history.levels)).getD []

def Board.solo (b : Board) (ssrc : Ssrc) : Solo where
  listener := b.streamListener
  feed := (b.streams.find? (·.ssrc == ssrc)).map Feed.voice

theorem deeds_append (later earlier : List Page) :
    deeds (later ++ earlier) = deeds later ++ deeds earlier := by
  induction later with
  | nil => rfl
  | cons page later ih =>
    cases page with
    | did r d => exact congrArg (d :: ·) ih
    | heard => exact ih

section Feed

variable {g : Setting} {d : Deed} {ssrc : Ssrc}

theorem Feed.after_voice (f : Feed) : f.voice.after g d = (f.after g d).map Feed.voice := by
  have turn (p : ProcessorId) (h : Phase → Phase) :
      ({ f.toSeat with effect := 0 } : Seat).turn p h = { f.toSeat.turn p h with effect := 0 } := by
    unfold Seat.turn
    split
    · rfl
    · rfl
  cases d with
  | removeStream s k =>
    by_cases here : f.ssrc = k
    · simp [Feed.after, Feed.voice, here]
    · simp [Feed.after, Feed.voice, here]
  | process p i b =>
    have same : g.hears f.voice.toSeat p i = g.hears f.toSeat p i := rfl
    simp only [Feed.after, same, Option.map_some]
    split
    · rfl
    · rfl
  | start p | stop p | close p =>
    simp only [Feed.after, Feed.voice, Seat.after, turn]
    rfl
  | _ => rfl

/-- The stream of a name, after a deed that does not add it. -/
theorem Feed.find?_after (fs : List Feed) : (fs.filterMap (·.after g d)).find? (·.ssrc == ssrc) =
    (fs.find? (·.ssrc == ssrc)).bind (·.after g d) := by
  induction fs with
  | nil => rfl
  | cons f fs ih =>
    have step : (f :: fs).filterMap (·.after g d) =
        (f.after g d).toList ++ fs.filterMap (·.after g d) := by
      cases after : f.after g d with
      | some f' => simp [after]
      | none => simp [after]
    rw [step, List.find?_append, ih]
    by_cases here : f.ssrc = ssrc
    · rw [List.find?_cons_of_pos (by simpa using here), Option.bind_some]
      cases after : f.after g d with
      | some f' =>
        have name : f'.ssrc = ssrc := (Feed.after_keeps after).1.trans here
        simp [name]
      | none =>
        rw [Option.toList_none, List.find?_nil, Option.none_or, Option.bind_eq_none_iff]
        intro f' found
        have name : f'.ssrc = ssrc := by
          simpa using List.find?_some (p := fun f : Feed => f.ssrc == ssrc) found
        exact Feed.after_none (name.trans here.symm) after
    · rw [List.find?_cons_of_neg (by simpa using here)]
      cases after : f.after g d with
      | some f' =>
        have other : ¬f'.ssrc = ssrc := (Feed.after_keeps after).1 ▸ here
        simp [other]
      | none => rfl

end Feed

section Board

variable {g : Setting} {b : Board} {r : Rig} {ssrc : Ssrc}

/-- A deed does to the stream of a board what it does to the stream by itself. -/
theorem Board.solo_after (d : Deed) : (b.after g d).solo ssrc = (b.solo ssrc).after g ssrc d := by
  have kept : (((b.streams.filterMap (·.after g d)).find? (·.ssrc == ssrc)).map Feed.voice) =
      (b.solo ssrc).feed.bind (·.after g d) := by
    rw [Feed.find?_after]
    cases found : b.streams.find? (·.ssrc == ssrc) with
    | none => simp [Board.solo, found]
    | some f => simp [Board.solo, found, Feed.after_voice]
  have listener : (b.after g d).streamListener =
      (Deed.streamListener d).getD b.streamListener := by
    cases d with
    | _ => rfl
  have feed : ((b.after g d).solo ssrc).feed = ((b.solo ssrc).after g ssrc d).feed := by
    have parts : ((b.after g d).solo ssrc).feed =
        ((b.solo ssrc).feed.bind (·.after g d)).or
          (((b.added g d).find? (·.ssrc == ssrc)).map Feed.voice) := by
      rw [← kept, ← Option.map_or, ← List.find?_append]
      rfl
    rw [parts]
    -- Only here a stream is added, and only if there is none of its name.
    cases d with
    | addStream s k p =>
      have stays : (b.solo ssrc).feed.bind (·.after g (.addStream s k p)) = (b.solo ssrc).feed := by
        cases (b.solo ssrc).feed with
        | none => rfl
        | some f => rfl
      rw [stays]
      by_cases here : k = ssrc
      · subst here
        by_cases present : b.streams.any (·.ssrc == k) = true
        · obtain ⟨f, found⟩ := Option.isSome_iff_exists.mp
            (List.find?_isSome.trans List.any_eq_true.symm |>.mpr present)
          simp [Solo.after, Board.solo, found]
        · have absent : b.streams.find? (·.ssrc == k) = none := by
            simpa [List.find?_eq_none] using present
          simp [Solo.after, Board.solo, Board.added, present, absent, Feed.voice]
      · by_cases present : b.streams.any (·.ssrc == k) = true
        · simp [Solo.after, Board.added, present, here]
        · simp [Solo.after, Board.added, present, here]
    | _ => exact Option.or_none
  exact congrArg₂ Solo.mk listener feed

/-- Whoever is told about a frame is told about the stream that its processor plays, if it plays
one. -/
theorem Board.Fits.solo_tells (fits : b.Fits g r) {p : ProcessorId} {f : Feed}
    (found : b.streams.find? (·.ssrc == ssrc) = some f) (plays : f.processor = p) (i : Nat)
    (x : Buffer) : (b.solo ssrc).tells g (.process p i x) = b.tells g (.process p i x) := by
  have stream := List.mem_of_find?_eq_some found
  have post : (f.toSeat, f.history) ∈ b.posts := Board.mem_posts.mpr (.inr ⟨f, stream, rfl⟩)
  -- No other stream has the processor, and it is not in use for capture.
  have single {t : Seat × History} (member : t ∈ b.posts) (here : t.1.processor = p) :
      t = (f.toSeat, f.history) := by
    obtain ⟨intake, -⟩ | ⟨f', stream', rfl⟩ := Board.mem_posts.mp member
    · exact absurd (plays.trans here.symm) (fits.processor_ne_capture stream intake)
    · rw [fits.feed_of_processor stream' stream (here.trans plays.symm)]
  have hit : (b.posts.find? fun t => g.hears t.1 p i) =
      if g.hears f.toSeat p i then some (f.toSeat, f.history) else none := by
    by_cases heard : g.hears f.toSeat p i = true
    · rw [if_pos heard]
      cases hit : b.posts.find? fun t => g.hears t.1 p i with
      | none => simpa [heard] using List.find?_eq_none.mp hit _ post
      | some t =>
        have here : g.hears t.1 p i = true := by
          simpa using List.find?_some (p := fun t : Seat × History => g.hears t.1 p i) hit
        exact congrArg some (single (List.mem_of_find?_eq_some hit) (Setting.hears_iff.mp here).1)
    · rw [if_neg heard, List.find?_eq_none]
      intro t member here
      obtain rfl := single member (Setting.hears_iff.mp here).1
      exact heard here
  have same : g.hears f.voice.toSeat p i = g.hears f.toSeat p i := rfl
  simp only [Board.tells, hit, Solo.tells, Board.solo, found, Option.map_some, Option.bind_some,
    same]
  split
  · rfl
  · rfl

end Board

namespace Setting

variable {g : Setting} {r : Rig} {ps : List Page} {ssrc : Ssrc}

/-- The board shows each stream as it is by itself. -/
theorem solo_state (ps : List Page) :
    (g.reference.state ps).solo ssrc = Solo.state g ssrc {} (deeds ps) := by
  induction ps with
  | nil => rfl
  | cons page ps ih =>
    cases page with
    | heard => exact ih
    | did r d => exact (Board.solo_after d).trans (congrArg (Solo.after g ssrc · d) ih)

/-- A deed lets a listener be told about a stream if it is a frame on the stream's processor. -/
theorem tells_apart (fits : g.reference.fits (g.reference.state ps) r) (d : Deed) :
    (Solo.state g ssrc {} (deeds ps)).tells g d =
      if isOwnFrame ssrc (d :: deeds ps) then (g.reference.state ps).tells g d else none := by
  obtain ⟨-, -, fits⟩ := fits
  cases d with
  | process p i x =>
    have plays : playing ssrc (deeds ps) = ((g.reference.state ps).streams.find?
        (·.ssrc == ssrc)).map (·.processor) := by
      rw [← Solo.state_playing (g := g), ← solo_state ps, Board.solo, Option.map_map]
      rfl
    rw [← solo_state ps]
    cases found : (g.reference.state ps).streams.find? (·.ssrc == ssrc) with
    | none => simp [isOwnFrame, plays, found, Solo.tells, Board.solo]
    | some f =>
      by_cases own : f.processor = p
      · simpa [isOwnFrame, plays, found, own] using fits.solo_tells found own i x
      · have unheard : g.hears f.voice.toSeat p i = false := Setting.hears_other own
        simp [isOwnFrame, plays, found, own, Solo.tells, Board.solo, unheard]
  | _ => rfl

/-- What is told during the frames of a stream is what is told about the stream by itself. -/
theorem reports_apart (ssrc : Ssrc) {due : Option (ListenerId × Int)}
    (follows : g.reference.Follows ps due) :
    Solo.reports g ssrc {} (deeds ps) =
      reports ssrc ps ++ if isOwnFrame ssrc (deeds ps) then due.toList else [] := by
  -- A level that is due after a frame of the stream is told next.
  induction follows with
  | nil => rfl
  | @did ps r d _ fits ih =>
    have before : Solo.reports g ssrc {} (deeds ps) = reports ssrc ps := by simpa using ih
    change Solo.reports g ssrc {} (deeds ps) ++ _ = _
    rw [before, tells_apart fits d]
    change _ = reports ssrc ps ++ if isOwnFrame ssrc (d :: deeds ps) then _ else []
    split
    · rfl
    · rfl
  | @heard ps l n _ ih =>
    change Solo.reports g ssrc {} (deeds ps) = (reports ssrc ps ++ _) ++ _
    rw [ih]
    simp

/-- Frames on a processor in use are measured if the board says so. -/
theorem measures_seat (fits : g.reference.fits (g.reference.state ps) r) {q : Seat}
    (seat : q ∈ (g.reference.state ps).seats) (i : Nat) :
    r.measures q.processor i = g.hears q q.processor i := by
  obtain ⟨-, -, fits⟩ := fits
  obtain ⟨x, cored⟩ := fits.seats.known q seat
  have placed := fits.seats.placed _ x cored
  have phase : x.phase = q.phase := (placed.seat q seat rfl).1
  obtain ⟨x, known, rfl⟩ := Rig.of_core_processor cored
  have meters : x.meters i = g.meters q.processor i := by
    rw [← Processor.core_meters, placed.meters]
  have same : x.phase = q.phase := phase
  simp [Rig.measures, known, meters, same, Setting.hears]

/-- Frames of a stream are measured if its processor says so. -/
theorem measures_apart (fits : g.reference.fits (g.reference.state ps) r) {f : Feed}
    (stream : f ∈ (g.reference.state ps).streams) (i : Nat) :
    r.measures f.processor i = g.hears f.toSeat f.processor i :=
  measures_seat fits (Board.mem_seats.mpr (.inr ⟨f, stream, rfl⟩)) i

/-- What a deed lets a stream measure. -/
theorem measured_step {a : Solo} (so_far : a.levels = measured ssrc ps)
    (plays : a.feed.map (·.processor) = playing ssrc (deeds ps))
    (stands : ∀ f ∈ a.feed, f.ssrc = ssrc ∧ f.history.listener = streamListener ps ∧
      ∀ i, r.measures f.processor i = g.hears f.toSeat f.processor i) (d : Deed) :
    (a.after g ssrc d).levels = measured ssrc (.did r d :: ps) := by
  -- A stream that is not there can only be added. One that is there measures the frames that its
  -- seat hears, until it is removed.
  cases feed : a.feed with
  | none =>
    simp only [Solo.levels, feed, Option.map_none, Option.getD_none] at so_far plays
    cases d with
    | addStream s k p =>
      by_cases here : k = ssrc
      · simp [Solo.levels, Solo.after, feed, measured, ← so_far, here]
      · simp [Solo.levels, Solo.after, feed, measured, ← so_far, here]
    | _ => simp [Solo.levels, Solo.after, feed, measured, ← so_far, ← plays]
  | some f =>
    obtain ⟨name, listener, measures⟩ := stands f feed
    simp only [Solo.levels, feed, Option.map_some, Option.getD_some] at so_far plays
    cases d with
    | addStream s k p =>
      by_cases here : k = ssrc
      · simp [Solo.levels, Solo.after, feed, measured, so_far, here]
      · simp [Solo.levels, Solo.after, feed, measured, so_far, here]
    | removeStream s k =>
      by_cases here : k = ssrc
      · simp [Solo.levels, Solo.after, feed, measured, Feed.after, name, here]
      · have other : ¬ssrc = k := fun same => here same.symm
        simp [Solo.levels, Solo.after, feed, measured, Feed.after, name, here, other, so_far]
    | process p i b =>
      by_cases own : f.processor = p
      · subst own
        have met := measures i
        by_cases heard : g.hears f.toSeat f.processor i = true
        · by_cases counts : (streamListener ps).isSome ∧ b.counts
          · simp [Solo.levels, Solo.after, feed, Feed.after, heard, History.hears, listener, counts,
              measured, ← plays, met, so_far]
          · simp [Solo.levels, Solo.after, feed, Feed.after, heard, History.hears, listener, counts,
              measured, ← plays, met, so_far]
        · simp [Solo.levels, Solo.after, feed, Feed.after, heard, measured, met, so_far]
      · have unheard := Setting.hears_other (g := g) (i := i) own
        simp [Solo.levels, Solo.after, feed, measured, Feed.after, ← plays, own, unheard, so_far]
    | _ => simp [Solo.levels, Solo.after, feed, measured, Feed.after, so_far]

/-- A stream by itself has measured the frames that the story says it has measured. -/
theorem measured_apart (ssrc : Ssrc) {due : Option (ListenerId × Int)}
    (follows : g.reference.Follows ps due) :
    (Solo.state g ssrc {} (deeds ps)).levels = measured ssrc ps := by
  induction follows with
  | nil => rfl
  | heard _ ih => exact ih
  | @did ps r d _ fits ih =>
    refine measured_step ih Solo.state_playing ?_ d
    intro f feed
    have name : f.ssrc = ssrc := (Solo.state_among rfl f feed).1
    rw [← solo_state ps] at feed
    obtain ⟨f, found, rfl⟩ := Option.map_eq_some_iff.mp feed
    have stream := List.mem_of_find?_eq_some found
    exact ⟨name, (g.listeners ps).2.2 f stream, fun i => (measures_apart fits stream i :)⟩

/-- What is captured is on the board as it is by itself. -/
theorem intake_state (ps : List Page) :
    (g.reference.state ps).intake = Intake.state g (deeds ps) := by
  induction ps with
  | nil => rfl
  | cons page ps ih =>
    cases page with
    | heard => exact ih
    | did r d => exact congrArg (Intake.after g · d) ih

variable {y : Session}

/-- The last level of an effect on the board. -/
theorem lastLevel (fits : g.reference.fits (g.reference.state ps) r) {t : EffectId × History}
    (tenant : t ∈ (g.reference.state ps).tenants g) :
    r.lastLevel t.1 = g.config.effect.last t.2.levels := by
  obtain ⟨-, -, fits⟩ := fits
  obtain ⟨z, cored, of⟩ := fits.tenants.known t tenant
  obtain ⟨z, known, rfl⟩ := Rig.of_core_effect cored
  rw [Rig.lastLevel, known]
  exact of.last

/-- What is captured shows the last level that it has by itself. -/
theorem captureLevel (fits : g.reference.fits (g.reference.state ps) r)
    (known : r.sessions[g.session]? = some y) :
    r.lastLevel y.localEffect =
      g.config.effect.last (Intake.state g (deeds ps)).history.levels := by
  obtain ⟨y', cored, shows⟩ := fits.2.2.session
  obtain ⟨y', there, rfl⟩ := Rig.of_core_session cored
  obtain rfl : y' = y := Option.some.inj (there.symm.trans known)
  have effect : y'.localEffect = g.localEffect := shows.effect
  rw [effect, lastLevel fits List.mem_cons_self, intake_state]

section Streams

variable (fits : g.reference.fits (g.reference.state ps) r)
variable (known : r.sessions[g.session]? = some y)
include fits known

/-- The streams of the session are those on the board. -/
theorem streams :
    y.streams = (g.reference.state ps).streams.map
      (fun f => (f.ssrc, (⟨f.processor, f.effect⟩ : Stream))) ∧
    ∀ k, y.stream? k = ((g.reference.state ps).streams.find? (·.ssrc == k)).map
      fun f => ⟨f.processor, f.effect⟩ := by
  obtain ⟨y', cored, shows⟩ := fits.2.2.session
  obtain ⟨y', there, rfl⟩ := Rig.of_core_session cored
  obtain rfl : y' = y := Option.some.inj (there.symm.trans known)
  exact ⟨shows.streams, shows.stream?⟩

/-- A stream shows the last level that it has by itself. -/
theorem streamLevel (ssrc : Ssrc) : r.streamLevel y ssrc =
    g.config.effect.last (Solo.state g ssrc {} (deeds ps)).levels := by
  rw [← solo_state ps, Rig.streamLevel, (streams fits known).2]
  cases found : (g.reference.state ps).streams.find? (·.ssrc == ssrc) with
  | none => simp [Board.solo, Solo.levels, found, EffectConfig.last]
  | some f =>
    have tenant : (f.effect, f.history) ∈ (g.reference.state ps).tenants g :=
      List.mem_cons_of_mem _ (List.mem_map.mpr ⟨f, List.mem_of_find?_eq_some found, rfl⟩)
    have level := lastLevel fits tenant
    simpa [Board.solo, Solo.levels, Feed.voice, found] using level

/-- The levels of the streams. -/
theorem mem_levels {n : Int} : (n ∈ y.streams.filterMap fun e => r.lastLevel e.2.effect) ↔
    ∃ ssrc, r.streamLevel y ssrc = some n := by
  obtain ⟨list, lookup⟩ := streams fits known
  rw [list, List.filterMap_map, List.mem_filterMap]
  constructor
  · rintro ⟨f, stream, level⟩
    refine ⟨f.ssrc, ?_⟩
    obtain ⟨f', found⟩ := Option.isSome_iff_exists.mp (List.find?_isSome
      (p := fun x : Feed => x.ssrc == f.ssrc) |>.mpr ⟨f, stream, by simp⟩)
    have name : f'.ssrc = f.ssrc := by
      simpa using List.find?_some (p := fun x : Feed => x.ssrc == f.ssrc) found
    obtain rfl := fits.2.2.feed_of_name (List.mem_of_find?_eq_some found) stream name
    simpa [Rig.streamLevel, lookup, found] using level
  · rintro ⟨ssrc, level⟩
    obtain ⟨x, stream, level⟩ := Option.bind_eq_some_iff.mp level
    rw [lookup] at stream
    obtain ⟨f, found, rfl⟩ := Option.map_eq_some_iff.mp stream
    exact ⟨f, List.mem_of_find?_eq_some found, level⟩

/-- The session shows the loudest of its streams. -/
theorem loudest {n : Int} : (r.levels y).stream = some n ↔
    (∃ ssrc, r.streamLevel y ssrc = some n) ∧
      ∀ ssrc m, r.streamLevel y ssrc = some m → m ≤ n := by
  have members := fun m => mem_levels (n := m) fits known
  rw [Rig.levels, Rig.loudest, List.max?_eq_some_iff, members]
  simp only [members, forall_exists_index]
  rw [forall_comm]

/-- The session shows no level of its streams if none of them has measured anything. -/
theorem loudest_none : (r.levels y).stream = none ↔ ∀ ssrc, r.streamLevel y ssrc = none := by
  have members := fun m => mem_levels (n := m) fits known
  rw [Rig.levels, Rig.loudest, List.max?_eq_none_iff, List.eq_nil_iff_forall_not_mem]
  simp only [members, not_exists, Option.eq_none_iff_forall_ne_some]
  exact ⟨fun none ssrc n => none n ssrc, fun none n ssrc => none ssrc n⟩

end Streams

end Setting

namespace Rig.LeadsTo

variable {r : Rig} {s : SessionId} {y : Session} {w : World S}

/-- After a run the rig is as the board says, and listeners were told what it says. -/
theorem holds (leads : r.LeadsTo s w) (opens : r.Opens s y) :
    (r.setting s y).reference.Follows w.story none ∧
      (r.setting s y).reference.fits ((r.setting s y).reference.state w.story) w.rig := by
  obtain ⟨app, α, program, start, depth, a, listens, confined, rfl, blank, run, orderly⟩ := leads
  exact Setting.runs listens confined (opens.holds rfl blank) depth a w run orderly

/-- What a stream that was absent reports, and what it has measured, depends on its own deeds since
then, and on the listener of the streams. -/
theorem since (leads : r.LeadsTo s w) (opens : r.Opens s y) {ssrc : Ssrc}
    {later earlier : List Page} (eq : w.story = later ++ earlier)
    (absent : playing ssrc (deeds earlier) = none) :
    reports ssrc w.story = reports ssrc earlier ++ Solo.reports (r.setting s y) ssrc
        ⟨streamListener earlier, none⟩ (streamDeeds ssrc (deeds later)) ∧
      measured ssrc w.story = (Solo.state (r.setting s y) ssrc ⟨streamListener earlier, none⟩
        (streamDeeds ssrc (deeds later))).levels := by
  obtain ⟨follows, -⟩ := leads.holds opens
  obtain ⟨due, before⟩ := follows.before eq
  have start : Solo.state (r.setting s y) ssrc {} (deeds earlier) =
      ⟨streamListener earlier, none⟩ := by
    have listener : (Solo.state (r.setting s y) ssrc {} (deeds earlier)).listener =
        streamListener earlier := by
      rw [← Setting.solo_state earlier]
      exact ((r.setting s y).listeners earlier).2.1
    have feed : (Solo.state (r.setting s y) ssrc {} (deeds earlier)).feed = none := by
      rw [← Option.map_eq_none_iff, Solo.state_playing, absent]
    exact congrArg₂ Solo.mk listener feed
  have quiet : isOwnFrame ssrc (deeds earlier) = false := by
    cases deeds_eq : deeds earlier with
    | nil => rfl
    | cons d ds =>
      cases d with
      | process p i b =>
        rw [deeds_eq] at absent
        have none : playing ssrc ds = none := absent
        simp [isOwnFrame, none]
      | _ => rfl
  constructor
  · have told := Setting.reports_apart ssrc follows
    have told_before := Setting.reports_apart ssrc before
    rw [eq, deeds_append, Solo.reports_append, start] at told
    simp only [quiet, Bool.false_eq_true, if_false, List.append_nil] at told_before
    rw [eq, Solo.reports_streamDeeds rfl, ← told_before, told]
    simp
  · rw [← Setting.measured_apart ssrc follows, eq, deeds_append, Solo.state_append, start,
      Solo.state_streamDeeds rfl]

/-- The session after a run. -/
theorem session (leads : r.LeadsTo s w) (opens : r.Opens s y) :
    ∃ y', w.rig.sessions[s]? = some y' := by
  obtain ⟨-, used, -⟩ := leads.holds opens
  obtain ⟨y', known, -⟩ := Option.map_eq_some_iff.mp used
  exact ⟨y', known⟩

variable {y' : Session}

/-- A stream shows the last level of the frames that it has measured. -/
theorem level (leads : r.LeadsTo s w) (opens : r.Opens s y) (known : w.rig.sessions[s]? = some y')
    (ssrc : Ssrc) :
    w.rig.streamLevel y' ssrc = y.config.effect.last (measured ssrc w.story) := by
  obtain ⟨follows, fits⟩ := leads.holds opens
  rw [← Setting.measured_apart ssrc follows]
  exact Setting.streamLevel fits known ssrc

end Rig.LeadsTo

/-- Streams of a session do not influence each other. What is told during the frames of a stream,
and its last level, depend on its own deeds only, in whatever order they are mixed with others. It
is the same if these are all that is done. A stream that comes after another one of its name stands
as if that one had never been. The levels of the session depend on the deeds with each stream, and
on those with what is captured. Of the streams it shows the loudest, and none if and only if none of
them has measured a frame since it was added or since its listener was given. -/
theorem streams_apart {r : Rig} {s : SessionId} {y : Session} (opens : r.Opens s y) {w₁ : World S}
    {w₂ : World T} (first : r.LeadsTo s w₁) (second : r.LeadsTo s w₂) :
    ∃ y₁ y₂, w₁.rig.sessions[s]? = some y₁ ∧ w₂.rig.sessions[s]? = some y₂ ∧
      (∀ ssrc, streamDeeds ssrc (deeds w₁.story) = streamDeeds ssrc (deeds w₂.story) →
        reports ssrc w₁.story = reports ssrc w₂.story ∧
          w₁.rig.streamLevel y₁ ssrc = w₂.rig.streamLevel y₂ ssrc) ∧
      (∀ ssrc, deeds w₂.story = streamDeeds ssrc (deeds w₁.story) →
        reports ssrc w₁.story = reports ssrc w₂.story) ∧
      (∀ ssrc later₁ earlier₁ later₂ earlier₂,
        w₁.story = later₁ ++ earlier₁ → w₂.story = later₂ ++ earlier₂ →
        playing ssrc (deeds earlier₁) = none → playing ssrc (deeds earlier₂) = none →
        streamListener earlier₁ = streamListener earlier₂ →
        streamDeeds ssrc (deeds later₁) = streamDeeds ssrc (deeds later₂) →
        (∃ news, reports ssrc w₁.story = reports ssrc earlier₁ ++ news ∧
          reports ssrc w₂.story = reports ssrc earlier₂ ++ news) ∧
          w₁.rig.streamLevel y₁ ssrc = w₂.rig.streamLevel y₂ ssrc) ∧
      ((∀ ssrc, streamDeeds ssrc (deeds w₁.story) = streamDeeds ssrc (deeds w₂.story)) →
        captureDeeds (deeds w₁.story) = captureDeeds (deeds w₂.story) →
        w₁.rig.levels y₁ = w₂.rig.levels y₂) ∧
      (∀ n, (w₁.rig.levels y₁).stream = some n ↔
        (∃ ssrc, w₁.rig.streamLevel y₁ ssrc = some n) ∧
          ∀ ssrc m, w₁.rig.streamLevel y₁ ssrc = some m → m ≤ n) ∧
      (∀ ssrc, w₁.rig.streamLevel y₁ ssrc = y.config.effect.last (measured ssrc w₁.story)) ∧
      ((w₁.rig.levels y₁).stream = none ↔ ∀ ssrc, measured ssrc w₁.story = []) := by
  obtain ⟨y₁, known₁⟩ := first.session opens
  obtain ⟨y₂, known₂⟩ := second.session opens
  have fits₁ := (first.holds opens).2
  have fits₂ := (second.holds opens).2
  have level₁ := first.level opens known₁
  have level₂ := second.level opens known₂
  have fresh (ssrc : Ssrc) (later₁ earlier₁ later₂ earlier₂ : List Page)
      (eq₁ : w₁.story = later₁ ++ earlier₁) (eq₂ : w₂.story = later₂ ++ earlier₂)
      (absent₁ : playing ssrc (deeds earlier₁) = none)
      (absent₂ : playing ssrc (deeds earlier₂) = none)
      (listener : streamListener earlier₁ = streamListener earlier₂)
      (own : streamDeeds ssrc (deeds later₁) = streamDeeds ssrc (deeds later₂)) :
      (∃ news, reports ssrc w₁.story = reports ssrc earlier₁ ++ news ∧
        reports ssrc w₂.story = reports ssrc earlier₂ ++ news) ∧
        w₁.rig.streamLevel y₁ ssrc = w₂.rig.streamLevel y₂ ssrc := by
    obtain ⟨told₁, measured₁⟩ := first.since opens eq₁ absent₁
    obtain ⟨told₂, measured₂⟩ := second.since opens eq₂ absent₂
    rw [← listener, ← own] at told₂ measured₂
    exact ⟨⟨_, told₁, told₂⟩, by rw [level₁, level₂, measured₁, measured₂]⟩
  -- Before the first deed every stream is absent, so that this is `fresh` from the beginning of
  -- both.
  have alike (ssrc : Ssrc)
      (own : streamDeeds ssrc (deeds w₁.story) = streamDeeds ssrc (deeds w₂.story)) :
      reports ssrc w₁.story = reports ssrc w₂.story ∧
        w₁.rig.streamLevel y₁ ssrc = w₂.rig.streamLevel y₂ ssrc := by
    obtain ⟨⟨news, told₁, told₂⟩, level⟩ := fresh ssrc w₁.story [] w₂.story []
      (List.append_nil _).symm (List.append_nil _).symm rfl rfl rfl own
    exact ⟨told₁.trans told₂.symm, level⟩
  refine ⟨y₁, y₂, known₁, known₂, alike, ?_, fresh, ?_, ?_, level₁, ?_⟩
  · intro ssrc alone
    refine (alike ssrc ?_).1
    rw [alone, streamDeeds_streamDeeds]
  · intro own captured
    have capture : w₁.rig.lastLevel y₁.localEffect = w₂.rig.lastLevel y₂.localEffect := by
      rw [Setting.captureLevel fits₁ known₁, Setting.captureLevel fits₂ known₂,
        ← Intake.state_captureDeeds, captured, Intake.state_captureDeeds]
    have stream : (w₁.rig.levels y₁).stream = (w₂.rig.levels y₂).stream := by
      ext n
      rw [Setting.loudest fits₁ known₁, Setting.loudest fits₂ known₂]
      simp only [fun ssrc => (alike ssrc (own ssrc)).2]
    exact congrArg₂ Levels.mk capture stream
  · exact fun n => Setting.loudest fits₁ known₁
  · rw [Setting.loudest_none fits₁ known₁]
    simp only [level₁, EffectConfig.last_eq_none_iff]

deriving instance DecidableEq for AudioFormat, Format, Buffer, TrackPlan, Deed

/-- Two streams and the local user, whose frames come in turn. -/
def Program.mixed : Program Unit Unit := do
  .send (.setStreamListener 0 (some 2))
  .send (.setLocalListener 0 (some 1))
  let _ ← .send (.addStream 0 7 1)
  let _ ← .send (.addStream 0 8 2)
  let _ ← .send (.connectCapture 0 0)
  let _ ← .send (.startSession 0)
  let _ ← .send (.process 1 0 .tick)
  let _ ← .send (.process 2 0 .tick)
  let _ ← .send (.process 0 0 .tick)
  let _ ← .send (.process 1 0 .tick)

/-- The same frames, one side after the other. -/
def Program.separate : Program Unit Unit := do
  .send (.setLocalListener 0 (some 1))
  let _ ← .send (.connectCapture 0 0)
  let _ ← .send (.startSession 0)
  let _ ← .send (.process 0 0 .tick)
  .send (.setStreamListener 0 (some 2))
  let _ ← .send (.addStream 0 8 2)
  let _ ← .send (.process 2 0 .tick)
  let _ ← .send (.addStream 0 7 1)
  let _ ← .send (.process 1 0 .tick)
  let _ ← .send (.process 1 0 .tick)

/-- A program of the application leads somewhere if it comes to its end. -/
theorem Rig.LeadsTo.of_ends {r : Rig} {s : SessionId} {program : Program Unit Unit}
    {P : World Unit → Prop} (confined : program.Confined (Deed.Uses s)) (depth : Nat)
    (ends : (program.run (perform (.silent Unit) depth)).Ends { app := (), rig := r } fun w =>
      Orderly w.story ∧ P w) : ∃ w, r.LeadsTo s w ∧ P w := by
  obtain ⟨a, w, run, orderly, here⟩ := ends
  have silent (l : ListenerId) (n : Int) :
      ((Application.silent Unit).level l n).Confined (Deed.Uses s) := trivial
  exact ⟨w, ⟨_, _, _, _, depth, a, silent, confined, rfl, rfl, run, orderly⟩, here⟩

theorem streams_apart_mixed : Rig.unused.Opens 0 .unused ∧ ∃ w₁ w₂ : World Unit,
    Rig.unused.LeadsTo 0 w₁ ∧ Rig.unused.LeadsTo 0 w₂ ∧ deeds w₁.story ≠ deeds w₂.story ∧
    (reports 7 w₁.story).map (·.1) = [2, 2] ∧ reports 7 w₁.story = reports 7 w₂.story ∧
    ∃ y₁ y₂, w₁.rig.sessions[0]? = some y₁ ∧ w₂.rig.sessions[0]? = some y₂ ∧
      w₁.rig.levels y₁ = w₂.rig.levels y₂ := by
  have confined₁ : Program.mixed.Confined (Deed.Uses 0) :=
    ⟨rfl, fun _ => ⟨rfl, fun _ => ⟨rfl, fun _ => ⟨rfl, fun _ => ⟨rfl, fun _ => ⟨rfl, fun _ =>
      ⟨trivial, fun _ => ⟨trivial, fun _ => ⟨trivial, fun _ => ⟨trivial, fun _ => trivial⟩⟩⟩⟩⟩⟩⟩⟩⟩⟩
  have confined₂ : Program.separate.Confined (Deed.Uses 0) :=
    ⟨rfl, fun _ => ⟨rfl, fun _ => ⟨rfl, fun _ => ⟨trivial, fun _ => ⟨rfl, fun _ => ⟨rfl, fun _ =>
      ⟨trivial, fun _ => ⟨rfl, fun _ => ⟨trivial, fun _ => ⟨trivial, fun _ => trivial⟩⟩⟩⟩⟩⟩⟩⟩⟩⟩
  obtain ⟨w₁, first, done₁, told⟩ := Rig.LeadsTo.of_ends
    (P := fun w => deeds w.story = [.process 1 0 .tick, .process 0 0 .tick, .process 2 0 .tick,
      .process 1 0 .tick, .startSession 0, .connectCapture 0 0, .addStream 0 8 2, .addStream 0 7 1,
      .setLocalListener 0 (some 1), .setStreamListener 0 (some 2)] ∧
        (reports 7 w.story).map (·.1) = [2, 2])
    (r := .unused) confined₁ 9 (by decide +kernel)
  obtain ⟨w₂, second, done₂⟩ := Rig.LeadsTo.of_ends
    (P := fun w => deeds w.story = [.process 1 0 .tick, .process 1 0 .tick, .addStream 0 7 1,
      .process 2 0 .tick, .addStream 0 8 2, .setStreamListener 0 (some 2), .process 0 0 .tick,
      .startSession 0, .connectCapture 0 0, .setLocalListener 0 (some 1)])
    (r := .unused) confined₂ 9 (by decide +kernel)
  have own (ssrc : Ssrc) :
      streamDeeds ssrc (deeds w₁.story) = streamDeeds ssrc (deeds w₂.story) := by
    rw [done₁, done₂]
    by_cases seven : 7 = ssrc
    · subst seven
      rfl
    · by_cases eight : 8 = ssrc
      · subst eight
        rfl
      · simp [streamDeeds, List.filterMap_cons, List.filter_cons, Deed.player, Deed.concerns, seven,
          eight]
  have captured : captureDeeds (deeds w₁.story) = captureDeeds (deeds w₂.story) := by
    rw [done₁, done₂]
    rfl
  obtain ⟨y₁, y₂, known₁, known₂, alike, -, -, levels, -⟩ :=
    streams_apart Rig.unused_opens first second
  refine ⟨Rig.unused_opens, w₁, w₂, first, second, ?_, told, (alike 7 (own 7)).1, y₁, y₂, known₁,
    known₂, levels own captured⟩
  rw [done₁, done₂]
  decide +kernel

end Metering
