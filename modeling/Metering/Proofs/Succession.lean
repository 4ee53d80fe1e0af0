import Metering.Proofs.Apart
/-!
One processor after another for capture. The effect that measures what is captured stays in place
when its processor is replaced, and keeps its last level. A processor starts clean only if nothing
was measured on those before it, or if the session was closed or given a listener since.
-/

namespace Metering

variable {S T : Type}

def capturing : List Deed → Option ProcessorId
  | [] => none
  | .connectCapture _ p :: _ => some p
  | .closeSession _ :: _ => none
  | _ :: ds => capturing ds

def isCaptureFrame : List Deed → Bool
  | .process p _ _ :: ds => capturing ds == some p
  | _ => false

/-- The levels that were told about captured frames, from the first to the last. -/
def captureReports : List Page → List (ListenerId × Int)
  | [] => []
  | .did .. :: ps => captureReports ps
  | .heard l n :: ps => captureReports ps ++ if isCaptureFrame (deeds ps) then [(l, n)] else []

/-- The levels of the captured frames that were measured since the local user was given a listener,
or since the session was closed, from the first to the last. -/
def captured : List Page → List Int
  | [] => []
  | .heard .. :: ps => captured ps
  | .did r d :: ps =>
    match d with
    | .setLocalListener .. | .closeSession _ => []
    | .process p i b =>
      if capturing (deeds ps) = some p ∧ r.measures p i ∧ (localListener ps).isSome ∧ b.counts
      then captured ps ++ [b.level]
      else captured ps
    | _ => captured ps

/-- The deeds with what is captured after a processor was taken for it: with the session, with this
processor, and with those that were taken later. -/
def captureDeedsSince (p : ProcessorId) (ds : List Deed) : List Deed :=
  ds.filter (Deed.concernsCapture (p :: ds.filterMap Deed.capturer))

def Rig.captureLevel (r : Rig) (s : SessionId) : Option Int :=
  (r.sessions[s]?).bind fun y => (r.levels y).capture

namespace Intake

/-- What a deed lets a listener be told about what is captured. -/
def tells (g : Setting) (k : Intake) : Deed → Option (ListenerId × Int)
  | .process p i b =>
    if k.seat.any (g.hears · p i) then k.history.told g.config.effect b else none
  | _ => none

/-- What is captured when some deeds follow. -/
def goOn (g : Setting) (k : Intake) (ds : List Deed) : Intake := ds.foldr (fun d k => k.after g d) k

/-- What some deeds let listeners be told about what is captured, from the first to the last. -/
def reports (g : Setting) (k : Intake) : List Deed → List (ListenerId × Int)
  | [] => []
  | d :: ds => reports g k ds ++ ((goOn g k ds).tells g d).toList

section Deeds

variable {g : Setting} {k : Intake} {ds : List Deed} {d : Deed} {players : List ProcessorId}

theorem state_append (later earlier : List Deed) :
    state g (later ++ earlier) = goOn g (state g earlier) later :=
  List.foldr_append

theorem reports_append (later earlier : List Deed) : reports g {} (later ++ earlier) =
    reports g {} earlier ++ reports g (state g earlier) later := by
  induction later with
  | nil => simp [reports]
  | cons d later ih =>
    have state : goOn g {} (later ++ earlier) = goOn g (state g earlier) later :=
      state_append later earlier
    rw [List.cons_append, reports, reports, ih, state, List.append_assoc]

/-- The processor in use. -/
theorem state_capturing : (state g ds).seat.map (·.processor) = capturing ds := by
  induction ds with
  | nil => rfl
  | cons d ds ih =>
    have step : state g (d :: ds) = (state g ds).after g d := rfl
    rw [step]
    cases d with
    | connectCapture s p => rfl
    | closeSession s => rfl
    | process p i b =>
      simp only [Intake.after, capturing, ← ih]
      split
      · rfl
      · rfl
    | startSession s | stopSession s => simp [Intake.after, capturing, ← ih, Function.comp_def]
    | start p | stop p | close p =>
      simp [Intake.after, capturing, ← ih, Function.comp_def, Seat.after]
    | _ => simp [Intake.after, capturing, ← ih, Seat.after]

/-- A deed that does not concern what is captured tells nobody anything about it. -/
theorem tells_other (among : k.Among players) (other : d.concernsCapture players = false) :
    k.tells g d = none := by
  cases d with
  | process p i b =>
    have unheard : k.seat.any (g.hears · p i) = false := by
      cases seat : k.seat with
      | none => rfl
      | some q =>
        apply Setting.hears_other
        rintro rfl
        simp [Deed.concernsCapture, among q seat] at other
    simp [tells, unheard]
  | _ => rfl

/-- What is captured when some deeds follow is the same after those that concern it. -/
theorem goOn_filter (among : k.Among players) (passed : ∀ d ∈ ds, ∀ p ∈ d.capturer, p ∈ players) :
    goOn g k (ds.filter (Deed.concernsCapture players)) = goOn g k ds ∧
      (goOn g k ds).Among players :=
  foldr_filter among (fun d member _ among => among.after (passed d member))
    (fun _ _ other _ among => after_other among other)

theorem reports_filter (among : k.Among players)
    (passed : ∀ d ∈ ds, ∀ p ∈ d.capturer, p ∈ players) :
    reports g k (ds.filter (Deed.concernsCapture players)) = reports g k ds := by
  induction ds with
  | nil => rfl
  | cons d ds ih =>
    have before (d : Deed) (member : d ∈ ds) := passed d (List.mem_cons_of_mem _ member)
    obtain ⟨same, still⟩ := goOn_filter (g := g) among before
    cases kept : d.concernsCapture players with
    | true => rw [List.filter_cons_of_pos kept, reports, reports, ih before, same]
    | false =>
      rw [List.filter_cons_of_neg (by simp [kept]), ih before, reports, tells_other still kept]
      simp

end Deeds

end Intake

/-- Two histories that no frame tells apart: the listener is the same, and so is the last level. -/
structure History.Like (c : EffectConfig) (h h' : History) : Prop where
  listener : h'.listener = h.listener
  last : c.last h'.levels = c.last h.levels

/-- The same processor is in use for capture, and no frame tells apart what was measured. -/
structure Intake.Like (c : EffectConfig) (k k' : Intake) : Prop where
  seat : k'.seat = k.seat
  history : k.history.Like c k'.history

section Like

variable {c : EffectConfig} {h h' : History}

theorem History.Like.told (like : h.Like c h') (b : Buffer) : h'.told c b = h.told c b := by
  simp only [History.told, EffectConfig.last_append, like.listener, like.last]

theorem History.Like.hears (like : h.Like c h') (b : Buffer) : (h.hears b).Like c (h'.hears b) := by
  have same := like.listener
  by_cases counts : h.listener.isSome ∧ b.counts
  · constructor
    · simp [History.hears, same, counts]
    · simp [History.hears, same, counts, like.last]
  · simpa [History.hears, same, counts] using like

namespace Intake.Like

variable {g : Setting} {k k' : Intake}

theorem tells (like : k.Like g.config.effect k') (d : Deed) : k'.tells g d = k.tells g d := by
  cases d with
  | process p i b => simp only [Intake.tells, like.seat, like.history.told]
  | _ => rfl

/-- A deed does the same to both. -/
theorem after (like : k.Like g.config.effect k') (d : Deed) :
    (k.after g d).Like g.config.effect (k'.after g d) := by
  have turned (f : Seat → Seat) : k'.seat.map f = k.seat.map f := congrArg _ like.seat
  cases d with
  | setLocalListener s l => exact ⟨like.seat, rfl, rfl⟩
  | connectCapture s p => exact ⟨rfl, like.history⟩
  | closeSession s => exact ⟨rfl, like.history.listener, rfl⟩
  | process p i b =>
    have same := like.seat
    by_cases heard : k.seat.any (g.hears · p i) = true
    · have kept : ({ k with history := k.history.hears b } : Intake).Like g.config.effect
          { k' with history := k'.history.hears b } := ⟨same, like.history.hears b⟩
      simpa [Intake.after, same, heard] using kept
    · simpa [Intake.after, same, heard] using like
  | _ => exact ⟨turned _, like.history⟩

theorem goOn (like : k.Like g.config.effect k') (ds : List Deed) :
    (k.goOn g ds).Like g.config.effect (k'.goOn g ds) := by
  induction ds with
  | nil => exact like
  | cons d ds ih => exact ih.after d

/-- Whatever is done, the same is told. -/
theorem reports (like : k.Like g.config.effect k') (ds : List Deed) :
    k'.reports g ds = k.reports g ds := by
  induction ds with
  | nil => rfl
  | cons d ds ih => rw [Intake.reports, Intake.reports, ih, (like.goOn ds).tells d]

end Intake.Like

end Like

/-- If the processor in use for capture hears a frame, nobody else does. -/
theorem Board.Fits.intake_tells {g : Setting} {b : Board} {r : Rig} (fits : b.Fits g r) {q : Seat}
    (seat : b.intake.seat = some q) (i : Nat) (x : Buffer) :
    b.intake.tells g (.process q.processor i x) = b.tells g (.process q.processor i x) := by
  have others : (b.streams.map fun f => (f.toSeat, f.history)).find?
      (fun t => g.hears t.1 q.processor i) = none := by
    rw [List.find?_eq_none]
    intro t member
    obtain ⟨f, stream, rfl⟩ := List.mem_map.mp member
    simp [Setting.hears_other (fits.processor_ne_capture stream seat)]
  by_cases heard : g.hears q q.processor i = true
  · simp [Board.tells, Board.posts, Intake.tells, seat, heard]
  · simp [Board.tells, Board.posts, Intake.tells, seat, heard, others]

namespace Setting

variable {g : Setting} {r : Rig} {ps : List Page}

/-- A deed lets a listener be told about what is captured if it is a frame on the processor in use
for capture. -/
theorem tells_captured (fits : g.reference.fits (g.reference.state ps) r) (d : Deed) :
    (Intake.state g (deeds ps)).tells g d =
      if isCaptureFrame (d :: deeds ps) then (g.reference.state ps).tells g d else none := by
  cases d with
  | process p i x =>
    have uses : (Intake.state g (deeds ps)).seat.map (·.processor) = capturing (deeds ps) :=
      Intake.state_capturing
    rw [← intake_state ps] at uses ⊢
    cases seat : (g.reference.state ps).intake.seat with
    | none => simp [isCaptureFrame, ← uses, seat, Intake.tells]
    | some q =>
      by_cases own : q.processor = p
      · subst own
        simpa [isCaptureFrame, ← uses, seat] using fits.2.2.intake_tells seat i x
      · have unheard : g.hears q p i = false := Setting.hears_other own
        simp [isCaptureFrame, ← uses, seat, own, Intake.tells, unheard]
  | _ => rfl

/-- What is told during captured frames is what is told about what is captured by itself. -/
theorem reports_captured {due : Option (ListenerId × Int)} (follows : g.reference.Follows ps due) :
    Intake.reports g {} (deeds ps) =
      captureReports ps ++ if isCaptureFrame (deeds ps) then due.toList else [] := by
  -- A level that is due after a captured frame is told next.
  induction follows with
  | nil => rfl
  | @did ps r d _ fits ih =>
    have before : Intake.reports g {} (deeds ps) = captureReports ps := by simpa using ih
    change Intake.reports g {} (deeds ps) ++ ((Intake.state g (deeds ps)).tells g d).toList = _
    rw [before, tells_captured fits d]
    change _ = captureReports ps ++ if isCaptureFrame (d :: deeds ps) then _ else []
    split
    · rfl
    · rfl
  | @heard ps l n _ ih =>
    change Intake.reports g {} (deeds ps) = (captureReports ps ++ _) ++ _
    rw [ih]
    simp

/-- What a deed lets be measured of what is captured. -/
theorem captured_step {k : Intake} (so_far : k.history.levels = captured ps)
    (uses : k.seat.map (·.processor) = capturing (deeds ps))
    (listener : k.history.listener = localListener ps)
    (stands : ∀ q ∈ k.seat, ∀ i, r.measures q.processor i = g.hears q q.processor i) (d : Deed) :
    (k.after g d).history.levels = captured (.did r d :: ps) := by
  cases d with
  | setLocalListener s l => rfl
  | closeSession s => rfl
  | process p i b =>
    cases seat : k.seat with
    | none => simp [Intake.after, captured, ← uses, seat, so_far]
    | some q =>
      by_cases own : q.processor = p
      · subst own
        have met := stands q seat i
        by_cases heard : g.hears q q.processor i = true
        · by_cases counts : (localListener ps).isSome ∧ b.counts
          · simp [Intake.after, captured, ← uses, seat, met, heard, History.hears, listener, counts,
              so_far]
          · simp [Intake.after, captured, ← uses, seat, met, heard, History.hears, listener, counts,
              so_far]
        · simp [Intake.after, captured, ← uses, seat, met, heard, so_far]
      · have unheard : g.hears q p i = false := Setting.hears_other own
        simp [Intake.after, captured, ← uses, seat, own, unheard, so_far]
  | _ => exact so_far

/-- What is captured has been measured as the story says. -/
theorem captured_apart {due : Option (ListenerId × Int)} (follows : g.reference.Follows ps due) :
    (Intake.state g (deeds ps)).history.levels = captured ps := by
  induction follows with
  | nil => rfl
  | heard _ ih => exact ih
  | @did ps r d _ fits ih =>
    rw [← intake_state ps] at ih
    have uses : (Intake.state g (deeds ps)).seat.map (·.processor) = capturing (deeds ps) :=
      Intake.state_capturing
    rw [← intake_state ps] at uses
    change ((Intake.state g (deeds ps)).after g d).history.levels = _
    rw [← intake_state ps]
    apply captured_step ih uses (g.listeners ps).1
    intro q seat i
    exact measures_seat fits (Board.mem_seats.mpr (.inl seat)) i

end Setting

namespace Rig.LeadsTo

variable {r : Rig} {s : SessionId} {y : Session} {w : World S}

/-- A session shows the last level of what it captures. -/
theorem captureLevel (leads : r.LeadsTo s w) (opens : r.Opens s y) :
    w.rig.captureLevel s = y.config.effect.last (captured w.story) := by
  obtain ⟨follows, fits⟩ := leads.holds opens
  obtain ⟨y', known⟩ := leads.session opens
  have known' : w.rig.sessions[s]? = some y' := known
  have shown : w.rig.captureLevel s = w.rig.lastLevel y'.localEffect := by
    simp [Rig.captureLevel, Rig.levels, known']
  rw [shown, Setting.captureLevel fits known, Setting.captured_apart follows]
  rfl

/-- What is told about a processor that was taken for capture, and what is measured of it, depends
on its own deeds since then, and on what was measured before. -/
theorem since_connected (leads : r.LeadsTo s w) (opens : r.Opens s y) {r' : Rig} {p : ProcessorId}
    {later before : List Page} (eq : w.story = later ++ .did r' (.connectCapture s p) :: before) :
    let k := Intake.state (r.setting s y) (.connectCapture s p :: deeds before)
    captureReports w.story = captureReports before ++
        Intake.reports (r.setting s y) k (captureDeedsSince p (deeds later)) ∧
      captured w.story =
        (k.goOn (r.setting s y) (captureDeedsSince p (deeds later))).history.levels := by
  intro k
  obtain ⟨follows, -⟩ := leads.holds opens
  obtain ⟨due, connected⟩ := follows.before eq
  have whole : deeds w.story = deeds later ++ .connectCapture s p :: deeds before := by
    rw [eq, deeds_append]
    rfl
  have among : k.Among (p :: (deeds later).filterMap Deed.capturer) := by
    intro q seat
    cases seat
    exact List.mem_cons_self
  have passed (d : Deed) (member : d ∈ deeds later) (p' : ProcessorId) (new : p' ∈ d.capturer) :
      p' ∈ p :: (deeds later).filterMap Deed.capturer :=
    List.mem_cons_of_mem _ (List.mem_filterMap.mpr ⟨d, member, new⟩)
  constructor
  · have told := Setting.reports_captured follows
    have told_before := Setting.reports_captured connected
    simp only [deeds, isCaptureFrame, Bool.false_eq_true, if_false, List.append_nil] at told_before
    rw [whole, Intake.reports_append, told_before] at told
    rw [captureDeedsSince, Intake.reports_filter among passed]
    simpa [captureReports] using told.symm
  · rw [← Setting.captured_apart follows, whole, Intake.state_append, captureDeedsSince,
      (Intake.goOn_filter among passed).1]

/-- What is captured once a processor was taken for it, as it is by itself. -/
theorem connected (leads : r.LeadsTo s w) (opens : r.Opens s y) {r' : Rig} {p : ProcessorId}
    {before : List Page} (eq : w.story = .did r' (.connectCapture s p) :: before) :
    Intake.state (r.setting s y) (.connectCapture s p :: deeds before) =
      ⟨some ⟨p, y.localEffect, .realized⟩, ⟨localListener before, captured before⟩⟩ := by
  obtain ⟨follows, -⟩ := leads.holds opens
  have split : w.story = [.did r' (.connectCapture s p)] ++ before := eq
  obtain ⟨due, before_follows⟩ := follows.before split
  have listener : (Intake.state (r.setting s y) (deeds before)).history.listener =
      localListener before := by
    rw [← Setting.intake_state]
    exact ((r.setting s y).listeners before).1
  have levels := Setting.captured_apart before_follows
  exact congrArg (Intake.mk _) (congrArg₂ History.mk listener levels)

end Rig.LeadsTo

/-- A processor that is taken for capture starts from the last level that was measured on those
before it, and so it starts clean exactly if nothing was measured. Two runs that have come to the
same processor and the same listener cannot be told apart any more, by the level that the session
shows or by what the listener is told, whatever is done in both of them, exactly if the last level
that was measured before is the same. -/
theorem clean_capture_iff {r : Rig} {s : SessionId} {y : Session} (opens : r.Opens s y)
    {v₁ : World S} {v₂ : World T} (first : r.LeadsTo s v₁) (second : r.LeadsTo s v₂)
    {p : ProcessorId} {r₁ r₂ : Rig} {before₁ before₂ : List Page}
    (connected₁ : v₁.story = .did r₁ (.connectCapture s p) :: before₁)
    (connected₂ : v₂.story = .did r₂ (.connectCapture s p) :: before₂)
    (listener : localListener before₁ = localListener before₂) :
    v₁.rig.captureLevel s = y.config.effect.last (captured before₁) ∧
    (v₁.rig.captureLevel s = none ↔ captured before₁ = []) ∧
    ((∀ (w₁ : World S) (w₂ : World T) (later₁ later₂ : List Page), r.LeadsTo s w₁ → r.LeadsTo s w₂ →
      w₁.story = later₁ ++ v₁.story → w₂.story = later₂ ++ v₂.story →
      captureDeedsSince p (deeds later₁) = captureDeedsSince p (deeds later₂) →
        w₁.rig.captureLevel s = w₂.rig.captureLevel s ∧
        ∃ news, captureReports w₁.story = captureReports v₁.story ++ news ∧
          captureReports w₂.story = captureReports v₂.story ++ news) ↔
      y.config.effect.last (captured before₁) = y.config.effect.last (captured before₂)) := by
  have level₁ : v₁.rig.captureLevel s = y.config.effect.last (captured before₁) := by
    rw [first.captureLevel opens, connected₁]
    rfl
  have level₂ : v₂.rig.captureLevel s = y.config.effect.last (captured before₂) := by
    rw [second.captureLevel opens, connected₂]
    rfl
  refine ⟨level₁, ?_, ?_, ?_⟩
  · rw [level₁, EffectConfig.last_eq_none_iff]
  · intro alike
    rw [← level₁, ← level₂]
    exact (alike v₁ v₂ [] [] first second rfl rfl rfl).1
  · intro same w₁ w₂ later₁ later₂ leads₁ leads₂ eq₁ eq₂ own
    rw [connected₁] at eq₁
    rw [connected₂] at eq₂
    obtain ⟨told₁, measured₁⟩ := leads₁.since_connected opens eq₁
    obtain ⟨told₂, measured₂⟩ := leads₂.since_connected opens eq₂
    rw [first.connected opens connected₁] at told₁ measured₁
    rw [second.connected opens connected₂, ← own] at told₂ measured₂
    -- Nothing but the last level and the listener is left of what was before.
    have like : Intake.Like y.config.effect
        ⟨some ⟨p, y.localEffect, .realized⟩, ⟨localListener before₁, captured before₁⟩⟩
        ⟨some ⟨p, y.localEffect, .realized⟩, ⟨localListener before₂, captured before₂⟩⟩ :=
      ⟨rfl, listener.symm, same.symm⟩
    have last := (like.goOn (g := r.setting s y) (captureDeedsSince p (deeds later₁))).history.last
    rw [like.reports (g := r.setting s y)] at told₂
    rw [leads₁.captureLevel opens, leads₂.captureLevel opens, measured₁, measured₂, connected₁,
      connected₂]
    exact ⟨last.symm, _, told₁, told₂⟩

def Program.recording (frames : List Buffer) : Program Unit Unit := do
  .send (.setLocalListener 0 (some 1))
  let _ ← .send (.connectCapture 0 1)
  let _ ← .send (.startSession 0)
  frames.forM fun b => do
    let _ ← .send (.process 1 0 b)

/-- Another processor is taken for capture after the session was closed. -/
def Program.renewal (frames : List Buffer) : Program Unit Unit := do
  Program.recording frames
  .send (.closeSession 0)
  let _ ← .send (.connectCapture 0 0)

def lastDeed : List Page → Option Deed
  | .did _ d :: _ => some d
  | _ => none

theorem story_of_lastDeed {ps : List Page} {d : Deed} (last : lastDeed ps = some d) :
    ∃ r before, ps = .did r d :: before := by
  cases ps with
  | nil => cases last
  | cons page before =>
    cases page with
    | did r d' =>
      cases last
      exact ⟨r, before, rfl⟩
    | heard => cases last

theorem clean_capture_iff_renewal : Rig.unused.Opens 0 .unused ∧ ∃ v₁ v₂ : World Unit,
    Rig.unused.LeadsTo 0 v₁ ∧ Rig.unused.LeadsTo 0 v₂ ∧ deeds v₁.story ≠ deeds v₂.story ∧
    v₁.rig.captureLevel 0 = none ∧
    ∀ (w₁ w₂ : World Unit) (later₁ later₂ : List Page),
      Rig.unused.LeadsTo 0 w₁ → Rig.unused.LeadsTo 0 w₂ →
      w₁.story = later₁ ++ v₁.story → w₂.story = later₂ ++ v₂.story →
      captureDeedsSince 0 (deeds later₁) = captureDeedsSince 0 (deeds later₂) →
        w₁.rig.captureLevel 0 = w₂.rig.captureLevel 0 ∧
        ∃ news, captureReports w₁.story = captureReports v₁.story ++ news ∧
          captureReports w₂.story = captureReports v₂.story ++ news := by
  have confined₁ : (Program.renewal [.tick]).Confined (Deed.Uses 0) :=
    ⟨rfl, fun _ => ⟨rfl, fun _ => ⟨rfl, fun _ => ⟨trivial, fun _ => ⟨rfl, fun _ => ⟨rfl, fun _ =>
      trivial⟩⟩⟩⟩⟩⟩
  have confined₂ : (Program.renewal []).Confined (Deed.Uses 0) :=
    ⟨rfl, fun _ => ⟨rfl, fun _ => ⟨rfl, fun _ => ⟨rfl, fun _ => ⟨rfl, fun _ => trivial⟩⟩⟩⟩⟩
  obtain ⟨v₁, first, last₁, none₁, one₁, done₁⟩ := Rig.LeadsTo.of_ends (r := .unused)
    (P := fun v => lastDeed v.story = some (.connectCapture 0 0) ∧ captured v.story = [] ∧
      localListener v.story = some 1 ∧ Deed.process 1 0 .tick ∈ deeds v.story)
    confined₁ 9 (by decide +kernel)
  obtain ⟨v₂, second, last₂, none₂, one₂, done₂⟩ := Rig.LeadsTo.of_ends (r := .unused)
    (P := fun v => lastDeed v.story = some (.connectCapture 0 0) ∧ captured v.story = [] ∧
      localListener v.story = some 1 ∧ Deed.process 1 0 .tick ∉ deeds v.story)
    confined₂ 9 (by decide +kernel)
  obtain ⟨r₁, before₁, connected₁⟩ := story_of_lastDeed last₁
  obtain ⟨r₂, before₂, connected₂⟩ := story_of_lastDeed last₂
  rw [connected₁] at none₁ one₁
  rw [connected₂] at none₂ one₂
  obtain ⟨-, clean, alike⟩ := clean_capture_iff Rig.unused_opens first second connected₁ connected₂
    (one₁.trans one₂.symm)
  refine ⟨Rig.unused_opens, v₁, v₂, first, second, ?_, clean.mpr none₁,
    alike.mpr (congrArg _ (none₁.trans none₂.symm))⟩
  intro same
  exact done₂ (same ▸ done₁)

/-- Another processor is taken for capture. -/
def Program.takeover (frames : List Buffer) : Program Unit Unit := do
  Program.recording frames
  let _ ← .send (.connectCapture 0 0)

/-- Two runs differ in a frame on the processor that was replaced, and nothing was done yet with the
one that replaced it. One of them shows a level of what is captured, and the other none. -/
theorem capture_carried_over : ∃ v₁ v₂ : World Unit,
    Rig.unused.LeadsTo 0 v₁ ∧ Rig.unused.LeadsTo 0 v₂ ∧
    deeds v₁.story = [.connectCapture 0 0, .process 1 0 .tick, .startSession 0,
      .connectCapture 0 1, .setLocalListener 0 (some 1)] ∧
    deeds v₂.story = [.connectCapture 0 0, .startSession 0, .connectCapture 0 1,
      .setLocalListener 0 (some 1)] ∧
    (v₁.rig.captureLevel 0).isSome ∧ v₂.rig.captureLevel 0 = none := by
  have confined₁ : (Program.takeover [.tick]).Confined (Deed.Uses 0) :=
    ⟨rfl, fun _ => ⟨rfl, fun _ => ⟨rfl, fun _ => ⟨trivial, fun _ => ⟨rfl, fun _ => trivial⟩⟩⟩⟩⟩
  have confined₂ : (Program.takeover []).Confined (Deed.Uses 0) :=
    ⟨rfl, fun _ => ⟨rfl, fun _ => ⟨rfl, fun _ => ⟨rfl, fun _ => trivial⟩⟩⟩⟩
  obtain ⟨v₁, first, done₁, carried⟩ := Rig.LeadsTo.of_ends (r := .unused)
    (P := fun v => deeds v.story = [.connectCapture 0 0, .process 1 0 .tick, .startSession 0,
      .connectCapture 0 1, .setLocalListener 0 (some 1)] ∧ (v.rig.captureLevel 0).isSome)
    confined₁ 9 (by decide +kernel)
  obtain ⟨v₂, second, done₂, clean⟩ := Rig.LeadsTo.of_ends (r := .unused)
    (P := fun v => deeds v.story = [.connectCapture 0 0, .startSession 0, .connectCapture 0 1,
      .setLocalListener 0 (some 1)] ∧ v.rig.captureLevel 0 = none)
    confined₂ 9 (by decide +kernel)
  exact ⟨v₁, v₂, first, second, done₁, done₂, carried, clean⟩

end Metering
