import Metering.Proofs.Ahead
/-!
Two routes to a processor in use. A processor that has not begun its life is given to a session as
it is, or it is configured first and then given to the session. Both routes come to the same, as
far as nobody minds whether the processor is configured before or after another one is closed.
-/

namespace Metering

variable {S K : Type}

/-- What the program answers depends on a part of the application's state, and so does what it
makes of this part. -/
def Program.Within {α : Type} (own : S → K) (p : Program S α) : Prop :=
  ∀ s t, own s = own t →
    ∃ a s' t', p.act s = some (a, s') ∧ p.act t = some (a, t') ∧ own s' = own t'

/-- A part of the application's state is all that its plug-ins know, and the application itself when
it is asked for the processor `q`. Those who watch this processor or `p` leave it alone. -/
structure Application.Parted (app : Application S) (own : S → K) (p q : ProcessorId) : Prop where
  offer : ∀ c f, (app.offer c f).Within own
  opens : ∀ c, (app.opens c).Within own
  close : ∀ c, (app.close c).Within own
  request : ∀ r, (app.request q r).Within own
  event : ∀ x r, r = p ∨ r = q → ∀ e s,
    ∃ t, (app.event x r e).act s = some ((), t) ∧ own t = own s

/-- All but what sessions are told, and that they subscribe. -/
def Entry.isShown : Entry → Bool
  | .subscribed .. => false
  | .told x .. => !x.isSession
  | _ => true

def Entry.isPlugIn : Entry → Bool
  | .codec .. | .accepted _ | .opened _ | .closed _ => true
  | _ => false

def Entry.tells (x : WatcherId) (p : ProcessorId) : Entry → Bool
  | .told (.watcher y) q _ => y == x && q == p
  | _ => false

/-- Whoever knows all of the application and sees all that is shown, in its order. -/
def Standpoint.whole (S : Type) : Standpoint S S Unit where
  own := id
  view _ e := e.isShown

/-- Those who see, each for itself, what happens to the plug-ins, and what a watcher is told of a
processor. -/
def Standpoint.parts (own : S → K) : Standpoint S K (Option (WatcherId × ProcessorId)) where
  own := own
  view
    | none, e => e.isPlugIn
    | some (x, p), e => e.tells x p

section Standing

variable {app : Application S} {own : S → K} {p q : ProcessorId}

theorem Program.Quiet.follows {α : Type} {p : Program S α} (quiet : p.Quiet) :
    (Standpoint.whole S).Follows p := by
  rintro s _ rfl
  obtain ⟨a, t, acts⟩ := quiet.acts s
  exact ⟨a, t, t, acts, acts, rfl, .refl _⟩

theorem Application.QuietPlugIns.suits (quiet : app.QuietPlugIns)
    (event : ∀ x e, (app.event x p e).Quiet) :
    (Standpoint.whole S).Suits app (fun q => q = p) fun _ => False where
  offer c f := (quiet.offer c f).follows
  opens c := (quiet.opens c).follows
  close c := (quiet.close c).follows
  event _ one x e := (one ▸ event x e).follows
  request _ none := none.elim

/-- Lines that the application writes are seen in no part. -/
theorem parts_lines (lines lines' : List String) :
    (Standpoint.parts own).Matches (lines.map .note) (lines'.map .note) := by
  have none (lines : List String) (i : Option (WatcherId × ProcessorId)) :
      (lines.map Entry.note).filter ((Standpoint.parts own).view i) = [] := by
    refine List.filter_eq_nil_iff.mpr fun e member => ?_
    obtain ⟨text, -, rfl⟩ := List.mem_map.mp member
    cases i <;> nofun
  intro i
  rw [none, none]

theorem Program.Within.follows {α : Type} {p : Program S α} (within : p.Within own) :
    (Standpoint.parts own).Follows p := by
  intro s t same
  obtain ⟨a, s', t', first, second, own⟩ := within s t same
  exact ⟨a, s', t', first, second, own, parts_lines _ _⟩

theorem Application.Parted.suits (parted : app.Parted own p q) {told asked : ProcessorId → Prop}
    (watched : ∀ r, told r → r = p ∨ r = q) (owned : ∀ r, asked r → r = q) :
    (Standpoint.parts own).Suits app told asked where
  offer c f := (parted.offer c f).follows
  opens c := (parted.opens c).follows
  close c := (parted.close c).follows
  event r one x e := Program.Within.follows fun s t same => by
    obtain ⟨s', first, left⟩ := parted.event x r (watched r one) e s
    obtain ⟨t', second, left'⟩ := parted.event x r (watched r one) e t
    exact ⟨(), s', t', first, second, left.trans (same.trans left'.symm)⟩
  request r one k := owned r one ▸ (parted.request k).follows

end Standing

section Telling

variable {app : Application S} {own : S → K} {p : ProcessorId} {e : Event}
variable {audience : List Subscriber}

/-- Whatever the watchers write down, they are told the same. -/
theorem Application.tell_parts (quiet : ∀ x, (app.event x p e).Quiet) (s t : S) :
    (Standpoint.parts own).Matches (app.tell p e audience s).2 (app.tell p e audience t).2 := by
  -- It is enough to look from where nothing is known of the application's state.
  have follows (x : WatcherId) :
      (Standpoint.parts fun _ : S => ()).Follows (app.event x p e) := by
    intro s t _
    obtain ⟨⟨⟩, s', first⟩ := (quiet x).acts s
    obtain ⟨⟨⟩, t', second⟩ := (quiet x).acts t
    exact ⟨(), s', t', first, second, rfl, parts_lines _ _⟩
  exact (Application.tell_matches follows (s := s) (t := t) rfl).2

theorem Application.Parted.tell {q : ProcessorId} (parted : app.Parted own p q) (s : S) :
    own (app.tell p e audience s).1 = own s := by
  induction audience generalizing s with
  | nil => rfl
  | cons x xs ih =>
    cases x with
    | watcher x =>
      obtain ⟨t, acts, left⟩ := parted.event x p (.inl rfl) e s
      simp only [Application.tell, acts]
      exact (ih t).trans left
    | capture | stream => rfl

end Telling

section Connecting

variable {K ι : Type} {o : Standpoint S K ι} {app : Application S} {w : World S}
variable {p q : ProcessorId} {s : SessionId} {k : Ssrc} {depth : Nat} {x : Session}
variable {again : {β : Type} → Call β → Run S β}

theorem connectCapture_none (found : w.rig.sessions[s]? = some x) (free : x.capture = none) :
    connectCapture app again s p w =
      takeCapture app again s p (w.arrange s fun x => { x with capture := some p }) := by
  refine (Run.bind_eq (Run.session_eq found) _).trans ?_
  refine (Run.bind_eq (m := Run.modifySession s _) rfl _).trans ?_
  simp only [free]
  rfl

theorem connectCapture_some (found : w.rig.sessions[s]? = some x) (before : x.capture = some q) :
    connectCapture app again s p w = (do
      sessionNotice s .captureReplaced
      close app again q
      takeCapture app again s p) (w.arrange s fun x => { x with capture := some p }) := by
  refine (Run.bind_eq (Run.session_eq found) _).trans ?_
  refine (Run.bind_eq (m := Run.modifySession s _) rfl _).trans ?_
  simp only [before]
  rfl

theorem addStream_absent (found : w.rig.sessions[s]? = some x) (absent : x.hasStream k = false) :
    addStream app again s k p w = takeStream app again s k p
      ((w.fit ((LevelEffect.new x.config.effect).setListener x.streamListener)).arrange s fun x =>
        x.addStream k ⟨p, w.rig.effects.length⟩) := by
  refine (Run.bind_eq (Run.session_eq found) _).trans ?_
  simp only [absent]
  rfl

end Connecting

section Routes

variable {K ι : Type} {o : Standpoint S K ι} {app : Application S} {w : World S}
variable {p : ProcessorId} {s : SessionId} {k : Ssrc} {depth : Nat} {x : Session} {y : Processor}

variable (suits : o.Suits app (fun q => q = p) fun _ => False)
include suits

theorem Standpoint.Suits.captureUpdate :
    o.Carries app depth p (captureUpdate app (perform app depth) s p .configured) where
  abreast c same told asked differ := by
    have here : c.Suits app := by rwa [Comparison.Suits, same, told, asked]
    exact Comparison.Abreast.captureConfigured here (by rw [told]) (fun _ => differ) depth s
  stuck none w := by
    subst none
    refine ensures_bind.mpr (ensures_session.mpr fun x _ => ensures_bind.mpr ?_)
    exact fun _ _ _ => ensures_bind.mpr ensures_throw

theorem Standpoint.Suits.streamUpdate :
    o.Carries app depth p (streamUpdate app (perform app depth) s k p .configured) where
  abreast c same told asked differ := by
    have here : c.Suits app := by rwa [Comparison.Suits, same, told, asked]
    exact Comparison.Abreast.streamConfigured here (by rw [told]) (fun _ => differ) depth s k
  stuck none w := by
    subst none
    refine ensures_bind.mpr ?_
    exact fun _ _ _ => ensures_bind.mpr ensures_throw

variable (quiet : ∀ x, (app.event x p .configured).Quiet)
variable (internal : y.isExternal = false) (fresh : y.phase = .unrealized)
variable (watched : ∀ x ∈ y.subscribers, x.isSession = false)
include quiet internal fresh watched

theorem Standpoint.Ahead.takeCapture {u v : World S} (h : o.Ahead app p y u v)
    (misses : o.Misses p (.capture s))
    (used : ∃ z, v.rig.sessions[s]? = some z ∧ 1 < z.users) :
    Alike (o.Joint p s) (takeCapture app (perform app depth) s p u)
      (takeCapture app (perform app depth) s p v) :=
  h.takeIn suits.captureUpdate rfl quiet internal fresh watched misses used _ (fun _ _ => rfl)
    fun _ => rfl

theorem Standpoint.Ahead.takeStream {u v : World S} (h : o.Ahead app p y u v)
    (misses : o.Misses p (.stream s k))
    (used : ∃ z, v.rig.sessions[s]? = some z ∧ 1 < z.users) :
    Alike (o.Joint p s) (takeStream app (perform app depth) s k p u)
      (takeStream app (perform app depth) s k p v) :=
  h.takeIn suits.streamUpdate rfl quiet internal fresh watched misses used _ (fun _ _ => rfl)
    fun _ => rfl

variable (known : w.rig.processors[p]? = some y) (found : w.rig.sessions[s]? = some x)
variable (used : 0 < x.users)
include known found used

/-- Nobody is replaced by the processor. -/
theorem connect_alike (misses : o.Misses p (.capture s)) (free : x.capture = none) :
    Alike o.Same (perform app (depth + 1) (.connectCapture s p) w)
      (perform app (depth + 1) (.connectCapture s p) (app.configures w p y)) := by
  refine Standpoint.during (p := p) (connectCapture app (perform app depth) s p) ?_
  have first := World.arrange_session (g := Session.more) found
  have second := World.arrange_session (g := Session.more)
    (app.configures_session (p := p) (y := y) found)
  have ahead : o.Ahead app p y w (app.configures w p y) := .of_configures known
  refine Alike.of_eq ?_ (connectCapture_none first free) (connectCapture_none second free)
  exact ((ahead.arrange s _).arrange s _).takeCapture suits quiet internal fresh watched misses
    ⟨_, World.arrange_session second, Nat.succ_lt_succ used⟩

theorem add_alike (misses : o.Misses p (.stream s k)) (absent : x.hasStream k = false) :
    Alike o.Same (perform app (depth + 1) (.addStream s k p) w)
      (perform app (depth + 1) (.addStream s k p) (app.configures w p y)) := by
  refine Standpoint.during (p := p) (addStream app (perform app depth) s k p) ?_
  have first := World.arrange_session (g := Session.more) found
  have second := World.arrange_session (g := Session.more)
    (app.configures_session (p := p) (y := y) found)
  have ahead : o.Ahead app p y w (app.configures w p y) := .of_configures known
  have effects : ((app.configures w p y).arrange s Session.more).rig.effects.length =
      (w.arrange s Session.more).rig.effects.length :=
    congrArg List.length (app.configures_effects (w := w) (p := p) (y := y))
  refine Alike.of_eq ?_ (addStream_absent first absent) (addStream_absent second absent)
  rw [effects]
  exact (((ahead.arrange s _).fit _).arrange s _).takeStream suits quiet internal fresh watched
    misses ⟨_, World.arrange_session second, Nat.succ_lt_succ used⟩

end Routes

section Replacing

variable {own : S → K} {app : Application S} {w : World S}
variable {p q : ProcessorId} {s : SessionId} {depth : Nat} {x : Session} {y : Processor}

/-- The comparison of worlds in which a session replaces the processor `q` by one that has not begun
its life, or has been configured ahead. -/
def Application.replacing (app : Application S) (own : S → K) (w : World S) (p q : ProcessorId)
    (y : Processor) (s : SessionId) : Comparison S K (Option (WatcherId × ProcessorId)) where
  toStandpoint := .parts own
  told r := r = q
  asked r := r = q
  processor := p
  apart := some (y, { y with phase := .configured })
  used t := t = s
  more _ := 0
  more_eq _ _ := rfl
  first := w.journal
  second := (app.configures w p y).journal

theorem beside_replacing (parted : app.Parted own p q) (known : w.rig.processors[p]? = some y)
    (found : w.rig.sessions[s]? = some x) (some : 0 < x.users) :
    (app.replacing own w p q y s).Beside (shared s) (w.arrange s Session.more)
      ((app.configures w p y).arrange s Session.more) := by
  have same : ((app.configures w p y).arrange s Session.more).rig.sessions =
      (w.arrange s Session.more).rig.sessions := by
    simp only [World.arrange, Application.configures_sessions]
  have used := World.arrange_session (g := Session.more) found
  constructor
  case processors =>
    intro r sees
    have other : p ≠ r := fun same => by cases sees same.symm
    simp [Application.configures_rig, other]
  case apart =>
    rintro _ _ ⟨⟩
    refine ⟨known, ?_⟩
    rw [World.arrange_processors, Application.configures_rig]
    exact World.modify_processor known
  case internal => exact fun _ _ one other => (other one).elim
  case effects => exact Application.configures_effects.symm
  case sessions =>
    intro t
    rw [same]
    cases (w.arrange s Session.more).rig.sessions[t]? <;> rfl
  -- The session is in use while the operation lasts, and no other count has changed.
  case users =>
    intro t z here
    rw [same] at here
    by_cases one : t = s
    · obtain rfl : x.more = z := Option.some.inj (used.symm.trans (one ▸ here))
      refine .inr ?_
      simpa [shared, Comparison.another, one] using some
    · refine (Nat.eq_zero_or_pos z.users).imp (fun none => ⟨none, one⟩) fun some => ?_
      simpa [shared, Comparison.another, one] using some
  case known =>
    rintro _ rfl
    rw [same, used]
    rfl
  case own => exact (parted.tell w.app).symm
  case journal => exact ⟨[], [], rfl, rfl, .refl _, fun e member => by cases member⟩

/-- What is written down when a processor configures is seen only by those who look at what is told
of this processor. -/
theorem parts_elsewhere {i : Option (WatcherId × ProcessorId)} (elsewhere : ∀ x, i ≠ some (x, p))
    (t : S) : ((app.tell p .configured y.subscribers t).2 ++ y.configuring p).filter
      ((Standpoint.parts own).view i) = [] := by
  refine List.filter_eq_nil_iff.mpr fun e member seen => ?_
  obtain reported | written := List.mem_append.mp member
  · obtain ⟨text, rfl⟩ | ⟨z, f, rfl⟩ := Application.tell_reports e reported
    · cases i <;> cases seen
    · obtain _ | ⟨x, q⟩ := i
      · cases seen
      · simp only [Standpoint.parts, Entry.tells, Bool.and_eq_true, beq_iff_eq] at seen
        exact elsewhere x (by rw [seen.2])
  · simp only [Processor.configuring, List.mem_cons, List.not_mem_nil, or_false] at written
    obtain rfl | rfl | rfl | rfl := written <;> cases i <;> cases seen

/-- Who looks at what is told of a processor sees nothing of what may be written down while the
worlds differ in it. -/
theorem parts_here {entries : List Entry} {x : WatcherId}
    (admitted : ∀ e ∈ entries, (app.replacing own w p q y s).Admits e) :
    entries.filter ((Standpoint.parts own).view (some (x, p))) = [] := by
  refine List.filter_eq_nil_iff.mpr fun e member seen => ?_
  have admits := admitted e member
  match e with
  | .told (.watcher z) q f =>
    simp only [Standpoint.parts, Entry.tells, Bool.and_eq_true, beq_iff_eq] at seen
    exact nomatch admits _ q f rfl seen.2
  | .told (.capture _) .. | .told (.stream ..) .. => cases seen
  | .notice _ | .level .. | .codec .. | .request .. | .note _ | .moved .. | .announced ..
  | .subscribed .. | .readied .. | .accepted _ | .opened _ | .closed _ => cases seen

theorem Comparison.Beside.ahead (quiet : ∀ x, (app.event x p .configured).Quiet)
    (parted : app.Parted own p q) {u v : World S}
    (h : (app.replacing own w p q y s).Beside (shared s) u v) :
    (Standpoint.parts own).Ahead app p y u v := by
  have here : u.rig.processors[p]? = some y := (h.apart _ _ rfl).1
  have there : v.rig.processors[p]? = some { y with phase := .configured } := (h.apart _ _ rfl).2
  refine ⟨here, Rig.eq ?_ h.effects.symm ?_, (parted.tell u.app).trans h.own, fun i => ?_⟩
  · refine List.ext_getElem? fun q => ?_
    by_cases one : p = q
    · subst one
      rw [World.modify_processor here]
      exact there
    · have same := h.processors q fun same => (one same.symm).elim
      simpa [one] using same.symm
  · refine List.ext_getElem? fun t => ?_
    change v.rig.sessions[t]? = u.rig.sessions[t]?
    rw [h.sessions]
    cases v.rig.sessions[t]? <;> rfl
  · obtain ⟨a, b, first, second, same, admitted⟩ := h.journal
    have begun : v.journal = b ++ ((app.tell p .configured y.subscribers w.app).2 ++
        y.configuring p ++ w.journal) := by
      rw [second, List.append_assoc]
      rfl
    have later : a.filter ((Standpoint.parts own).view i) =
      b.filter ((Standpoint.parts own).view i) := same i
    rw [begun, first]
    -- A watcher of the processor has been told on one side and is to be told on the other. No one
    -- else can tell the sides apart.
    by_cases here : ∃ x, i = some (x, p)
    · obtain ⟨x, rfl⟩ := here
      simp only [List.filter_append, Application.tell_parts quiet u.app w.app (some (x, p)),
        parts_here fun e member => admitted e (List.mem_append_left _ member),
        parts_here fun e member => admitted e (List.mem_append_right _ member)]
      rfl
    · have elsewhere (x : WatcherId) : i ≠ some (x, p) := fun same => here ⟨x, same⟩
      rw [List.filter_append, parts_elsewhere elsewhere, List.filter_append, List.filter_append,
        List.filter_append, parts_elsewhere elsewhere, later]
      rfl

/-- The processor takes the place of another one. -/
theorem replace_alike (parted : app.Parted own p q)
    (quiet : ∀ x, (app.event x p .configured).Quiet)
    (known : w.rig.processors[p]? = some y) (internal : y.isExternal = false)
    (fresh : y.phase = .unrealized) (watched : ∀ x ∈ y.subscribers, x.isSession = false)
    (found : w.rig.sessions[s]? = some x) (used : 0 < x.users) (before : x.capture = some q)
    (other : q ≠ p) :
    Alike (Standpoint.parts own).Same (perform app (depth + 1) (.connectCapture s p) w)
      (perform app (depth + 1) (.connectCapture s p) (app.configures w p y)) := by
  have misses : (Standpoint.parts own).Misses p (.capture s) := by
    intro i
    cases i <;> exact ⟨rfl, rfl⟩
  refine Standpoint.during (p := p) (connectCapture app (perform app depth) s p) ?_
  have first := World.arrange_session (g := Session.more) found
  have second := World.arrange_session (g := Session.more)
    (app.configures_session (p := p) (y := y) found)
  refine Alike.of_eq ?_ (connectCapture_some first before) (connectCapture_some second before)
  have beside := (beside_replacing parted known found used).arrange s
    (f := fun x => { x with capture := some p }) (fun _ _ => rfl) fun _ => rfl
  refine (Comparison.Abreast.sessionNotice s _ _ _ _ beside).bind fun _ _ _ beside => ?_
  have suits : (app.replacing own w p q y s).Suits app :=
    parted.suits (fun _ => .inr) fun _ => id
  have closes : (app.replacing own w p q y s).Abreast (close app (perform app depth) q) :=
    Comparison.Abreast.close suits rfl (fun same => (other same).elim) (Comparison.releases depth)
  refine (closes _ _ _ beside).bind fun _ u v beside => ?_
  -- Up to here the worlds differed in the processor. What one of them is ahead by comes next in the
  -- other.
  obtain ⟨z, session⟩ := Option.isSome_iff_exists.mp (beside.known s rfl)
  have several : 1 < z.users := by
    obtain ⟨-, unused⟩ | many := beside.users s z session
    · exact (unused rfl).elim
    · simpa [shared, Comparison.another] using many
  exact (beside.ahead quiet parted).takeCapture (parted.suits (fun _ => .inl) fun _ => False.elim)
    quiet internal fresh watched misses ⟨z, session, several⟩

end Replacing

def configuredFirst {β : Type} (app : Application S) (depth : Nat) (p : ProcessorId)
    (c : Call β) : Run S β := do
  let _ ← perform app depth (.configure p)
  perform app depth c

/-- An internal processor that has not begun its life, and to which only watchers subscribe, is
given to a session in use as it is, or it is configured first. For capture in a free place, and for
a stream that is not there yet, both routes give the same result, the same rig and the same state of
the application, and the same is written down in the same order, but for what sessions are told. If
another processor is replaced, they still give the same result, the same rig and the same state of
the plug-ins, plug-ins are called the same, and every watcher is told the same of each
processor. -/
theorem routes_agree {app : Application S} (quiet : app.QuietPlugIns) {w : World S}
    {p : ProcessorId} {s : SessionId} (event : ∀ x e, (app.event x p e).Quiet) {y : Processor}
    (known : w.rig.processors[p]? = some y) (internal : y.isExternal = false)
    (fresh : y.phase = .unrealized) (watched : ∀ x ∈ y.subscribers, x.isSession = false)
    {x : Session} (found : w.rig.sessions[s]? = some x) (used : 0 < x.users) (depth : Nat) :
    (x.capture = none → Alike (Standpoint.whole S).Same
      (perform app depth (.connectCapture s p) w)
      (configuredFirst app depth p (.connectCapture s p) w)) ∧
    (∀ q, x.capture = some q → q ≠ p → ∀ {K : Type} (own : S → K), app.Parted own p q →
      Alike (Standpoint.parts own).Same
        (perform app depth (.connectCapture s p) w)
        (configuredFirst app depth p (.connectCapture s p) w)) ∧
    ∀ k, x.hasStream k = false → Alike (Standpoint.whole S).Same
      (perform app depth (.addStream s k p) w)
      (configuredFirst app depth p (.addStream s k p) w) := by
  cases depth with
  | zero => exact ⟨fun _ => trivial, fun _ _ _ _ _ _ => trivial, fun _ _ => trivial⟩
  | succ depth =>
    have configured (x : WatcherId) : (app.event x p .configured).Quiet := event x .configured
    have first {β : Type} (c : Call β) : configuredFirst app (depth + 1) p c w =
        perform app (depth + 1) c (app.configures w p y) :=
      Run.bind_eq (configure_run configured internal fresh watched known (perform app depth)) _
    have suits := quiet.suits event
    refine ⟨fun free => ?_, fun q before other K own parted => ?_, fun k absent => ?_⟩
    · rw [first]
      exact connect_alike suits configured internal fresh watched known found used
        (fun _ => ⟨rfl, rfl⟩) free
    · rw [first]
      exact replace_alike parted configured known internal fresh watched found used before other
    · rw [first]
      exact add_alike suits configured internal fresh watched known found used
        (fun _ => ⟨rfl, rfl⟩) absent

/-- A session uses the first of two processors for capture, and another session uses none. The
second processor has not begun its life. Both processors are watched, the first one twice. -/
def Program.succession : Program S Unit := do
  let q ← .send (.newProcessor "q" [⟨.audio .telephone, true⟩])
  let p ← .send (.newProcessor "p" [⟨.audio .telephone, true⟩, ⟨.audio .telephone, true⟩])
  let _ ← .send (.setChain p 1 [.codec 0 "c"])
  let s ← .send (.newSession "s" ⟨"d", "d", false⟩ {})
  let _ ← .send (.newSession "t" ⟨"d", "d", false⟩ {})
  let _ ← .send (.connectCapture s q)
  .send (.watch q 0)
  .send (.watch q 1)
  .send (.watch p 0)

/-- Those who watch count what they are told. The plug-ins count beside how often they are opened,
and can be opened once. -/
def Application.tallying : Application (Nat × Nat) :=
  { Application.silent _ with
    event := fun _ _ _ => .modify fun s => (s.1 + 1, s.2)
    opens := fun _ => .update (fun s => (s.2, s.1, s.2 + 1)) fun n =>
      .done (if n = 0 then .ok () else .error (.processingFailed "is open")) }

theorem Application.tallying_parted (p q : ProcessorId) :
    Application.tallying.Parted Prod.snd p q where
  offer _ f _ _ same := ⟨some f, _, _, rfl, rfl, same⟩
  opens _ := by
    rintro ⟨a, n⟩ ⟨b, _⟩ rfl
    exact ⟨_, _, _, rfl, rfl, rfl⟩
  close _ _ _ same := ⟨(), _, _, rfl, rfl, same⟩
  request _ _ _ same := ⟨.ok (), _, _, rfl, rfl, same⟩
  event _ _ _ _ s := ⟨(s.1 + 1, s.2), rfl, rfl⟩

theorem routes_agree_tallying : Application.tallying.QuietPlugIns ∧
    ∃ w, Program.succession.run (perform .tallying 8) { app := (0, 0) } = .ok ((), w) ∧
      Alike (Standpoint.parts Prod.snd).Same (perform .tallying 8 (.connectCapture 0 1) w)
        (configuredFirst .tallying 8 1 (.connectCapture 0 1) w) ∧
      Alike (Standpoint.whole _).Same (perform .tallying 8 (.connectCapture 1 1) w)
        (configuredFirst .tallying 8 1 (.connectCapture 1 1) w) ∧
      Alike (Standpoint.whole _).Same (perform .tallying 8 (.addStream 0 5 1) w)
        (configuredFirst .tallying 8 1 (.addStream 0 5 1) w) ∧
      (perform .tallying 8 (.connectCapture 0 1)).Ends w (fun u => u.rig.phase 1 = .realized) ∧
      (perform .tallying 8 (.connectCapture 1 1)).Ends w (fun u => u.rig.phase 1 = .realized) ∧
      (perform .tallying 8 (.addStream 0 5 1)).Ends w fun u => u.rig.phase 1 = .started := by
  have quiet : Application.tallying.QuietPlugIns :=
    ⟨fun _ _ => trivial, fun _ _ => trivial, fun _ => trivial⟩
  have ends : (Program.succession.run (perform .tallying 8)).Ends { app := (0, 0) } fun w =>
      (w.rig.processors[1]?).any (fun y => !y.isExternal && y.phase == .unrealized &&
        y.subscribers.all (!·.isSession)) ∧
      (w.rig.sessions[0]?).any (fun x => x.users == 1 && x.capture == some 0 && !x.hasStream 5) ∧
      (w.rig.sessions[1]?).any (fun x => x.users == 1 && x.capture == none) ∧
      (perform .tallying 8 (.connectCapture 0 1)).Ends w (fun u => u.rig.phase 1 = .realized) ∧
      (perform .tallying 8 (.connectCapture 1 1)).Ends w (fun u => u.rig.phase 1 = .realized) ∧
      (perform .tallying 8 (.addStream 0 5 1)).Ends w fun u => u.rig.phase 1 = .started := by
    decide +kernel
  obtain ⟨_, w, run, processor, first, second, ends⟩ := ends
  obtain ⟨y, known, fits⟩ := (Option.any_eq_true _ _).mp processor
  obtain ⟨x, found, one⟩ := (Option.any_eq_true _ _).mp first
  obtain ⟨z, found', one'⟩ := (Option.any_eq_true _ _).mp second
  simp only [Bool.and_eq_true, Bool.not_eq_true', beq_iff_eq, List.all_eq_true] at fits one one'
  obtain ⟨⟨internal, fresh⟩, watched⟩ := fits
  obtain ⟨⟨users, before⟩, absent⟩ := one
  have agree := routes_agree quiet (fun _ _ _ => trivial) known internal fresh watched found
    (by omega) 8
  have agree' := routes_agree quiet (fun _ _ _ => trivial) known internal fresh watched found'
    (by omega) 8
  exact ⟨quiet, w, run, agree.2.1 0 before nofun Prod.snd (Application.tallying_parted 1 0),
    agree'.1 one'.2, agree.2.2 5 absent, ends⟩

/-- What a watcher was told, the latest first. -/
def hearsay (x : WatcherId) (journal : List Entry) : List (ProcessorId × Event) :=
  journal.filterMap fun
    | .told (.watcher y) p e => if y = x then some (p, e) else none
    | _ => none

/-- A watcher that is told of the end of the first processor has the second one realized. -/
def Application.intruding : Application Unit :=
  { Application.silent Unit with
    event := fun x p e => match x, p, e with
      | 1, 0, .closed => do let _ ← .send (.realize 1)
      | _, _, _ => .done () }

/-- Plug-ins cannot be opened after somebody was told of an end. -/
def Application.mourning : Application Bool :=
  { Application.silent Bool with
    event := fun _ _ e => .modify fun _ => e == .closed
    opens := fun _ => .update (fun s => (s, s)) fun s =>
      .done (if s then .error (.processingFailed "closed") else .ok ()) }

/-- A watcher that is told of the end of the first processor connects the second one, as it is or
after it has been configured. -/
def Application.returning (first : Bool) : Application Unit :=
  { Application.silent Unit with
    event := fun x p e => match x, p, e with
      | 1, 0, .closed => do
        if first then
          let _ ← .send (.configure 1)
        let _ ← .send (.connectCapture 0 1)
      | _, _, _ => .done () }

/-- If another processor is replaced, whoever watches both is not told in the same order. What comes
of it is not the same either if somebody who watches the other one calls back, or if plug-ins open
only as long as nobody was told of an end. If the processor has been given to the session before and
has still not begun its life, it is closed, after it has configured or at once. -/
theorem routes_differ :
    ((Program.succession.run (perform (.silent Unit) 8)).Ends { app := () } fun w =>
      (perform (.silent Unit) 8 (.connectCapture 0 1)).Ends w (fun u =>
        hearsay 0 u.journal = [(1, .realized), (1, .configured), (0, .closed)]) ∧
      (configuredFirst (.silent Unit) 8 1 (.connectCapture 0 1)).Ends w fun u =>
        hearsay 0 u.journal = [(1, .realized), (0, .closed), (1, .configured)]) ∧
    ((Program.succession.run (perform .intruding 8)).Ends { app := () } fun w =>
      (perform .intruding 8 (.connectCapture 0 1)).Ends w (fun u => u.rig.slot 0 = some 1) ∧
      (configuredFirst .intruding 8 1 (.connectCapture 0 1)).Ends w fun u => u.rig.slot 0 = none) ∧
    ((Program.succession.run (perform .mourning 8)).Ends { app := false } fun w =>
      (perform .mourning 8 (.connectCapture 0 1)).Ends w (fun u => u.rig.phase 1 = .realized) ∧
      (configuredFirst .mourning 8 1 (.connectCapture 0 1)).Ends w fun u =>
        u.rig.phase 1 = .configured) ∧
    (Program.succession.run (perform (.silent Unit) 8)).Ends { app := () } fun w =>
      (perform (.returning false) 8 (.connectCapture 0 1)).Ends w (fun u =>
        hearsay 0 u.journal = [(1, .closed), (0, .closed)]) ∧
      (perform (.returning true) 8 (.connectCapture 0 1)).Ends w fun u =>
        hearsay 0 u.journal = [(1, .closed), (1, .configured), (0, .closed)] := by
  decide +kernel

end Metering
