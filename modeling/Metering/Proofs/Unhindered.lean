import Metering.Proofs.TakingIn
/-!
Metering does not stand in the way of a set-up. If a processor would realize without a level effect,
it realizes with one, whether or not the effect could be installed; and a session takes in such a
processor with success.
-/

namespace Metering

variable {S α : Type}

theorem Yields.of_eq {m m' : Run S α} {w w' : World S} {Q : α → World S → Prop}
    (same : m w = m' w') (yields : Yields m' w' Q) : Yields m w Q := by
  obtain ⟨a, v, run, holds⟩ := yields
  exact ⟨a, v, same.trans run, holds⟩

section Growing

variable {m : Manner} {n k : Nat} {x : Processor} {r : Rig}

/-- It does no harm if there are more effects. -/
theorem Manner.Fits.mono (fits : m.Fits n x) (more : n ≤ k) : m.Fits k x := by
  refine ⟨?_, fits.opens⟩
  have answer {f g : Format} {y : PlugIn} (takes : m.answer n f y = some g) :
      m.answer k f y = some g := by
    cases y with
    | effect e =>
      obtain ⟨⟨there, audio⟩, rfl⟩ : (e < n ∧ f.isAudio = true) ∧ f = g := by
        simpa [Manner.answer] using takes
      simp [Manner.answer, Nat.lt_of_lt_of_le there more, audio]
    | codec c name => exact takes
  have agrees (chain : List PlugIn) (f g : Format) (agreed : chain.foldlM (m.answer n) f = some g) :
      chain.foldlM (m.answer k) f = some g := by
    induction chain generalizing f with
    | nil => exact agreed
    | cons y ys ih =>
      rw [List.foldlM_cons] at agreed ⊢
      obtain ⟨f', takes, rest⟩ := Option.bind_eq_some_iff.mp agreed
      exact Option.bind_eq_some_iff.mpr ⟨f', answer takes, ih f' rest⟩
  intro i member t track
  obtain ⟨g, agreed⟩ := fits.agrees i member t track
  exact ⟨g, agrees _ _ g agreed⟩

theorem Rig.Proper.equipped (proper : r.Proper) : r.Equipped :=
  fun s y session _ member => (proper s y session).lt member

theorem Rig.Equipped.modifySession (equipped : r.Equipped) (s : SessionId) {f : Session → Session}
    (keeps : ∀ y, ∀ e ∈ (f y).effects, e ∈ y.effects ∨ e < r.effects.length) :
    (r.modifySession s f).Equipped := by
  intro t y session e member
  simp only [Rig.modifySession, List.getElem?_modify] at session
  obtain ⟨y, before, rfl⟩ := Option.map_eq_some_iff.mp session
  split at member
  case isTrue =>
    obtain old | new := keeps y e member
    · exact equipped t y before e old
    · exact new
  case isFalse => exact equipped t y before e member

theorem Rig.Equipped.append (equipped : r.Equipped) (z : LevelEffect) :
    ({ r with effects := r.effects ++ [z] } : Rig).Equipped := by
  intro s y session e member
  rw [List.length_append]
  exact Nat.lt_add_right _ (equipped s y session e member)

/-- A session used by one more and with another processor for capture has the same effects. -/
theorem Rig.Equipped.engage (equipped : r.Equipped) (s : SessionId) (p : ProcessorId) :
    ((r.modifySession s Session.more).modifySession s fun x =>
      { x with capture := some p }).Equipped := by
  have more : (r.modifySession s Session.more).Equipped := equipped.modifySession s fun _ _ => .inl
  exact more.modifySession s fun _ _ => .inl

/-- A session that is used by one more and has one more stream has the effect that was made for that
stream. -/
theorem Rig.Equipped.enlist (equipped : r.Equipped) (s : SessionId) (k : Ssrc) (p : ProcessorId)
    (z : LevelEffect) : (({ r.modifySession s Session.more with
      effects := r.effects ++ [z] } : Rig).modifySession s
        (·.addStream k ⟨p, r.effects.length⟩)).Equipped := by
  have before : (r.modifySession s Session.more).Equipped :=
    equipped.modifySession s fun _ _ => .inl
  refine (before.append z).modifySession s fun y e member => ?_
  obtain rfl | ⟨st, added, rfl⟩ := Session.mem_effects.mp member
  · exact .inl (Session.mem_effects.mpr (.inl rfl))
  · obtain old | new := List.mem_append.mp added
    · exact .inl (Session.mem_effects.mpr (.inr ⟨st, old, rfl⟩))
    · obtain rfl := List.mem_singleton.mp new
      exact .inr (by simp [Rig.modifySession])

end Growing

namespace Rig.Near

variable {app : Application S} (silent : app.Silences) {w : World S} {r : Rig}
variable {q : ProcessorId} {x : Processor}
include silent

theorem closeTrack (near : r.Near w.rig) (known : r.processors[q]? = some x)
    (free : x.held = []) (i : Nat) {again : {β : Type} → Call β → Run S β} :
    Yields (closeTrack app again q i) w fun _ w' => r.Near w'.rig := by
  obtain ⟨u, there, alike⟩ := near.known known
  have free : u.held = [] := (congrArg (·.held) alike).trans free
  apply Yields.track there
  cases track : u.tracks[i]? with
  | none => exact yields_pure.mpr near
  | some t =>
    dsimp only
    split
    case isFalse => exact yields_pure.mpr near
    case isTrue =>
      apply yields_bind.mpr
      apply yields_modifyProcessor.mpr
      have here := World.modify_processor there (f := (·.modifyTrack i fun t =>
        { t with isOpen := false }))
      have free : i ∉ (u.modifyTrack i fun t => { t with isOpen := false }).held :=
        free ▸ List.not_mem_nil
      refine (Yields.holding (R := fun u _ v => u.rig.Near v.rig) here free
        (fun near => near.modify fun _ => rfl) ?_).mono
          fun _ _ closed => (near.setOpen i false).trans closed
      refine Yields.each (P := fun v => Near _ v.rig) ?_ (.refl _)
      intro y _ v near
      cases y with
      | effect e => exact yields_bind.mpr (yields_pure.mpr (yields_record.mpr near))
      | codec c name =>
        apply Yields.record
        refine ((silent.close c).settles _).bind ?_
        rintro _ v' ⟨-, same⟩
        exact yields_record.mpr (same ▸ near)

/-- Whatever a processor is, to close it changes no more than its phase. -/
theorem close (near : r.Near w.rig) (known : r.processors[q]? = some x) (free : x.held = [])
    (attended : r.Attends x.subscribers) {depth : Nat} :
    Yields (close app (perform app (depth + 1)) q) w fun _ w' =>
      ∃ a, (r.setPhase q a).Near w'.rig := by
  have stays : r.setPhase q x.phase = r := Rig.setPhase_of known rfl
  obtain ⟨u, there, -, -, -⟩ := near.meets known
  apply Yields.processor there
  split
  case isTrue =>
    have asked : Yields (ask app (perform app (depth + 1)) q .close) w fun _ v =>
        v.rig = w.rig := by
      apply Yields.record
      exact ((silent.request q .close).settles _).mono fun _ _ => And.right
    refine asked.bind ?_
    intro _ v same
    exact yields_pure.mpr ⟨x.phase, by rwa [stays, same]⟩
  case isFalse =>
    split
    case isFalse => exact yields_pure.mpr ⟨x.phase, by rwa [stays]⟩
    case isTrue =>
      refine (near.moveTo known .closed).bind ?_
      intro _ v moved
      have closed := Rig.modifyProcessor_known known fun z => { z with phase := .closed }
      have tells {v : World S} (near : (r.setPhase q .closed).Near v.rig) :
          Yields (do
            Run.notice (.processor u.name .closed)
            Metering.emit app (perform app (depth + 1)) q .closed) v fun _ w' =>
              ∃ a, (r.setPhase q a).Near w'.rig := by
        apply yields_bind.mpr
        apply yields_notice.mpr
        refine (emit_still (w := v.record _) silent near closed attended
          fun z _ => Rig.drives_mere rfl).mono ?_
        intro _ w' told
        exact ⟨_, told⟩
      dsimp only
      split
      case isFalse => exact tells moved
      case isTrue =>
        have closes : Yields (Run.each (Metering.closeTrack app (perform app (depth + 1)) q)
            (List.range u.tracks.length)) v fun _ v' => (r.setPhase q .closed).Near v'.rig :=
          Yields.each (P := fun v => (r.setPhase q .closed).Near v.rig)
            (fun i _ v near => near.closeTrack silent closed free i) moved
        refine closes.bind ?_
        intro _ v shut
        exact tells shut

end Rig.Near

section Sessions

variable {app : Application S} {m : Manner} (conforms : app.Conforms m) {w : World S}
variable {p : ProcessorId} {x : Processor} {s : SessionId} {y : Session} {depth : Nat}

/-- An operation on a session in use comes to its end if what it does comes to its end and leaves
the session in use. -/
theorem Yields.duringUse {body : Run S α} {again : {β : Type} → Call β → Run S β}
    {Q : α → Phase → Prop} (does : Yields body (w.arrange s Session.more) fun a w' =>
      Q a (w'.rig.phase p) ∧ ∃ y, w'.rig.sessions[s]? = some y ∧ y.users ≠ 1) :
    Yields (duringUse app again s body) w fun a w' => Q a (w'.rig.phase p) := by
  apply yields_bind.mpr
  apply yields_modifySession.mpr
  refine does.bind ?_
  rintro a v ⟨holds, y, session, many⟩
  refine Yields.bind (P := fun _ v' => v'.rig.phase p = v.rig.phase p)
    ⟨(), _, releaseSession_eq session many again, rfl⟩ ?_
  intro _ v' same
  exact yields_pure.mpr (same ▸ holds)

theorem Rig.landing_joined (r : Rig) (x : Processor) (z : Subscriber) :
    r.landing (x.joined z) = if r.drives .realized z then .started else r.landing x := by
  unfold landing Processor.joined
  rw [List.any_append, List.any_cons, List.any_nil, Bool.or_false]
  by_cases drives : r.drives .realized z = true
  · simp [drives]
  · simp [drives]

include conforms

/-- A processor that fits has come to its phase when a session has taken it in, and the session is
still in use. -/
theorem takeIn_yields {r : Rig} (near : r.Near w.rig) (known : r.processors[p]? = some x)
    (internal : x.isExternal = false) (early : x.phase = .unrealized ∨ x.phase = .configured)
    (free : x.held = []) (fits : m.Fits r.effects.length x) (attended : r.Attends x.subscribers)
    (equipped : r.Equipped) {z : Subscriber} (of : z.session? = some s)
    (session : r.sessions[s]? = some y) (many : 1 < y.users) (failed : Fault → SessionNotice)
    (undo : Session → Session) :
    Yields (takeIn app (perform app (depth + 3)) s p z (z.react app (perform app (depth + 3)) p)
      failed undo) w fun a w' =>
        (a = .ok () ∧ w'.rig.phase p = if r.drives .realized z then .started else r.landing x) ∧
        ∃ y, w'.rig.sessions[s]? = some y ∧ y.users ≠ 1 := by
  refine (near.takeIn conforms known internal early free fits attended equipped of session
    (by omega) failed undo).mono ?_
  rintro a w' ⟨rfl, e, taken⟩
  obtain ⟨u, there, phase, -, -⟩ := taken.meets (Rig.modifyProcessor_known known _)
  refine ⟨⟨rfl, ?_⟩, y, taken.session session, by omega⟩
  rw [← Rig.landing_joined, Rig.phase_of there, phase]
  rfl

variable (whole : w.rig.Whole) (known : w.rig.processors[p]? = some x)
variable (internal : x.isExternal = false) (early : x.phase = .unrealized ∨ x.phase = .configured)
variable (fits : m.Fits w.rig.effects.length x) (session : w.rig.sessions[s]? = some y)
variable (used : 0 < y.users)
include whole known internal early fits session used

theorem connectCapture_yields (other : y.capture ≠ some p) :
    Yields (perform app (depth + 4) (.connectCapture s p)) w fun a w' =>
      a = .ok () ∧ w'.rig.phase p = w.rig.landing x := by
  let r : Rig := (w.rig.modifySession s Session.more).modifySession s fun x =>
    { x with capture := some p }
  have begun : (w.arrange s Session.more).rig.sessions[s]? = some y.more :=
    World.arrange_session session
  have inUse : r.sessions[s]? = some { y.more with capture := some p } :=
    Rig.modifySession_known begun
  have attended (q : ProcessorId) (x : Processor) (known : w.rig.processors[q]? = some x) :
      r.Attends x.subscribers :=
    Rig.Attends.modifySession (Rig.Attends.modifySession (whole.attended q x known) s _) s _
  have equipped : r.Equipped := whole.proper.equipped.engage s p
  have lands : r.landing x = w.rig.landing x := by
    have same : r.landing x = (w.rig.modifySession s Session.more).landing x :=
      Rig.landing_modifySession begun Iff.rfl rfl
    exact same.trans (Rig.landing_more session used)
  -- Only processors other than this one may have changed before it is taken in.
  have takes {v : World S} {ps : List Processor} (here : ps[p]? = some x)
      (near : ({ r with processors := ps } : Rig).Near v.rig) :
      Yields (takeCapture app (perform app (depth + 3)) s p) v fun a w' =>
        (a = .ok () ∧ w'.rig.phase p = w.rig.landing x) ∧
        ∃ y, w'.rig.sessions[s]? = some y ∧ y.users ≠ 1 := by
    rw [← lands]
    exact takeIn_yields conforms near here internal early (whole.free p x known) fits
      (attended p x known) equipped (z := .capture s) rfl inUse (Nat.succ_lt_succ used) _ _
  refine Yields.duringUse (Q := fun (a : Except Fault Unit) b =>
    a = .ok () ∧ b = w.rig.landing x) ?_
  cases capture : y.capture with
  | none => exact Yields.of_eq (connectCapture_none begun capture) (takes known (.refl r))
  | some q =>
    refine Yields.of_eq (connectCapture_some begun capture) ?_
    have held : q < w.rig.processors.length := by
      apply whole.held s y session q
      simp [Session.processors, capture]
    have there : r.processors[q]? = some w.rig.processors[q] := List.getElem?_eq_getElem held
    have apart : q ≠ p := fun same => other (same ▸ capture)
    refine (Rig.Near.sessionNotice (r := r) (w := (w.arrange s Session.more).arrange s _) (.refl r)
      inUse .captureReplaced).bind ?_
    intro _ v near
    refine (near.close conforms.toSilences there (whole.free q _ there)
      (attended q _ there)).bind ?_
    rintro _ v ⟨a, closed⟩
    exact takes ((Rig.modifyProcessor_other apart).trans known) closed

theorem addStream_yields {k : Ssrc} (absent : y.hasStream k = false) :
    Yields (perform app (depth + 4) (.addStream s k p)) w fun a w' => a = .ok () ∧
      w'.rig.phase p = if y.config.startStreams then .started else w.rig.landing x := by
  let e := (LevelEffect.new y.config.effect).setListener y.streamListener
  let r₀ : Rig := { w.rig.modifySession s Session.more with effects := w.rig.effects ++ [e] }
  let r : Rig := r₀.modifySession s fun x => x.addStream k ⟨p, w.rig.effects.length⟩
  have begun : (w.arrange s Session.more).rig.sessions[s]? = some y.more :=
    World.arrange_session session
  have inUse : r.sessions[s]? = some (y.more.addStream k ⟨p, w.rig.effects.length⟩) :=
    Rig.modifySession_known begun
  have more : r.effects.length = w.rig.effects.length + 1 := by
    simp [r, r₀, Rig.modifySession]
  have attended : r.Attends x.subscribers :=
    Rig.Attends.modifySession (Rig.Attends.modifySession (whole.attended p x known) s _) s _
  have equipped : r.Equipped := whole.proper.equipped.enlist s k p e
  have lands : r.landing x = w.rig.landing x := by
    have same : r.landing x = (w.rig.modifySession s Session.more).landing x :=
      Rig.landing_modifySession (r := r₀) begun Iff.rfl rfl
    exact same.trans (Rig.landing_more session used)
  have drives : r.drives .realized (.stream s k) = y.config.startStreams := by
    simp [Rig.drives, Subscriber.drivenBy, Subscriber.session?, inUse, Session.addStream]
  refine Yields.duringUse (Q := fun (a : Except Fault Unit) b => a = .ok () ∧
    b = if y.config.startStreams then .started else w.rig.landing x) ?_
  refine Yields.of_eq (addStream_absent begun absent) ?_
  rw [← lands, ← drives]
  exact takeIn_yields conforms (r := r) (z := .stream s k) (.refl r) known internal early
    (whole.free p x known) (fits.mono (by omega)) attended equipped rfl inUse
    (Nat.succ_lt_succ used) _ _

omit whole known internal early fits session used

/-- An internal processor is given, with any tracks and any chains, whose plug-ins always answer
alike. If it would realize as it is, were it configured, then it realizes after an effect has been
installed on it, or after that has failed; and a session in use that does not have it for capture
connects it with success, or adds it with success for a stream of a new name. It is then realized,
or started if a session in use, which may be another one, is set to start the stream that it plays
through it. -/
theorem set_up_goes_on (whole : w.rig.Whole) (known : w.rig.processors[p]? = some x)
    (internal : x.isExternal = false) (early : x.phase = .unrealized ∨ x.phase = .configured)
    (realizes : Yields (perform app (depth + 4) (.realize p))
      (w.modify p fun x => { x with phase := .configured }) fun a _ => a = .ok ()) :
    (x.phase = .configured → ∀ e side, e < w.rig.effects.length → Yields (do
      let _ ← perform app (depth + 4) (.install p e side)
      perform app (depth + 4) (.realize p)) w fun a _ => a = .ok ()) ∧
    ∀ s y, w.rig.sessions[s]? = some y → 0 < y.users →
      (y.capture ≠ some p → Yields (perform app (depth + 4) (.connectCapture s p)) w fun a w' =>
        a = .ok () ∧ w'.rig.phase p = w.rig.landing x) ∧
      ∀ k, y.hasStream k = false →
        Yields (perform app (depth + 4) (.addStream s k p)) w fun a w' => a = .ok () ∧
          w'.rig.phase p = if y.config.startStreams then .started else w.rig.landing x := by
  -- That it would realize says that its chains agree on formats and open, and this is all that the
  -- operations ask of it.
  have fits : m.Fits w.rig.effects.length x := by
    obtain ⟨a, v, run, rfl⟩ := realizes
    have begun : (w.modify p fun x => { x with phase := .configured }).rig.processors[p]? =
        some { x with phase := .configured } := World.modify_processor known
    have fits : m.Fits w.rig.effects.length { x with phase := .configured } :=
      realize_ensures conforms begun internal rfl _ v run rfl
    exact ⟨fits.agrees, fits.opens⟩
  constructor
  · intro configured e side there
    have installs : Yields (perform app (depth + 4) (.install p e side)) w fun _ w' =>
        (w.rig.modifyProcessor p (·.equip (some e))).Near w'.rig :=
      (Rig.Near.refl w.rig).install known internal (Processor.ready_of configured)
        (.of_held (whole.free p x known)) e side
    refine installs.bind ?_
    intro _ v placed
    have realized : Yields (perform app (depth + 4) (.realize p)) v fun a w' => a = .ok () ∧
        (w.rig.modifyProcessor p (·.taken (some e) (w.rig.landing x))).Near w'.rig := by
      apply placed.realize_equipped conforms known internal configured (whole.free p x known) fits
      · exact whole.attended p x known
      · rintro _ ⟨⟩
        exact there
    exact realized.mono fun _ _ => And.left
  · intro s y session used
    constructor
    · intro other
      exact connectCapture_yields conforms whole known internal early fits session used other
    · intro k absent
      exact addStream_yields conforms whole known internal early fits session used absent

end Sessions

/-- Plug-ins take audio only. They are counted when they are opened. -/
def Application.choosy : Application Nat :=
  { Application.silent Nat with
    offer := fun _ f => .done (if f.isAudio then some f else none)
    opens := fun _ => .update (fun n => ((), n + 1)) fun _ => .done (.ok ()) }

def Manner.choosy : Manner where
  offer _ f := if f.isAudio then some f else none
  opens _ := .ok ()

theorem Application.choosy_conforms : Application.choosy.Conforms .choosy where
  event _ _ _ := trivial
  request _ _ := trivial
  close _ := trivial
  offer _ _ := rfl
  opens _ _ := rfl

/-- A processor with a plug-in on a video track, which is not enabled, and others on the second of
two audio tracks, and a session. -/
def Program.motley : Program Nat Unit := do
  let video : Format := .video ⟨"h264", 640, 480⟩
  let p ← .send (.newProcessor "p" [⟨video, true⟩, ⟨.audio .telephone, true⟩,
    ⟨.audio .telephone, true⟩, ⟨video, false⟩])
  let _ ← .send (.configure p)
  let _ ← .send (.setChain p 0 [.codec 0 "c"])
  let _ ← .send (.setChain p 2 [.codec 1 "d", .codec 1 "d"])
  .send (.setEnabled p 0 false)
  let _ ← .send (.newSession "s" ⟨"d", "d", false⟩ {})

theorem set_up_goes_on_motley : ∃ w x,
    Program.motley.run (perform .choosy 6) { app := 0 } = .ok ((), w) ∧
      w.rig.processors[0]? = some x ∧ x.phase = .configured ∧ x.enabledTracks = [1, 2, 3] ∧
      Yields (do
        let _ ← perform .choosy 6 (.install 0 0 .capture)
        perform .choosy 6 (.realize 0)) w (fun a _ => a = .ok ()) ∧
      Yields (perform .choosy 6 (.connectCapture 0 0)) w (fun a w' =>
        a = .ok () ∧ w'.rig.phase 0 = .realized) ∧
      Yields (perform .choosy 6 (.addStream 0 7 0)) w (fun a w' =>
        a = .ok () ∧ w'.rig.phase 0 = .started) := by
  have ends : (Program.motley.run (perform .choosy 6)).Ends { app := 0 } fun w =>
      (w.rig.processors[0]?).any (fun x => !x.isExternal && x.phase == .configured &&
        x.subscribers.isEmpty && x.enabledTracks == [1, 2, 3]) ∧
      w.rig.effects.length = 1 ∧
      (w.rig.sessions[0]?).any (fun y => y.users == 1 && y.capture == none && !y.hasStream 7 &&
        y.config.startStreams) ∧
      Yields (perform .choosy 6 (.realize 0)) (w.modify 0 fun x => { x with phase := .configured })
        fun a _ => a = .ok () := by
    decide +kernel
  obtain ⟨_, w, run, processor, effects, session, realizes⟩ := ends
  obtain ⟨x, known, fits⟩ := (Option.any_eq_true _ _).mp processor
  obtain ⟨y, found, one⟩ := (Option.any_eq_true _ _).mp session
  simp only [Bool.and_eq_true, Bool.not_eq_true', beq_iff_eq, List.isEmpty_iff] at fits one
  obtain ⟨⟨⟨internal, configured⟩, nobody⟩, enabled⟩ := fits
  obtain ⟨⟨⟨users, free⟩, absent⟩, starts⟩ := one
  have lands : w.rig.landing x = .realized := by simp [Rig.landing, nobody]
  obtain ⟨installs, uses⟩ := set_up_goes_on Application.choosy_conforms (Rig.whole_of_run run) known
    internal (.inr configured) realizes
  obtain ⟨connects, adds⟩ := uses 0 y found (by omega)
  have connected := connects (by simp [free])
  have added := adds 7 absent
  rw [lands] at connected
  rw [starts] at added
  exact ⟨w, x, run, known, configured, enabled, installs configured 0 .capture (by omega),
    connected, added⟩

/-- A stream is to be played through a processor that does not realize, because it has a plug-in on
a video track. That track is disabled then, and there is another session. -/
def Program.lending : Program Nat Unit := do
  let p ← .send (.newProcessor "p" [⟨.audio .telephone, true⟩, ⟨.video ⟨"h264", 640, 480⟩, true⟩])
  let _ ← .send (.configure p)
  let _ ← .send (.setChain p 1 [.codec 0 "c"])
  let s ← .send (.newSession "s" ⟨"d", "d", false⟩ {})
  let _ ← .send (.addStream s 1 p)
  .send (.setEnabled p 1 false)
  let _ ← .send (.newSession "t" ⟨"d", "d", false⟩ {})

/-- A processor of the application is used for capture. -/
def Program.yielding : Program Nat Unit := do
  let p ← .send (.newProcessor "p" [⟨.audio .telephone, true⟩])
  let _ ← .send (.configure p)
  let q ← .send (.newExternal "q" .unrealized [])
  let s ← .send (.newSession "s" ⟨"d", "d", false⟩ {})
  let _ ← .send (.connectCapture s q)

/-- A processor of the application that is closed closes another one. -/
def Application.spiteful : Application Nat :=
  { Application.choosy with
    request := fun _ r => match r with
      | .close => do
        .send (.close 0)
        return .ok ()
      | _ => .done (.ok ()) }

/-- A processor may be started although the session that connects it for capture has not held it
before, because another session still plays a stream through it. And a session may be refused it
although neither plug-ins nor watchers call back, because a processor of the application that it
takes the place of does. -/
theorem set_up_goes_further : Application.choosy.Conforms .choosy ∧
    ((Program.lending.run (perform .choosy 6)).Ends { app := 0 } fun w =>
      (w.rig.processors[0]?).any (fun x => !x.isExternal && x.phase == .configured) ∧
      (w.rig.sessions[1]?).any (fun y => y.users == 1 && y.processors.isEmpty) ∧
      Yields (perform .choosy 6 (.realize 0)) w (fun a _ => a = .ok ()) ∧
      Yields (perform .choosy 6 (.connectCapture 1 0)) w fun a w' =>
        a = .ok () ∧ w'.rig.phase 0 = .started) ∧
    (Program.yielding.run (perform .spiteful 6)).Ends { app := 0 } fun w =>
      (w.rig.processors[0]?).any (fun x => !x.isExternal && x.phase == .configured) ∧
      (w.rig.sessions[0]?).any (fun y => y.users == 1 && y.processors == [1]) ∧
      Yields (perform .spiteful 6 (.realize 0)) w (fun a _ => a = .ok ()) ∧
      Yields (perform .spiteful 6 (.connectCapture 0 0)) w fun a w' =>
        a ≠ .ok () ∧ w'.rig.phase 0 = .closed := by
  refine ⟨Application.choosy_conforms, ?_, ?_⟩
  · decide +kernel
  · decide +kernel

end Metering
