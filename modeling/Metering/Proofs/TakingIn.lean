import Metering.Proofs.SettingUp
/-!
A session takes in a processor that fits. Other sessions may have subscribed to the processor
before. The first of them that acts puts its effect in place and realizes the processor, and the
others find it realized.
-/

namespace Metering

variable {S α : Type}

/-- The processor with an effect in place, if there is one for it. -/
def Processor.equip (x : Processor) : Option EffectId → Processor
  | none => x
  | some e => x.wire e

/-- The processor after a session with this effect has realized it. -/
def Processor.taken (x : Processor) (e : Option EffectId) (a : Phase) : Processor :=
  { (x.equip e).lock with phase := a }

/-- A processor that has realized, with all of its chains locked. -/
structure Processor.Landed (x : Processor) : Prop where
  internal : x.isExternal = false
  phase : x.phase = .realized ∨ x.phase = .started
  locked : ∀ t ∈ x.tracks, t.locked = true

/-- All effects that sessions hold are there. -/
def Rig.Equipped (r : Rig) : Prop :=
  ∀ (s : SessionId) (y : Session), r.sessions[s]? = some y → ∀ e ∈ y.effects, e < r.effects.length

def Subscriber.react (app : Application S) (again : {β : Type} → Call β → Run S β)
    (p : ProcessorId) : Subscriber → Run S Unit
  | .watcher _ => pure ()
  | .capture s => captureUpdate app again s p .configured
  | .stream s k => streamUpdate app again s k p .configured

section Equip

variable {m : Manner} {n : Nat} {x : Processor} {r : Rig} {z : Subscriber} {y : Session}

theorem Processor.equip_rest (x : Processor) (e : Option EffectId) :
    (x.equip e).phase = x.phase ∧ (x.equip e).subscribers = x.subscribers ∧
      (x.equip e).isExternal = x.isExternal := by
  cases e with
  | none => exact ⟨rfl, rfl, rfl⟩
  | some e => exact x.wire_rest e

theorem Processor.equip_held (x : Processor) (e : Option EffectId) : (x.equip e).held = x.held := by
  cases e with
  | none => rfl
  | some e =>
    change (x.wire e).held = x.held
    unfold wire
    split
    · rfl
    · rfl

theorem Processor.equip_shut (e : Option EffectId) : (x.equip e).shut = x.shut.equip e := by
  cases e with
  | none => rfl
  | some e => exact wire_shut.symm

theorem Manner.Fits.equip (fits : m.Fits n x) {e : Option EffectId} (there : ∀ i ∈ e, i < n) :
    m.Fits n (x.equip e) := by
  cases e with
  | none => exact fits
  | some e => exact fits.wire (there e rfl)

theorem Processor.ready_of (configured : x.phase = .configured) : x.phase.isConfigured = true := by
  rw [configured]
  rfl

theorem Processor.Landed.ready (landed : x.Landed) : x.phase.isConfigured = true := by
  obtain phase | phase := landed.phase
  · rw [phase]
    rfl
  · rw [phase]
    rfl

/-- A processor that has realized takes no other effect. -/
theorem Processor.Landed.equip (landed : x.Landed) (e : Option EffectId) : x.equip e = x := by
  cases e with
  | none => rfl
  | some e =>
    unfold Processor.equip Processor.wire
    cases firstAudio x.tracks with
    | none => rfl
    | some i =>
      have tracks : x.tracks.modify i (fun t => if t.acceptsPlugIns = true ∧ t.locked = false then
          { t with chain := [.effect e] } else t) = x.tracks.modify i id :=
        modify_congr fun t track => by
          have locked := landed.locked t (List.mem_of_getElem? track)
          rw [if_neg (by simp [locked])]
          rfl
      exact congrArg (fun ts => { x with tracks := ts }) (tracks.trans (List.modify_id ..))

theorem Rig.landing_phase (r : Rig) (x : Processor) :
    r.landing x = .realized ∨ r.landing x = .started := by
  unfold landing
  split
  · exact .inr rfl
  · exact .inl rfl

theorem Processor.Landed.free (landed : x.Landed) : x.Free := by
  intro i place
  obtain ⟨⟨t, track, -, -, unlocked⟩, -⟩ := effectPlace_eq_some.mp place
  cases (landed.locked t (List.mem_of_getElem? track)).symm.trans unlocked

theorem Processor.taken_landed (internal : x.isExternal = false) (e : Option EffectId) {a : Phase}
    (phase : a = .realized ∨ a = .started) : (x.taken e a).Landed where
  internal := (x.equip_rest e).2.2.trans internal
  phase := phase
  locked t member := by
    obtain ⟨u, -, rfl⟩ := List.mem_map.mp member
    rfl

theorem Processor.taken_phase {a b : Phase} (e : Option EffectId) :
    ({ x with phase := b } : Processor).taken e a = x.taken e a := by
  cases e with
  | none => rfl
  | some e => exact Processor.brought_phase

theorem Session.effectFor_there (equipped : ∀ e ∈ y.effects, e < n) :
    ∀ e ∈ y.effectFor z, e < n := by
  intro e effect
  apply equipped
  cases z with
  | watcher => cases effect
  | capture =>
    obtain rfl : y.localEffect = e := Option.some.inj effect
    exact List.mem_cons_self
  | stream s k =>
    obtain ⟨st, present, rfl⟩ := Option.map_eq_some_iff.mp effect
    exact Session.mem_effects.mpr (.inr ⟨(k, st), mem_of_stream? present, rfl⟩)

/-- Whoever acts on a configured processor is a session in use. -/
theorem Rig.of_drives_configured (drives : r.drives .configured z = true) :
    ∃ s y, z.session? = some s ∧ r.sessions[s]? = some y ∧ 0 < y.users := by
  have acts := (Bool.and_eq_true_iff.mp drives).2
  obtain ⟨s, of, known⟩ := (Option.any_eq_true ..).mp acts
  obtain ⟨y, known, used⟩ := (Option.any_eq_true ..).mp known
  exact ⟨s, y, of, known, of_decide_eq_true (Bool.and_eq_true_iff.mp used).1⟩

/-- A session in use acts on every processor of its own that has configured. -/
theorem Rig.drives_configured {s : SessionId} (of : z.session? = some s)
    (known : r.sessions[s]? = some y) (used : 0 < y.users) : r.drives .configured z = true := by
  cases z with
  | watcher => cases of
  | capture | stream =>
    obtain rfl := Option.some.inj of
    simp [drives, Subscriber.drivenBy, Subscriber.session?, known, used]

theorem Rig.landing_modifySession {s : SessionId} (known : r.sessions[s]? = some y)
    {f : Session → Session} (users : 0 < (f y).users ↔ 0 < y.users)
    (config : (f y).config = y.config) : (r.modifySession s f).landing x = r.landing x := by
  have same : (r.modifySession s f).drives .realized = r.drives .realized :=
    funext fun z => drives_modifySession known users config
  rw [landing, same, landing]

theorem Rig.landing_more {s : SessionId} (known : r.sessions[s]? = some y) (used : 0 < y.users) :
    (r.modifySession s Session.more).landing x = r.landing x :=
  landing_modifySession known (iff_of_true (Nat.succ_pos _) used) rfl

theorem Session.effectFor_more : y.more.effectFor z = y.effectFor z := by
  cases z with
  | watcher | capture | stream => rfl

end Equip

theorem Subscriber.hear_eq {app : Application S} {again : {β : Type} → Call β → Run S β}
    {p : ProcessorId} {z : Subscriber} {s : SessionId} (of : z.session? = some s) :
    hear app again p .configured z = whileUsed again s (z.react app again p) := by
  cases z with
  | watcher => cases of
  | capture | stream =>
    obtain rfl := Option.some.inj of
    rfl

namespace Rig.Near

variable {app : Application S} {again : {β : Type} → Call β → Run S β} {depth : Nat}
variable {w : World S} {r : Rig} {p : ProcessorId} {x : Processor}
variable {s : SessionId} {y : Session} {z : Subscriber}

theorem install (near : r.Near w.rig) (known : r.processors[p]? = some x)
    (internal : x.isExternal = false) (ready : x.phase.isConfigured = true) (free : x.Free)
    (e : EffectId) (side : Side) : Yields (install app again p e side) w fun _ w' =>
      (r.modifyProcessor p (·.equip (some e))).Near w'.rig := by
  obtain ⟨u, there, alike⟩ := near.known known
  have phase : u.phase = x.phase := (congrArg (·.phase) alike :)
  have external : u.isExternal = x.isExternal := (congrArg (·.isExternal) alike :)
  have placed : (r.modifyProcessor p (·.equip (some e))).Near
      (w.rig.modifyProcessor p (·.equip (some e))) := near.modify fun _ => Processor.equip_shut _
  refine (install_settles there (external.trans internal) (phase ▸ ready) (free.of_shut alike)
    e side).mono ?_
  intro _ w' installed
  exact installed ▸ placed

/-- A session that acts on a configured processor puts its effect in place, if it has one for it,
and has the processor realized. -/
theorem react (near : r.Near w.rig) (known : r.processors[p]? = some x)
    (internal : x.isExternal = false) (ready : x.phase.isConfigured = true) (free : x.Free)
    (of : z.session? = some s) (session : r.sessions[s]? = some y) {r' : Rig}
    (realizes : ∀ v : World S, (r.modifyProcessor p (·.equip (y.effectFor z))).Near v.rig →
      Yields (again (.realize p)) v fun a v' => a = .ok () ∧ r'.Near v'.rig) :
    Yields (z.react app again p) w fun _ w' => r'.Near w'.rig := by
  -- The two sides of a session differ in how the effect is found. Both then have the processor
  -- realized.
  have goes {v : World S} (placed : (r.modifyProcessor p (·.equip (y.effectFor z))).Near v.rig)
      {next : Except Fault Unit → Run S Unit} (ends : next (.ok ()) = pure ()) :
      Yields (again (.realize p) >>= next) v fun _ v' => r'.Near v'.rig := by
    refine (realizes v placed).bind ?_
    rintro _ v' ⟨rfl, done⟩
    rw [ends]
    exact yields_pure.mpr done
  cases z with
  | watcher => cases of
  | capture t =>
    obtain rfl : t = s := Option.some.inj of
    apply Yields.session (near.session session)
    refine (near.install known internal ready free y.localEffect .capture).bind ?_
    intro _ v placed
    exact goes placed rfl
  | stream t k =>
    obtain rfl : t = s := Option.some.inj of
    have prepared : Yields (streamConfigured app again t k p) w fun _ v =>
        (r.modifyProcessor p (·.equip (y.effectFor (.stream t k)))).Near v.rig := by
      apply Yields.session (near.session session)
      cases present : y.stream? k with
      | some st =>
        have effect : y.effectFor (.stream t k) = some st.effect := by
          simp [Session.effectFor, present]
        rw [effect]
        refine (near.install known internal ready free st.effect .stream).bind ?_
        intro _ v placed
        exact yields_pure.mpr placed
      | none =>
        have effect : y.effectFor (.stream t k) = none := by
          simp [Session.effectFor, present]
        have same : r.modifyProcessor p (·.equip none) = r := Rig.modifyProcessor_id
        rw [effect, same]
        exact near.sessionNotice session _
    refine prepared.bind ?_
    intro _ v placed
    exact goes placed rfl

/-- A processor that has realized is left as it is. -/
theorem realize_landed (near : r.Near w.rig) (known : r.processors[p]? = some x)
    (landed : x.Landed) : Yields (Metering.realize app again p) w fun a w' =>
      a = .ok () ∧ r.Near w'.rig := by
  obtain ⟨u, there, phase, -, external⟩ := near.meets known
  apply Yields.processor there
  simp only [external, landed.internal, Bool.false_eq_true, if_false, phase]
  obtain realized | started := landed.phase
  · simp only [realized]
    exact yields_pure.mpr ⟨rfl, near⟩
  · simp only [started]
    exact yields_pure.mpr ⟨rfl, near⟩

/-- Sessions that hear of a configured processor after it has realized change nothing. -/
theorem each_landed (silent : app.Silences) (near : r.Near w.rig)
    (known : r.processors[p]? = some x) (landed : x.Landed) {zs : List Subscriber}
    (attended : r.Attends zs) :
    Yields (Run.each (deliver app (perform app (depth + 1)) p .configured) zs) w fun _ w' =>
      r.Near w'.rig := by
  have hears (z : Subscriber) (member : z ∈ zs) (v : World S) (near : r.Near v.rig) :
      Yields (hear app (perform app (depth + 1)) p .configured z) v fun _ v' =>
        r.Near v'.rig := by
    cases drives : r.drives .configured z with
    | false => exact near.hear_still silent (attended z member) drives
    | true =>
      obtain ⟨s, y, of, session, used⟩ := Rig.of_drives_configured drives
      rw [Subscriber.hear_eq of]
      apply near.whileUsed session used rfl
      intro v inUse
      refine inUse.react known landed.internal landed.ready landed.free of
        (Rig.modifySession_known session) ?_
      intro v' placed
      rw [Rig.modifyProcessor_of_fixed (r := r.modifySession s Session.more) known
        (landed.equip _)] at placed
      exact placed.realize_landed known landed
  refine Yields.each (P := fun v => r.Near v.rig) ?_ near
  intro z member v near
  exact Yields.record (hears z member (v.record (.told z p .configured)) near)

section Fits

variable {m : Manner} (conforms : app.Conforms m)
include conforms

/-- A processor that fits is realized with any effect in place. -/
theorem realize_equipped {e : Option EffectId}
    (placed : (r.modifyProcessor p (·.equip e)).Near w.rig) (known : r.processors[p]? = some x)
    (internal : x.isExternal = false) (configured : x.phase = .configured) (free : x.held = [])
    (fits : m.Fits r.effects.length x) (attended : r.Attends x.subscribers)
    (there : ∀ i ∈ e, i < r.effects.length) :
    Yields (perform app (depth + 3) (.realize p)) w fun a w' => a = .ok () ∧
      (r.modifyProcessor p (·.taken e (r.landing x))).Near w'.rig := by
  obtain ⟨phase, subscribers, external⟩ := x.equip_rest e
  have realizes : Yields (perform app (depth + 3) (.realize p)) w fun a w' => a = .ok () ∧
      ((r.modifyProcessor p (·.equip e)).modifyProcessor p fun z =>
        { z.lock with phase := r.landing (x.equip e) }).Near w'.rig :=
    realize conforms placed (Rig.modifyProcessor_known known _) (external.trans internal)
      (phase.trans configured) ((x.equip_held e).trans free) (fits.equip there)
      (subscribers ▸ attended)
  have lands : r.landing (x.equip e) = r.landing x := by
    unfold Rig.landing
    rw [subscribers]
  rwa [lands, Rig.modifyProcessor_comp] at realizes

/-- A session that acts on a configured processor that fits has it realized. -/
theorem react_first (near : r.Near w.rig) (known : r.processors[p]? = some x)
    (internal : x.isExternal = false) (configured : x.phase = .configured) (free : x.held = [])
    (fits : m.Fits r.effects.length x) (attended : r.Attends x.subscribers)
    (of : z.session? = some s) (session : r.sessions[s]? = some y)
    (there : ∀ e ∈ y.effects, e < r.effects.length) :
    Yields (z.react app (perform app (depth + 3)) p) w fun _ w' =>
      (r.modifyProcessor p (·.taken (y.effectFor z) (r.landing x))).Near w'.rig := by
  refine near.react known internal (Processor.ready_of configured) (.of_held free) of session ?_
  intro v placed
  exact placed.realize_equipped conforms known internal configured free fits attended
    (Session.effectFor_there there)

/-- The first session that acts when a processor that fits tells that it is configured. -/
theorem hear_first (near : r.Near w.rig) (known : r.processors[p]? = some x)
    (internal : x.isExternal = false) (configured : x.phase = .configured) (free : x.held = [])
    (fits : m.Fits r.effects.length x) (attended : r.Attends x.subscribers)
    (equipped : r.Equipped) (drives : r.drives .configured z = true) :
    Yields (hear app (perform app (depth + 3)) p .configured z) w fun _ w' =>
      ∃ e, (r.modifyProcessor p (·.taken e (r.landing x))).Near w'.rig := by
  obtain ⟨s, y, of, session, used⟩ := Rig.of_drives_configured drives
  rw [Subscriber.hear_eq of]
  have kept : (r.modifyProcessor p (·.taken (y.effectFor z) (r.landing x))).sessions =
      r.sessions := rfl
  have hears : Yields (Metering.whileUsed (perform app (depth + 3)) s
      (z.react app (perform app (depth + 3)) p)) w fun _ w' =>
        (r.modifyProcessor p (·.taken (y.effectFor z) (r.landing x))).Near w'.rig := by
    apply near.whileUsed session used kept
    intro v inUse
    have reacts : Yields (z.react app (perform app (depth + 3)) p) v fun _ v' =>
        ((r.modifySession s Session.more).modifyProcessor p (·.taken (y.more.effectFor z)
          ((r.modifySession s Session.more).landing x))).Near v'.rig :=
      react_first conforms inUse known internal configured free fits
        (attended.modifySession s _) of (Rig.modifySession_known session) (equipped s y session)
    rwa [Rig.landing_more session used, Session.effectFor_more] at reacts
  refine hears.mono ?_
  intro _ w' taken
  exact ⟨_, taken⟩

/-- A configured processor that fits is realized when it tells so, if somebody acts on that. -/
theorem each_configured (near : r.Near w.rig) (known : r.processors[p]? = some x)
    (internal : x.isExternal = false) (configured : x.phase = .configured) (free : x.held = [])
    (fits : m.Fits r.effects.length x) (attended : r.Attends x.subscribers)
    (equipped : r.Equipped) {zs : List Subscriber} (within : zs ⊆ x.subscribers)
    (acts : ∃ z ∈ zs, r.drives .configured z = true) :
    Yields (Run.each (deliver app (perform app (depth + 3)) p .configured) zs) w fun _ w' =>
      ∃ e, (r.modifyProcessor p (·.taken e (r.landing x))).Near w'.rig := by
  -- By the subscribers left to tell. The first that acts has the processor realized, and those
  -- behind it are told of a processor that has landed.
  induction zs generalizing w with
  | nil =>
    obtain ⟨z, member, -⟩ := acts
    cases member
  | cons z zs ih =>
    have rest : zs ⊆ x.subscribers := fun z' member => within (List.mem_cons_of_mem _ member)
    have near' : r.Near (w.record (.told z p .configured)).rig := near
    cases drives : r.drives .configured z with
    | true =>
      have told : Yields (deliver app (perform app (depth + 3)) p .configured z) w fun _ w' =>
          ∃ e, (r.modifyProcessor p (·.taken e (r.landing x))).Near w'.rig :=
        Yields.record (hear_first conforms near' known internal configured free fits attended
          equipped drives)
      refine told.bind ?_
      rintro _ v ⟨e, taken⟩
      have later : Yields (Run.each (deliver app (perform app (depth + 3)) p .configured) zs) v
          fun _ w' => (r.modifyProcessor p (·.taken e (r.landing x))).Near w'.rig :=
        each_landed conforms.toSilences taken (Rig.modifyProcessor_known known _)
          (Processor.taken_landed internal e (r.landing_phase x))
          fun z member => attended z (rest member)
      refine later.mono ?_
      intro _ w' taken
      exact ⟨e, taken⟩
    | false =>
      have told : Yields (deliver app (perform app (depth + 3)) p .configured z) w fun _ w' =>
          r.Near w'.rig :=
        Yields.record (hear_still conforms.toSilences near'
          (attended z (within List.mem_cons_self)) drives)
      refine told.bind ?_
      intro _ v near
      apply ih near rest
      obtain ⟨z', member, acts⟩ := acts
      obtain rfl | member := List.mem_cons.mp member
      · cases drives.symm.trans acts
      · exact ⟨z', member, acts⟩

/-- A processor that fits is realized when it is configured, if somebody acts on that. -/
theorem configure (near : r.Near w.rig) (known : r.processors[p]? = some x)
    (internal : x.isExternal = false) (unrealized : x.phase = .unrealized) (free : x.held = [])
    (fits : m.Fits r.effects.length x) (attended : r.Attends x.subscribers)
    (equipped : r.Equipped) (acts : ∃ z ∈ x.subscribers, r.drives .configured z = true) :
    Yields (Metering.configure app (perform app (depth + 3)) p) w fun a w' => a = .ok () ∧
      ∃ e, (r.modifyProcessor p (·.taken e (r.landing x))).Near w'.rig := by
  obtain ⟨u, there, phase, -, external⟩ := near.meets known
  apply Yields.processor there
  simp only [external, internal, Bool.false_eq_true, if_false, phase, unrealized]
  refine (near.moveTo known .configuring).bind ?_
  intro _ v moved
  apply yields_bind.mpr
  apply yields_notice.mpr
  refine Yields.bind (moveTo (w := v.record _) moved
    (Rig.modifyProcessor_known known _) .configured) ?_
  intro _ v moved
  simp only [Rig.setPhase, Rig.modifyProcessor_comp] at moved
  have configured := Rig.modifyProcessor_known known fun x => { x with phase := .configured }
  have tells : Yields (Metering.emit app (perform app (depth + 3)) p .configured) v fun _ w' =>
      ∃ e, (r.modifyProcessor p (·.taken e (r.landing x))).Near w'.rig := by
    apply moved.emit configured
    intro v near
    refine (each_configured conforms near configured internal rfl free
      ⟨fits.agrees, fits.opens⟩ attended equipped (List.Subset.refl _) acts).mono ?_
    rintro _ w' ⟨e, taken⟩
    rw [Rig.modifyProcessor_comp] at taken
    simp only [Processor.taken_phase] at taken
    exact ⟨e, taken⟩
  refine tells.bind ?_
  intro _ w' taken
  exact yields_pure.mpr ⟨rfl, taken⟩

/-- A processor that fits, configured or not begun, is realized when a session in use takes it
in. -/
theorem takeIn (near : r.Near w.rig) (known : r.processors[p]? = some x)
    (internal : x.isExternal = false) (early : x.phase = .unrealized ∨ x.phase = .configured)
    (free : x.held = []) (fits : m.Fits r.effects.length x) (attended : r.Attends x.subscribers)
    (equipped : r.Equipped) (of : z.session? = some s) (session : r.sessions[s]? = some y)
    (used : 0 < y.users) (failed : Fault → SessionNotice) (undo : Session → Session) :
    Yields (takeIn app (perform app (depth + 3)) s p z (z.react app (perform app (depth + 3)) p)
      failed undo) w fun a w' => a = .ok () ∧ ∃ e, (r.modifyProcessor p fun x' =>
        (x'.joined z).taken e (r.landing (x.joined z))).Near w'.rig := by
  obtain ⟨u, there, -⟩ := near.known known
  refine Yields.bind (P := fun _ v => v = w.subscribe p z) ⟨(), _, subscribe_eq there z, rfl⟩ ?_
  rintro _ _ rfl
  have joined : (r.modifyProcessor p (·.joined z)).Near (w.subscribe p z).rig :=
    near.modify fun _ => rfl
  have known' := Rig.modifyProcessor_known known (·.joined z)
  have attended' : r.Attends (x.joined z).subscribers := attended.append of session
  -- A processor that is not begun is configured, and tells its subscribers of it. To one that is
  -- configured the session reacts itself.
  have begins : Yields (beginConfiguration app (perform app (depth + 3)) p
      (z.react app (perform app (depth + 3)) p)) (w.subscribe p z) fun a w' => a = .ok () ∧
        ∃ e, ((r.modifyProcessor p (·.joined z)).modifyProcessor p
          (·.taken e (r.landing (x.joined z)))).Near w'.rig := by
    obtain ⟨u, there, phase, -, -⟩ := joined.meets known'
    apply Yields.processor there
    obtain unrealized | configured := early
    · have begun : u.phase = .unrealized := phase.trans unrealized
      simp only [begun]
      have acts : ∃ z' ∈ (x.joined z).subscribers, r.drives .configured z' = true :=
        ⟨z, List.mem_append_right _ List.mem_cons_self, Rig.drives_configured of session used⟩
      exact configure conforms joined known' internal unrealized free
        ⟨fits.agrees, fits.opens⟩ attended' equipped acts
    · have begun : u.phase = .configured := phase.trans configured
      simp only [begun]
      refine (react_first conforms joined known' internal configured free
        ⟨fits.agrees, fits.opens⟩ attended' of session (equipped s y session)).bind ?_
      intro _ v taken
      exact yields_pure.mpr ⟨rfl, _, taken⟩
  refine begins.bind ?_
  rintro _ v ⟨rfl, e, taken⟩
  rw [Rig.modifyProcessor_comp] at taken
  exact yields_pure.mpr ⟨rfl, e, taken⟩

end Fits

end Rig.Near

end Metering
