import Metering.Proofs.Entering
import Metering.Proofs.Mirroring
import Metering.Proofs.Routes
/-!
Operations in the mirror. If the application does not call back, each operation of a processor and
of a session leads from worlds that mirror each other to such worlds, with the same answer.
-/

namespace Metering

variable {S : Type}

/-- All calls that the program makes are of a kind, and it does not look at the rig. -/
def Program.Makes {α : Type} (kind : Deed → Prop) : Program S α → Prop
  | .done _ => True
  | .update _ next => ∀ b, (next b).Makes kind
  | .look _ _ => False
  | .note _ next => next.Makes kind
  | .call c next => kind c.deed ∧ ∀ b, (next b).Makes kind

def Call.rename (f : SessionId → SessionId) : {β : Type} → Call β → Call β
  | _, .setLocalListener s l => .setLocalListener (f s) l
  | _, .setStreamListener s l => .setStreamListener (f s) l
  | _, .connectCapture s p => .connectCapture (f s) p
  | _, .captureUpdate s p e => .captureUpdate (f s) p e
  | _, .addStream s k p => .addStream (f s) k p
  | _, .removeStream s k => .removeStream (f s) k
  | _, .streamConfigured s k p => .streamConfigured (f s) k p
  | _, .startSession s => .startSession (f s)
  | _, .stopSession s => .stopSession (f s)
  | _, .closeSession s => .closeSession (f s)
  | _, .releaseSession s => .releaseSession (f s)
  | _, c => c

def Program.rename {α : Type} (f : SessionId → SessionId) : Program S α → Program S α
  | .done a => .done a
  | .update g next => .update g fun b => (next b).rename f
  | .look g next => .look g fun b => (next b).rename f
  | .note text next => .note text (next.rename f)
  | .call c next => .call (c.rename f) fun b => (next b).rename f

/-- A frame is sent through a processor that is looked at, a processor is driven, or the one in use
by a session. -/
def Deed.Plays (sees drives : ProcessorId → Prop) (live : SessionId → Prop) : Deed → Prop
  | .process q _ _ => sees q
  | .configure q | .realize q | .start q | .stop q | .close q => drives q
  | .startSession s | .stopSession s => live s
  | _ => False

theorem Call.rename_id {β : Type} (c : Call β) : c.rename id = c := by
  cases c <;> rfl

theorem Program.rename_id {α : Type} (p : Program S α) : p.rename id = p := by
  induction p with
  | done => rfl
  | update g next ih | look g next ih => simp [rename, ih]
  | note text next ih => simp [rename, ih]
  | call c next ih => simp [rename, ih, Call.rename_id]

/-- Neither plug-ins nor listeners nor watchers call back. -/
structure Application.Quiet (app : Application S) : Prop extends app.QuietAtWork where
  event : ∀ x p e, (app.event x p e).Quiet

theorem Application.silent_quiet (S : Type) : (Application.silent S).Quiet where
  offer _ _ := trivial
  opens _ := trivial
  close _ := trivial
  transform _ _ _ := trivial
  level _ _ := trivial
  event _ _ _ := trivial

namespace Mirror

variable {m : Mirror} {app : Application S} {again : {β : Type} → Call β → Run S β}
variable {q : ProcessorId} {s : SessionId}

theorem Within.tail {x : PlugIn} {chain : List PlugIn} (h : m.Within (x :: chain)) :
    m.Within chain := fun e member => h e (List.mem_cons_of_mem _ member)

theorem Within.head {x : PlugIn} {chain : List PlugIn} (h : m.Within (x :: chain)) :
    m.Within [x] := fun e member => h e (List.mem_singleton.mp member ▸ List.mem_cons_self)

namespace Echo

section PlugIns

variable (quiet : app.QuietPlugIns)
include quiet

theorem offer {x : PlugIn} (within : m.Within [x]) (f : Format) :
    m.Echo (Chain.offer app again x f) (Chain.offer app again (m.plugIn x) f) := by
  cases x with
  | effect e =>
    have here : m.effects e := within e List.mem_cons_self
    intro n u v h
    refine h.effect here fun x y _ _ similar => ?_
    unfold LevelEffect.offer
    by_cases audio : f.isAudio = true
    · simp only [audio, if_true]
      exact ⟨rfl, h.become here (m.offered _ similar)⟩
    · simp only [audio, Bool.false_eq_true, if_false]
      exact ⟨rfl, h.become here similar⟩
  | codec c name =>
    exact (record (.inl rfl)).bind fun _ => Echo.quiet (quiet.offer c f)

theorem negotiate {chain : List PlugIn} (within : m.Within chain) (f : Format) :
    m.Echo (Chain.negotiate app again chain f)
      (Chain.negotiate app again (chain.map m.plugIn) f) := by
  induction chain generalizing f with
  | nil => exact pure _
  | cons x xs ih =>
    refine (offer quiet within.head f).bind fun r => ?_
    cases r with
    | some g => exact (record (.inr ⟨rfl, rfl⟩)).bind fun _ => ih within.tail g
    | none =>
      rw [plugIn_name]
      exact pure _

theorem openPlugIn (x : PlugIn) :
    m.Echo (Chain.openPlugIn app again x) (Chain.openPlugIn app again (m.plugIn x)) := by
  have succeeds (x y : PlugIn) : m.Echo
      (do Run.record (.opened x); return .ok () : Run S (Except Fault Unit))
      (do Run.record (.opened y); return .ok ()) :=
    (record (.inr ⟨rfl, rfl⟩)).bind fun _ => pure _
  cases x with
  | effect e => exact succeeds _ _
  | codec c name =>
    refine (record (.inl rfl)).bind fun _ => (Echo.quiet (quiet.opens c)).bind fun r => ?_
    cases r with
    | ok => exact succeeds _ _
    | error f => exact pure _

theorem closePlugIn (x : PlugIn) :
    m.Echo (Chain.closePlugIn app again x) (Chain.closePlugIn app again (m.plugIn x)) := by
  have closed (x y : PlugIn) : m.Echo (Run.record (.closed x) : Run S Unit)
      (Run.record (.closed y)) := record (.inr ⟨rfl, rfl⟩)
  cases x with
  | effect e => exact closed _ _
  | codec c name =>
    exact (record (.inl rfl)).bind fun _ => (Echo.quiet (quiet.close c)).bind fun _ => closed _ _

theorem closeAll (chain : List PlugIn) :
    m.Echo (Chain.closeAll app again chain) (Chain.closeAll app again (chain.map m.plugIn)) :=
  each fun x _ => closePlugIn quiet x

theorem openAll (before chain : List PlugIn) : m.Echo (Chain.openAll app again before chain)
    (Chain.openAll app again (before.map m.plugIn) (chain.map m.plugIn)) := by
  induction chain generalizing before with
  | nil => exact pure _
  | cons x xs ih =>
    refine (openPlugIn quiet x).bind fun r => ?_
    cases r with
    | ok => simpa using ih (before ++ [x])
    | error f => exact (notice _ _).bind fun _ => (closeAll quiet before).bind fun _ => pure _

variable (sees : m.sees q)
include sees

theorem negotiateTracks (is : List Nat) :
    m.Echo (negotiateTracks app again q is) (negotiateTracks app again q is) := by
  induction is with
  | nil => exact pure _
  | cons i is ih =>
    refine track sees i ih fun t within => ?_
    refine (holding sees i (negotiate quiet within t.format)).bind fun r => ?_
    cases r with
    | ok => exact ih
    | error f => exact pure _

omit quiet sees in
theorem setOpen (i : Nat) (isOpen : Bool) :
    m.Echo (Run.modifyTrack q i fun t => { t with isOpen } : Run S Unit)
      (Run.modifyTrack q i fun t => { t with isOpen }) :=
  modifyTrack (fun _ => rfl) fun _ => id

theorem openTrack (i : Nat) : m.Echo (openTrack app again q i) (openTrack app again q i) := by
  refine track sees i (pure _) fun t _ =>
    (holding sees i (openAll quiet [] t.chain)).bind fun r => ?_
  cases r with
  | ok => exact (setOpen i true).bind fun _ => pure _
  | error f => exact pure _

theorem closeTrack (i : Nat) : m.Echo (closeTrack app again q i) (closeTrack app again q i) := by
  refine track sees i (pure _) fun t _ => ?_
  change m.Echo (if t.isOpen = true then _ else _) (if t.isOpen = true then _ else _)
  split
  · exact (setOpen i false).bind fun _ => holding sees i (closeAll quiet t.chain)
  · exact pure _

theorem closeTracks (is : List Nat) : m.Echo (Run.each (Metering.closeTrack app again q) is)
    (Run.each (Metering.closeTrack app again q) is) := by
  have closes : m.Echo (Run.each (Metering.closeTrack app again q) is)
      (Run.each (Metering.closeTrack app again q) (is.map id)) :=
    each fun i _ => closeTrack quiet sees i
  rwa [List.map_id] at closes

theorem openTracks (before is : List Nat) :
    m.Echo (openTracks app again q before is) (openTracks app again q before is) := by
  induction is generalizing before with
  | nil => exact pure _
  | cons i is ih =>
    refine (openTrack quiet sees i).bind fun r => ?_
    cases r with
    | ok => exact ih _
    | error f => exact (closeTracks quiet sees before).bind fun _ => pure _

theorem prepare : m.Echo (prepare app again q) (prepare app again q) := by
  refine processor sees fun x _ => ?_
  rw [image_enabledTracks]
  refine (negotiateTracks quiet sees _).bind fun r => ?_
  cases r with
  | ok => exact openTracks quiet sees [] _
  | error f => exact pure _

end PlugIns

section Installing

variable (drives : m.drives q)
include drives

theorem setChain {e : EffectId} (here : m.effects e) (i : Nat) :
    m.Echo (setChain q i [.effect e] : Run S _) (setChain q i [.effect (m.effect e)]) := by
  refine track (m.drives_sees drives) i (pure _) fun t _ => ?_
  have sets (t t' : Track) (image : m.track t = t') (within : m.Within t.chain) :
      m.Echo (Run.modifyTrack q i fun _ => t : Run S Unit) (Run.modifyTrack q i fun _ => t') :=
    modifyTrack (fun _ => image) fun _ _ => within
  simp only [Track.setChain, Mirror.track]
  by_cases accepts : t.acceptsPlugIns = true
  · by_cases locked : t.locked = true
    · simp only [accepts, locked, Bool.not_true, Bool.false_eq_true, if_false, if_true]
      exact pure _
    · simp only [accepts, locked, Bool.not_true, Bool.false_eq_true, if_false]
      refine (awaitChain (m.drives_sees drives) i).bind fun _ => ?_
      refine (sets _ _ rfl ?_).bind fun _ => pure _
      intro a member
      obtain rfl : a = e := by simpa using member
      exact here
  · simp only [accepts, Bool.not_false, if_true]
    exact pure _

/-- A processor shows its tracks, or refuses to in both worlds. -/
theorem trackControls {α : Type} {f g : Except Fault (List Track) → Run S α}
    (refused : ∀ fault, m.Echo (f (.error fault)) (g (.error fault)))
    (shown : ∀ tracks, m.Echo (f (.ok tracks)) (g (.ok (tracks.map m.track)))) :
    m.Echo (trackControls app again q >>= f) (trackControls app again q >>= g) := by
  simp only [Metering.trackControls, bind_assoc]
  refine look drives fun x _ internal => ?_
  have internal' : (m.image x).isExternal = false := internal
  have phase : (m.image x).phase = x.phase := rfl
  simp only [internal, internal', phase, Bool.false_eq_true, if_false]
  split
  · simp only [pure_bind]
    exact shown x.tracks
  · simp only [pure_bind]
    exact refused _

theorem install {e : EffectId} (here : m.effects e) (side : Side) :
    m.Echo (install app again q e side) (install app again q (m.effect e) side) := by
  have ends {a b : Notice} (answer : Option Nat) : m.Echo
      (do Run.notice a; return answer : Run S (Option Nat)) (do Run.notice b; return answer) :=
    (notice a b).bind fun _ => pure _
  refine trackControls drives (fun fault => ends _) fun tracks => ?_
  simp only [image_firstAudio]
  split
  · exact ends _
  · refine (setChain drives here _).bind fun r => ?_
    cases r with
    | ok => exact ends _
    | error f => exact ends _

end Installing

theorem sessionNotice (here : m.sessions s) (a b : SessionNotice) :
    m.Echo (sessionNotice s a : Run S Unit) (sessionNotice (m.session s) b) :=
  session here fun _ _ _ => notice _ _

end Echo

/-- Whoever gives up one user of a session leaves it to the others. -/
def Releases (m : Mirror) (again : {β : Type} → Call β → Run S β) : Prop :=
  ∀ t, m.sessions t → ∀ n u v, m.Reflects (Comparison.another n t) u v →
    Alike (m.Reflects n) (again (.releaseSession t) u) (again (.releaseSession (m.session t)) v)

section Users

variable {n : SessionId → Nat} {u v : World S} {t : SessionId} {i : Nat} {x y : Session}

/-- A session that is in use gets one more user in both worlds. -/
theorem Reflects.use (h : m.Reflects n u v) (here : m.sessions t)
    (used : ∀ x y, u.rig.sessions[t]? = some x → v.rig.sessions[m.session t]? = some y →
      m.Twins t (n t) x y → n t < x.users ∧ n t < y.users) :
    m.Reflects (Comparison.another n t) (u.arrange t fun x => { x with users := x.users + 1 })
      (v.arrange (m.session t) fun x => { x with users := x.users + 1 }) := by
  refine h.modifySession here (fun x y known known' twins => ?_) fun r other => by
    simp [Comparison.another, other]
  have used := used x y known known' twins
  refine ⟨m.uses (· + 1) twins.twin, .inr ?_⟩
  simp only [Comparison.another, if_true]
  omega

/-- A session that does not end is in use. -/
theorem Twins.used (h : m.Twins t i x y) (live : m.live t) : i < x.users ∧ i < y.users := by
  obtain ⟨apart, -⟩ | used := h.users
  · exact (apart live).elim
  · exact used

theorem Reflects.release (h : m.Reflects (Comparison.another n t) u v) (here : m.sessions t) :
    Alike (m.Reflects n) (releaseSession app again t u)
      (releaseSession app again (m.session t) v) := by
  refine h.session here fun x y known known' twins => ?_
  have users := twins.users
  simp only [Comparison.another, if_true] at users
  dsimp only
  -- In neither world is this the last user, so the session goes on in both.
  rw [if_neg (by omega), if_neg (by omega)]
  refine ⟨rfl, h.modifySession here (fun a b there there' twins => ?_) fun r other => by
    simp [Comparison.another, other]⟩
  obtain rfl := Option.some.inj (known.symm.trans there)
  obtain rfl := Option.some.inj (known'.symm.trans there')
  refine ⟨m.uses (· - 1) twins.twin, ?_⟩
  dsimp only
  obtain ⟨apart, none⟩ | some := users
  · exact .inl ⟨apart, by omega⟩
  · exact .inr (by omega)

theorem releases (depth : Nat) : m.Releases (perform app depth) := by
  intro t here n u v h
  cases depth with
  | zero => trivial
  | succ depth => exact h.release here

/-- A session that both worlds use is used a little more in both. -/
theorem Echo.whileUsed (releases : m.Releases again) (here : m.sessions t) {r r' : Run S Unit}
    (echo : m.Echo r r') :
    m.Echo (whileUsed again t r) (whileUsed again (m.session t) r') := by
  intro n u v h
  refine h.session here fun x y known known' twins => ?_
  dsimp only
  obtain ⟨-, none, none'⟩ | used := twins.users
  · rw [if_neg (by omega), if_neg (by omega)]
    exact ⟨rfl, h⟩
  · rw [if_pos (by omega), if_pos (by omega)]
    have begun := h.use here fun a b there there' _ => by
      rwa [← Option.some.inj (known.symm.trans there), ← Option.some.inj (known'.symm.trans there')]
    refine Alike.bind ⟨rfl, begun⟩ fun _ _ _ h => ?_
    exact (echo _ _ _ h).bind fun _ _ _ h => releases t here n _ _ h

/-- An operation of a session that does not end. -/
theorem Echo.duringUse {α : Type} (here : m.sessions t) (live : m.live t) {r r' : Run S α}
    (echo : m.Echo r r') :
    m.Echo (duringUse app again t r) (duringUse app again (m.session t) r') := by
  intro n u v h
  have begun := h.use here fun _ _ _ _ twins => twins.used live
  refine Alike.bind (T := m.Reflects (Comparison.another n t)) ⟨rfl, begun⟩ fun _ _ _ h => ?_
  exact (echo _ _ _ h).bind fun a _ _ h => (h.release here).bind fun _ _ _ h => ⟨rfl, h⟩

end Users

/-- The answers to what sessions ask for on the way. -/
structure Echoes (S : Type) (m : Mirror) (again : {β : Type} → Call β → Run S β) : Prop where
  releases : m.Releases again
  realize : ∀ q, m.drives q → m.Echo (again (.realize q)) (again (.realize q))
  start : ∀ q, m.drives q → m.Echo (again (.start q)) (again (.start q))

namespace Echo

/-- A session realizes or starts a processor, and writes it down when that fails. -/
theorem attempt (here : m.sessions s) {r r' : Run S (Except Fault Unit)} (echo : m.Echo r r')
    (failed : Fault → SessionNotice) : m.Echo (do
        match ← r with
        | .ok () => Pure.pure ()
        | .error f => Metering.sessionNotice s (failed f)) (do
        match ← r' with
        | .ok () => Pure.pure ()
        | .error f => Metering.sessionNotice (m.session s) (failed f)) := by
  refine echo.bind fun r => ?_
  cases r with
  | ok => exact pure _
  | error f => exact sessionNotice here _ _

/-- A processor of the rig is asked for something, and what it does hangs on its phase. -/
theorem transition (drives : m.drives q) {f g : Processor → Run S (Except Fault Unit)} (r : Request)
    (does : ∀ x, m.Covers x → m.Echo (f x) (g (m.image x))) : m.Echo (do
        let x ← Run.processor q
        if x.isExternal then ask app again q r else f x) (do
        let x ← Run.processor q
        if x.isExternal then ask app again q r else g x) := by
  refine look drives fun x covers internal => ?_
  have internal' : (m.image x).isExternal = false := internal
  simp only [internal, internal', Bool.false_eq_true, if_false]
  exact does x covers

theorem lockTracks : m.Echo (lockTracks q : Run S Unit) (lockTracks q) := by
  refine modifyProcessor (fun x => ?_) (fun x covers => ⟨fun t member => ?_, covers.subscribers⟩)
    fun _ => rfl
  · simp only [image, List.map_map]
    rfl
  · obtain ⟨t', before, rfl⟩ := List.mem_map.mp member
    exact covers.chains t' before

section Events

variable (echoes : m.Echoes S again) (drives : m.drives q)
include echoes drives

theorem captureUpdate (here : m.sessions s) (e : Event) :
    m.Echo (captureUpdate app again s q e) (captureUpdate app again (m.session s) q e) := by
  refine session here fun x y twin => ?_
  cases e with
  | configured =>
    obtain ⟨inside, same⟩ := m.localEffect twin
    rw [same]
    exact (install drives inside .capture).bind fun _ =>
      attempt here (echoes.realize q drives) _
  | realized | started | stopped | closed | failed => exact sessionNotice here _ _

theorem streamUpdate (here : m.sessions s) (k : Ssrc) (e : Event) :
    m.Echo (streamUpdate app again s k q e) (streamUpdate app again (m.session s) k q e) := by
  cases e with
  | configured =>
    have installed : m.Echo (streamConfigured app again s k q)
        (streamConfigured app again (m.session s) k q) := by
      refine session here fun x y twin => ?_
      obtain ⟨same, inside⟩ := m.stream? twin k
      rw [same]
      cases found : x.stream? k with
      | none => exact sessionNotice here _ _
      | some st => exact (install drives (inside st found) .stream).bind fun _ => pure _
    exact installed.bind fun _ => attempt here (echoes.realize q drives) _
  | realized =>
    refine session here fun x y twin => ?_
    rw [m.config twin]
    split
    · exact attempt here (echoes.start q drives) _
    · exact pure _
  | started | stopped | closed | failed => exact sessionNotice here _ _

variable (quiet : app.Quiet)
include quiet

theorem hear (e : Event) {z : Subscriber} (knows : m.Knows z) :
    m.Echo (hear app again q e z) (hear app again q e (m.subscriber z)) := by
  cases z with
  | watcher w => exact Echo.quiet (quiet.event w q e)
  | capture s => exact whileUsed echoes.releases knows (captureUpdate echoes drives knows e)
  | stream s k => exact whileUsed echoes.releases knows (streamUpdate echoes drives knows k e)

theorem emit (e : Event) : m.Echo (emit app again q e) (emit app again q e) := by
  refine (record (.inl rfl)).bind fun _ => processor (m.drives_sees drives) fun x covers => ?_
  refine each fun z member => ?_
  refine bind ?_ fun _ => hear echoes drives quiet e (covers.subscribers z member)
  cases z with
  | watcher w => exact record (.inl rfl)
  | capture | stream => exact record (.inr ⟨rfl, rfl⟩)

theorem settle {α : Type} (phase : Phase) (e : Event) (a : α) : m.Echo
    (do Run.moveTo q phase; Metering.emit app again q e; return a)
    (do Run.moveTo q phase; Metering.emit app again q e; return a) :=
  (moveTo (m.drives_sees drives) phase).bind fun _ =>
    (emit echoes drives quiet e).bind fun _ => pure a

theorem configure : m.Echo (configure app again q) (configure app again q) := by
  refine transition drives .configure fun x _ => ?_
  rw [image_phase]
  have sees := m.drives_sees drives
  split
  · exact (moveTo sees _).bind fun _ => (notice _ _).bind fun _ =>
      settle echoes drives quiet .configured .configured _
  · exact pure _
  · exact pure _

theorem start : m.Echo (start app again q) (start app again q) := by
  refine transition drives .start fun x _ => ?_
  rw [image_phase]
  split
  · exact settle echoes drives quiet .started .started _
  · exact pure _
  · exact pure _

theorem stop : m.Echo (stop app again q) (stop app again q) := by
  refine transition drives .stop fun x _ => ?_
  rw [image_phase]
  split
  · exact settle echoes drives quiet .realized .stopped _
  · exact pure _
  · exact pure _

theorem failRealize (f : Fault) :
    m.Echo (failRealize app again q f) (failRealize app again q f) :=
  processor (m.drives_sees drives) fun _ _ => (notice _ _).bind fun _ =>
    settle echoes drives quiet .configured _ _

theorem realize : m.Echo (realize app again q) (realize app again q) := by
  have sees := m.drives_sees drives
  refine transition drives .realize fun x _ => ?_
  rw [image_phase]
  split
  · refine (moveTo sees _).bind fun _ => (prepare quiet.toQuietPlugIns sees).bind fun r => ?_
    cases r with
    | error f => exact failRealize echoes drives quiet f
    | ok =>
      refine processor sees fun y _ => (record (.inr ⟨rfl, rfl⟩)).bind fun _ => ?_
      refine bind lockTracks fun _ => (notice _ _).bind fun _ => ?_
      exact settle echoes drives quiet .realized .realized _
  · exact pure _
  · exact pure _
  · exact pure _

theorem close : m.Echo (close app again q) (close app again q) := by
  have sees := m.drives_sees drives
  refine look drives fun x _ internal => ?_
  have internal' : (m.image x).isExternal = false := internal
  simp only [internal, internal', Bool.false_eq_true, if_false]
  change m.Echo (if (!x.phase.isClosed) = true then _ else _)
    (if (!x.phase.isClosed) = true then _ else _)
  split
  · have length : (m.image x).tracks.length = x.tracks.length := List.length_map ..
    have ends : m.Echo (do
        Run.notice (.processor x.name .closed)
        Metering.emit app again q .closed) (do
        Run.notice (.processor x.name .closed)
        Metering.emit app again q .closed) :=
      (notice _ _).bind fun _ => emit echoes drives quiet .closed
    refine (moveTo sees _).bind fun _ => ?_
    rw [length]
    change m.Echo (if x.phase.hadRealized = true then _ else _)
      (if x.phase.hadRealized = true then _ else _)
    split
    · exact (closeTracks quiet.toQuietPlugIns sees _).bind fun _ => ends
    · exact ends
  · exact pure _

theorem beginConfiguration {r r' : Run S Unit} (echo : m.Echo r r') :
    m.Echo (beginConfiguration app again q r) (beginConfiguration app again q r') := by
  refine processor (m.drives_sees drives) fun x _ => ?_
  rw [image_phase]
  split
  · exact configure echoes drives quiet
  · exact pure _
  · exact echo.bind fun _ => pure _
  · exact pure _

end Events

end Echo

/-- Whatever the depth, sessions get the same answers in both worlds. -/
theorem echoes (quiet : app.Quiet) (depth : Nat) : m.Echoes S (perform app depth) := by
  induction depth with
  | zero => exact ⟨m.releases 0, fun _ _ => .throw _, fun _ _ => .throw _⟩
  | succ depth ih =>
    exact ⟨m.releases _, fun _ drives => .realize ih drives quiet,
      fun _ drives => .start ih drives quiet⟩

namespace Echo

theorem subscribe (drives : m.drives q) {z : Subscriber} (knows : m.Knows z) :
    m.Echo (subscribe q z : Run S Unit) (subscribe q (m.subscriber z)) := by
  refine processor (m.drives_sees drives) fun _ _ => bind ?_ fun _ => record (.inr ⟨rfl, rfl⟩)
  refine modifyProcessor (fun x => ?_) (fun x covers => ⟨covers.chains, fun y member => ?_⟩)
    fun _ => rfl
  · simp [image]
  · obtain before | last := List.mem_append.mp member
    · exact covers.subscribers y before
    · exact List.mem_singleton.mp last ▸ knows

theorem occupy (here : m.sessions s) {c : Option ProcessorId} (drives : ∀ q ∈ c, m.drives q) :
    m.Echo (Run.modifySession s fun x => { x with capture := c } : Run S Unit)
      (Run.modifySession (m.session s) fun x => { x with capture := c }) :=
  arrange here (fun _ _ => m.occupies drives) (fun _ => rfl) fun _ => rfl

/-- A session asks the processor in use for capture. -/
theorem captured (here : m.sessions s) {α : Type} {f g : Except Fault ProcessorId → Run S α}
    (absent : ∀ fault, m.Echo (f (.error fault)) (g (.error fault)))
    (present : ∀ x y r, m.twin s x y → x.capture = some r → m.Echo (f (.ok r)) (g (.ok r))) :
    m.Echo (Metering.capture s >>= f) (Metering.capture (m.session s) >>= g) := by
  simp only [Metering.capture, bind_assoc]
  refine session here fun x y twin => ?_
  rw [m.capture twin]
  cases inUse : x.capture with
  | none =>
    simp only [pure_bind]
    exact absent _
  | some r =>
    simp only [pure_bind]
    exact present x y r twin inUse

section Sessions

variable (echoes : m.Echoes S again) (quiet : app.Quiet) (here : m.sessions s)
include echoes quiet here

/-- A processor is taken in. If it is refused, the session makes that undone. -/
theorem takeIn (drives : m.drives q) {z : Subscriber} (knows : m.Knows z) {r r' : Run S Unit}
    (echo : m.Echo r r') (failed : Fault → SessionNotice) {undo undo' : Session → Session}
    (undoes : ∀ x y, m.twin s x y → m.twin s (undo x) (undo' y))
    (users : ∀ x, (undo x).users = x.users) (users' : ∀ y, (undo' y).users = y.users) :
    m.Echo (takeIn app again s q z r failed undo)
      (takeIn app again (m.session s) q (m.subscriber z) r' failed undo') := by
  refine (subscribe drives knows).bind fun _ =>
    (beginConfiguration echoes drives quiet echo).bind fun r => ?_
  cases r with
  | ok => exact pure _
  | error f =>
    exact (sessionNotice here _ _).bind fun _ => (arrange here undoes users users').bind fun _ =>
      pure _

theorem connectCapture (drives : m.drives q)
    (before : ∀ x y r, m.twin s x y → x.capture = some r → m.drives r) :
    m.Echo (connectCapture app again s q) (connectCapture app again (m.session s) q) := by
  refine session here fun x y twin => ?_
  refine (occupy here fun r same => Option.some.inj same ▸ drives).bind fun _ => ?_
  have takes : m.Echo (takeCapture app again s q) (takeCapture app again (m.session s) q) :=
    takeIn echoes quiet here drives (z := .capture s) here
      (captureUpdate echoes drives here .configured) _ (fun _ _ => m.occupies nofun) (fun _ => rfl)
      fun _ => rfl
  rw [m.capture twin]
  dsimp only
  cases inUse : x.capture with
  | none => exact takes
  | some r =>
    exact (sessionNotice here _ _).bind fun _ =>
      (close echoes (before x y r twin inUse) quiet).bind fun _ => takes

theorem startSession (inUse : ∀ x y r, m.twin s x y → x.capture = some r → m.drives r) :
    m.Echo (startSession app again s) (startSession app again (m.session s)) := by
  refine captured here (fun _ => pure _) fun x y r twin found => ?_
  refine (start echoes (inUse x y r twin found) quiet).bind fun answer => ?_
  cases answer with
  | ok => exact pure _
  | error f => exact (sessionNotice here _ _).bind fun _ => pure _

theorem stopSession (inUse : ∀ x y r, m.twin s x y → x.capture = some r → m.drives r) :
    m.Echo (stopSession app again s) (stopSession app again (m.session s)) :=
  captured here (fun _ => pure _) fun x y r twin found =>
    stop echoes (inUse x y r twin found) quiet

end Sessions

section Frames

/-- Effects that stand for each other make the same of a frame. -/
def Hears (m : Mirror) : Prop := ∀ e x y b, m.similar e x y →
  (x.observe b).1 = (y.observe b).1 ∧ m.similar e (x.observe b).2 (y.observe b).2

variable (quiet : app.QuietAtWork) (hears : Hears m)
include quiet hears

theorem observe {e : EffectId} (here : m.effects e) (b slot : Buffer) :
    m.Echo (Chain.observe app again e b slot) (Chain.observe app again (m.effect e) b slot) := by
  intro n u v h
  refine h.effect here fun x y _ _ similar => ?_
  have same := hears e x y b similar
  generalize x.observe b = seen, y.observe b = seen' at same
  obtain ⟨t, a⟩ := seen
  obtain ⟨t', a'⟩ := seen'
  obtain ⟨rfl, after⟩ : t = t' ∧ m.similar e a a' := same
  refine Alike.bind ⟨rfl, h.become here after⟩ fun _ u v h => ?_
  have pages (f g : Rig → Page) : m.Echo (Run.page f : Run S Unit) (Run.page g) :=
    fun _ _ _ h => ⟨rfl, { h with }⟩
  cases t with
  | none => exact ⟨rfl, h⟩
  | some told =>
    have tells (l : ListenerId) (level : Int) : m.Echo (do
        Run.record (.level l level)
        Run.page fun _ => .heard l level
        (app.level l level).run again
        return slot.copyFrom b) (do
        Run.record (.level l level)
        Run.page fun _ => .heard l level
        (app.level l level).run again
        return slot.copyFrom b) :=
      (record (.inl rfl)).bind fun _ => (pages _ _).bind fun _ =>
        (Echo.quiet (quiet.level l level)).bind fun _ => pure _
    exact tells told.1 told.2 n u v h

theorem send {chain : List PlugIn} (within : m.Within chain) (b : Buffer) :
    m.Echo (Chain.send app again chain b) (Chain.send app again (chain.map m.plugIn) b) := by
  induction chain generalizing b with
  | nil => exact pure _
  | cons x xs ih =>
    have passes : m.Echo (Chain.process app again x b)
        (Chain.process app again (m.plugIn x) b) := by
      cases x with
      | effect e =>
        exact (observe quiet hears (within e List.mem_cons_self) b _).bind fun _ => pure _
      | codec c name =>
        exact (record (.inl rfl)).bind fun _ => Echo.quiet (quiet.transform c b _)
    refine passes.bind fun r => ?_
    cases r with
    | error f => exact pure _
    | ok out =>
      dsimp only
      split
      · exact pure _
      · exact ih within.tail out

theorem process (sees : m.sees q) (i : Nat) (b : Buffer) :
    m.Echo (process app again q i b) (process app again q i b) := by
  refine processor sees fun x covers => ?_
  change m.Echo (if (x.phase != .started) = true then _ else _)
    (if (x.phase != .started) = true then _ else _)
  split
  · exact pure _
  · rw [image_track]
    cases known : x.tracks[i]? with
    | none => exact pure _
    | some t =>
      change m.Echo (if (!t.enabled) = true then _ else _) (if (!t.enabled) = true then _ else _)
      split
      · exact pure _
      · refine (send quiet hears (covers.chains t (List.mem_of_getElem? known)) b).bind fun r => ?_
        cases r with
        | error f => exact pure _
        | ok out =>
          refine bind (modifyProcessor (fun _ => rfl) (fun _ covers => ?_) fun _ => rfl)
            fun _ => pure _
          exact ⟨covers.chains, covers.subscribers⟩

end Frames

section Programs

variable {α β : Type} {again' : {β : Type} → Call β → Run S β}

theorem call {c c' : Call β} (echo : m.Echo (again c) (again' c')) {next next' : β → Run S α}
    (rest : ∀ b, m.Echo (next b) (next' b)) : m.Echo (do
        Run.mark
        Run.page (.did · c.deed)
        let b ← again c
        Run.mark
        next b) (do
        Run.mark
        Run.page (.did · c'.deed)
        let b ← again' c'
        Run.mark
        next' b) := by
  have marks : m.Echo (Run.mark : Run S Unit) Run.mark := fun _ _ _ h => ⟨rfl, { h with }⟩
  have pages : m.Echo (Run.page (.did · c.deed) : Run S Unit) (Run.page (.did · c'.deed)) :=
    fun _ _ _ h => ⟨rfl, { h with }⟩
  exact marks.bind fun _ => pages.bind fun _ => echo.bind fun b => marks.bind fun _ => rest b

/-- A program that makes calls of a kind comes to the same with other sessions if its calls do. -/
theorem program {kind : Deed → Prop} {p : Program S α} (makes : p.Makes kind)
    (calls : ∀ {β : Type} (c : Call β), kind c.deed →
      m.Echo (again c) (again' (c.rename m.session))) :
    m.Echo (p.run again) ((p.rename m.session).run again') := by
  induction p with
  | done a => exact pure a
  | update f next ih =>
    intro n u v h
    have step := ih _ (makes (f u.app).1) n { u with app := (f u.app).2 }
      { v with app := (f v.app).2 } { h with app := congrArg (fun s => (f s).2) h.app }
    have second : ((Program.update f next).rename m.session).run again' v =
        ((next (f u.app).1).rename m.session).run again' { v with app := (f v.app).2 } := by
      rw [h.app]
      rfl
    rw [second]
    exact step
  | look => exact makes.elim
  | note text next ih => exact (record (.inl rfl)).bind fun _ => ih makes
  | call c next ih => exact call (calls c makes.1) fun b => ih b (makes.2 b)

/-- Frames that are sent later, and processors that are driven, come to the same. -/
theorem plays (quiet : app.Quiet) (hears : Hears m)
    (inUse : ∀ t, m.live t → ∀ x y r, m.twin t x y → x.capture = some r → m.drives r) (depth : Nat)
    (c : Call β) (kind : c.deed.Plays m.sees m.drives m.live) :
    m.Echo (perform app depth c) (perform app depth (c.rename m.session)) := by
  cases depth with
  | zero => exact throw _
  | succ depth =>
    have echoes := m.echoes quiet depth
    cases c with
    | process q i b => exact process quiet.toQuietAtWork hears kind i b
    | configure q => exact configure echoes kind quiet
    | realize q => exact realize echoes kind quiet
    | start q => exact start echoes kind quiet
    | stop q => exact stop echoes kind quiet
    | close q => exact close echoes kind quiet
    | startSession t =>
      have here := m.live_sessions kind
      exact duringUse here kind (startSession echoes quiet here (inUse t kind))
    | stopSession t =>
      have here := m.live_sessions kind
      exact duringUse here kind (stopSession echoes quiet here (inUse t kind))
    | _ => exact kind.elim

end Programs

end Echo

end Mirror

end Metering
