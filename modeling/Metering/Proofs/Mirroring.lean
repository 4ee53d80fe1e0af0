import Metering.Proofs.Abreast
/-!
Runs that mirror each other. In the second run other effects and sessions stand for those of the
first, and they are alike as far as it matters. Processors that are looked at are the same but for
the names of effects and sessions. The application is called for the same things in both.
-/

namespace Metering

variable {S α β : Type}

structure Mirror where
  /-- What stands for an effect in the second run. -/
  effect : EffectId → EffectId
  /-- What stands for a session in the second run. -/
  session : SessionId → SessionId
  /-- The processors that are looked at. -/
  sees : ProcessorId → Prop
  /-- Those among them that are driven. -/
  drives : ProcessorId → Prop
  /-- The effects that stand for each other. -/
  effects : EffectId → Prop
  /-- The sessions that stand for each other. -/
  sessions : SessionId → Prop
  /-- Those among them that do not end. -/
  live : SessionId → Prop
  /-- There are no fewer effects in the first run. -/
  least : Nat
  /-- How much an effect is like the one that stands for it. -/
  similar : EffectId → LevelEffect → LevelEffect → Prop
  /-- How much a session is like the one that stands for it. -/
  twin : SessionId → Session → Session → Prop
  drives_sees : ∀ {q}, drives q → sees q
  live_sessions : ∀ {s}, live s → sessions s
  effect_inj : ∀ {a b}, effects a → effects b → effect a = effect b → a = b
  session_inj : ∀ {a b}, sessions a → sessions b → session a = session b → a = b
  offered : ∀ {e x y} (f : Option Format), similar e x y →
    similar e { x with inputFormat := f } { y with inputFormat := f }
  config : ∀ {s x y}, twin s x y → y.config = x.config
  capture : ∀ {s x y}, twin s x y → y.capture = x.capture
  localEffect : ∀ {s x y}, twin s x y → effects x.localEffect ∧ y.localEffect = effect x.localEffect
  stream? : ∀ {s x y}, twin s x y → ∀ k,
    y.stream? k = (x.stream? k).map (fun st => { st with effect := effect st.effect }) ∧
      ∀ st ∈ x.stream? k, effects st.effect
  uses : ∀ {s x y} (f : Nat → Nat), twin s x y →
    twin s { x with users := f x.users } { y with users := f y.users }
  occupies : ∀ {s x y} {c : Option ProcessorId}, (∀ q ∈ c, drives q) → twin s x y →
    twin s { x with capture := c } { y with capture := c }

/-- The application is called, or has written the entry itself. -/
def Entry.isCallback : Entry → Bool
  | .level .. | .codec .. | .request .. | .note _ | .told (.watcher _) .. => true
  | _ => false

namespace Mirror

variable (m : Mirror)

def plugIn : PlugIn → PlugIn
  | .effect e => .effect (m.effect e)
  | .codec c name => .codec c name

def track (t : Track) : Track := { t with chain := t.chain.map m.plugIn }

def subscriber : Subscriber → Subscriber
  | .watcher w => .watcher w
  | .capture s => .capture (m.session s)
  | .stream s k => .stream (m.session s) k

def image (x : Processor) : Processor :=
  { x with tracks := x.tracks.map m.track, subscribers := x.subscribers.map m.subscriber }

/-- Effects in the chain stand for each other. -/
def Within (chain : List PlugIn) : Prop := ∀ e, .effect e ∈ chain → m.effects e

def Knows : Subscriber → Prop
  | .watcher _ => True
  | .capture s | .stream s _ => m.sessions s

/-- All effects and sessions that the processor has to do with stand for each other. -/
structure Covers (x : Processor) : Prop where
  chains : ∀ t ∈ x.tracks, m.Within t.chain
  subscribers : ∀ z ∈ x.subscribers, m.Knows z

/-- Sessions that stand for each other. Both have ended, or both have more users than `k`. -/
structure Twins (s : SessionId) (k : Nat) (x y : Session) : Prop where
  twin : m.twin s x y
  users : ¬m.live s ∧ x.users = 0 ∧ y.users = 0 ∨ k < x.users ∧ k < y.users

/-- The second world mirrors the first. Sessions have more users than `n` says or have ended. -/
structure Reflects (n : SessionId → Nat) (u v : World S) : Prop where
  app : u.app = v.app
  journal : u.journal.filter Entry.isCallback = v.journal.filter Entry.isCallback
  processors : ∀ q, m.sees q → v.rig.processors[q]? = (u.rig.processors[q]?).map m.image
  covers : ∀ q x, m.sees q → u.rig.processors[q]? = some x → m.Covers x
  internal : ∀ q x, m.drives q → u.rig.processors[q]? = some x → x.isExternal = false
  least : m.least ≤ u.rig.effects.length
  effects : ∀ e, m.effects e →
    Option.Rel (m.similar e) u.rig.effects[e]? v.rig.effects[m.effect e]?
  sessions : ∀ s, m.sessions s →
    Option.Rel (m.Twins s (n s)) u.rig.sessions[s]? v.rig.sessions[m.session s]?

/-- From worlds that mirror each other, both runs come to the same result in such worlds. -/
def Echo (r r' : Run S α) : Prop :=
  ∀ n u v, m.Reflects n u v → Alike (m.Reflects n) (r u) (r' v)

variable {m}

section Image

variable {x : Processor} {q : ProcessorId} {i : Nat}

@[simp]
theorem plugIn_name (x : PlugIn) : (m.plugIn x).name = x.name := by
  cases x with
  | effect => rfl
  | codec => rfl

@[simp]
theorem image_track : (m.image x).tracks[i]? = (x.tracks[i]?).map m.track := by
  simp [image]

theorem image_phase : (m.image x).phase = x.phase := rfl

theorem image_enabledTracks : (m.image x).enabledTracks = x.enabledTracks := by
  simp only [Processor.enabledTracks, image_track, Option.any_map]
  simp only [image, List.length_map]
  rfl

theorem image_firstAudio (tracks : List Track) :
    firstAudio (tracks.map m.track) = firstAudio tracks := by
  rw [firstAudio, firstAudio, List.findIdx?_map]
  rfl

/-- A change of a track that does to its image what it does to the track. -/
theorem image_modifyTrack {f g : Track → Track}
    (same : ∀ t, x.tracks[i]? = some t → m.track (f t) = g (m.track t)) :
    m.image (x.modifyTrack i f) = (m.image x).modifyTrack i g := by
  simp only [image, Processor.modifyTrack, Processor.mk.injEq, and_true, true_and]
  exact map_modify same

theorem Covers.modifyTrack (h : m.Covers x) {f : Track → Track}
    (within : ∀ t, m.Within t.chain → m.Within (f t).chain) : m.Covers (x.modifyTrack i f) where
  subscribers := h.subscribers
  chains t member := by
    obtain ⟨j, known⟩ := List.mem_iff_getElem?.mp member
    simp only [Processor.modifyTrack, List.getElem?_modify] at known
    obtain ⟨t', before, rfl⟩ := Option.map_eq_some_iff.mp known
    have was := h.chains t' (List.mem_of_getElem? before)
    split
    · exact within t' was
    · exact was

end Image

section Option

theorem rel_cases {T : α → β → Prop} {x : Option α} {y : Option β} (related : Option.Rel T x y) :
    (∃ a b, x = some a ∧ y = some b ∧ T a b) ∨ x = none ∧ y = none := by
  cases related with
  | some related => exact .inl ⟨_, _, rfl, rfl, related⟩
  | none => exact .inr ⟨rfl, rfl⟩

theorem rel_mono {T T' : α → β → Prop} {x : Option α} {y : Option β} (related : Option.Rel T x y)
    (same : ∀ a b, x = some a → T a b → T' a b) : Option.Rel T' x y := by
  cases related with
  | some related => exact .some (same _ _ rfl related)
  | none => exact .none

theorem rel_map {T : α → β → Prop} {x : Option α} {f : α → β} (h : ∀ a, x = some a → T a (f a)) :
    Option.Rel T x (x.map f) := by
  cases x with
  | none => exact .none
  | some a => exact .some (h a rfl)

theorem rel_modify {T T' : α → β → Prop} {l : List α} {l' : List β} {i j : Nat} {f : α → α}
    {g : β → β} (related : Option.Rel T l[i]? l'[j]?)
    (same : ∀ a b, l[i]? = some a → l'[j]? = some b → T a b → T' (f a) (g b)) :
    Option.Rel T' (l.modify i f)[i]? (l'.modify j g)[j]? := by
  rw [List.getElem?_modify_eq, List.getElem?_modify_eq]
  obtain ⟨a, b, known, known', related⟩ | ⟨none, none'⟩ := rel_cases related
  · rw [known, known']
    exact .some (same a b known known' related)
  · rw [none, none']
    exact .none

end Option

namespace Reflects

variable {n : SessionId → Nat} {u v : World S} {q : ProcessorId} {e : EffectId} {s : SessionId}

theorem record (h : m.Reflects n u v) {a b : Entry}
    (same : a = b ∨ a.isCallback = false ∧ b.isCallback = false) :
    m.Reflects n (u.record a) (v.record b) := by
  refine { h with journal := ?_ }
  obtain rfl | ⟨first, second⟩ := same
  · simp only [World.record_journal, List.filter_cons, h.journal]
  · simpa [first, second] using h.journal

theorem acted (h : m.Reflects n u v) (s : S) (lines : List String) :
    m.Reflects n (u.acted s lines) (v.acted s lines) := by
  refine { h with app := rfl, journal := ?_ }
  simp only [World.acted_journal, List.filter_append, h.journal]

theorem modify (h : m.Reflects n u v) {f g : Processor → Processor}
    (same : ∀ x, m.image (f x) = g (m.image x)) (covers : ∀ x, m.Covers x → m.Covers (f x))
    (external : ∀ x, (f x).isExternal = x.isExternal) :
    m.Reflects n (u.modify q f) (v.modify q g) := by
  refine { h with
    processors := fun r sees => ?_
    covers := fun r x sees known => ?_
    internal := fun r x drives known => ?_ }
  · simp only [World.modify_processors, List.getElem?_modify, h.processors r sees]
    by_cases here : q = r
    · cases u.rig.processors[r]? with
      | none => simp
      | some x => simp [here, same x]
    · simp [here]
  · simp only [World.modify_processors, List.getElem?_modify] at known
    obtain ⟨y, before, rfl⟩ := Option.map_eq_some_iff.mp known
    have was := h.covers r y sees before
    split
    · exact covers y was
    · exact was
  · simp only [World.modify_processors, List.getElem?_modify] at known
    obtain ⟨y, before, rfl⟩ := Option.map_eq_some_iff.mp known
    have was := h.internal r y drives before
    split
    · exact (external y).trans was
    · exact was

/-- Effects that stand for each other are changed in both worlds. -/
theorem modifyEffect (h : m.Reflects n u v) (here : m.effects e) {f g : LevelEffect → LevelEffect}
    (same : ∀ x y, u.rig.effects[e]? = some x → v.rig.effects[m.effect e]? = some y →
      m.similar e x y → m.similar e (f x) (g y)) :
    m.Reflects n { u with rig := { u.rig with effects := u.rig.effects.modify e f } }
      { v with rig := { v.rig with effects := v.rig.effects.modify (m.effect e) g } } := by
  refine { h with least := by simpa using h.least, effects := fun a inside => ?_ }
  by_cases same_effect : e = a
  · subst same_effect
    exact rel_modify (h.effects e here) same
  · have apart : m.effect e ≠ m.effect a := fun eq => same_effect (m.effect_inj here inside eq)
    simpa [same_effect, apart] using h.effects a inside

/-- Sessions that stand for each other are changed in both worlds. -/
theorem modifySession (h : m.Reflects n u v) (here : m.sessions s) {k : SessionId → Nat}
    {f g : Session → Session} (same : ∀ x y, u.rig.sessions[s]? = some x →
      v.rig.sessions[m.session s]? = some y → m.Twins s (n s) x y → m.Twins s (k s) (f x) (g y))
    (others : ∀ t, t ≠ s → k t = n t) :
    m.Reflects k (u.arrange s f) (v.arrange (m.session s) g) := by
  refine { h with sessions := fun t inside => ?_ }
  by_cases same_session : s = t
  · subst same_session
    exact rel_modify (h.sessions s here) same
  · have apart : m.session s ≠ m.session t := fun eq => same_session (m.session_inj here inside eq)
    rw [others t fun eq => same_session eq.symm]
    simpa [World.arrange, same_session, apart] using h.sessions t inside

theorem arrange (h : m.Reflects n u v) (here : m.sessions s) {f g : Session → Session}
    (same : ∀ x y, m.twin s x y → m.twin s (f x) (g y)) (users : ∀ x, (f x).users = x.users)
    (users' : ∀ y, (g y).users = y.users) :
    m.Reflects n (u.arrange s f) (v.arrange (m.session s) g) :=
  h.modifySession here (fun x y _ _ twins => ⟨same x y twins.twin, by
    rw [users, users']
    exact twins.users⟩) fun _ _ => rfl

/-- A session that is known in the first world is known in the second. -/
theorem known (h : m.Reflects n u v) (here : m.sessions s) {x : Session}
    (known : u.rig.sessions[s]? = some x) :
    ∃ y, v.rig.sessions[m.session s]? = some y ∧ m.Twins s (n s) x y := by
  obtain ⟨a, y, there, there', twins⟩ | ⟨none, -⟩ := rel_cases (h.sessions s here)
  · obtain rfl := Option.some.inj (known.symm.trans there)
    exact ⟨y, there', twins⟩
  · cases known.symm.trans none

theorem session (h : m.Reflects n u v) (here : m.sessions s) {T : World S → World S → Prop}
    {f g : Session → Run S α} (rest : ∀ x y, u.rig.sessions[s]? = some x →
      v.rig.sessions[m.session s]? = some y → m.Twins s (n s) x y → Alike T (f x u) (g y v)) :
    Alike T ((Run.session s >>= f) u) ((Run.session (m.session s) >>= g) v) := by
  change Alike T ((Run.known u.rig.sessions[s]? >>= f) u)
    ((Run.known v.rig.sessions[m.session s]? >>= g) v)
  obtain ⟨x, y, known, known', twins⟩ | ⟨none, none'⟩ := rel_cases (h.sessions s here)
  · rw [known, known']
    exact rest x y known known' twins
  · rw [none, none']
    trivial

theorem effect (h : m.Reflects n u v) (here : m.effects e) {T : World S → World S → Prop}
    {f g : LevelEffect → Run S α} (rest : ∀ x y, u.rig.effects[e]? = some x →
      v.rig.effects[m.effect e]? = some y → m.similar e x y → Alike T (f x u) (g y v)) :
    Alike T ((Run.effect e >>= f) u) ((Run.effect (m.effect e) >>= g) v) := by
  change Alike T ((Run.known u.rig.effects[e]? >>= f) u)
    ((Run.known v.rig.effects[m.effect e]? >>= g) v)
  obtain ⟨x, y, known, known', similar⟩ | ⟨none, none'⟩ := rel_cases (h.effects e here)
  · rw [known, known']
    exact rest x y known known' similar
  · rw [none, none']
    trivial

/-- Effects that stand for each other become other ones. -/
theorem become (h : m.Reflects n u v) (here : m.effects e) {x y : LevelEffect}
    (similar : m.similar e x y) :
    m.Reflects n { u with rig := { u.rig with effects := u.rig.effects.modify e fun _ => x } }
      { v with rig := { v.rig with effects := v.rig.effects.modify (m.effect e) fun _ => y } } :=
  h.modifyEffect here fun _ _ _ _ _ => similar

end Reflects

namespace Echo

variable {q : ProcessorId} {e : EffectId} {s : SessionId} {r r' : Run S α}

theorem pure (a : α) : m.Echo (pure a : Run S α) (pure a) := fun _ _ _ h => ⟨rfl, h⟩

theorem throw (e : Halt) : m.Echo (throw e : Run S α) (throw e) := fun _ _ _ _ => trivial

theorem bind {r r' : Run S β} {f f' : β → Run S α} (first : m.Echo r r')
    (rest : ∀ b, m.Echo (f b) (f' b)) : m.Echo (r >>= f) (r' >>= f') :=
  fun n u v h => (first n u v h).bind fun b _ _ => rest b n _ _

theorem record {a b : Entry} (same : a = b ∨ a.isCallback = false ∧ b.isCallback = false) :
    m.Echo (Run.record a : Run S Unit) (Run.record b) := fun _ _ _ h => ⟨rfl, h.record same⟩

theorem notice (a b : Notice) : m.Echo (Run.notice a : Run S Unit) (Run.notice b) :=
  record (.inr ⟨rfl, rfl⟩)

theorem each {γ : Type} {f : β → Run S Unit} {g : γ → Run S Unit} {h : β → γ} {bs : List β}
    (echo : ∀ b ∈ bs, m.Echo (f b) (g (h b))) :
    m.Echo (Run.each f bs) (Run.each g (bs.map h)) := by
  induction bs with
  | nil => exact pure ()
  | cons b bs ih =>
    exact (echo b List.mem_cons_self).bind fun _ =>
      ih fun b member => echo b (List.mem_cons_of_mem _ member)

/-- The application's own state is the same in both worlds. -/
theorem own {f g : World S → Run S α} (rest : ∀ u v, u.app = v.app → m.Echo (f u) (g v)) :
    m.Echo (get >>= f) (get >>= g) := fun n u v h => rest u v h.app n u v h

/-- A quiet program sees nothing of the rig. -/
theorem quiet {again again' : {β : Type} → Call β → Run S β} {p : Program S α} (quiet : p.Quiet) :
    m.Echo (p.run again) (p.run again') := by
  intro n u v h
  obtain ⟨a, s, acts⟩ := quiet.acts u.app
  rw [Program.run_of_act again acts, Program.run_of_act again' (h.app ▸ acts)]
  refine ⟨rfl, ?_⟩
  rw [← h.app]
  exact h.acted s _

/-- A processor that is seen is read in both worlds, or in none. -/
theorem reads (sees : m.sees q) {f g : Processor → Run S α}
    (rest : ∀ x, m.Covers x → (m.drives q → x.isExternal = false) →
      m.Echo (f x) (g (m.image x))) :
    m.Echo (Run.processor q >>= f) (Run.processor q >>= g) := by
  intro n u v h
  change Alike _ ((Run.known u.rig.processors[q]? >>= f) u)
    ((Run.known v.rig.processors[q]? >>= g) v)
  rw [h.processors q sees]
  cases known : u.rig.processors[q]? with
  | none => trivial
  | some x =>
    exact rest x (h.covers q x sees known) (fun drives => h.internal q x drives known) n u v h

theorem processor (sees : m.sees q) {f g : Processor → Run S α}
    (rest : ∀ x, m.Covers x → m.Echo (f x) (g (m.image x))) :
    m.Echo (Run.processor q >>= f) (Run.processor q >>= g) :=
  reads sees fun x covers _ => rest x covers

/-- A processor that is driven is one of the rig. -/
theorem look (drives : m.drives q) {f g : Processor → Run S α}
    (rest : ∀ x, m.Covers x → x.isExternal = false → m.Echo (f x) (g (m.image x))) :
    m.Echo (Run.processor q >>= f) (Run.processor q >>= g) :=
  reads (m.drives_sees drives) fun x covers internal => rest x covers (internal drives)

theorem track (sees : m.sees q) (i : Nat) {f g : Option Track → Run S α}
    (absent : m.Echo (f none) (g none))
    (present : ∀ t, m.Within t.chain → m.Echo (f (some t)) (g (some (m.track t)))) :
    m.Echo (Run.track? q i >>= f) (Run.track? q i >>= g) := by
  simp only [Run.track?, bind_assoc, pure_bind]
  refine processor sees fun x covers => ?_
  rw [image_track]
  cases known : x.tracks[i]? with
  | none => exact absent
  | some t => exact present t (covers.chains t (List.mem_of_getElem? known))

theorem session (here : m.sessions s) {f g : Session → Run S α}
    (rest : ∀ x y, m.twin s x y → m.Echo (f x) (g y)) :
    m.Echo (Run.session s >>= f) (Run.session (m.session s) >>= g) :=
  fun n u v h => h.session here fun x y _ _ twins => rest x y twins.twin n u v h

theorem modifyProcessor {f g : Processor → Processor}
    (same : ∀ x, m.image (f x) = g (m.image x)) (covers : ∀ x, m.Covers x → m.Covers (f x))
    (external : ∀ x, (f x).isExternal = x.isExternal) :
    m.Echo (Run.modifyProcessor q f : Run S Unit) (Run.modifyProcessor q g) :=
  fun _ _ _ h => ⟨rfl, h.modify same covers external⟩

theorem modifyTrack {i : Nat} {f g : Track → Track} (same : ∀ t, m.track (f t) = g (m.track t))
    (within : ∀ t, m.Within t.chain → m.Within (f t).chain) :
    m.Echo (Run.modifyTrack q i f : Run S Unit) (Run.modifyTrack q i g) :=
  modifyProcessor (fun _ => image_modifyTrack fun t _ => same t)
    (fun _ covers => covers.modifyTrack within) fun _ => rfl

/-- The same chains are held in both worlds. -/
theorem awaitChain (sees : m.sees q) (i : Nat) :
    m.Echo (Run.awaitChain q i : Run S Unit) (Run.awaitChain q i) := by
  refine processor sees fun x _ => ?_
  change m.Echo (if i ∈ x.held then _ else _) (if i ∈ x.held then _ else _)
  split
  · exact throw _
  · exact pure _

theorem holding (sees : m.sees q) (i : Nat) (echo : m.Echo r r') :
    m.Echo (Run.holding q i r) (Run.holding q i r') := by
  have sets (f : List Nat → List Nat) : m.Echo
      (Run.modifyProcessor q fun x => { x with held := f x.held } : Run S Unit)
      (Run.modifyProcessor q fun x => { x with held := f x.held }) :=
    modifyProcessor (fun _ => rfl) (fun _ covers => ⟨covers.chains, covers.subscribers⟩)
      fun _ => rfl
  exact (awaitChain sees i).bind fun _ => (sets (i :: ·)).bind fun _ => echo.bind fun a =>
    (sets (·.tail)).bind fun _ => pure a

theorem modifyEffect (here : m.effects e) {f g : LevelEffect → LevelEffect}
    (same : ∀ x y, m.similar e x y → m.similar e (f x) (g y)) :
    m.Echo (Run.modifyEffect e f : Run S Unit) (Run.modifyEffect (m.effect e) g) :=
  fun _ _ _ h => ⟨rfl, h.modifyEffect here fun x y _ _ => same x y⟩

theorem arrange (here : m.sessions s) {f g : Session → Session}
    (same : ∀ x y, m.twin s x y → m.twin s (f x) (g y)) (users : ∀ x, (f x).users = x.users)
    (users' : ∀ y, (g y).users = y.users) :
    m.Echo (Run.modifySession s f : Run S Unit) (Run.modifySession (m.session s) g) :=
  fun _ _ _ h => ⟨rfl, h.arrange here same users users'⟩

theorem moveTo (sees : m.sees q) (phase : Phase) :
    m.Echo (Run.moveTo q phase : Run S Unit) (Run.moveTo q phase) :=
  processor sees fun _ _ => bind (modifyProcessor (fun _ => rfl)
    (fun _ covers => ⟨covers.chains, covers.subscribers⟩) fun _ => rfl) fun _ =>
      record (.inr ⟨rfl, rfl⟩)

end Echo

end Mirror

end Metering
