import Metering.Rig.Perform
/-!
What can be said of a run. `Ensures` speaks of every result that a run may have, `Yields` says
that there is one, and `Keeps` relates the world a run starts in to the one it ends in.
-/

namespace Metering

variable {S α β : Type}

/-- Whatever result the run has, the condition holds of it and of the world it leaves. -/
def Ensures (m : Run S α) (w : World S) (Q : α → World S → Prop) : Prop :=
  ∀ a w', m w = .ok (a, w') → Q a w'

/-- The run has a result, and the condition holds of it and of the world it leaves. -/
def Yields (m : Run S α) (w : World S) (Q : α → World S → Prop) : Prop :=
  ∃ a w', m w = .ok (a, w') ∧ Q a w'

/-- A run comes to its end, in a world of a kind. -/
def Run.Ends (m : Run S α) (w : World S) (P : World S → Prop) : Prop :=
  ∃ a w', m w = .ok (a, w') ∧ P w'

instance (m : Run S α) (w : World S) (P : World S → Prop) [DecidablePred P] :
    Decidable (m.Ends w P) :=
  match end_ : m w with
  | .ok (a, w') => decidable_of_iff (P w') ⟨fun h => ⟨a, w', end_, h⟩, by
    rintro ⟨b, v, eq, h⟩
    cases end_.symm.trans eq
    exact h⟩
  | .error e => isFalse (by
    rintro ⟨b, v, eq, -⟩
    cases end_.symm.trans eq)

instance (m : Run S α) (w : World S) (Q : α → World S → Prop) [∀ a w', Decidable (Q a w')] :
    Decidable (Yields m w Q) :=
  match end_ : m w with
  | .ok (a, w') => decidable_of_iff (Q a w') ⟨fun h => ⟨a, w', end_, h⟩, by
    rintro ⟨b, v, eq, h⟩
    cases end_.symm.trans eq
    exact h⟩
  | .error e => isFalse (by
    rintro ⟨b, v, eq, -⟩
    cases end_.symm.trans eq)

/-- The run leads from every world to a related one. -/
def Keeps (R : World S → World S → Prop) (m : Run S α) : Prop :=
  ∀ w, Ensures m w fun _ w' => R w w'

def World.record (w : World S) (e : Entry) : World S := { w with journal := e :: w.journal }

def World.modify (w : World S) (p : ProcessorId) (f : Processor → Processor) : World S :=
  { w with rig := { w.rig with processors := w.rig.processors.modify p f } }

def World.arrange (w : World S) (s : SessionId) (f : Session → Session) : World S :=
  { w with rig := { w.rig with sessions := w.rig.sessions.modify s f } }

/-- The chains of a processor whose plug-ins are called to agree on formats, to open or to close. -/
def Rig.held (r : Rig) (p : ProcessorId) : List Nat := (r.processors[p]?).elim [] (·.held)

section Arranged

variable (app : Application S) (s : S)

theorem Application.arranged_perm (xs : List α) : (app.arranged s xs).Perm xs := by
  have inOrder : (List.range xs.length).filterMap (fun i => xs[i]?) = xs := by
    induction xs with
    | nil => rfl
    | cons x xs ih => simpa [List.range_succ_eq_map, List.filterMap_map, Function.comp_def] using ih
  have arranged := (app.order_perm s xs.length).filterMap fun i => xs[i]?
  rwa [inOrder] at arranged

theorem Application.arranged_map (f : α → β) (xs : List α) :
    app.arranged s (xs.map f) = (app.arranged s xs).map f := by
  simp [arranged, List.map_filterMap]

@[simp]
theorem Application.arranged_nil : app.arranged s ([] : List α) = [] :=
  List.perm_nil.mp (app.arranged_perm s [])

end Arranged

section Modify

variable {l : List α} {i : Nat} {f g : α → α}

theorem map_modify {h : α → β} {k : β → β} (same : ∀ a, l[i]? = some a → h (f a) = k (h a)) :
    (l.modify i f).map h = (l.map h).modify i k := by
  apply List.ext_getElem?
  intro j
  rw [List.getElem?_map, List.getElem?_modify, List.getElem?_modify, List.getElem?_map]
  by_cases here : i = j
  · subst here
    cases known : l[i]? with
    | none => rfl
    | some a => simp [same a known]
  · simp [here]

theorem modify_congr (same : ∀ a, l[i]? = some a → f a = g a) : l.modify i f = l.modify i g := by
  have images := map_modify (h := id) same
  rwa [List.map_id, List.map_id] at images

/-- The same change at two places can be made in either order. -/
theorem modify_comm (l : List α) (f : α → α) (i j : Nat) :
    (l.modify i f).modify j f = (l.modify j f).modify i f := by
  apply List.ext_getElem?
  intro k
  simp only [List.getElem?_modify]
  cases l[k]? with
  | none => rfl
  | some a =>
    by_cases first : i = k
    · by_cases second : j = k
      · simp [first, second]
      · simp [first, second]
    · simp [first]

variable {a : α}

/-- Where the element is known, only what is made of it matters. -/
theorem modify_congr_of (known : l[i]? = some a) (same : f a = g a) :
    l.modify i f = l.modify i g :=
  modify_congr fun b there => by
    obtain rfl := Option.some.inj (known.symm.trans there)
    exact same

theorem modify_of_fixed (known : l[i]? = some a) (fixed : f a = a) : l.modify i f = l :=
  (modify_congr_of (g := id) known fixed).trans (List.modify_id ..)

variable {x : Processor} {t : Track} {f g : Track → Track}

theorem Processor.modifyTrack_congr_of (track : x.tracks[i]? = some t) (same : f t = g t) :
    x.modifyTrack i f = x.modifyTrack i g :=
  congrArg (fun ts => { x with tracks := ts }) (modify_congr_of track same)

theorem Processor.modifyTrack_of_fixed (track : x.tracks[i]? = some t) (fixed : f t = t) :
    x.modifyTrack i f = x :=
  congrArg (fun ts => { x with tracks := ts }) (modify_of_fixed track fixed)

end Modify

section Change

variable {w : World S} {e : Entry} {p : ProcessorId} {f : Processor → Processor}

theorem Rig.held_of {r : Rig} {x : Processor} (known : r.processors[p]? = some x) :
    r.held p = x.held := by
  simp [held, known]

@[simp]
theorem World.record_rig : (w.record e).rig = w.rig := rfl

@[simp]
theorem World.record_journal : (w.record e).journal = e :: w.journal := rfl

@[simp]
theorem World.modify_journal : (w.modify p f).journal = w.journal := rfl

@[simp]
theorem World.modify_processors :
    (w.modify p f).rig.processors = w.rig.processors.modify p f := rfl

theorem World.modify_processor {x : Processor} (known : w.rig.processors[p]? = some x) :
    (w.modify p f).rig.processors[p]? = some (f x) := by
  simp [known]

theorem World.modify_congr_of {g : Processor → Processor} {x : Processor}
    (known : w.rig.processors[p]? = some x) (same : f x = g x) : w.modify p f = w.modify p g := by
  rw [World.modify, Metering.modify_congr_of known same]
  rfl

theorem World.modify_of_fixed {x : Processor} (known : w.rig.processors[p]? = some x)
    (fixed : f x = x) : w.modify p f = w := by
  rw [World.modify, Metering.modify_of_fixed known fixed]

theorem World.modify_rig_congr {v : World S} (same : v.rig = w.rig) :
    (v.modify p f).rig = (w.modify p f).rig := by
  rw [World.modify, World.modify, same]

theorem World.modify_modify (w : World S) (p : ProcessorId) (f g : Processor → Processor) :
    (w.modify p f).modify p g = w.modify p fun x => g (f x) := by
  simp only [World.modify, List.modify_modify_eq]
  rfl

/-- A chain that is held for a time leaves no trace. -/
theorem World.letGo_hold (w : World S) (p : ProcessorId) (i : Nat) :
    (w.modify p (·.hold i)).modify p (·.letGo) = w := by
  rw [World.modify_modify]
  exact congrArg (fun ps => { w with rig := { w.rig with processors := ps } }) (List.modify_id ..)

variable {s : SessionId} {g : Session → Session}

@[simp]
theorem World.arrange_journal : (w.arrange s g).journal = w.journal := rfl

@[simp]
theorem World.arrange_processors : (w.arrange s g).rig.processors = w.rig.processors := rfl

theorem World.arrange_session {y : Session} (known : w.rig.sessions[s]? = some y) :
    (w.arrange s g).rig.sessions[s]? = some (g y) := by
  simp [World.arrange, known]

theorem World.arrange_of_fixed {y : Session} (known : w.rig.sessions[s]? = some y)
    (fixed : g y = y) : w.arrange s g = w := by
  rw [World.arrange, Metering.modify_of_fixed known fixed]

end Change

theorem Run.bind_ok {m : Run S α} {f : α → Run S β} {w w'' : World S} {b : β} :
    (m >>= f) w = .ok (b, w'') ↔ ∃ a w', m w = .ok (a, w') ∧ f a w' = .ok (b, w'') := by
  change (StateT.bind m f) w = _ ↔ _
  cases h : m w with
  | error e => simp [StateT.bind, h, bind, Except.bind]
  | ok r =>
    obtain ⟨a, w'⟩ := r
    simp only [StateT.bind, h, bind, Except.bind]
    constructor
    · intro rest
      exact ⟨a, w', rfl, rest⟩
    · rintro ⟨_, _, ⟨⟩, rest⟩
      exact rest

theorem Run.bind_eq {m : Run S α} {w w' : World S} {a : α} (run : m w = .ok (a, w'))
    (f : α → Run S β) : (m >>= f) w = f a w' := by
  change StateT.bind m f w = _
  simp only [StateT.bind, run, bind, Except.bind]

theorem Run.bind_stops {m : Run S α} {w : World S} {e : Halt} (stops : m w = .error e)
    (f : α → Run S β) : (m >>= f) w = .error e := by
  change StateT.bind m f w = _
  simp only [StateT.bind, stops, bind, Except.bind]

theorem Run.get_bind (f : World S → Run S α) (w : World S) : (get >>= f) w = f w w := rfl

theorem Run.processor_eq {w : World S} {p : ProcessorId} {x : Processor}
    (known : w.rig.processors[p]? = some x) : Run.processor p w = .ok (x, w) := by
  change Run.known w.rig.processors[p]? w = _
  rw [known]
  rfl

theorem Run.session_eq {w : World S} {s : SessionId} {x : Session}
    (known : w.rig.sessions[s]? = some x) : Run.session s w = .ok (x, w) := by
  change Run.known w.rig.sessions[s]? w = _
  rw [known]
  rfl

theorem Run.awaitChain_eq {w : World S} {p : ProcessorId} {x : Processor}
    (known : w.rig.processors[p]? = some x) (i : Nat) :
    Run.awaitChain p i w = if i ∈ x.held then .error .stuck else .ok ((), w) := by
  refine (Run.bind_eq (Run.processor_eq known) _).trans ?_
  split
  · rfl
  · rfl

theorem Track.setChain_takes {t : Track} (takes : t.acceptsPlugIns = true ∧ t.locked = false)
    (chain : List PlugIn) : t.setChain chain = .ok { t with chain } := by
  simp [Track.setChain, takes.1, takes.2]

theorem Track.setChain_refuses {t : Track} (takes : ¬(t.acceptsPlugIns = true ∧ t.locked = false))
    (chain : List PlugIn) : ∃ f, t.setChain chain = .error f := by
  unfold Track.setChain
  by_cases accepts : t.acceptsPlugIns = true
  · have locked : t.locked = true := by simpa [accepts] using takes
    simp [accepts, locked]
  · simp [accepts]

/-- An exchange that the track refuses changes nothing. One that it takes waits for the chain. -/
theorem setChain_eq {w : World S} {p : ProcessorId} {x : Processor} {i : Nat} {t : Track}
    (known : w.rig.processors[p]? = some x) (track : x.tracks[i]? = some t)
    (chain : List PlugIn) : setChain p i chain w =
      match t.setChain chain with
      | .ok t => if i ∈ x.held then .error .stuck
        else .ok (.ok (), w.modify p fun y => y.modifyTrack i fun _ => t)
      | .error f => .ok (.error f, w) := by
  have look : Run.track? p i w = .ok (some t, w) := by
    rw [← track]
    exact Run.bind_eq (Run.processor_eq known) _
  refine (Run.bind_eq look _).trans ?_
  dsimp only
  cases t.setChain chain with
  | error f => rfl
  | ok t =>
    have waits := Run.awaitChain_eq known i
    dsimp only
    by_cases held : i ∈ x.held
    · rw [if_pos held] at waits ⊢
      exact Run.bind_stops waits _
    · rw [if_neg held] at waits ⊢
      exact Run.bind_eq waits _

section Ensures

variable {w : World S} {Q : α → World S → Prop}

theorem Ensures.mono {m : Run S α} {P : α → World S → Prop} (h : Ensures m w P)
    (imp : ∀ a w', P a w' → Q a w') : Ensures m w Q :=
  fun a w' run => imp a w' (h a w' run)

@[simp]
theorem ensures_pure {a : α} : Ensures (pure a : Run S α) w Q ↔ Q a w := by
  constructor
  · intro h
    exact h a w rfl
  · rintro h _ _ ⟨⟩
    exact h

@[simp]
theorem ensures_throw {e : Halt} : Ensures (throw e : Run S α) w Q :=
  fun _ _ run => by cases run

@[simp]
theorem ensures_bind {m : Run S β} {f : β → Run S α} :
    Ensures (m >>= f) w Q ↔ Ensures m w fun b w' => Ensures (f b) w' Q := by
  simp only [Ensures, Run.bind_ok]
  constructor
  · intro h b w' first a w'' rest
    exact h a w'' ⟨b, w', first, rest⟩
  · rintro h a w'' ⟨b, w', first, rest⟩
    exact h b w' first a w'' rest

theorem Ensures.bind {m : Run S β} {f : β → Run S α} {P : β → World S → Prop} (h : Ensures m w P)
    (rest : ∀ b w', P b w' → Ensures (f b) w' Q) : Ensures (m >>= f) w Q :=
  ensures_bind.mpr (h.mono rest)

@[simp]
theorem ensures_map {m : Run S β} {f : β → α} :
    Ensures (f <$> m) w Q ↔ Ensures m w fun b w' => Q (f b) w' := by
  rw [map_eq_pure_bind]
  simp only [ensures_bind, ensures_pure]

@[simp]
theorem ensures_get {Q : World S → World S → Prop} : Ensures (get : Run S _) w Q ↔ Q w w :=
  ensures_pure (S := S) (a := w)

@[simp]
theorem ensures_known {x : Option α} :
    Ensures (Run.known x : Run S α) w Q ↔ ∀ a, x = some a → Q a w := by
  cases x <;> simp [Run.known]

variable {Q : Unit → World S → Prop}

@[simp]
theorem ensures_set {w' : World S} : Ensures (set w' : Run S Unit) w Q ↔ Q () w' := by
  constructor
  · intro h
    exact h () w' rfl
  · rintro h a w'' ⟨⟩
    exact h

@[simp]
theorem ensures_modify {f : World S → World S} : Ensures (modify f : Run S Unit) w Q ↔
    Q () (f w) := by
  constructor
  · intro h
    exact h () (f w) rfl
  · rintro h a w'' ⟨⟩
    exact h

@[simp]
theorem ensures_record {e : Entry} :
    Ensures (Run.record e) w Q ↔ Q () (w.record e) := ensures_modify

@[simp]
theorem ensures_notice {n : Notice} :
    Ensures (Run.notice n) w Q ↔ Q () (w.record (.notice n)) := ensures_modify

@[simp]
theorem ensures_mark :
    Ensures Run.mark w Q ↔ Q () { w with moments := w.now :: w.moments } := ensures_modify

@[simp]
theorem ensures_page {f : Rig → Page} :
    Ensures (Run.page f) w Q ↔ Q () { w with story := f w.rig :: w.story } := ensures_modify

@[simp]
theorem ensures_modifyRig {f : Rig → Rig} :
    Ensures (Run.modifyRig f) w Q ↔ Q () { w with rig := f w.rig } := ensures_modify

@[simp]
theorem ensures_modifyProcessor {p : ProcessorId} {f : Processor → Processor} :
    Ensures (Run.modifyProcessor p f) w Q ↔ Q () (w.modify p f) :=
  ensures_modify

@[simp]
theorem ensures_modifyEffect {e : EffectId} {f : LevelEffect → LevelEffect} :
    Ensures (Run.modifyEffect e f) w Q ↔
      Q () { w with rig := { w.rig with effects := w.rig.effects.modify e f } } :=
  ensures_modify

@[simp]
theorem ensures_modifySession {s : SessionId} {f : Session → Session} :
    Ensures (Run.modifySession s f) w Q ↔
      Q () { w with rig := { w.rig with sessions := w.rig.sessions.modify s f } } :=
  ensures_modify

end Ensures

section Reading

variable {w : World S}

@[simp]
theorem ensures_processor {p : ProcessorId} {Q : Processor → World S → Prop} :
    Ensures (Run.processor p) w Q ↔ ∀ x, w.rig.processors[p]? = some x → Q x w := by
  simp [Run.processor]

@[simp]
theorem ensures_effect {e : EffectId} {Q : LevelEffect → World S → Prop} :
    Ensures (Run.effect e) w Q ↔ ∀ x, w.rig.effects[e]? = some x → Q x w := by
  simp [Run.effect]

@[simp]
theorem ensures_session {s : SessionId} {Q : Session → World S → Prop} :
    Ensures (Run.session s) w Q ↔ ∀ x, w.rig.sessions[s]? = some x → Q x w := by
  simp [Run.session]

@[simp]
theorem ensures_track {p : ProcessorId} {i : Nat} {Q : Option Track → World S → Prop} :
    Ensures (Run.track? p i) w Q ↔ ∀ x, w.rig.processors[p]? = some x → Q x.tracks[i]? w := by
  simp [Run.track?]

@[simp]
theorem ensures_awaitChain {p : ProcessorId} {i : Nat} {Q : Unit → World S → Prop} :
    Ensures (Run.awaitChain p i) w Q ↔
      ∀ x, w.rig.processors[p]? = some x → i ∉ x.held → Q () w := by
  simp only [Run.awaitChain, ensures_bind, ensures_processor]
  refine forall_congr' fun x => imp_congr_right fun _ => ?_
  split
  · next held => simp [held]
  · next free => simp [free]

variable {Q : α → World S → Prop}

/-- While plug-ins of a chain are called, the chain is held. -/
@[simp]
theorem ensures_holding {p : ProcessorId} {i : Nat} {calls : Run S α} :
    Ensures (Run.holding p i calls) w Q ↔ ∀ x, w.rig.processors[p]? = some x → i ∉ x.held →
      Ensures calls (w.modify p (·.hold i)) fun a w' => Q a (w'.modify p (·.letGo)) := by
  simp only [Run.holding, ensures_bind, ensures_awaitChain, ensures_modifyProcessor, ensures_pure]

theorem Ensures.awaitChain {p : ProcessorId} {i : Nat} {f : Unit → Run S α}
    (rest : Ensures (f ()) w Q) : Ensures (Run.awaitChain p i >>= f) w Q :=
  ensures_bind.mpr (ensures_awaitChain.mpr fun _ _ _ => rest)

/-- What calls do while a chain is held they do. -/
theorem Ensures.holding {p : ProcessorId} {i : Nat} {calls : Run S α}
    {R : World S → α → World S → Prop}
    (kept : ∀ {u a v}, R u a v → R (u.modify p (·.letGo)) a (v.modify p (·.letGo)))
    (does : Ensures calls (w.modify p (·.hold i)) (R (w.modify p (·.hold i)))) :
    Ensures (Run.holding p i calls) w (R w) := by
  refine ensures_holding.mpr fun _ _ _ => does.mono fun a v next => ?_
  simpa only [World.letGo_hold] using kept next

theorem Ensures.record {e : Entry} {f : Unit → Run S α} (rest : Ensures (f ()) (w.record e) Q) :
    Ensures (Run.record e >>= f) w Q :=
  ensures_bind.mpr (ensures_record.mpr rest)

theorem Ensures.notice {n : Notice} {f : Unit → Run S α}
    (rest : Ensures (f ()) (w.record (.notice n)) Q) : Ensures (Run.notice n >>= f) w Q :=
  ensures_bind.mpr (ensures_notice.mpr rest)

theorem Ensures.processor {p : ProcessorId} {f : Processor → Run S α}
    (rest : ∀ x, w.rig.processors[p]? = some x → Ensures (f x) w Q) :
    Ensures (Run.processor p >>= f) w Q :=
  ensures_bind.mpr (ensures_processor.mpr rest)

theorem Ensures.track {p : ProcessorId} {i : Nat} {f : Option Track → Run S α}
    (rest : ∀ x, w.rig.processors[p]? = some x → Ensures (f x.tracks[i]?) w Q) :
    Ensures (Run.track? p i >>= f) w Q :=
  ensures_bind.mpr (ensures_track.mpr rest)

variable {p : ProcessorId} {x : Processor}

/-- A processor that is known is the one that is read. -/
theorem Ensures.processor_of {f : Processor → Run S α} (known : w.rig.processors[p]? = some x)
    (rest : Ensures (f x) w Q) : Ensures (Run.processor p >>= f) w Q :=
  Ensures.processor fun y there => by
    obtain rfl := Option.some.inj (known.symm.trans there)
    exact rest

theorem Ensures.track_of {i : Nat} {f : Option Track → Run S α}
    (known : w.rig.processors[p]? = some x) (rest : Ensures (f x.tracks[i]?) w Q) :
    Ensures (Run.track? p i >>= f) w Q :=
  Ensures.track fun y there => by
    obtain rfl := Option.some.inj (known.symm.trans there)
    exact rest

end Reading

section Yields

variable {w : World S} {Q : α → World S → Prop}

theorem Yields.mono {m : Run S α} {P : α → World S → Prop} (h : Yields m w P)
    (imp : ∀ a w', P a w' → Q a w') : Yields m w Q := by
  obtain ⟨a, w', run, holds⟩ := h
  exact ⟨a, w', run, imp a w' holds⟩

@[simp]
theorem yields_pure {a : α} : Yields (pure a : Run S α) w Q ↔ Q a w := by
  constructor
  · rintro ⟨_, _, ⟨⟩, holds⟩
    exact holds
  · intro holds
    exact ⟨a, w, rfl, holds⟩

@[simp]
theorem yields_bind {m : Run S β} {f : β → Run S α} :
    Yields (m >>= f) w Q ↔ Yields m w fun b w' => Yields (f b) w' Q := by
  simp only [Yields, Run.bind_ok]
  constructor
  · rintro ⟨a, w'', ⟨b, w', first, rest⟩, holds⟩
    exact ⟨b, w', first, a, w'', rest, holds⟩
  · rintro ⟨b, w', first, a, w'', rest, holds⟩
    exact ⟨a, w'', ⟨b, w', first, rest⟩, holds⟩

theorem Yields.bind {m : Run S β} {f : β → Run S α} {P : β → World S → Prop} (h : Yields m w P)
    (rest : ∀ b w', P b w' → Yields (f b) w' Q) : Yields (m >>= f) w Q :=
  yields_bind.mpr (h.mono rest)

@[simp]
theorem yields_map {m : Run S β} {f : β → α} :
    Yields (f <$> m) w Q ↔ Yields m w fun b w' => Q (f b) w' := by
  rw [map_eq_pure_bind]
  simp only [yields_bind, yields_pure]

@[simp]
theorem yields_get {Q : World S → World S → Prop} : Yields (get : Run S _) w Q ↔ Q w w :=
  yields_pure (S := S) (a := w)

@[simp]
theorem yields_known {x : Option α} :
    Yields (Run.known x : Run S α) w Q ↔ ∃ a, x = some a ∧ Q a w := by
  cases x with
  | none =>
    constructor
    · rintro ⟨_, _, run, -⟩
      cases run
    · rintro ⟨_, ⟨⟩, -⟩
  | some a => simp [Run.known]

@[simp]
theorem yields_processor {p : ProcessorId} {Q : Processor → World S → Prop} :
    Yields (Run.processor p) w Q ↔ ∃ x, w.rig.processors[p]? = some x ∧ Q x w := by
  simp [Run.processor]

@[simp]
theorem yields_effect {e : EffectId} {Q : LevelEffect → World S → Prop} :
    Yields (Run.effect e) w Q ↔ ∃ x, w.rig.effects[e]? = some x ∧ Q x w := by
  simp [Run.effect]

@[simp]
theorem yields_session {s : SessionId} {Q : Session → World S → Prop} :
    Yields (Run.session s) w Q ↔ ∃ x, w.rig.sessions[s]? = some x ∧ Q x w := by
  simp [Run.session]

@[simp]
theorem yields_track {p : ProcessorId} {i : Nat} {Q : Option Track → World S → Prop} :
    Yields (Run.track? p i) w Q ↔ ∃ x, w.rig.processors[p]? = some x ∧ Q x.tracks[i]? w := by
  simp [Run.track?]

theorem Yields.record {e : Entry} {f : Unit → Run S α} (rest : Yields (f ()) (w.record e) Q) :
    Yields (Run.record e >>= f) w Q :=
  yields_bind.mpr ⟨(), w.record e, rfl, rest⟩

theorem Yields.processor {p : ProcessorId} {x : Processor} {f : Processor → Run S α}
    (known : w.rig.processors[p]? = some x) (rest : Yields (f x) w Q) :
    Yields (Run.processor p >>= f) w Q :=
  yields_bind.mpr (yields_processor.mpr ⟨x, known, rest⟩)

theorem Yields.effect {e : EffectId} {x : LevelEffect} {f : LevelEffect → Run S α}
    (known : w.rig.effects[e]? = some x) (rest : Yields (f x) w Q) :
    Yields (Run.effect e >>= f) w Q :=
  yields_bind.mpr (yields_effect.mpr ⟨x, known, rest⟩)

theorem Yields.session {s : SessionId} {x : Session} {f : Session → Run S α}
    (known : w.rig.sessions[s]? = some x) (rest : Yields (f x) w Q) :
    Yields (Run.session s >>= f) w Q :=
  yields_bind.mpr (yields_session.mpr ⟨x, known, rest⟩)

theorem Yields.track {p : ProcessorId} {i : Nat} {x : Processor} {f : Option Track → Run S α}
    (known : w.rig.processors[p]? = some x) (rest : Yields (f x.tracks[i]?) w Q) :
    Yields (Run.track? p i >>= f) w Q :=
  yields_bind.mpr (yields_track.mpr ⟨x, known, rest⟩)

theorem Yields.awaitChain {p : ProcessorId} {i : Nat} {x : Processor} {f : Unit → Run S α}
    (known : w.rig.processors[p]? = some x) (free : i ∉ x.held) (rest : Yields (f ()) w Q) :
    Yields (Run.awaitChain p i >>= f) w Q := by
  refine yields_bind.mpr (Yields.processor known ?_)
  rw [if_neg free]
  exact yields_pure.mpr rest

variable {Q : Unit → World S → Prop}

@[simp]
theorem yields_modify {f : World S → World S} : Yields (modify f : Run S Unit) w Q ↔
    Q () (f w) := by
  constructor
  · rintro ⟨a, w', ⟨⟩, holds⟩
    exact holds
  · intro holds
    exact ⟨(), f w, rfl, holds⟩

@[simp]
theorem yields_set {w' : World S} : Yields (set w' : Run S Unit) w Q ↔ Q () w' :=
  yields_modify (f := fun _ => w')

@[simp]
theorem yields_record {e : Entry} : Yields (Run.record e) w Q ↔ Q () (w.record e) := yields_modify

@[simp]
theorem yields_notice {n : Notice} :
    Yields (Run.notice n) w Q ↔ Q () (w.record (.notice n)) := yields_modify

@[simp]
theorem yields_mark :
    Yields Run.mark w Q ↔ Q () { w with moments := w.now :: w.moments } := yields_modify

@[simp]
theorem yields_page {f : Rig → Page} :
    Yields (Run.page f) w Q ↔ Q () { w with story := f w.rig :: w.story } := yields_modify

@[simp]
theorem yields_modifyRig {f : Rig → Rig} :
    Yields (Run.modifyRig f) w Q ↔ Q () { w with rig := f w.rig } := yields_modify

@[simp]
theorem yields_modifyProcessor {p : ProcessorId} {f : Processor → Processor} :
    Yields (Run.modifyProcessor p f) w Q ↔ Q () (w.modify p f) := yields_modify

theorem Yields.held {p : ProcessorId} {i : Nat} {x : Processor} {calls : Run S α}
    {Q : α → World S → Prop} (known : w.rig.processors[p]? = some x) (free : i ∉ x.held)
    (does : Yields calls (w.modify p (·.hold i)) fun a w' => Q a (w'.modify p (·.letGo))) :
    Yields (Run.holding p i calls) w Q := by
  refine Yields.awaitChain known free ?_
  simpa only [yields_bind, yields_modifyProcessor, yields_pure] using does

/-- What calls do while a chain is held they do. -/
theorem Yields.holding {p : ProcessorId} {i : Nat} {calls : Run S α}
    {R : World S → α → World S → Prop} {x : Processor}
    (known : w.rig.processors[p]? = some x) (free : i ∉ x.held)
    (kept : ∀ {u a v}, R u a v → R (u.modify p (·.letGo)) a (v.modify p (·.letGo)))
    (does : Yields calls (w.modify p (·.hold i)) (R (w.modify p (·.hold i)))) :
    Yields (Run.holding p i calls) w (R w) := by
  refine Yields.held known free (does.mono fun a v next => ?_)
  simpa only [World.letGo_hold] using kept next

@[simp]
theorem yields_modifyEffect {e : EffectId} {f : LevelEffect → LevelEffect} :
    Yields (Run.modifyEffect e f) w Q ↔
      Q () { w with rig := { w.rig with effects := w.rig.effects.modify e f } } :=
  yields_modify

@[simp]
theorem yields_modifySession {s : SessionId} {f : Session → Session} :
    Yields (Run.modifySession s f) w Q ↔
      Q () { w with rig := { w.rig with sessions := w.rig.sessions.modify s f } } :=
  yields_modify

end Yields

end Metering
