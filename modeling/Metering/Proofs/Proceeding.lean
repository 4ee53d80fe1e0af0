import Metering.Proofs.Course
/-!
Whatever an application does, every processor of the rig goes on in its course. The plug-ins that
a processor tends may call it back, or are quiet; in the second case the course shows no gap at
any moment at which the application has the rig before it.
-/

namespace Metering

variable {S α : Type}

/-- A processor does nothing, and the application does not come to see the rig. -/
structure Rests (p : ProcessorId) (w w' : World S) : Prop where
  moments : w'.moments = w.moments
  journal : w.journal <:+ w'.journal
  acts : acts p w'.journal = acts p w.journal
  phase : w'.rig.phase p = w.rig.phase p
  external : w'.rig.isExternal p = w.rig.isExternal p

/-- A processor goes on in its course, and from moment to moment if no plug-in intrudes. -/
structure Proceeds (intruded : Prop) (p : ProcessorId) (w w' : World S) : Prop where
  leads : Leads intruded p w.now w'.now
  moments : ¬intruded → ∃ ms, w'.moments = ms ++ w.moments ∧
    (ms.Pairwise fun n m => Leads intruded p m n) ∧
    ∀ m ∈ ms, Leads intruded p w.now m ∧ Leads intruded p m w'.now

def World.move (w : World S) (p : ProcessorId) (phase : Phase) : World S :=
  (w.modify p fun x => { x with phase }).record (.moved p phase)

@[simp]
theorem ensures_moveTo {p : ProcessorId} {phase : Phase} {w : World S}
    {Q : Unit → World S → Prop} : Ensures (Run.moveTo p phase) w Q ↔
      ∀ x, w.rig.processors[p]? = some x → Q () (w.move p phase) := by
  simp [Run.moveTo, World.move]

theorem Ensures.moveTo {α : Type} {p : ProcessorId} {phase : Phase} {f : Unit → Run S α}
    {w : World S} {Q : α → World S → Prop}
    (rest : ∀ x, w.rig.processors[p]? = some x → Ensures (f ()) (w.move p phase) Q) :
    Ensures (Run.moveTo p phase >>= f) w Q :=
  ensures_bind.mpr (ensures_moveTo.mpr rest)

section Rig

variable {r : Rig} {p q : ProcessorId} {f : Processor → Processor}

theorem Rig.phase_of {x : Processor} (known : r.processors[p]? = some x) :
    r.phase p = x.phase := by
  simp [Rig.phase, known]

/-- Only a processor that is there is closed. -/
theorem Rig.known_of_closed (closed : r.phase p = .closed) :
    ∃ x, r.processors[p]? = some x ∧ x.phase = .closed := by
  cases known : r.processors[p]? with
  | none => simp [Rig.phase, known] at closed
  | some x => exact ⟨x, rfl, (Rig.phase_of known).symm.trans closed⟩

theorem Rig.isExternal_of {x : Processor} (known : r.processors[p]? = some x) :
    r.isExternal p = x.isExternal := by
  simp [Rig.isExternal, known]

theorem Rig.phase_modify (same : ∀ x, (f x).phase = x.phase) :
    ({ r with processors := r.processors.modify q f } : Rig).phase p = r.phase p := by
  simp only [Rig.phase, List.getElem?_modify]
  split <;> cases r.processors[p]? <;> simp [same]

theorem Rig.isExternal_modify (same : ∀ x, (f x).isExternal = x.isExternal) :
    ({ r with processors := r.processors.modify q f } : Rig).isExternal p = r.isExternal p := by
  simp only [Rig.isExternal, List.getElem?_modify]
  split <;> cases r.processors[p]? <;> simp [same]

theorem Rig.phase_modify_ne (other : q ≠ p) :
    ({ r with processors := r.processors.modify q f } : Rig).phase p = r.phase p := by
  simp [Rig.phase, other]

end Rig

section Move

variable {w : World S} {p q : ProcessorId} {phase : Phase}

@[simp]
theorem World.move_journal : (w.move p phase).journal = .moved p phase :: w.journal := rfl

@[simp]
theorem World.move_moments : (w.move p phase).moments = w.moments := rfl

@[simp]
theorem World.move_isExternal : (w.move q phase).rig.isExternal p = w.rig.isExternal p :=
  Rig.isExternal_modify fun _ => rfl

theorem World.move_processor {x : Processor} (known : w.rig.processors[p]? = some x) :
    (w.move p phase).rig.processors[p]? = some { x with phase } := by
  simp [World.move, known]

theorem World.move_phase {x : Processor} (known : w.rig.processors[p]? = some x) :
    (w.move p phase).rig.phase p = phase :=
  Rig.phase_of (World.move_processor known)

theorem World.move_rests (other : q ≠ p) : Rests p w (w.move q phase) where
  moments := rfl
  journal := List.suffix_cons ..
  acts := by simp [other]
  phase := Rig.phase_modify_ne other
  external := World.move_isExternal

end Move

section Locking

variable {w : World S} {p q : ProcessorId}

def Processor.lock (x : Processor) : Processor :=
  { x with tracks := x.tracks.map fun t => { t with locked := true } }

def World.lockTracks (w : World S) (p : ProcessorId) : World S := w.modify p Processor.lock

@[simp]
theorem ensures_lockTracks {Q : Unit → World S → Prop} :
    Ensures (lockTracks p) w Q ↔ Q () (w.lockTracks p) := ensures_modifyProcessor

theorem Ensures.lockTracks {α : Type} {f : Unit → Run S α} {Q : α → World S → Prop}
    (rest : Ensures (f ()) (w.lockTracks p) Q) : Ensures (lockTracks p >>= f) w Q :=
  ensures_bind.mpr (ensures_lockTracks.mpr rest)

@[simp]
theorem World.lockTracks_journal : (w.lockTracks p).journal = w.journal := rfl

@[simp]
theorem World.lockTracks_isExternal :
    (w.lockTracks q).rig.isExternal p = w.rig.isExternal p :=
  Rig.isExternal_modify fun _ => rfl

end Locking

namespace Rests

variable {p : ProcessorId} {u v w : World S}

theorem refl (w : World S) : Rests p w w := ⟨rfl, List.suffix_rfl, rfl, rfl, rfl⟩

theorem trans (first : Rests p u v) (second : Rests p v w) : Rests p u w where
  moments := second.moments.trans first.moments
  journal := first.journal.trans second.journal
  acts := second.acts.trans first.acts
  phase := second.phase.trans first.phase
  external := second.external.trans first.external

theorem modify (q : ProcessorId) {f : Processor → Processor} (phase : ∀ x, (f x).phase = x.phase)
    (external : ∀ x, (f x).isExternal = x.isExternal) :
    Rests p w (w.modify q f) where
  moments := rfl
  journal := List.suffix_rfl
  acts := rfl
  phase := Rig.phase_modify phase
  external := Rig.isExternal_modify external

theorem record {e : Entry} (silent : e.act? p = none) :
    Rests p w (w.record e) where
  moments := rfl
  journal := List.suffix_cons ..
  acts := by rw [World.record_journal, acts_cons, silent]; exact List.append_nil _
  phase := rfl
  external := rfl

theorem flow (p : ProcessorId) : Flow (Rests (S := S) p) := ⟨refl, trans⟩

theorem modifyProcessor (q : ProcessorId) {f : Processor → Processor}
    (phase : ∀ x, (f x).phase = x.phase)
    (external : ∀ x, (f x).isExternal = x.isExternal) :
    Keeps (S := S) (Rests p) (Run.modifyProcessor q f) := fun _ =>
  ensures_modifyProcessor.mpr (modify q phase external)

theorem lockTracks (q : ProcessorId) : Keeps (S := S) (Rests p) (lockTracks q) :=
  modifyProcessor q (fun _ => rfl) fun _ => rfl

theorem tending (p : ProcessorId) : Tending (fun _ => True) (Rests (S := S) p) where
  toFlow := flow p
  own _ _ := ⟨rfl, List.suffix_rfl, rfl, rfl, rfl⟩
  aside e aside w := ensures_record.mpr (record (by cases e <;> first | rfl | cases aside))
  effects _ _ _ := ⟨rfl, List.suffix_rfl, rfl, rfl, rfl⟩
  story _ _ := ⟨rfl, List.suffix_rfl, rfl, rfl, rfl⟩
  holding q _ := (flow p).holding fun _ => modifyProcessor q (fun _ => rfl) fun _ => rfl
  opened x w := ensures_record.mpr (record rfl)
  closed x w := ensures_record.mpr (record rfl)
  setOpen q i isOpen := modifyProcessor q (fun _ => rfl) fun _ => rfl

/-- One more processor is nothing to the others, nor to itself if it starts from the beginning. -/
theorem newProcessor {x : Processor} (new : p = w.rig.processors.length →
    x.phase = .unrealized ∧ x.isExternal = false) :
    Ensures (Run.newProcessor x) w fun _ => Rests p w := by
  simp only [Run.newProcessor, ensures_bind, ensures_get, ensures_modifyRig, ensures_pure]
  refine ⟨rfl, List.suffix_rfl, rfl, ?_, ?_⟩
  · simp only [Rig.phase, List.getElem?_append]
    grind
  · simp only [Rig.isExternal, List.getElem?_append]
    grind

theorem subscribe (q : ProcessorId) (x : Subscriber) :
    Keeps (S := S) (Rests p) (subscribe q x) :=
  (flow p).bind ((flow p).processor q) fun _ =>
    (flow p).bind (modifyProcessor q (fun _ => rfl) fun _ => rfl)
      fun _ _ => ensures_record.mpr (record rfl)

/-- What holds while a processor rests holds whatever happens to the others. -/
theorem plain {R : World S → World S → Prop} (flow : Flow R) (rests : ∀ w w', Rests p w w' → R w w')
    (mark : Keeps R Run.mark)
    (newExternal : ∀ name phase tracks,
      Keeps R (Run.newProcessor (.newExternal name phase tracks))) :
    Plain R :=
  have of_rests {β : Type} {m : Run S β} (h : Keeps (Rests p) m) : Keeps R m :=
    fun w => (h w).mono fun _ w' => rests w w'
  { flow with
    own := fun w s => rests _ _ ((tending p).own w s)
    aside := fun e aside => of_rests ((tending p).aside e aside)
    effects := fun w es last => rests _ _ ((tending p).effects w es last)
    story := fun w ps => rests _ _ ((tending p).story w ps)
    mark := mark
    sessions := fun _ _ => rests _ _ ⟨rfl, List.suffix_rfl, rfl, rfl, rfl⟩
    newProcessor := fun _ _ => of_rests fun _ => newProcessor fun _ => ⟨rfl, rfl⟩
    newExternal := newExternal
    subscribe := fun q x => of_rests (subscribe q x)
    setChain := flow.setChain fun q _ => of_rests (modifyProcessor q (fun _ => rfl) fun _ => rfl)
    setEnabled := fun q _ _ => of_rests (modifyProcessor q (fun _ => rfl) fun _ => rfl)
    counted := fun q => of_rests (modifyProcessor q (fun _ => rfl) fun _ => rfl) }

theorem proceeds {intruded : Prop} (h : Rests p u w) : Proceeds intruded p u w where
  leads :=
    { external := fun external => h.external.trans external
      course := fun _ => ⟨[], by rw [List.append_nil]; exact h.acts, by
        simpa [World.now, h.phase] using Course.rest _⟩ }
  moments _ := ⟨[], h.moments, .nil, by simp⟩

end Rests

namespace Proceeds

variable {intruded : Prop} {p : ProcessorId} {u v w : World S}

theorem refl (w : World S) : Proceeds intruded p w w where
  leads := .refl p _
  moments _ := ⟨[], rfl, .nil, by simp⟩

theorem trans (first : Proceeds intruded p u v) (second : Proceeds intruded p v w) :
    Proceeds intruded p u w where
  leads := first.leads.trans second.leads
  moments quiet := by
    obtain ⟨ms, eq, ordered, between⟩ := first.moments quiet
    obtain ⟨ns, eq', ordered', between'⟩ := second.moments quiet
    refine ⟨ns ++ ms, by rw [eq', eq, List.append_assoc], ?_, ?_⟩
    · refine List.pairwise_append.mpr ⟨ordered', ordered, fun n later m earlier => ?_⟩
      exact (between m earlier).2.trans (between' n later).1
    · intro m seen
      obtain later | earlier := List.mem_append.mp seen
      · exact ⟨first.leads.trans (between' m later).1, (between' m later).2⟩
      · exact ⟨(between m earlier).1, (between m earlier).2.trans second.leads⟩

theorem of_rests {m : Run S α} (rests : Keeps (Rests p) m) : Keeps (Proceeds intruded p) m :=
  fun w => (rests w).mono fun _ _ rest => rest.proceeds

/-- A processor of the application has no course to follow. -/
theorem newExternal (name : String) (phase : Phase) (tracks : List TrackPlan) :
    Keeps (Proceeds intruded p) (Run.newProcessor (.newExternal name phase tracks) : Run S _) := by
  intro w
  by_cases made : p = w.rig.processors.length
  · simp only [Run.newProcessor, ensures_bind, ensures_get, ensures_modifyRig, ensures_pure]
    refine ⟨⟨fun h => ?_, fun h => ?_⟩, fun _ => ⟨[], rfl, .nil, by simp⟩⟩
    · simp [World.now, Rig.isExternal, made] at h
    · simp [World.now, Rig.isExternal, made, Processor.newExternal] at h
  · exact (Rests.newProcessor fun h => absurd h made).mono fun _ _ rest => rest.proceeds

theorem mark : Keeps (S := S) (Proceeds intruded p) Run.mark := fun w =>
  ensures_mark.mpr
    { leads := .refl p _
      moments := fun _ => ⟨[w.now], rfl, List.pairwise_singleton .., fun m seen => by
        obtain rfl := List.mem_singleton.mp seen
        exact ⟨.refl p _, .refl p _⟩⟩ }

theorem plain (intruded : Prop) (p : ProcessorId) : Plain (Proceeds (S := S) intruded p) :=
  Rests.plain ⟨refl, trans⟩ (fun _ _ => Rests.proceeds) mark newExternal

theorem tending (intruded : Prop) (p : ProcessorId) :
    Tending (fun _ => True) (Proceeds (S := S) intruded p) where
  toLoose := (plain intruded p).toLoose
  holding q _ := (plain intruded p).holding fun _ =>
    of_rests (Rests.modifyProcessor q (fun _ => rfl) fun _ => rfl)
  opened x := of_rests ((Rests.tending p).opened x)
  closed x := of_rests ((Rests.tending p).closed x)
  setOpen q i isOpen := of_rests ((Rests.tending p).setOpen q i isOpen)

variable {app : Application S} {again : {β : Type} → Call β → Run S β}

/-- Once an event is announced, telling it to the subscribers is no act of any processor. -/
theorem emit (answers : Answers (Proceeds intruded p) again) (q : ProcessorId) (e : Event) :
    Ensures (emit app again q e) w
      fun _ w' => Proceeds intruded p (w.record (.announced q e)) w' := by
  have h := plain (S := S) intruded p
  have heard (x : Subscriber) : Keeps (Proceeds intruded p) (Run.record (.told x q e) : Run S _) :=
    of_rests fun w => ensures_record.mpr (.record rfl)
  simp only [Metering.emit, ensures_bind, ensures_record, ensures_processor]
  intro y known
  exact h.each (h.deliver answers heard) _ _

/-- Plug-ins that are tended leave a processor at rest, or intrude and take it further. -/
theorem tended {m : Run S α} (calm : intruded ∨ app.QuietPlugIns)
    (answers : Answers (Proceeds intruded p) again)
    (keeps : ∀ R : World S → World S → Prop, Tending (fun _ => True) R →
      PlugInsKeep app again R → Keeps R m)
    (w : World S) :
    Ensures m w fun _ w' => Rests p w w' ∨ intruded ∧ Proceeds intruded p w w' := by
  obtain intrudes | quiet := calm
  · have h := keeps _ (tending intruded p) ((plain intruded p).plugIns answers)
    exact (h w).mono fun _ _ next => .inr ⟨intrudes, next⟩
  · have h := keeps _ (Rests.tending p) ((Rests.tending p).plugIns quiet)
    exact (h w).mono fun _ _ next => .inl next

end Proceeds

end Metering
