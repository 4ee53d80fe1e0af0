import Metering.Proofs.Tending
/-!
Chains are held only while plug-ins are called to agree on formats, to open or to close. Whatever an
application does, the chains that are held afterwards are those that were held before, and so none
is held when it has come to its end.
-/

namespace Metering

variable {S α : Type}

/-- The same chains of a processor are held as before. -/
def Restores (p : ProcessorId) (w w' : World S) : Prop := w'.rig.held p = w.rig.held p

section Modify

variable {w : World S} {p : ProcessorId} {f : Processor → Processor}

theorem World.modify_held_of_ne {q : ProcessorId} (apart : p ≠ q) :
    (w.modify p f).rig.held q = w.rig.held q := by
  simp [Rig.held, apart]

theorem World.hold_held {x : Processor} (known : w.rig.processors[p]? = some x) (i : Nat) :
    (w.modify p (·.hold i)).rig.held p = i :: w.rig.held p := by
  simp [Rig.held, known, Processor.hold]

theorem World.letGo_held : (w.modify p (·.letGo)).rig.held p = (w.rig.held p).tail := by
  cases known : w.rig.processors[p]? with
  | none => simp [Rig.held, known]
  | some x => simp [Rig.held, known, Processor.letGo]

end Modify

namespace Restores

variable {p : ProcessorId} {u v w : World S} {app : Application S}
variable {again : {β : Type} → Call β → Run S β}

theorem of_processors (same : v.rig.processors = w.rig.processors) : Restores p w v := by
  rw [Restores, Rig.held, same, Rig.held]

theorem flow (p : ProcessorId) : Flow (Restores (S := S) p) where
  refl _ := rfl
  trans first second := second.trans first

theorem record (e : Entry) : Keeps (S := S) (Restores p) (Run.record e) :=
  fun _ => ensures_record.mpr (of_processors rfl)

theorem modify (q : ProcessorId) {f : Processor → Processor} (same : ∀ x, (f x).held = x.held) :
    Keeps (S := S) (Restores p) (Run.modifyProcessor q f) := by
  refine fun w => ensures_modifyProcessor.mpr ?_
  by_cases here : q = p
  · subst here
    cases known : w.rig.processors[q]? with
    | none => simp [Restores, Rig.held, known]
    | some x => simp [Restores, Rig.held, known, same]
  · exact World.modify_held_of_ne here

/-- What is held for the time of some calls is let go of after them. -/
theorem holding (q : ProcessorId) (i : Nat) {calls : Run S α} (keeps : Keeps (Restores p) calls) :
    Keeps (Restores p) (Run.holding q i calls) := by
  intro w
  refine ensures_holding.mpr fun x known _ => (keeps _).mono fun _ v same => ?_
  unfold Restores at same ⊢
  by_cases here : q = p
  · subst here
    rw [World.letGo_held, same, World.hold_held known, List.tail_cons]
  · rw [World.modify_held_of_ne here, same, World.modify_held_of_ne here]

theorem newProcessor {x : Processor} (nothing : x.held = []) :
    Keeps (S := S) (Restores p) (Run.newProcessor x) := by
  intro w
  simp only [Run.newProcessor, ensures_bind, ensures_get, ensures_modifyRig, ensures_pure, Restores]
  obtain before | here | behind := Nat.lt_trichotomy p w.rig.processors.length
  · simp [Rig.held, List.getElem?_append_left before]
  · simp [Rig.held, here, nothing]
  · have absent : (w.rig.processors ++ [x])[p]? = none := List.getElem?_eq_none (by simpa)
    simp [Rig.held, absent, List.getElem?_eq_none (Nat.le_of_lt behind)]

theorem plain (p : ProcessorId) : Plain (Restores (S := S) p) where
  toFlow := flow p
  own _ _ := of_processors rfl
  aside e _ := record e
  effects _ _ _ := of_processors rfl
  story _ _ := of_processors rfl
  mark _ := ensures_mark.mpr (of_processors rfl)
  sessions _ _ := of_processors rfl
  newProcessor _ _ := newProcessor rfl
  newExternal _ _ _ := newProcessor rfl
  subscribe q _ := (flow p).bind ((flow p).processor q) fun _ =>
    (flow p).bind (modify q fun _ => rfl) fun _ => record _
  setChain := (flow p).setChain fun q _ => modify q fun _ => rfl
  setEnabled q _ _ := modify q fun _ => rfl
  counted q := modify q fun _ => rfl

theorem steady (app : Application S) (p : ProcessorId) :
    Steady app (fun _ => True) (Restores p) where
  toPlain := plain p
  holding q _ := holding q
  opened _ := record _
  closed _ := record _
  setOpen q _ _ := modify q fun _ => rfl
  moveTo q _ _ := (flow p).bind ((flow p).processor q) fun _ =>
    (flow p).bind (modify q fun _ => rfl) fun _ => record _
  readied _ _ _ := record _
  lockTracks q _ := modify q fun _ => rfl
  emit again answers q _ e :=
    (plain p).emit (fun _ _ => record _) (fun _ _ _ => record _) again answers q e

theorem lawful (app : Application S) (p : ProcessorId) : Lawful app (Restores p) :=
  (steady app p).lawful fun _ => trivial

/-- If nothing was held before, nothing is. -/
theorem free (h : Restores p w v) (before : ∀ x, w.rig.processors[p]? = some x → x.held = [])
    {y : Processor} (known : v.rig.processors[p]? = some y) : y.held = [] := by
  rw [← Rig.held_of known, h]
  cases was : w.rig.processors[p]? with
  | none => simp [Rig.held, was]
  | some x => rw [Rig.held_of was, before x was]

end Restores

end Metering
