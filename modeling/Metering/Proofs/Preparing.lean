import Metering.Proofs.Tending
/-!
What the journal says of a processor that prepared its chains. Between the moment it began and the
moment it was ready, the plug-ins of its tracks accepted a format, one chain after the other, and
then they were opened in the same order.
-/

namespace Metering

variable {S α β : Type}

def Entry.accepted? : Entry → Option PlugIn
  | .accepted x => some x
  | _ => none

def Entry.opened? : Entry → Option PlugIn
  | .opened x => some x
  | _ => none

/-- The plug-ins that accepted a format, from the first to the last. -/
def acceptances (journal : List Entry) : List PlugIn :=
  (journal.filterMap Entry.accepted?).reverse

def openings (journal : List Entry) : List PlugIn := (journal.filterMap Entry.opened?).reverse

theorem acceptances_cons (e : Entry) (journal : List Entry) :
    acceptances (e :: journal) = acceptances journal ++ e.accepted?.toList := by
  simp only [acceptances, List.filterMap_cons]
  cases e.accepted? <;> simp

theorem openings_cons (e : Entry) (journal : List Entry) :
    openings (e :: journal) = openings journal ++ e.opened?.toList := by
  simp only [openings, List.filterMap_cons]
  cases e.opened? <;> simp

theorem acceptances_append (later earlier : List Entry) :
    acceptances (later ++ earlier) = acceptances earlier ++ acceptances later := by
  simp [acceptances]

theorem openings_append (later earlier : List Entry) :
    openings (later ++ earlier) = openings earlier ++ openings later := by
  simp [openings]

/-- A processor changes its phase, or it is ready to realize. -/
def Entry.isTurn : Entry → Bool
  | .moved .. | .readied .. => true
  | _ => false

def Processor.chain (x : Processor) (i : Nat) : List PlugIn :=
  (x.tracks[i]?).elim [] (·.chain)

def Processor.shut (x : Processor) : Processor :=
  { x with tracks := x.tracks.map fun t => { t with isOpen := false } }

section Shut

variable {x y : Processor}

theorem Processor.shut_track (i : Nat) :
    x.shut.tracks[i]? = (x.tracks[i]?).map fun t => { t with isOpen := false } := by
  simp [Processor.shut]

theorem Processor.shut_chain : x.shut.chain = x.chain := by
  funext i
  rw [Processor.chain, Processor.shut_track, Processor.chain]
  cases x.tracks[i]? with
  | none => rfl
  | some t => rfl

theorem Processor.shut_enabledTracks : x.shut.enabledTracks = x.enabledTracks := by
  simp [Processor.enabledTracks, Processor.shut, Option.any_map]

theorem Processor.locked_of_shut (same : y.shut = x.shut)
    (locked : ∀ t ∈ x.tracks, t.locked = true) : ∀ t ∈ y.tracks, t.locked = true := by
  have locks := congrArg (fun z : Processor => z.tracks.map (·.locked)) same
  simp only [Processor.shut, List.map_map, Function.comp_def] at locks
  intro t member
  have member : t.locked ∈ y.tracks.map (·.locked) := List.mem_map_of_mem member
  rw [locks] at member
  obtain ⟨u, member, eq⟩ := List.mem_map.mp member
  exact eq ▸ locked u member

/-- It makes no difference to a processor with no chain open that a chain is opened or closed. -/
theorem Processor.shut_modifyTrack (i : Nat) (isOpen : Bool) :
    (x.modifyTrack i fun t => { t with isOpen }).shut = x.shut := by
  have tracks : (x.modifyTrack i fun t => { t with isOpen }).shut.tracks = x.shut.tracks := by
    apply List.ext_getElem?
    intro j
    rw [Processor.shut_track, Processor.shut_track, Processor.modifyTrack, List.getElem?_modify]
    cases x.tracks[j]? with
    | none => rfl
    | some t =>
      by_cases here : i = j
      · simp [here]
      · simp [here]
  exact congrArg (fun ts => { x with tracks := ts }) tracks

end Shut

/-- The processors differ in nothing but which of their chains are open. -/
def Rig.Agrees (r r' : Rig) : Prop :=
  r'.processors.map Processor.shut = r.processors.map Processor.shut

namespace Rig.Agrees

variable {r r' r'' : Rig} {p : ProcessorId} {y : Processor}

theorem refl (r : Rig) : r.Agrees r := rfl

theorem trans (first : r.Agrees r') (second : r'.Agrees r'') : r.Agrees r'' :=
  Eq.trans second first

/-- Every processor was there before. -/
theorem origin (h : r.Agrees r') (known : r'.processors[p]? = some y) :
    ∃ x, r.processors[p]? = some x ∧ y.shut = x.shut := by
  have shut := congrArg (·[p]?) h
  simp only [List.getElem?_map, known, Option.map_some] at shut
  obtain ⟨x, known', same⟩ := Option.map_eq_some_iff.mp shut.symm
  exact ⟨x, known', same.symm⟩

/-- Every processor is still there, with the same chains. -/
theorem kept {x : Processor} (h : r.Agrees r') (known : r.processors[p]? = some x) :
    ∃ y, r'.processors[p]? = some y ∧ y.chain = x.chain := by
  obtain ⟨y, known', same⟩ := origin (Eq.symm h) known
  exact ⟨y, known', by rw [← Processor.shut_chain, ← same, Processor.shut_chain]⟩

/-- Both are changed alike, in nothing that has to do with open chains. -/
theorem modify (h : r.Agrees r') (p : ProcessorId) {f : Processor → Processor}
    (same : ∀ x, (f x).shut = f x.shut) :
    Rig.Agrees { r with processors := r.processors.modify p f }
      { r' with processors := r'.processors.modify p f } := by
  simp only [Rig.Agrees, map_modify fun x _ => same x]
  rw [h]

theorem setOpen (w : World S) (p : ProcessorId) (i : Nat) (isOpen : Bool) :
    w.rig.Agrees (w.modify p fun x => x.modifyTrack i fun t => { t with isOpen }).rig := by
  apply List.ext_getElem?
  intro q
  rw [List.getElem?_map, List.getElem?_map, World.modify_processors, List.getElem?_modify]
  cases w.rig.processors[q]? with
  | none => rfl
  | some x =>
    by_cases here : p = q
    · simp [here, Processor.shut_modifyTrack]
    · simp [here]

end Rig.Agrees

/-- Plug-ins are tended: chains may be opened and closed, and no processor takes a turn. -/
structure Tends (w w' : World S) : Prop where
  agrees : w.rig.Agrees w'.rig
  journal : ∃ done, w'.journal = done ++ w.journal ∧ ∀ e ∈ done, e.isTurn = false

namespace Tends

variable {u v w : World S}

theorem refl (w : World S) : Tends w w := ⟨.refl _, [], rfl, by simp⟩

theorem trans (first : Tends u v) (second : Tends v w) : Tends u w := by
  obtain ⟨earlier, eq, still⟩ := first.journal
  obtain ⟨later, eq', still'⟩ := second.journal
  refine ⟨first.agrees.trans second.agrees, later ++ earlier, by rw [eq', eq, List.append_assoc],
    fun e member => ?_⟩
  obtain member | member := List.mem_append.mp member
  · exact still' e member
  · exact still e member

theorem holding (p : ProcessorId) (i : Nat) {calls : Run S α} (keeps : Keeps Tends calls) :
    Keeps Tends (Run.holding p i calls) := by
  intro w
  refine Ensures.holding (R := fun u _ v => Tends u v) (fun next => ?_) (keeps _)
  exact ⟨next.agrees.modify p fun _ => rfl, next.journal⟩

theorem record {e : Entry} (still : e.isTurn = false) : Keeps (S := S) Tends (Run.record e) := by
  intro w
  exact ensures_record.mpr ⟨.refl _, [e], rfl, by simpa using still⟩

theorem tending : Tending (fun _ => True) (Tends (S := S)) where
  refl := refl
  trans := trans
  own _ _ := ⟨.refl _, [], rfl, by simp⟩
  aside e aside := record (by cases e <;> first | rfl | cases aside)
  effects _ _ _ := ⟨.refl _, [], rfl, by simp⟩
  story _ _ := ⟨.refl _, [], rfl, by simp⟩
  holding p _ := holding p
  opened _ := record rfl
  closed _ := record rfl
  setOpen p i isOpen w :=
    ensures_modifyProcessor.mpr ⟨.setOpen w p i isOpen, [], rfl, by simp⟩

end Tends

/-- Plug-ins are tended with success: these accepted a format, and those were opened. -/
structure Gains (agreed begun : List PlugIn) (w w' : World S) : Prop where
  agrees : w.rig.Agrees w'.rig
  accepted : acceptances w'.journal = acceptances w.journal ++ agreed
  opened : openings w'.journal = openings w.journal ++ begun

namespace Gains

variable {u v w : World S} {a b c d : List PlugIn}

theorem trans (first : Gains a b u v) (second : Gains c d v w) : Gains (a ++ c) (b ++ d) u w where
  agrees := first.agrees.trans second.agrees
  accepted := by rw [second.accepted, first.accepted, List.append_assoc]
  opened := by rw [second.opened, first.opened, List.append_assoc]

theorem congr (h : Gains a b u v) (accepted : a = c) (opened : b = d) : Gains c d u v :=
  accepted ▸ opened ▸ h

theorem flow : Flow (Gains (S := S) [] []) where
  refl w := ⟨.refl _, by simp, by simp⟩
  trans first second := first.trans second

theorem record (e : Entry) :
    Gains e.accepted?.toList e.opened?.toList w (w.record e) where
  agrees := .refl _
  accepted := acceptances_cons e _
  opened := openings_cons e _

theorem quiet {again : {β : Type} → Call β → Run S β} {p : Program S α} (q : p.Quiet) :
    Keeps (Gains [] []) (p.run again) :=
  flow.quiet (fun w _ => ⟨.refl _, by simp, by simp⟩)
    (fun text _ => ensures_record.mpr (record (.note text))) q

/-- What has happened so far is followed by something that gains nothing. -/
theorem follow {m : Run S α} (first : Gains a b u w) (rest : Keeps (Gains [] []) m) :
    Ensures m w fun _ => Gains a b u :=
  (rest w).mono fun _ _ next => (first.trans next).congr (List.append_nil _) (List.append_nil _)

/-- What is gained while a chain is held is gained. -/
theorem holding {P : α → Prop} (p : ProcessorId) (i : Nat) {calls : Run S α}
    (gains : Ensures calls (w.modify p (·.hold i)) fun r v =>
      P r → Gains a b (w.modify p (·.hold i)) v) :
    Ensures (Run.holding p i calls) w fun r v => P r → Gains a b w v := by
  refine Ensures.holding (R := fun u r v => P r → Gains a b u v) (fun next succeeds => ?_) gains
  obtain ⟨agrees, accepted, opened⟩ := next succeeds
  exact ⟨agrees.modify p fun _ => rfl, accepted, opened⟩

theorem setOpen (h : Gains a b u w) (p : ProcessorId) (i : Nat) (isOpen : Bool) :
    Gains a b u (w.modify p fun x => x.modifyTrack i fun t => { t with isOpen }) where
  agrees := h.agrees.trans (.setOpen w p i isOpen)
  accepted := h.accepted
  opened := h.opened

variable {app : Application S} {again : {β : Type} → Call β → Run S β}
variable (plugIns : app.QuietPlugIns)
include plugIns

theorem offer (x : PlugIn) (f : Format) : Ensures (Chain.offer app again x f) w fun _ =>
    Gains [] [] w := by
  cases x with
  | effect e =>
    simp only [Chain.offer, Chain.offerEffect, ensures_bind, ensures_effect, ensures_modifyEffect,
      ensures_pure]
    intro _ _
    exact ⟨.refl _, by simp, by simp⟩
  | codec c name =>
    apply Ensures.record
    exact (record (.codec c .setInputFormat)).follow (quiet (plugIns.offer c f))

theorem negotiate (chain : List PlugIn) (f : Format) :
    Ensures (Chain.negotiate app again chain f) w fun r w' =>
      r.isOk = true → Gains chain [] w w' := by
  induction chain generalizing f w with
  | nil => exact ensures_pure.mpr fun _ => flow.refl w
  | cons x xs ih =>
    refine Ensures.bind (offer plugIns x f) ?_
    intro answer v offered
    cases answer with
    | none => exact ensures_pure.mpr fun failed => by cases failed
    | some g =>
      apply Ensures.record
      refine (ih g).mono ?_
      intro r w' rest succeeds
      exact (offered.trans (record (.accepted x))).trans (rest succeeds)

theorem openPlugIn (x : PlugIn) : Ensures (Chain.openPlugIn app again x) w fun r w' =>
    r.isOk = true → Gains [] [x] w w' := by
  have succeeds {v : World S} (h : Gains [] [] w v) :
      Ensures (do Run.record (.opened x); return .ok () : Run S (Except Fault Unit)) v fun r w' =>
        r.isOk = true → Gains [] [x] w w' := by
    apply Ensures.record
    exact ensures_pure.mpr fun _ => h.trans (record (.opened x))
  cases x with
  | effect e => exact succeeds (flow.refl w)
  | codec c name =>
    apply Ensures.record
    refine Ensures.bind ((record (.codec c .opens)).follow (quiet (plugIns.opens c))) ?_
    intro r v asked
    cases r with
    | ok => exact succeeds asked
    | error f => exact ensures_pure.mpr fun failed => by cases failed

theorem openAll (before chain : List PlugIn) :
    Ensures (Chain.openAll app again before chain) w fun r w' =>
      r.isOk = true → Gains [] chain w w' := by
  induction chain generalizing before w with
  | nil => exact ensures_pure.mpr fun _ => flow.refl w
  | cons x xs ih =>
    refine Ensures.bind (openPlugIn plugIns x) ?_
    intro r v opened
    cases r with
    | ok =>
      refine (ih (before ++ [x])).mono ?_
      intro r w' rest succeeds
      exact (opened rfl).trans (rest succeeds)
    | error f =>
      apply Ensures.notice
      refine Ensures.bind (P := fun _ _ => True) (fun _ _ _ => trivial) ?_
      intro _ _ _
      exact ensures_pure.mpr fun failed => by cases failed

section Tracks

variable {p : ProcessorId} {x : Processor}

theorem negotiateTracks (known : w.rig.processors[p]? = some x) (is : List Nat) :
    Ensures (negotiateTracks app again p is) w fun r w' =>
      r.isOk = true → Gains (is.flatMap x.chain) [] w w' := by
  induction is generalizing w x with
  | nil => exact ensures_pure.mpr fun _ => flow.refl w
  | cons i is ih =>
    refine Ensures.track_of known ?_
    cases track : x.tracks[i]? with
    | none =>
      have bare : x.chain i = [] := by simp [Processor.chain, track]
      refine (ih known).mono ?_
      intro r w' rest succeeds
      exact (rest succeeds).congr (by simp [bare]) rfl
    | some t =>
      have chain : x.chain i = t.chain := by simp [Processor.chain, track]
      refine Ensures.bind (holding p i (negotiate plugIns t.chain t.format)) ?_
      intro r v agreed
      cases r with
      | error f => exact ensures_pure.mpr fun failed => by cases failed
      | ok f =>
        have agreed := agreed rfl
        obtain ⟨y, known', same⟩ := agreed.agrees.kept known
        refine (ih known').mono ?_
        intro r w' rest succeeds
        exact (agreed.trans (rest succeeds)).congr (by simp [chain, same]) rfl

theorem openTrack (known : w.rig.processors[p]? = some x) (i : Nat) :
    Ensures (openTrack app again p i) w fun r w' =>
      r.isOk = true → Gains [] (x.chain i) w w' := by
  refine Ensures.track_of known ?_
  cases track : x.tracks[i]? with
  | none =>
    have bare : x.chain i = [] := by simp [Processor.chain, track]
    exact ensures_pure.mpr fun _ => (flow.refl w).congr rfl bare.symm
  | some t =>
    have chain : x.chain i = t.chain := by simp [Processor.chain, track]
    refine Ensures.bind (holding p i (openAll plugIns [] t.chain)) ?_
    intro r v opened
    cases r with
    | error f => exact ensures_pure.mpr fun failed => by cases failed
    | ok =>
      refine ensures_bind.mpr (ensures_modifyProcessor.mpr (ensures_pure.mpr ?_))
      intro succeeds
      exact ((opened succeeds).setOpen p i true).congr rfl chain.symm

theorem openTracks (known : w.rig.processors[p]? = some x) (before is : List Nat) :
    Ensures (openTracks app again p before is) w fun r w' =>
      r.isOk = true → Gains [] (is.flatMap x.chain) w w' := by
  induction is generalizing w x before with
  | nil => exact ensures_pure.mpr fun _ => flow.refl w
  | cons i is ih =>
    refine Ensures.bind (openTrack plugIns known i) ?_
    intro r v opened
    cases r with
    | ok =>
      have opened := opened rfl
      obtain ⟨y, known', same⟩ := opened.agrees.kept known
      refine (ih known' (before ++ [i])).mono ?_
      intro r w' rest succeeds
      exact (opened.trans (rest succeeds)).congr rfl (by simp [same])
    | error f =>
      refine Ensures.bind (P := fun _ _ => True) (fun _ _ _ => trivial) ?_
      intro _ _ _
      exact ensures_pure.mpr fun failed => by cases failed

/-- A processor that prepared its enabled tracks did so with all plug-ins in their chains. -/
theorem prepare (known : w.rig.processors[p]? = some x) :
    Ensures (prepare app again p) w fun r w' => r.isOk = true →
      Gains (x.enabledTracks.flatMap x.chain) (x.enabledTracks.flatMap x.chain) w w' := by
  refine Ensures.processor_of known ?_
  refine Ensures.bind (negotiateTracks plugIns known x.enabledTracks) ?_
  intro r v agreed
  cases r with
  | error f => exact ensures_pure.mpr fun failed => by cases failed
  | ok =>
    have agreed := agreed rfl
    obtain ⟨y, known', same⟩ := agreed.agrees.kept known
    refine (openTracks plugIns known' [] x.enabledTracks).mono ?_
    intro r w' rest succeeds
    exact (agreed.trans (rest succeeds)).congr (List.append_nil _) (by simp [same])

end Tracks

end Gains

end Metering
