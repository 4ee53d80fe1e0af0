import Metering.Proofs.Readiness
import Metering.Proofs.Releasing
import Metering.Proofs.Transitions
/-!
Until when a chain can be exchanged. A chain is locked when its processor has realized, and not
before, whatever the plug-ins do in the meantime. So the rule that there is no exchange past the
configured phase is kept while a processor is up, and broken while it realizes and after it was
closed without ever having realized. Then an exchange is accepted, unless it comes from a plug-in of
the very chain, which is held while the plug-in is called: such an exchange never ends. In all other
phases the chains are free.
-/

namespace Metering

variable {S α : Type} {app : Application S} {again : {β : Type} → Call β → Run S β}

def HasRealized (p : ProcessorId) (journal : List Entry) : Prop :=
  .moved .realized ∈ acts p journal

instance (p : ProcessorId) (journal : List Entry) : Decidable (HasRealized p journal) :=
  inferInstanceAs (Decidable (_ ∈ _))

/-- The phases in which a processor tends its plug-ins. It may have been closed while it did. -/
def Phase.Tends (phase : Phase) : Prop := phase = .realizing ∨ phase = .closed

/-- The chains of a processor are locked exactly if it has realized before, and so its phase says
whether they are, unless it is closed. They are held only while it tends its plug-ins. -/
structure Moment.Latched (p : ProcessorId) (m : Moment) : Prop where
  locked : ∀ x, m.rig.processors[p]? = some x →
    ∀ t ∈ x.tracks, t.locked = true ↔ HasRealized p m.journal
  phase : m.rig.phase p ≠ .closed →
    ((m.rig.phase p).hadRealized = true ↔ HasRealized p m.journal)
  held : m.rig.held p ≠ [] → (m.rig.phase p).Tends

/-- The chains of a processor are locked as its past has it, and were so at every moment. Those
that were locked are the same to this day. -/
structure World.Latched (p : ProcessorId) (w : World S) : Prop where
  now : w.now.Latched p
  moments : ∀ m ∈ w.moments, m.rig.isExternal p = false ∧ m.Latched p ∧
    (HasRealized p m.journal → HasRealized p w.journal ∧ w.rig.chain p = m.rig.chain p)

/-- A processor goes on in its course, and its chains are locked as its past has it; if it is
`tended`, that is said only of the phases in which it tends its plug-ins. -/
structure Latches (tended : Prop) (p : ProcessorId) (w w' : World S) : Prop where
  proceeds : Proceeds True p w w'
  restores : Restores p w w'
  latched : w'.rig.isExternal p = false → (tended → (w.rig.phase p).Tends) →
    w.Latched p → w'.Latched p

theorem Moment.Latched.tends {p : ProcessorId} {m : Moment} {x : Processor} (h : m.Latched p)
    (known : m.rig.processors[p]? = some x) (holds : x.held ≠ []) : x.phase.Tends := by
  have tends := h.held
  rw [Rig.held_of known, Rig.phase_of known] at tends
  exact tends holds

/-- A processor rests, and so do the locks of its chains and what is locked. -/
structure StaysLatched (p : ProcessorId) (w w' : World S) : Prop where
  rests : Rests p w w'
  locks : (w'.rig.processors[p]?).map (fun y => y.tracks.map (·.locked)) =
    (w.rig.processors[p]?).map fun x => x.tracks.map (·.locked)
  chain : (∀ x, w.rig.processors[p]? = some x → ∀ t ∈ x.tracks, t.locked = true) →
    w'.rig.chain p = w.rig.chain p

section Locks

variable {x y : Processor}

theorem Processor.locked_of_locks {b : Prop}
    (same : y.tracks.map (·.locked) = x.tracks.map (·.locked))
    (h : ∀ t ∈ x.tracks, t.locked = true ↔ b) : ∀ t ∈ y.tracks, t.locked = true ↔ b := by
  intro t member
  have member : t.locked ∈ y.tracks.map (·.locked) := List.mem_map_of_mem member
  rw [same] at member
  obtain ⟨u, member, eq⟩ := List.mem_map.mp member
  exact eq ▸ h u member

theorem Processor.locks_modifyTrack {i : Nat} {f : Track → Track}
    (same : ∀ t, x.tracks[i]? = some t → (f t).locked = t.locked) :
    (x.modifyTrack i f).tracks.map (·.locked) = x.tracks.map (·.locked) := by
  apply List.ext_getElem?
  intro j
  rw [List.getElem?_map, List.getElem?_map, Processor.modifyTrack, List.getElem?_modify]
  cases track : x.tracks[j]? with
  | none => rfl
  | some t =>
    by_cases here : i = j
    · subst here
      simp [same t track]
    · simp [here]

theorem Processor.chain_modifyTrack {i : Nat} {f : Track → Track}
    (same : ∀ t, x.tracks[i]? = some t → (f t).chain = t.chain) :
    (x.modifyTrack i f).chain = x.chain := by
  funext j
  simp only [Processor.chain, Processor.modifyTrack, List.getElem?_modify]
  cases track : x.tracks[j]? with
  | none => rfl
  | some t =>
    by_cases here : i = j
    · subst here
      simp [same t track]
    · simp [here]

end Locks

namespace StaysLatched

variable {tended : Prop} {p q : ProcessorId} {u v w : World S}

theorem trans (first : StaysLatched p u v) (second : StaysLatched p v w) : StaysLatched p u w where
  rests := first.rests.trans second.rests
  locks := second.locks.trans first.locks
  chain locked := by
    refine (second.chain fun y known => ?_).trans (first.chain locked)
    have locks := first.locks
    rw [known] at locks
    obtain ⟨x, known', same⟩ := Option.map_eq_some_iff.mp locks.symm
    have all : ∀ t ∈ x.tracks, t.locked = true ↔ True := by simpa using locked x known'
    simpa using Processor.locked_of_locks same.symm all

theorem of_processors (rests : Rests p w v)
    (same : v.rig.processors[p]? = w.rig.processors[p]?) : StaysLatched p w v where
  rests := rests
  locks := by rw [same]
  chain _ := by
    funext i
    rw [Rig.chain, Rig.chain, same]

theorem flow (p : ProcessorId) : Flow (StaysLatched (S := S) p) where
  refl w := of_processors (.refl w) rfl
  trans := trans

theorem record {e : Entry} (silent : e.act? p = none) :
    Keeps (S := S) (StaysLatched p) (Run.record e) := fun _ =>
  ensures_record.mpr (of_processors (.record silent) rfl)

/-- A change of a processor that leaves its locks, and its chains if they are locked. -/
theorem modify {f : Processor → Processor} (phase : ∀ x, (f x).phase = x.phase)
    (external : ∀ x, (f x).isExternal = x.isExternal)
    (locks : ∀ x, w.rig.processors[q]? = some x →
      (f x).tracks.map (·.locked) = x.tracks.map (·.locked))
    (chain : ∀ x, w.rig.processors[q]? = some x → (∀ t ∈ x.tracks, t.locked = true) →
      (f x).chain = x.chain) : StaysLatched p w (w.modify q f) := by
  by_cases here : q = p
  · subst here
    refine ⟨.modify q phase external, ?_, fun locked => ?_⟩
    · rw [World.modify_processors, List.getElem?_modify_eq]
      cases known : w.rig.processors[q]? with
      | none => rfl
      | some x => exact congrArg some (locks x known)
    · funext i
      rw [Rig.chain, Rig.chain, World.modify_processors, List.getElem?_modify_eq]
      cases known : w.rig.processors[q]? with
      | none => rfl
      | some x => exact congrFun (chain x known (locked x known)) i
  · exact of_processors (.modify q phase external) (by simp [here])

theorem modifyProcessor {f : Processor → Processor} (phase : ∀ x, (f x).phase = x.phase)
    (external : ∀ x, (f x).isExternal = x.isExternal) (tracks : ∀ x, (f x).tracks = x.tracks) :
    Keeps (S := S) (StaysLatched p) (Run.modifyProcessor q f) := fun _ =>
  ensures_modifyProcessor.mpr (modify phase external (fun x _ => by rw [tracks]) fun x _ _ => by
    funext i
    rw [Processor.chain, tracks, Processor.chain])

theorem modifyTrack {i : Nat} {f : Track → Track} (locks : ∀ t, (f t).locked = t.locked)
    (chain : ∀ t, (f t).chain = t.chain) :
    Keeps (S := S) (StaysLatched p) (Run.modifyTrack q i f) := fun _ =>
  ensures_modifyProcessor.mpr (modify (fun _ => rfl) (fun _ => rfl)
    (fun _ _ => Processor.locks_modifyTrack fun t _ => locks t)
    fun _ _ _ => Processor.chain_modifyTrack fun t _ => chain t)

/-- Where a chain can be exchanged, not all are locked. -/
theorem setChain (i : Nat) (chain : List PlugIn) :
    Keeps (S := S) (StaysLatched p) (setChain q i chain) := by
  intro w
  apply Ensures.track
  intro x known
  split
  · exact ensures_pure.mpr ((flow p).refl w)
  case h_2 t track =>
    split
    case h_2 => exact ensures_pure.mpr ((flow p).refl w)
    case h_1 u set =>
      obtain ⟨unlocked, rfl⟩ := Track.setChain_ok set
      apply Ensures.awaitChain
      refine ensures_bind.mpr (ensures_modifyProcessor.mpr (ensures_pure.mpr ?_))
      refine modify (fun _ => rfl) (fun _ => rfl) (fun y known' => ?_) fun y known' locked => ?_
      all_goals obtain rfl := Option.some.inj (known.symm.trans known')
      · refine Processor.locks_modifyTrack fun t' track' => ?_
        obtain rfl := Option.some.inj (track.symm.trans track')
        rfl
      · have here := locked t (List.mem_of_getElem? track)
        exact absurd (here.symm.trans unlocked) Bool.noConfusion

theorem latched (h : StaysLatched p w v)
    (held : v.rig.held p ≠ [] → (v.rig.phase p).Tends) (before : w.Latched p) : v.Latched p := by
  have realized : HasRealized p v.journal ↔ HasRealized p w.journal := by
    rw [HasRealized, HasRealized, h.rests.acts]
  refine ⟨⟨fun y known => ?_, ?_, held⟩, fun m seen => ?_⟩
  · have locks := h.locks
    rw [show v.rig.processors[p]? = some y from known] at locks
    obtain ⟨x, known', same⟩ := Option.map_eq_some_iff.mp locks.symm
    have locked := before.now.locked x known'
    exact fun t member => (Processor.locked_of_locks same.symm locked t member).trans realized.symm
  · rw [show v.now.rig.phase p = w.now.rig.phase p from h.rests.phase]
    exact fun alive => (before.now.phase alive).trans realized.symm
  · rw [h.rests.moments] at seen
    obtain ⟨internal, latched, same⟩ := before.moments m seen
    refine ⟨internal, latched, fun was => ?_⟩
    obtain ⟨still, chain⟩ := same was
    refine ⟨realized.mpr still, (h.chain fun x known t member => ?_).trans chain⟩
    exact (before.now.locked x known t member).mpr still

theorem latches (h : StaysLatched p w v) (restores : Restores p w v) : Latches tended p w v where
  proceeds := h.rests.proceeds
  restores := restores
  latched _ _ before := by
    refine h.latched (fun holds => ?_) before
    rw [restores] at holds
    rw [h.rests.phase]
    exact before.now.held holds

/-- Only what is no processor and no entry changes. -/
theorem elsewhere (moments : v.moments = w.moments) (journal : v.journal = w.journal)
    (processors : v.rig.processors = w.rig.processors) : Latches tended p w v := by
  have rests : Rests p w v :=
    ⟨moments, journal ▸ List.suffix_rfl, by rw [journal], by rw [Rig.phase, Rig.phase, processors],
      by rw [Rig.isExternal, Rig.isExternal, processors]⟩
  exact (of_processors rests (by rw [processors])).latches (.of_processors processors)

end StaysLatched

theorem World.move_held {p q : ProcessorId} {w : World S} {phase : Phase} :
    (w.move q phase).rig.held p = w.rig.held p :=
  ensures_modifyProcessor.mp (Restores.modify (f := fun x => { x with phase }) q (fun _ => rfl) w)

/-- A processor that tends its plug-ins goes no further, but for being closed. -/
theorem Proceeds.tends {p : ProcessorId} {v w : World S} (h : Proceeds True p w v)
    (internal : v.rig.isExternal p = false) (tends : (w.rig.phase p).Tends) :
    (v.rig.phase p).Tends := by
  obtain realizing | closed := tends
  · obtain ⟨_, -, course⟩ := h.leads.course internal
    rw [show w.now.rig.phase p = .realizing from realizing] at course
    exact course.of_realizing.imp (·.2) (·.2)
  · exact .inr (tended_closed (.inr ⟨trivial, h⟩) closed internal).2

namespace Latches

variable {tended : Prop} {p q : ProcessorId} {u v w : World S}

theorem flow (tended : Prop) (p : ProcessorId) : Flow (Latches (S := S) tended p) where
  refl w := ⟨.refl w, (Restores.flow p).refl w, fun _ _ => id⟩
  trans first second :=
    { proceeds := first.proceeds.trans second.proceeds
      restores := (Restores.flow p).trans first.restores second.restores
      latched := fun internal tends latched => by
        have before := second.proceeds.leads.internal internal
        exact second.latched internal (fun tended => first.proceeds.tends before (tends tended))
          (first.latched before tends latched) }

theorem of_stays {m : Run S α} (stays : Keeps (StaysLatched p) m)
    (restores : Keeps (Restores p) m) : Keeps (Latches tended p) m :=
  fun w a w' run => (stays w a w' run).latches (restores w a w' run)

theorem mark : Keeps (S := S) (Latches tended p) Run.mark := fun w =>
  ensures_mark.mpr
    { proceeds := ensures_mark.mp (Proceeds.mark w)
      restores := Restores.of_processors rfl
      latched := fun internal _ before => ⟨before.now, fun m seen => by
        obtain rfl | earlier := List.mem_cons.mp seen
        · exact ⟨internal, before.now, fun was => ⟨was, rfl⟩⟩
        · exact before.moments m earlier⟩ }

/-- A processor that is new has never realized, and its chains are not locked. -/
theorem newProcessor {x : Processor} (phase : x.isExternal = true ∨ x.phase = .unrealized)
    (unlocked : ∀ t ∈ x.tracks, t.locked = false) (free : x.held = [])
    (proceeds : Keeps (S := S) (Proceeds True p) (Run.newProcessor x)) :
    Keeps (S := S) (Latches tended p) (Run.newProcessor x) := by
  intro w a w' run
  have restores : Restores p w w' := Restores.newProcessor free w a w' run
  refine ⟨proceeds w a w' run, restores, fun internal _ before => ?_⟩
  obtain rfl : { w with rig := { w.rig with processors := w.rig.processors ++ [x] } } = w' := by
    cases run
    rfl
  by_cases made : p = w.rig.processors.length
  · have known : (w.rig.processors ++ [x])[p]? = some x := by simp [made]
    have phase : x.phase = .unrealized := phase.resolve_left fun external => by
      simp [Rig.isExternal, known, external] at internal
    have absent : w.rig.processors[p]? = none := by simp [made]
    have never : ¬HasRealized p w.journal := fun was => by
      simpa [World.now, Rig.phase, absent, Phase.hadRealized, Phase.rank] using
        (before.now.phase (by simp [World.now, Rig.phase, absent])).mpr was
    refine ⟨⟨fun y known' t member => ?_, fun _ => ?_, fun held => ?_⟩, fun m seen => ?_⟩
    · obtain rfl := Option.some.inj (known.symm.trans known')
      simpa [unlocked t member, World.now] using never
    · simpa [World.now, Rig.phase, known, phase, Phase.hadRealized, Phase.rank] using never
    · exact absurd ((Rig.held_of known).trans free) held
    · obtain ⟨internal, latched, same⟩ := before.moments m seen
      exact ⟨internal, latched, fun was => absurd (same was).1 never⟩
  · have same : (w.rig.processors ++ [x])[p]? = w.rig.processors[p]? := by
      rw [List.getElem?_append]
      grind
    have rests := Rests.newProcessor (fun here => absurd here made) a _ run
    exact ((StaysLatched.of_processors rests same).latches restores).latched internal id before

theorem plain (tended : Prop) (p : ProcessorId) : Plain (Latches (S := S) tended p) where
  toFlow := flow tended p
  own _ _ := StaysLatched.elsewhere rfl rfl rfl
  aside e aside :=
    of_stays (StaysLatched.record (by cases e <;> first | rfl | cases aside)) (Restores.record e)
  effects _ _ _ := StaysLatched.elsewhere rfl rfl rfl
  story _ _ := StaysLatched.elsewhere rfl rfl rfl
  mark := mark
  sessions _ _ := StaysLatched.elsewhere rfl rfl rfl
  newProcessor _ _ := newProcessor (.inr rfl) (by simp [Processor.new, Track.new]) rfl
    ((Proceeds.plain True p).newProcessor _ _)
  newExternal _ _ _ := newProcessor (.inl rfl)
    (by simp [Processor.newExternal, Processor.new, Track.new]) rfl (Proceeds.newExternal _ _ _)
  subscribe q x := by
    have h := StaysLatched.flow (S := S) p
    refine of_stays (h.bind (h.processor q) fun _ => h.bind ?_ fun _ => StaysLatched.record rfl)
      ((Restores.plain p).subscribe q x)
    exact StaysLatched.modifyProcessor (fun _ => rfl) (fun _ => rfl) fun _ => rfl
  setChain q i chain :=
    of_stays (StaysLatched.setChain i chain) ((Restores.plain p).setChain q i chain)
  setEnabled q i enabled := of_stays (StaysLatched.modifyTrack (fun _ => rfl) fun _ => rfl)
    ((Restores.plain p).setEnabled q i enabled)
  counted q := of_stays (StaysLatched.modifyProcessor (fun _ => rfl) (fun _ => rfl) fun _ => rfl)
    ((Restores.plain p).counted q)

/-- While a processor tends its plug-ins, it can hold its chains. -/
theorem holding (q : ProcessorId) (i : Nat) {calls : Run S α}
    (keeps : Keeps (Latches True p) calls) : Keeps (Latches True p) (Run.holding q i calls) := by
  intro w a w' run
  have proceeds : Keeps (Proceeds True p) calls := fun u => (keeps u).mono fun _ _ h => h.proceeds
  have restores : Keeps (Restores p) calls := fun u => (keeps u).mono fun _ _ h => h.restores
  refine ⟨(Proceeds.tending True p).holding q trivial i proceeds w a w' run,
    Restores.holding q i restores w a w' run, ?_⟩
  have before : StaysLatched p w (w.modify q (·.hold i)) :=
    .modify (fun _ => rfl) (fun _ => rfl) (fun _ _ => rfl) fun _ _ _ => rfl
  have after (v : World S) : StaysLatched p v (v.modify q (·.letGo)) :=
    .modify (fun _ => rfl) (fun _ => rfl) (fun _ _ => rfl) fun _ _ _ => rfl
  revert run a w'
  refine ensures_holding.mpr fun _ _ _ => (keeps _).mono fun _ v next internal tends latched => ?_
  -- Before the calls and after them the processor tends its plug-ins, whatever it holds.
  have internal : v.rig.isExternal p = false := (after v).rests.external.symm.trans internal
  have begun : ((w.modify q (·.hold i)).rig.phase p).Tends := by
    rw [before.rests.phase]
    exact tends trivial
  have ended : ((v.modify q (·.letGo)).rig.phase p).Tends := by
    rw [(after v).rests.phase]
    exact next.proceeds.tends internal begun
  have held := next.latched internal (fun _ => begun) (before.latched (fun _ => begun) latched)
  exact (after v).latched (fun _ => ended) held

theorem tending (p : ProcessorId) : Tending (fun _ => True) (Latches (S := S) True p) where
  toLoose := (plain True p).toLoose
  holding q _ := holding q
  opened _ := of_stays (StaysLatched.record rfl) (Restores.record _)
  closed _ := of_stays (StaysLatched.record rfl) (Restores.record _)
  setOpen q _ _ := of_stays (StaysLatched.modifyTrack (fun _ => rfl) fun _ => rfl)
    (Restores.modify q fun _ => rfl)

theorem answers_proceeds (answers : Answers (Latches tended p) again) :
    Answers (Proceeds True p) again :=
  fun c w => (answers c w).mono fun _ _ h => h.proceeds

theorem answers_restores (answers : Answers (Latches tended p) again) :
    Answers (Restores p) again :=
  fun c w => (answers c w).mono fun _ _ h => h.restores

/-- The plug-ins that a processor tends keep what the application keeps. -/
theorem plugIns (answers : Answers (Latches False p) again) :
    PlugInsKeep app again (Latches True p) :=
  (plain True p).plugIns fun c w => (answers c w).mono fun _ _ h =>
    { h with latched := fun internal _ => h.latched internal False.elim }

/-- Once an event is announced, the locks are as they were. -/
theorem emit (answers : Answers (Latches tended p) again) (q : ProcessorId) (e : Event) :
    Ensures (emit app again q e) w
      fun _ w' => Latches tended p (w.record (.announced q e)) w' := by
  have h := plain (S := S) tended p
  simp only [Metering.emit, ensures_bind, ensures_record, ensures_processor]
  intro y known
  have tells (x : Subscriber) : Keeps (Latches tended p) (Run.record (.told x q e) : Run S _) :=
    of_stays (StaysLatched.record rfl) (Restores.record _)
  exact h.each (h.deliver answers tells) _ _

end Latches

namespace World.Latched

variable {p : ProcessorId} {v w : World S} {x : Processor}

theorem fits (h : w.Latched p) (known : w.rig.processors[p]? = some x) (alive : x.phase ≠ .closed) :
    x.phase.hadRealized = true ↔ HasRealized p w.journal := by
  have fits := h.now.phase
  rw [World.now, Rig.phase_of known] at fits
  exact fits alive

theorem record (h : w.Latched p) {e : Entry} (same : ∀ phase, e ≠ .moved p phase) :
    (w.record e).Latched p := by
  have realized : HasRealized p (w.record e).journal ↔ HasRealized p w.journal := by
    rw [HasRealized, HasRealized, World.record_journal, acts_cons, List.mem_append]
    cases e with
    | moved q phase =>
      have other : q ≠ p := fun here => same phase (here ▸ rfl)
      simp [other]
    | announced q e => by_cases here : q = p <;> simp [here]
    | _ => simp
  refine ⟨⟨fun y known t member => (h.now.locked y known t member).trans realized.symm,
    fun alive => (h.now.phase alive).trans realized.symm, h.now.held⟩, fun m seen => ?_⟩
  obtain ⟨internal, latched, same⟩ := h.moments m seen
  exact ⟨internal, latched, fun was => ⟨realized.mpr (same was).1, (same was).2⟩⟩

/-- In a phase in which it does not tend its plug-ins, a processor holds no chain. -/
theorem free (h : w.Latched p) (known : w.rig.processors[p]? = some x) (settled : ¬x.phase.Tends) :
    w.rig.held p = [] := by
  by_contra holds
  exact settled (h.now.tends known (Rig.held_of known ▸ holds))

/-- A processor may pass to any phase that goes with its past. -/
theorem move (h : w.Latched p) (known : w.rig.processors[p]? = some x) {phase : Phase}
    (fits : phase ≠ .closed → (phase.hadRealized = true ↔ HasRealized p w.journal))
    (again : phase = .realized → HasRealized p w.journal)
    (free : phase.Tends ∨ w.rig.held p = []) : (w.move p phase).Latched p := by
  have realized : HasRealized p (w.move p phase).journal ↔ HasRealized p w.journal := by
    rw [HasRealized, HasRealized, World.move_journal, acts_cons, List.mem_append]
    refine ⟨fun was => was.elim id fun now => again ?_, .inl⟩
    simpa [eq_comm] using now
  have moved : (w.move p phase).rig.processors[p]? = some { x with phase } :=
    World.move_processor known
  have phase_eq : (w.move p phase).now.rig.phase p = phase := World.move_phase known
  refine ⟨⟨fun y known' => ?_, fun alive => ?_, fun holds => ?_⟩, fun m seen => ?_⟩
  · obtain rfl := Option.some.inj (moved.symm.trans known')
    exact fun t member => (h.now.locked x known t member).trans realized.symm
  · rw [phase_eq] at alive ⊢
    exact (fits alive).trans realized.symm
  · rw [phase_eq]
    exact free.resolve_right (World.move_held ▸ holds)
  · obtain ⟨internal, latched, same⟩ := h.moments m seen
    refine ⟨internal, latched, fun was => ⟨realized.mpr (same was).1, ?_⟩⟩
    rw [← (same was).2, Rig.chain_of moved, Rig.chain_of known]
    rfl

/-- A processor that locks its chains has realized with that. -/
theorem realize (h : w.Latched p) (known : w.rig.processors[p]? = some x)
    (never : ¬HasRealized p w.journal) (free : w.rig.held p = []) (n : Notice) :
    (((w.lockTracks p).record (.notice n)).move p .realized).Latched p := by
  have locked := World.modify_processor (f := Processor.lock) known
  have moved : (((w.lockTracks p).record (.notice n)).move p .realized).rig.processors[p]? =
      some { x.lock with phase := .realized } := World.move_processor locked
  have realized : HasRealized p (((w.lockTracks p).record (.notice n)).move p .realized).journal :=
    by simp [HasRealized]
  -- The moments before are covered by `h`: none of them had seen the processor realize, so the last
  -- condition is void of them.
  refine ⟨⟨fun y known' t member => ?_, fun alive => ?_, fun holds => ?_⟩, fun m seen => ?_⟩
  · obtain rfl := Option.some.inj (moved.symm.trans known')
    obtain ⟨u, -, rfl⟩ := List.mem_map.mp member
    exact iff_of_true rfl realized
  · exact iff_of_true (by rw [World.now, Rig.phase_of moved]; rfl) realized
  · rw [World.now, Rig.held_of moved] at holds
    exact absurd ((Rig.held_of known).symm.trans free) holds
  · obtain ⟨internal, latched, same⟩ := h.moments m seen
    exact ⟨internal, latched, fun was => absurd (same was).1 never⟩

/-- Nothing has happened yet, and no chain is there to be locked. -/
theorem start (p : ProcessorId) (s : S) : World.Latched p ({ app := s } : World S) :=
  ⟨⟨by simp [World.now], fun _ => by simp [World.now, Rig.phase, HasRealized, acts,
    Phase.hadRealized, Phase.rank], by simp [World.now, Rig.held]⟩, by simp⟩

end World.Latched

namespace Latches

variable {p : ProcessorId} {v w : World S}

/-- To a processor, the transitions of the others are nothing. -/
theorem others (p : ProcessorId) : Steady app (· ≠ p) (Latches (S := S) False p) where
  toPlain := plain False p
  holding q other := (flow False p).holding fun f => of_stays
    (StaysLatched.modifyProcessor (fun _ => rfl) (fun _ => rfl) fun _ => rfl)
    fun _ => ensures_modifyProcessor.mpr (World.modify_held_of_ne other)
  opened _ := of_stays (StaysLatched.record rfl) (Restores.record _)
  closed _ := of_stays (StaysLatched.record rfl) (Restores.record _)
  setOpen q _ _ := of_stays (StaysLatched.modifyTrack (fun _ => rfl) fun _ => rfl)
    (Restores.modify q fun _ => rfl)
  moveTo q other phase := of_stays (fun w => ensures_moveTo.mpr fun _ _ =>
    .of_processors (World.move_rests other) (by simp [World.move, other]))
    ((Restores.steady app p).moveTo q trivial phase)
  readied _ _ _ := of_stays (StaysLatched.record rfl) (Restores.record _)
  lockTracks q other := of_stays (fun w => ensures_lockTracks.mpr
    (.of_processors (ensures_lockTracks.mp (Rests.lockTracks q w))
      (by simp [World.lockTracks, other]))) (Restores.modify q fun _ => rfl)
  emit again answers q other e w := (emit answers q e).mono fun _ w' rest =>
    (flow False p).trans (ensures_record.mp
      (of_stays (StaysLatched.record (by simp [other])) (Restores.record _) w)) rest

theorem of_carries {m : Run S α} (proceeds : Keeps (Proceeds True p) m)
    (restores : Keeps (Restores p) m)
    (latched : ∀ w : World S, w.Latched p →
      Ensures m w fun _ w' => w'.rig.isExternal p = false → w'.Latched p) :
    Keeps (Latches False p) m := fun w a w' run =>
  ⟨proceeds w a w' run, restores w a w' run,
    fun internal _ before => latched w before a w' run internal⟩

section Own

variable (answers : Answers (Latches False p) again) {phase : Phase} {x : Processor}
include answers

/-- Of an operation, only what it does to the locks remains to be shown. -/
theorem of_lawful {m : Run S α}
    (keeps : ∀ R : World S → World S → Prop, Lawful app R → Answers R again → Keeps R m)
    (latched : ∀ w : World S, w.Latched p →
      Ensures m w fun _ w' => w'.rig.isExternal p = false → w'.Latched p) :
    Keeps (Latches False p) m :=
  of_carries (keeps _ (Proceeds.lawful (.inl trivial) p) (answers_proceeds answers))
    (keeps _ (Restores.lawful app p) (answers_restores answers)) latched

theorem announce (latched : w.rig.isExternal p = false → w.Latched p) (e : Event) :
    Ensures (Metering.emit app again p e) w
      fun _ w' => w'.rig.isExternal p = false → w'.Latched p :=
  (emit answers p e).mono fun _ _ next internal => by
    have before := latched (next.proceeds.leads.internal internal)
    exact next.latched internal False.elim (before.record (by simp))

/-- The end of a transition: the phase is stored, then the subscribers are told. -/
theorem settle (latched : w.rig.isExternal p = false → (w.move p phase).Latched p) (e : Event)
    (a : α) : Ensures (do Run.moveTo p phase; Metering.emit app again p e; return a) w
      fun _ w' => w'.rig.isExternal p = false → w'.Latched p := by
  apply Ensures.moveTo
  intro _ _
  have moved (internal : (w.move p phase).rig.isExternal p = false) :=
    latched (World.move_isExternal.symm.trans internal)
  refine Ensures.bind (announce answers moved e) fun _ _ next => ?_
  exact ensures_pure.mpr next

theorem ask (latched : w.Latched p) (op : Request) : Ensures (Metering.ask app again p op) w
    fun _ w' => w'.rig.isExternal p = false → w'.Latched p :=
  ((plain False p).ask answers p op w).mono fun _ _ next internal =>
    next.latched internal False.elim latched

theorem configure : Keeps (Latches False p) (configure app again p) := by
  refine of_lawful answers (fun _ h own => h.configure again own p) fun w latched => ?_
  apply Ensures.processor
  intro x known
  split
  · exact ask answers latched _
  split
  case h_1 unrealized =>
    have never : ¬HasRealized p w.journal := by
      rw [← latched.fits known (by simp [unrealized]), unrealized]
      decide
    have free := latched.free known (by simp [unrealized, Phase.Tends])
    apply Ensures.moveTo
    intro _ _
    apply Ensures.notice
    have begun : (w.move p .configuring).Latched p :=
      latched.move known (fun _ => iff_of_false (by decide) never) nofun (.inr free)
    have still : ¬HasRealized p (w.move p .configuring).journal := by
      simpa [HasRealized] using never
    have noted (n : Notice) := begun.record (e := .notice n) nofun
    refine settle answers (fun _ => ?_) _ _
    exact (noted _).move (World.move_processor known)
      (fun _ => iff_of_false (by decide) still) nofun (.inr (World.move_held.trans free))
  all_goals exact ensures_pure.mpr fun _ => latched

theorem start : Keeps (Latches False p) (start app again p) := by
  refine of_lawful answers (fun _ h own => h.start again own p) fun w latched => ?_
  apply Ensures.processor
  intro x known
  split
  · exact ask answers latched _
  split
  case h_1 realized =>
    have before : HasRealized p w.journal := by
      rw [← latched.fits known (by simp [realized]), realized]
      decide
    have free := latched.free known (by simp [realized, Phase.Tends])
    refine settle answers (fun _ => ?_) _ _
    exact latched.move known (fun _ => iff_of_true (by decide) before) nofun (.inr free)
  all_goals exact ensures_pure.mpr fun _ => latched

theorem stop : Keeps (Latches False p) (stop app again p) := by
  refine of_lawful answers (fun _ h own => h.stop again own p) fun w latched => ?_
  apply Ensures.processor
  intro x known
  split
  · exact ask answers latched _
  split
  case h_1 started =>
    have before : HasRealized p w.journal := by
      rw [← latched.fits known (by simp [started]), started]
      decide
    have free := latched.free known (by simp [started, Phase.Tends])
    refine settle answers (fun _ => ?_) _ _
    exact latched.move known (fun _ => iff_of_true (by decide) before) (fun _ => before) (.inr free)
  all_goals exact ensures_pure.mpr fun _ => latched

theorem close : Keeps (Latches False p) (close app again p) := by
  refine of_lawful answers (fun _ h own => h.close again own p) fun w latched => ?_
  apply Ensures.processor
  intro x known
  split
  · refine Ensures.bind (ask answers latched _) fun _ _ next => ensures_pure.mpr next
  split
  case isFalse => exact ensures_pure.mpr fun _ => latched
  case isTrue =>
    apply Ensures.moveTo
    intro _ _
    have closed : (w.move p .closed).Latched p :=
      latched.move known (fun alive => absurd rfl alive) nofun (.inl (.inr rfl))
    have finish {v : World S} (latched : v.rig.isExternal p = false → v.Latched p) (n : Notice) :
        Ensures (do Run.notice n; Metering.emit app again p .closed) v
          fun _ w' => w'.rig.isExternal p = false → w'.Latched p := by
      apply Ensures.notice
      refine announce answers (fun internal => ?_) _
      exact World.Latched.record (latched internal) (by simp)
    split
    · have closes (i : Nat) : Keeps (Latches True p) (closeTrack app again p i) :=
        (tending p).closeTrack (plugIns answers) trivial i
      refine Ensures.bind ((flow True p).each closes _ _) fun _ _ next => ?_
      have tends : ((w.move p .closed).rig.phase p).Tends := .inr (World.move_phase known)
      exact finish (fun internal => next.latched internal (fun _ => tends) closed) _
    · exact finish (fun _ => closed) _

/-- Nothing but to be closed can happen to a processor while it prepares its chains, so that it has
not realized by the end. -/
theorem realize : Keeps (Latches False p) (realize app again p) := by
  refine of_lawful answers (fun _ h own => h.realize again own p) fun w latched => ?_
  apply Ensures.processor
  intro x known
  split
  · exact ask answers latched _
  split
  case h_1 configured =>
    have never : ¬HasRealized p w.journal := by
      rw [← latched.fits known (by simp [configured]), configured]
      decide
    apply Ensures.moveTo
    intro _ _
    have begun : (w.move p .realizing).Latched p :=
      latched.move known (fun _ => iff_of_false (by decide) never) nofun (.inl (.inl rfl))
    have tends : ((w.move p .realizing).rig.phase p).Tends := .inl (World.move_phase known)
    have prepares : Keeps (Latches True p) (prepare app again p) :=
      (tending p).prepare (plugIns answers) trivial
    refine Ensures.bind (prepares _) fun r v next => ?_
    have still (internal : v.rig.isExternal p = false) : ¬HasRealized p v.journal := by
      obtain ⟨us, intrusion, acts⟩ := tended_realizing (.inr ⟨trivial, next.proceeds⟩)
        (World.move_phase known) internal
      rw [HasRealized, acts]
      obtain rfl | ⟨-, rfl⟩ := intrusion
      · simpa [HasRealized] using never
      · simpa [HasRealized] using never
    have prepared (internal : v.rig.isExternal p = false) :=
      next.latched internal (fun _ => tends) begun
    have free : v.rig.held p = [] := by
      rw [next.restores, World.move_held]
      exact latched.free known (by simp [configured, Phase.Tends])
    cases r with
    | error f =>
      apply Ensures.processor
      intro y known'
      apply Ensures.notice
      refine settle answers (fun internal => ?_) _ _
      exact ((prepared internal).record (by simp)).move known'
        (fun _ => iff_of_false (by decide) (by simpa [HasRealized] using still internal)) nofun
        (.inr free)
    | ok =>
      apply Ensures.processor
      intro y known'
      apply Ensures.record
      apply Ensures.lockTracks
      apply Ensures.notice
      refine settle answers (fun internal => ?_) _ _
      rw [World.record_rig, World.lockTracks_isExternal] at internal
      exact ((prepared internal).record (by simp)).realize known'
        (by simpa [HasRealized] using still internal) free _
  all_goals exact ensures_pure.mpr fun _ => latched

end Own

theorem of_cases {m : ProcessorId → Run S α} (own : Keeps (Latches False p) (m p))
    (others : ∀ q, q ≠ p → Keeps (Latches False p) (m q)) (q : ProcessorId) :
    Keeps (Latches False p) (m q) := by
  by_cases same : q = p
  · exact same ▸ own
  · exact others q same

theorem lawful (app : Application S) (p : ProcessorId) :
    Lawful app (Latches (S := S) False p) where
  toPlain := plain False p
  configure _ answers := of_cases (configure answers) fun _ => (others p).configure answers
  realize _ answers := of_cases (realize answers) fun _ => (others p).realize answers
  start _ answers := of_cases (start answers) fun _ => (others p).start answers
  stop _ answers := of_cases (stop answers) fun _ => (others p).stop answers
  close _ answers := of_cases (close answers) fun _ => (others p).close answers
  enter q phase := by
    have proceeds : Lawful app (Proceeds (S := S) True p) := Proceeds.lawful (.inl trivial) p
    have restores := (Restores.lawful app p).enter q phase
    refine of_carries (proceeds.enter q phase) restores fun w latched => ?_
    apply Ensures.processor
    intro x known
    split
    case isFalse => exact ensures_pure.mpr fun _ => latched
    case isTrue external =>
      refine ensures_moveTo.mpr fun _ _ internal => ?_
      -- Only a processor from outside can enter a phase, and the one that is followed is not.
      have here : q ≠ p := by
        rintro rfl
        rw [World.move_isExternal, Rig.isExternal_of known] at internal
        exact absurd (external.symm.trans internal) Bool.noConfusion
      have stays : StaysLatched p w (w.move q phase) :=
        .of_processors (World.move_rests here) (by simp [World.move, here])
      have latches : Latches False p w (w.move q phase) := stays.latches World.move_held
      exact latches.latched internal False.elim latched
  emit again answers q e := by
    refine of_lawful answers (fun _ h own => h.emit again own q e) fun w latched => ?_
    apply Ensures.processor
    intro x known
    split
    case isFalse => exact ensures_pure.mpr fun _ => latched
    case isTrue =>
      refine (emit answers q e).mono fun _ _ next internal => ?_
      exact next.latched internal False.elim (latched.record (by simp))

end Latches

/-- At this moment the rule is kept that there is no exchange of the chain past the configured
phase: it is refused and changes nothing. -/
def Moment.RefusesLate (app : Application S) (p : ProcessorId) (i : Nat) (m : Moment) : Prop :=
  Phase.configured.rank < (m.rig.phase p).rank →
    ∀ (depth : Nat) (chain : List PlugIn) (u : World S), u.rig = m.rig →
      perform app (depth + 1) (.setChain p i chain) u =
        .ok (.error (.notConfigured "codec chain cannot change after realize"), u)

section Exchange

variable {p : ProcessorId} {i : Nat} {m : Moment} {x : Processor} {t : Track} {u w : World S}

/-- An exchange on a track that accepts plug-ins is answered by whether the chain is locked, and if
it is not, waits while the chain is held. -/
theorem Moment.Latched.setChain_eq (h : m.Latched p) (known : m.rig.processors[p]? = some x)
    (track : x.tracks[i]? = some t) (accepts : t.acceptsPlugIns = true) (chain : List PlugIn)
    (here : u.rig = m.rig) :
    setChain p i chain u =
      if HasRealized p m.journal then
        .ok (.error (.notConfigured "codec chain cannot change after realize"), u)
      else if i ∈ x.held then .error .stuck
      else .ok (.ok (), u.modify p fun y => y.modifyTrack i fun _ => { t with chain }) := by
  have locks := h.locked x known t (List.mem_of_getElem? track)
  rw [Metering.setChain_eq (here ▸ known) track]
  by_cases realized : HasRealized p m.journal
  · simp only [Track.setChain, accepts, locks.mpr realized, if_pos realized]
    rfl
  · have unlocked : t.locked = false := by simpa [realized] using locks
    simp only [Track.setChain_takes ⟨accepts, unlocked⟩, if_neg realized]

/-- The lock keeps the rule in the phases that say whether the processor has realized. -/
theorem Moment.Latched.refusesLate_iff (h : m.Latched p) (known : m.rig.processors[p]? = some x)
    (track : x.tracks[i]? = some t) (accepts : t.acceptsPlugIns = true)
    (world : ∃ u : World S, u.rig = m.rig) :
    m.RefusesLate app p i ↔
      x.phase ≠ .realizing ∧ (x.phase = .closed → HasRealized p m.journal) := by
  have phase := Rig.phase_of known
  have answered (u : World S) (here : u.rig = m.rig) (chain : List PlugIn) (depth : Nat) :
      perform app (depth + 1) (.setChain p i chain) u = _ :=
    h.setChain_eq known track accepts chain here
  have refuses : m.RefusesLate app p i ↔
      (Phase.configured.rank < x.phase.rank → HasRealized p m.journal) := by
    constructor
    · intro rule late
      obtain ⟨u, here⟩ := world
      have refused := rule (phase ▸ late) 0 [] u here
      rw [answered u here] at refused
      by_contra never
      rw [if_neg never] at refused
      split at refused
      · cases refused
      · cases refused
    · intro realized late depth chain u here
      rw [answered u here, if_pos (realized (phase ▸ late))]
  have fits := h.phase
  rw [phase] at fits
  -- The rule goes by the rank of the phase. Beyond `configured` a processor has realized, with two
  -- exceptions: while it realizes it has not yet, and if it is closed it need not have.
  rw [refuses]
  constructor
  · intro rule
    refine ⟨fun realizing => ?_, fun closed => rule (by rw [closed]; decide)⟩
    have realized := rule (by rw [realizing]; decide)
    rw [realizing] at fits
    exact absurd ((fits nofun).mpr realized) (by decide)
  · rintro ⟨settled, closed⟩ late
    by_cases ended : x.phase = .closed
    · exact closed ended
    · refine (fits ended).mp ?_
      cases here : x.phase <;> simp_all [Phase.rank, Phase.hadRealized]

end Exchange

theorem World.latched_of_run {depth : Nat} {program : Program S α} {s : S} {a : α} {w : World S}
    (run : program.run (perform app depth) { app := s } = .ok (a, w)) {p : ProcessorId}
    (internal : w.rig.isExternal p = false) : w.Latched p :=
  ((Latches.lawful app p).program depth program _ a w run).latched internal False.elim (.start p s)

/-- An exchange of a chain is refused, and changes nothing, exactly if the processor has realized
before, and from then on its chains stay what they are. Otherwise it is accepted, if the chain is
free, and never ends if the call comes out of that chain; a chain is held only while the processor
realizes and when it is closed. So the rule is kept, except while the processor realizes and after
it was closed without having realized. -/
theorem exchange_refused_iff {depth : Nat} {program : Program S α} {s : S} {a : α} {w : World S}
    (run : program.run (perform app depth) { app := s } = .ok (a, w)) {p : ProcessorId}
    (internal : w.rig.isExternal p = false) :
    ∀ m ∈ w.now :: w.moments, ∀ x i t, m.rig.processors[p]? = some x → x.tracks[i]? = some t →
      t.acceptsPlugIns = true →
      (∀ (depth : Nat) (chain : List PlugIn) (u : World S), u.rig = m.rig →
        perform app (depth + 1) (.setChain p i chain) u =
          if HasRealized p m.journal then
            .ok (.error (.notConfigured "codec chain cannot change after realize"), u)
          else if i ∈ x.held then .error .stuck
          else .ok (.ok (), u.modify p fun y => y.modifyTrack i fun _ => { t with chain })) ∧
      (m.RefusesLate app p i ↔
        x.phase ≠ .realizing ∧ (x.phase = .closed → HasRealized p m.journal)) ∧
      (i ∈ x.held → x.phase = .realizing ∨ x.phase = .closed) ∧
      (HasRealized p m.journal → w.rig.chain p = m.rig.chain p) := by
  have latched := World.latched_of_run run internal
  intro m seen x i t known track accepts
  have here : m.Latched p := by
    obtain rfl | before := List.mem_cons.mp seen
    · exact latched.now
    · exact (latched.moments m before).2.1
  refine ⟨fun depth chain u at_m => here.setChain_eq known track accepts chain at_m,
    here.refusesLate_iff known track accepts ⟨{ w with rig := m.rig }, rfl⟩,
    fun held => here.tends known (List.ne_nil_of_mem held), fun realized => ?_⟩
  obtain rfl | before := List.mem_cons.mp seen
  · rfl
  · exact ((latched.moments m before).2.2 realized).2

/-- A chain is exchanged after the processor was closed, by a handle taken before. -/
def Program.exchangeClosed : Program Unit (Phase × Except Fault Unit × List PlugIn) := do
  let p ← .send (.newProcessor "p" [⟨.audio .telephone, true⟩])
  let _ ← .send (.configure p)
  .send (.close p)
  let phase ← .see (·.phase p)
  let r ← .send (.setChain p 0 [.codec 0 "a"])
  let chain ← .see fun rig => rig.chain p 0
  return (phase, r, chain)

/-- The first plug-in, when it is opened, puts another one into the second track. -/
def Application.swapping : Application (Option (Phase × Except Fault Unit)) :=
  { Application.silent _ with
    opens := fun c => do
      if c = 0 then
        let phase ← .see (·.phase 0)
        let r ← .send (.setChain 0 1 [.codec 2 "c"])
        .modify fun _ => some (phase, r)
      return .ok () }

def Program.twoTracks : Program (Option (Phase × Except Fault Unit)) (Except Fault Unit) := do
  let p ← .send (.newProcessor "p" [⟨.audio .telephone, true⟩, ⟨.audio .telephone, true⟩])
  let _ ← .send (.configure p)
  let _ ← .send (.setChain p 0 [.codec 0 "a"])
  let _ ← .send (.setChain p 1 [.codec 1 "b"])
  .send (.realize p)

theorem exchanged_late :
    (∃ w, Program.exchangeClosed.run (perform (.silent Unit) 4) { app := () } =
      .ok ((.closed, .ok (), [.codec 0 "a"]), w)) ∧
    ∃ w, Program.twoTracks.run (perform Application.swapping 4) { app := none } =
        .ok (.ok (), w) ∧
      w.app = some (.realizing, .ok ()) ∧
      acceptances w.journal = [.codec 0 "a", .codec 1 "b"] ∧
      openings w.journal = [.codec 0 "a", .codec 2 "c"] :=
  ⟨⟨_, rfl⟩, _, rfl, rfl, rfl, rfl⟩

theorem exchange_refused_iff_twoTracks :
    ∃ w, Program.twoTracks.run (perform Application.swapping 4) { app := none } =
        .ok (.ok (), w) ∧
      w.rig.isExternal 0 = false ∧ w.now.RefusesLate Application.swapping 0 1 ∧
      ∃ m ∈ w.moments, m.rig.phase 0 = .realizing ∧
        ∀ (depth : Nat) (chain : List PlugIn) (u : World _), u.rig = m.rig →
          perform Application.swapping (depth + 1) (.setChain 0 0 chain) u = .error .stuck := by
  have ends : ∃ w, Program.twoTracks.run (perform Application.swapping 4) { app := none } =
      .ok (.ok (), w) ∧ w.rig.isExternal 0 = false ∧
      (∃ x t, w.rig.processors[0]? = some x ∧ x.tracks[1]? = some t ∧ t.acceptsPlugIns = true ∧
        x.phase = .realized) ∧
      ∃ m, w.moments[1]? = some m ∧ m.rig.phase 0 = .realizing ∧
        (decide (HasRealized 0 m.journal)) = false ∧
        ∃ x t, m.rig.processors[0]? = some x ∧ x.tracks[0]? = some t ∧ t.acceptsPlugIns = true ∧
          x.held = [0] :=
    ⟨_, rfl, rfl, ⟨_, _, rfl, rfl, rfl, rfl⟩, _, rfl, rfl, rfl, _, _, rfl, rfl, rfl, rfl⟩
  obtain ⟨w, run, internal, ⟨x, t, known, track, accepts, realized⟩, m, seen, realizing, never,
    y, u, here, first, accepts', held⟩ := ends
  refine ⟨w, run, internal, ?_, m, List.mem_of_getElem? seen, realizing, ?_⟩
  · have answers := exchange_refused_iff run internal w.now (by simp) x 1 t known track accepts
    exact answers.2.1.mpr (by simp [realized])
  · have answers := exchange_refused_iff run internal m
      (List.mem_cons_of_mem _ (List.mem_of_getElem? seen)) y 0 u here first accepts'
    intro depth chain v at_m
    rw [answers.1 depth chain v at_m, if_neg (of_decide_eq_false never), if_pos (by simp [held])]

end Metering
