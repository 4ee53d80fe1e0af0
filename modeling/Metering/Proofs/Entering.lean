import Mathlib.Algebra.Order.BigOperators.Group.List
import Mathlib.Algebra.Order.Group.Nat
import Metering.Proofs.Readiness
/-!
Which plug-ins a frame may enter. A frame enters those of the track that it is sent to, if that is
enabled now. Whether they are ready is decided by whether the track was enabled when its processor
realized.
-/

namespace Metering

variable {S α : Type} {app : Application S} {again : {β : Type} → Call β → Run S β}

/-- Neither the plug-ins nor the listeners that are told a level call back. -/
structure Application.QuietAtWork (app : Application S) : Prop extends app.QuietPlugIns where
  transform : ∀ c b slot, (app.transform c b slot).Quiet
  level : ∀ l n, (app.level l n).Quiet

/-- A frame has entered some plug-ins, and nothing else has happened but what goes with that. -/
def Passes (among : CodecId → Prop) (w w' : World S) : Prop :=
  ∃ done, w'.journal = done ++ w.journal ∧ (∀ e ∈ done, e.isAside = true) ∧
    ∀ c, .codec c .process ∈ done → among c

namespace Passes

variable {among : CodecId → Prop} {w : World S}

theorem flow : Flow (Passes (S := S) among) where
  refl _ := ⟨[], rfl, by simp, by simp⟩
  trans := by
    rintro u v w ⟨earlier, eq, aside, entered⟩ ⟨later, eq', aside', entered'⟩
    refine ⟨later ++ earlier, by rw [eq', eq, List.append_assoc], ?_, ?_⟩
    · intro e member
      obtain member | member := List.mem_append.mp member
      · exact aside' e member
      · exact aside e member
    · intro c member
      obtain member | member := List.mem_append.mp member
      · exact entered' c member
      · exact entered c member

theorem record {e : Entry} (aside : e.isAside = true)
    (entered : ∀ c, e = .codec c .process → among c) :
    Keeps (S := S) (Passes among) (Run.record e) := by
  intro w
  refine ensures_record.mpr ⟨[e], rfl, by simpa using aside, ?_⟩
  intro c member
  exact entered c (List.mem_singleton.mp member).symm

theorem quiet {p : Program S α} (q : p.Quiet) : Keeps (Passes among) (p.run again) :=
  flow.quiet (fun _ _ => ⟨[], rfl, by simp, by simp⟩)
    (fun _ => record rfl fun _ => nofun) q

theorem modifyRig (f : Rig → Rig) : Keeps (S := S) (Passes among) (Run.modifyRig f) :=
  fun _ => ensures_modifyRig.mpr ⟨[], rfl, by simp, by simp⟩

theorem page (f : Rig → Page) : Keeps (S := S) (Passes among) (Run.page f) :=
  fun _ => ensures_page.mpr ⟨[], rfl, by simp, by simp⟩

theorem plugIn (calm : app.QuietAtWork) {x : PlugIn} (b : Buffer)
    (entered : ∀ c name, x = .codec c name → among c) :
    Keeps (Passes among) (Chain.process app again x b) := by
  cases x with
  | effect e =>
    have observes : Keeps (Passes among) (Chain.observe app again e b (.empty b.format)) := by
      refine flow.bind (flow.effect e) fun x => flow.bind (modifyRig _) fun _ => ?_
      split
      · exact flow.bind (record rfl fun _ => nofun) fun _ => flow.bind (page _) fun _ =>
          flow.bind (quiet (calm.level _ _)) fun _ => flow.pure _
      · exact flow.bind (flow.pure _) fun _ => flow.pure _
    exact flow.bind observes fun _ => flow.pure _
  | codec c name =>
    have enters : Keeps (S := S) (Passes among) (Run.record (.codec c .process)) :=
      record rfl fun d same => by cases same; exact entered c name rfl
    exact flow.bind enters fun _ => quiet (calm.transform _ _ _)

theorem send (calm : app.QuietAtWork) (chain : List PlugIn) (b : Buffer)
    (entered : ∀ c name, .codec c name ∈ chain → among c) :
    Keeps (Passes among) (Chain.send app again chain b) := by
  induction chain generalizing b with
  | nil => exact flow.pure _
  | cons x xs ih =>
    have first : Keeps (Passes among) (Chain.process app again x b) :=
      plugIn calm b fun c name same => entered c name (same ▸ List.mem_cons_self)
    have rest (out : Buffer) : Keeps (Passes among) (Chain.send app again xs out) :=
      ih out fun c name member => entered c name (List.mem_cons_of_mem x member)
    refine flow.bind first fun r => ?_
    cases r with
    | error f => exact flow.pure _
    | ok out =>
      dsimp only
      split
      · exact flow.pure _
      · exact rest out

/-- A frame enters the plug-ins of its track, if that is enabled and the processor has started. -/
theorem process (calm : app.QuietAtWork) {p : ProcessorId} {x : Processor}
    (known : w.rig.processors[p]? = some x) (i : Nat) (b : Buffer) :
    Ensures (process app again p i b) w fun _ => Passes (fun c => ∃ t, x.tracks[i]? = some t ∧
      t.enabled = true ∧ x.phase = .started ∧ ∃ name, .codec c name ∈ t.chain) w := by
  refine Ensures.processor_of known ?_
  split
  · exact flow.pure _ w
  case isFalse started =>
    have started : x.phase = .started := by simpa using started
    split
    · exact flow.pure _ w
    case h_2 t track =>
      split
      · exact flow.pure _ w
      case isFalse enabled =>
        have enabled : t.enabled = true := by simpa using enabled
        have sends : Keeps (Passes fun c => ∃ t, x.tracks[i]? = some t ∧ t.enabled = true ∧
            x.phase = .started ∧ ∃ name, .codec c name ∈ t.chain)
            (Chain.send app again t.chain b) :=
          send calm t.chain b fun c name member => ⟨t, track, enabled, started, name, member⟩
        refine flow.bind sends (fun r => ?_) w
        cases r with
        | error f => exact flow.pure _
        | ok out => exact flow.bind (modifyRig _) fun _ => flow.pure _

end Passes

section Asides

variable {done journal : List Entry} (aside : ∀ e ∈ done, e.isAside = true)
include aside

theorem still_of_asides : ∀ e ∈ done, e.isTurn = false := by
  intro e member
  have := aside e member
  cases e <;> first | rfl | cases this

theorem lastReadied_of_asides (p : ProcessorId) :
    lastReadied p (done ++ journal) = lastReadied p journal := by
  have still := lastReadied_of_still (p := p) (still_of_asides aside)
  rw [lastReadied] at still ⊢
  rw [List.findSome?_append, still, Option.none_or, lastReadied]

theorem net_of_asides (k : Kind) : net k (done ++ journal) = net k journal := by
  have opens : done.countP (Entry.opens k) = 0 := by
    rw [List.countP_eq_zero]
    intro e member
    have := aside e member
    cases e <;> simp_all [Entry.opens, Entry.isAside]
  have closes : done.countP (Entry.closes k) = 0 := by
    rw [List.countP_eq_zero]
    intro e member
    have := aside e member
    cases e <;> simp_all [Entry.closes, Entry.isAside]
  simp [net, List.countP_append, opens, closes]

end Asides

/-- What an open chain holds is in use. -/
theorem Rig.inUse_track {r : Rig} {p : ProcessorId} {x : Processor} {i : Nat} {t : Track}
    (known : r.processors[p]? = some x) (track : x.tracks[i]? = some t) (isOpen : t.isOpen = true)
    (k : Kind) : t.chain.countP k ≤ r.inUse k := by
  calc t.chain.countP k
      = t.inUse k := by simp [Track.inUse, isOpen]
    _ ≤ x.inUse k := List.le_sum_of_mem (List.mem_map_of_mem (List.mem_of_getElem? track))
    _ ≤ r.inUse k := List.le_sum_of_mem (List.mem_map_of_mem (List.mem_of_getElem? known))

theorem Processor.mem_openTracks {x : Processor} {i : Nat} {t : Track}
    (track : x.tracks[i]? = some t) : i ∈ x.openTracks ↔ t.isOpen = true := by
  obtain ⟨within, rfl⟩ := List.getElem?_eq_some_iff.mp track
  simp [Processor.openTracks, within]

/-- As long as nothing but asides happens, the tracks that are ready are those that were enabled
when the processor realized. -/
theorem trackReady_iff {w : World S} {p : ProcessorId} {x : Processor} {i : Nat} {t : Track}
    {asides : List Entry} (balanced : w.now.Balanced) (prepared : w.now.Prepared)
    (known : w.rig.processors[p]? = some x) (internal : x.isExternal = false)
    (up : x.phase.isUp = true) (track : x.tracks[i]? = some t)
    (aside : ∀ e ∈ asides, e.isAside = true) :
    (Moment.mk w.rig (asides ++ w.journal)).TrackReady p i t ↔
      WasEnabled p i (asides ++ w.journal) := by
  have ready := balanced.ready p x known internal up
  constructor
  · intro ready'
    refine ⟨x.openTracks, ?_, (Processor.mem_openTracks track).mpr ready'.isOpen⟩
    exact (lastReadied_of_asides aside p).trans ready
  · rintro ⟨tracks, last, member⟩
    obtain rfl : x.openTracks = tracks := by
      rw [lastReadied_of_asides aside p] at last
      exact Option.some.inj (ready.symm.trans last)
    have isOpen := (Processor.mem_openTracks track).mp member
    obtain ⟨-, tracks, realized⟩ := prepared p x known internal up
    have still := still_of_asides aside
    have realized' := realized.later w.rig asides rfl (moved_of_still still)
      (lastReadied_of_still still)
    obtain rfl : x.openTracks = tracks := Option.some.inj (ready.symm.trans realized.last)
    refine ⟨⟨x.openTracks, realized', member⟩, isOpen, fun k => ?_⟩
    rw [show (Moment.mk w.rig (asides ++ w.journal)).journal = asides ++ w.journal from rfl,
      net_of_asides aside]
    have counted := Rig.inUse_track known track isOpen k
    have balance := balanced.net k
    simp only [World.now] at balance
    omega

/-- Whenever a frame enters a plug-in, that stands in the chain of the track that the frame was sent
to, and the track is ready exactly if it was enabled when the processor realized. -/
theorem entered_ready_iff (calm : app.QuietAtWork) {depth : Nat} {program : Program S α} {s : S}
    {a : α} {w : World S} (run : program.run (perform app depth) { app := s } = .ok (a, w))
    {p : ProcessorId} {x : Processor} (known : w.rig.processors[p]? = some x)
    (internal : x.isExternal = false) {depth' i : Nat} {b : Buffer} {r : Except Fault Buffer}
    {w' : World S} (sent : perform app depth' (.process p i b) w = .ok (r, w')) {c : CodecId}
    {later before : List Entry} (entered : w'.journal = later ++ .codec c .process :: before)
    (here : w.journal <:+ before) :
    ∃ t, x.tracks[i]? = some t ∧ t.enabled = true ∧ x.phase = .started ∧
      (∃ name, .codec c name ∈ t.chain) ∧
      ((Moment.mk w.rig before).TrackReady p i t ↔ WasEnabled p i before) := by
  have passes : Passes (fun c => ∃ t, x.tracks[i]? = some t ∧ t.enabled = true ∧
      x.phase = .started ∧ ∃ name, .codec c name ∈ t.chain) w w' := by
    cases depth' with
    | zero => cases sent
    | succ depth' => exact Passes.process calm known i b r w' sent
  obtain ⟨done, journal, aside, among⟩ := passes
  obtain ⟨earlier, rfl⟩ := here
  -- The frame that enters the plug-in lies within the processing, whose entries are `done`.
  obtain rfl : done = later ++ .codec c .process :: earlier := by
    rw [journal, ← List.cons_append, ← List.append_assoc] at entered
    exact List.append_cancel_right entered
  obtain ⟨t, track, enabled, started, inChain⟩ := among c (by simp)
  have up : x.phase.isUp = true := by
    rw [started]
    rfl
  refine ⟨t, track, enabled, started, inChain, ?_⟩
  exact trackReady_iff (World.balanced_of_run calm.toQuietPlugIns run).now
    (Moment.prepared_of_run calm.toQuietPlugIns run) known internal up track
    fun e member => aside e (by simp [member])

/-- A processor with a plug-in in the chain of its only track is started. The track is enabled, or
not, while the processor realizes, and enabled in any case before it starts. -/
def Program.startedWith (enabled : Bool) : Program Unit ProcessorId := do
  let p ← .send (.newProcessor "p" [⟨.audio .telephone, true⟩])
  let _ ← .send (.configure p)
  let _ ← .send (.setChain p 0 [.codec 0 "c"])
  let _ ← .send (.setEnabled p 0 enabled)
  let _ ← .send (.realize p)
  let _ ← .send (.setEnabled p 0 true)
  let _ ← .send (.start p)
  return p

def Buffer.byte : Buffer where
  data := [0]
  format := .audio .telephone

theorem entered_ready_iff_enabled :
    ∃ w w' r before t, (Application.silent Unit).QuietAtWork ∧
      (Program.startedWith true).run (perform (.silent Unit) 4) { app := () } = .ok (0, w) ∧
      perform (.silent Unit) 4 (.process 0 0 Buffer.byte) w = .ok (r, w') ∧
      w'.journal = .codec 0 .process :: before ∧
      (Moment.mk w.rig before).TrackReady 0 0 t := by
  have quiet : (Application.silent Unit).QuietAtWork :=
    { offer := fun _ _ => trivial, opens := fun _ => trivial, close := fun _ => trivial,
      transform := fun _ _ _ => trivial, level := fun _ _ => trivial }
  have ends : ∃ w w' r x before,
      (Program.startedWith true).run (perform (.silent Unit) 4) { app := () } = .ok (0, w) ∧
      w.rig.processors[0]? = some x ∧ x.isExternal = false ∧
      perform (.silent Unit) 4 (.process 0 0 Buffer.byte) w = .ok (r, w') ∧
      w'.journal = .codec 0 .process :: before ∧ before = w.journal ∧
      lastReadied 0 before = some [0] :=
    ⟨_, _, _, _, _, rfl, rfl, rfl, rfl, rfl, rfl, rfl⟩
  obtain ⟨w, w', r, x, before, run, known, internal, sent, entered, here, last⟩ := ends
  have entered' : w'.journal = [] ++ .codec 0 .process :: before := entered
  obtain ⟨t, -, -, -, -, ready⟩ :=
    entered_ready_iff quiet run known internal sent entered' (here ▸ List.suffix_refl before)
  exact ⟨w, w', r, before, t, quiet, run, sent, entered, ready.mpr ⟨[0], last, by simp⟩⟩

theorem frame_enters_unready :
    ∃ w w' r,
      (Program.startedWith false).run (perform (.silent Unit) 4) { app := () } = .ok (0, w) ∧
      perform (.silent Unit) 4 (.process 0 0 Buffer.byte) w = .ok (r, w') ∧
      .codec 0 .process ∈ w'.journal ∧
      .codec 0 .setInputFormat ∉ w'.journal ∧ .accepted (.codec 0 "c") ∉ w'.journal ∧
      .codec 0 .opens ∉ w'.journal ∧ .opened (.codec 0 "c") ∉ w'.journal :=
  ⟨_, _, _, rfl, rfl, by decide, by decide, by decide, by decide, by decide⟩

end Metering
