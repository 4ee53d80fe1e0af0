import Metering.Proofs.Run
/-!
The way of one frame. `Journey` is the way through a chain: from plug-in to plug-in, until the
chain ends, a plug-in fails or the frame is to be discarded. `Handling` is what becomes of a frame
that is handed to a processor. Both say which plug-ins are entered, with what, and in which world.
What the processor makes of a frame is its handling (`Handling.of_process`, `Handling.runs`).
-/

namespace Metering

variable {S : Type} (app : Application S) (again : {β : Type} → Call β → Run S β)

/-- A plug-in is entered with a frame and with an empty slot of the format of the frame. It answers
with a frame or a fault. An effect never fails. -/
inductive Visit : PlugIn → Buffer → World S → Except Fault Buffer → World S → Prop
  | effect {e : EffectId} {b out : Buffer} {w v : World S}
      (shown : Chain.observe app again e b (.empty b.format) w = .ok (out, v)) :
      Visit (.effect e) b w (.ok out) v
  | codec {c : CodecId} {name : String} {b : Buffer} {w v : World S} {r : Except Fault Buffer}
      (ran : (app.transform c b (.empty b.format)).run again (w.record (.codec c .process)) =
        .ok (r, v)) :
      Visit (.codec c name) b w r v

/-- The way of a frame through a chain. Each plug-in gets what the one before it made. -/
inductive Journey : List PlugIn → Buffer → World S → Except Fault Buffer → World S → Prop
  | arrives {b : Buffer} {w : World S} : Journey [] b w (.ok b) w
  | fails {x : PlugIn} {xs : List PlugIn} {b : Buffer} {w v : World S} {f : Fault}
      (visit : Visit app again x b w (.error f) v) : Journey (x :: xs) b w (.error f) v
  | discarded {x : PlugIn} {xs : List PlugIn} {b out : Buffer} {w v : World S}
      (visit : Visit app again x b w (.ok out) v) (discard : out.discard = true) :
      Journey (x :: xs) b w (.ok out) v
  | goesOn {x : PlugIn} {xs : List PlugIn} {b out : Buffer} {w u v : World S}
      {r : Except Fault Buffer} (visit : Visit app again x b w (.ok out) u)
      (usable : out.discard = false) (rest : Journey xs out u r v) : Journey (x :: xs) b w r v

/-- What becomes of a frame that is handed to a processor for one of its tracks. Where no journey
is made, nothing happens at all. -/
inductive Handling (p : ProcessorId) (x : Processor) (i : Nat) (b : Buffer) (w : World S) :
    Except Fault Buffer → World S → Prop
  | unstarted (phase : x.phase ≠ .started) :
      Handling p x i b w (.error (.invalidState (x.cannot "process"))) w
  | absent (phase : x.phase = .started) (none : x.tracks[i]? = none) :
      Handling p x i b w (.error (.noSuchTrack i)) w
  | bypassed {t : Track} (phase : x.phase = .started) (known : x.tracks[i]? = some t)
      (disabled : t.enabled = false) : Handling p x i b w (.ok b) w
  | passed {t : Track} {out : Buffer} {v : World S} (phase : x.phase = .started)
      (known : x.tracks[i]? = some t) (enabled : t.enabled = true)
      (journey : Journey app again t.chain b w (.ok out) v) :
      Handling p x i b w (.ok out)
        (v.modify p fun y => { y with framesProcessed := y.framesProcessed + 1 })
  | failed {t : Track} {f : Fault} {v : World S} (phase : x.phase = .started)
      (known : x.tracks[i]? = some t) (enabled : t.enabled = true)
      (journey : Journey app again t.chain b w (.error f) v) : Handling p x i b w (.error f) v

variable {app : Application S} {again : {β : Type} → Call β → Run S β}
variable {b : Buffer} {w v : World S} {r : Except Fault Buffer}

theorem Run.pure_ok {α : Type} {a a' : α} :
    (pure a : Run S α) w = .ok (a', v) ↔ a = a' ∧ w = v := by
  change Except.ok (a, w) = Except.ok (a', v) ↔ _
  rw [Except.ok.injEq, Prod.mk.injEq]

namespace Chain

theorem process_ok_iff {x : PlugIn} :
    process app again x b w = .ok (r, v) ↔ Visit app again x b w r v := by
  cases x with
  | effect e =>
    unfold process
    rw [Run.bind_ok]
    constructor
    · rintro ⟨out, u, shown, rest⟩
      obtain ⟨rfl, rfl⟩ := Run.pure_ok.mp rest
      exact .effect shown
    · rintro ⟨shown⟩
      exact ⟨_, _, shown, Run.pure_ok.mpr ⟨rfl, rfl⟩⟩
  | codec c name =>
    constructor
    · intro ran
      exact .codec ran
    · rintro ⟨⟩
      assumption

/-- A frame is sent on the journey, and on no other. -/
theorem send_ok_iff {chain : List PlugIn} :
    send app again chain b w = .ok (r, v) ↔ Journey app again chain b w r v := by
  -- By the chain: each plug-in is one visit, and the journey goes on from what it gives.
  induction chain generalizing b w with
  | nil =>
    constructor
    · intro sent
      obtain ⟨rfl, rfl⟩ := Run.pure_ok.mp sent
      exact .arrives
    · rintro ⟨⟩
      rfl
  | cons x xs ih =>
    unfold send
    rw [Run.bind_ok]
    constructor
    · rintro ⟨a, u, entered, rest⟩
      have visit := process_ok_iff.mp entered
      cases a with
      | error f =>
        obtain ⟨rfl, rfl⟩ := Run.pure_ok.mp rest
        exact .fails visit
      | ok out =>
        dsimp only at rest
        split at rest
        case isTrue discard =>
          obtain ⟨rfl, rfl⟩ := Run.pure_ok.mp rest
          exact .discarded visit discard
        case isFalse usable =>
          exact .goesOn visit (Bool.eq_false_iff.mpr usable) (ih.mp rest)
    · intro journey
      cases journey with
      | fails visit => exact ⟨_, _, process_ok_iff.mpr visit, rfl⟩
      | discarded visit discard =>
        refine ⟨_, _, process_ok_iff.mpr visit, ?_⟩
        simp only [discard, if_true]
        rfl
      | goesOn visit usable rest =>
        refine ⟨_, _, process_ok_iff.mpr visit, ?_⟩
        simpa only [usable, Bool.false_eq_true, if_false] using ih.mpr rest

end Chain

section Process

variable {p : ProcessorId} {x : Processor} {i : Nat} (known : w.rig.processors[p]? = some x)
include known

/-- What a processor makes of a frame is how it is to be handled. -/
theorem Handling.of_process (run : process app again p i b w = .ok (r, v)) :
    Handling app again p x i b w r v := by
  rw [process, Run.bind_eq (Run.processor_eq known)] at run
  split at run
  case isTrue phase =>
    obtain ⟨rfl, rfl⟩ := Run.pure_ok.mp run
    exact .unstarted (bne_iff_ne.mp phase)
  case isFalse started =>
    have phase : x.phase = .started := by simpa using started
    cases there : x.tracks[i]? with
    | none =>
      simp only [there] at run
      obtain ⟨rfl, rfl⟩ := Run.pure_ok.mp run
      exact .absent phase there
    | some t =>
      simp only [there] at run
      split at run
      case isTrue disabled =>
        obtain ⟨rfl, rfl⟩ := Run.pure_ok.mp run
        exact .bypassed phase there (by simpa using disabled)
      case isFalse working =>
        have enabled : t.enabled = true := by simpa using working
        obtain ⟨sent, u, journey, rest⟩ := Run.bind_ok.mp run
        rw [Chain.send_ok_iff] at journey
        cases sent with
        | ok out =>
          cases rest
          exact .passed phase there enabled journey
        | error f =>
          cases rest
          exact .failed phase there enabled journey

/-- A frame that is to be handled so is. -/
theorem Handling.runs (handling : Handling app again p x i b w r v) :
    process app again p i b w = .ok (r, v) := by
  rw [process, Run.bind_eq (Run.processor_eq known)]
  cases handling with
  | unstarted phase =>
    rw [if_pos (bne_iff_ne.mpr phase)]
    rfl
  | absent phase none =>
    rw [if_neg (by simp [phase]), none]
    rfl
  | bypassed phase there disabled =>
    rw [if_neg (by simp [phase]), there]
    simp only [disabled, Bool.not_false, if_true]
    rfl
  | passed phase there enabled journey | failed phase there enabled journey =>
    rw [if_neg (by simp [phase]), there]
    simp only [enabled, Bool.not_true, Bool.false_eq_true, if_false]
    rw [Run.bind_eq (Chain.send_ok_iff.mpr journey)]
    rfl

end Process

end Metering
