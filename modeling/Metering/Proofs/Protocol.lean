import Metering.Proofs.Tellings
import Metering.Proofs.Transitions
/-!
The protocol of a processor's life, if its plug-ins do not call back when they are offered formats,
opened and closed. Watchers may do at any time whatever they want.
-/

namespace Metering

variable {S α : Type} {app : Application S}

def Request.perform (app : Application S) (depth : Nat) (p : ProcessorId) :
    Request → Run S (Except Fault Unit)
  | .configure => Metering.perform app depth (.configure p)
  | .realize => Metering.perform app depth (.realize p)
  | .start => Metering.perform app depth (.start p)
  | .stop => Metering.perform app depth (.stop p)
  | .close => do
    Metering.perform app depth (.close p)
    return .ok ()
  | .trackControls => do
    let r ← Metering.perform app depth (.trackControls p)
    return r.map fun _ => ()

/-- Tracks are shown without any change. -/
theorem carries_trackControls {again : {β : Type} → Call β → Run S β} {intruded : Prop}
    {p : ProcessorId} {w : World S} (answers : Answers (Proceeds intruded p) again) :
    Ensures (trackControls app again p) w
      fun r => Carries intruded p .trackControls w (r.map fun _ => ()) := by
  cases external : w.rig.isExternal p with
  | true =>
    exact ((Proceeds.plain intruded p).trackControls answers p w).mono fun _ _ =>
      .of_external external
  | false =>
    apply Ensures.processor
    intro x known
    rw [if_neg (by simp [← Rig.isExternal_of known, external])]
    split
    · exact ensures_pure.mpr (.rest rfl)
    · exact ensures_pure.mpr (.rest rfl)

theorem Request.carries {intruded : Prop} (calm : intruded ∨ app.QuietPlugIns) (depth : Nat)
    (p : ProcessorId) (op : Request) (w : World S) :
    Ensures (op.perform app depth p) w (Carries intruded p op w) := by
  cases depth with
  | zero => cases op <;> exact fun _ _ run => by cases run
  | succ depth =>
    have answers : Answers (Proceeds intruded p) (Metering.perform app depth) :=
      (Proceeds.lawful calm p).perform depth
    cases op with
    | configure => exact carries_configure answers
    | realize => exact carries_realize answers calm
    | start => exact carries_start answers
    | stop => exact carries_stop answers
    | close =>
      refine Ensures.bind (carries_close answers calm) fun _ _ carries => ?_
      exact ensures_pure.mpr carries
    | trackControls =>
      refine Ensures.bind (carries_trackControls answers) fun _ _ carries => ?_
      exact ensures_pure.mpr carries

/-- From the beginning of a run on, each moment leads to each later one. -/
theorem Proceeds.ordered {p : ProcessorId} {u w : World S} (h : Proceeds False p u w)
    (start : u.moments = []) :
    (w.now :: w.moments ++ [u.now]).Pairwise fun n m => Leads False p m n := by
  obtain ⟨ms, eq, ordered, between⟩ := h.moments not_false
  rw [start, List.append_nil] at eq
  rw [eq, List.cons_append, List.pairwise_cons, List.pairwise_append]
  refine ⟨fun m earlier => ?_, ordered, List.pairwise_singleton .., fun n later m first => ?_⟩
  · obtain seen | first := List.mem_append.mp earlier
    · exact (between m seen).2
    · exact List.mem_singleton.mp first ▸ h.leads
  · exact List.mem_singleton.mp first ▸ (between n later).1

theorem Carries.ends {intruded : Prop} {p : ProcessorId} {op : Request} {u v : World S}
    {r : Except Fault Unit} (h : Carries intruded p op u r v)
    (internal : v.rig.isExternal p = false) :
    if op.begins (u.rig.phase p) then
      ∃ b go further, Transition intruded op (u.rig.phase p) go b r ∧
        Course intruded b further (v.rig.phase p) ∧
        acts p v.journal = acts p u.journal ++ go ++ further
    else v = u := by
  unfold Carries at h
  split at h
  case isTrue external =>
    exact absurd ((h.leads.external external).symm.trans internal) Bool.noConfusion
  split at h
  case isTrue begins =>
    rw [if_pos begins]
    obtain ⟨m, turns, rest⟩ := h
    obtain ⟨further, acts, course⟩ := rest.leads.course internal
    obtain ⟨go, acts', t⟩ := turns.transition (rest.leads.internal internal)
    exact ⟨_, go, further, t, course, by rw [← acts']; exact acts⟩
  case isFalse ends => rwa [if_neg ends]

/-- The life of a processor, seen from every moment at which the application has it before it. From
each of these moments to each later one the processor goes through whole transitions, each of which
stores the phase before it announces its event; whoever had subscribed before is told every event
once, in turn; and a call begins with the transition it asks for, or changes nothing at all. -/
theorem lifecycle_protocol (quiet : app.QuietPlugIns) {depth : Nat} {program : Program S α}
    {s : S} {a : α} {w : World S}
    (run : program.run (perform app depth) { app := s } = .ok (a, w)) :
    (∀ p, (w.now :: w.moments ++ [World.now { app := s }]).Pairwise
      fun n m => Leads False p m n) ∧
    underWay w.journal = some [] ∧
    (∀ x p e, w.journal.count (.told x p e) = due x p e w.journal) ∧
    ∀ (depth : Nat) (p : ProcessorId) (op : Request) (u v : World S) (r : Except Fault Unit),
      op.perform app depth p u = .ok (r, v) → v.rig.isExternal p = false →
      if op.begins (u.rig.phase p) then
        ∃ b go further, Transition False op (u.rig.phase p) go b r ∧
          Course False b further (v.rig.phase p) ∧
          acts p v.journal = acts p u.journal ++ go ++ further
      else v = u := by
  have amid : World.Amid { app := s } [] := ⟨fun p => rfl, rfl⟩
  have attends := (Attends.steady.lawful fun _ => trivial).program depth program _ a w run [] amid
  refine ⟨fun p => ?_, attends.underWay, fun x p e => ?_, ?_⟩
  · have lawful : Lawful app (Proceeds (S := S) False p) := Proceeds.lawful (.inr quiet) p
    exact (lawful.program depth program _ a w run).ordered rfl
  · simpa [outstanding] using told_count (x := x) (p := p) (e := e) attends.underWay
  · intro depth p op u v r run internal
    exact (op.carries (.inr quiet) depth p u r v run).ends internal

/-- A watcher that realizes every processor as soon as it is configured. -/
def Application.hasty : Application Unit :=
  { Application.silent Unit with
    event := fun _ p e => match e with
      | .configured => do let _ ← .send (.realize p)
      | _ => .done () }

/-- Two watchers learn of a processor that one of them drives further in between. -/
def Program.driven : Program Unit Unit := do
  let p ← .send (.newProcessor "p" [])
  .send (.watch p 0)
  .send (.watch p 1)
  let _ ← .send (.configure p)
  .send (.close p)

theorem lifecycle_protocol_hasty : Application.hasty.QuietPlugIns ∧
    ∃ w, Program.driven.run (perform Application.hasty 4) { app := () } = .ok ((), w) ∧
      underWay w.journal = some [] := by
  have quiet : Application.hasty.QuietPlugIns :=
    ⟨fun _ _ => trivial, fun _ => trivial, fun _ => trivial⟩
  have ends : ∃ w, Program.driven.run (perform Application.hasty 4) { app := () } = .ok ((), w) :=
    ⟨_, rfl⟩
  obtain ⟨w, run⟩ := ends
  exact ⟨quiet, w, run, (lifecycle_protocol quiet run).2.1⟩

end Metering
