import Mathlib.Data.List.Induction
import Metering.Proofs.Orphans
import Metering.Proofs.Subscribing
import Metering.Proofs.Tellings
/-!
Subscriptions of a session outlast the use of a processor, and the session does not ask who is in
use when it is told an event. A processor of the rig that is not in use has nothing to tell it any
more for which it would do something, but a processor of the application may.

* `stale_inert`: processors of the rig;
* `stale_driven`: a processor of the application.
-/

namespace Metering

variable {S α β : Type} {app : Application S}

/-- A processor that has realized before, or is closed. -/
def Phase.isLate : Phase → Bool
  | .realized | .started | .closed => true
  | _ => false

theorem Phase.isLate_of (a : Phase) (notEarly : a.isEarly = false) (apart : a ≠ .realizing) :
    a.isLate = true := by
  cases a <;> simp_all [isEarly, isLate]

/-- The events for which a session does something. -/
def Subscriber.drivenBy : Subscriber → Event → Bool
  | .capture _, .configured | .stream .., .configured | .stream .., .realized => true
  | _, _ => false

def Rig.uses (r : Rig) : Subscriber → ProcessorId → Prop
  | .watcher _, _ => True
  | .capture s, p => r.slot s = some p
  | .stream s k, p => r.stored s k = some p

section Course

variable {a b c : Phase} {v : List Act} {op : Request} {r : Except Fault Unit}

theorem Transition.late (t : Transition False op a v b r) (late : a.isLate = true) :
    b.isLate = true ∧ .announced .configured ∉ v ∧ .announced .realized ∉ v := by
  cases t <;> simp_all [Phase.isLate]

/-- A processor that has realized tells neither that it is configured nor that it is realized. -/
theorem Course.late (h : Course False a v b) (late : a.isLate = true) :
    b.isLate = true ∧ .announced .configured ∉ v ∧ .announced .realized ∉ v := by
  induction h with
  | rest => exact ⟨late, List.not_mem_nil, List.not_mem_nil⟩
  | go _ t ih =>
    obtain ⟨late, configured, realized⟩ := ih
    obtain ⟨later, configured', realized'⟩ := t.late late
    exact ⟨later, by simp [configured, configured'], by simp [realized, realized']⟩

theorem Transition.late_of_moved (t : Transition False op a v b r) (late : c.isLate = true)
    (moved : .moved c ∈ v) : b.isLate = true := by
  cases t <;> simp_all [Phase.isLate] <;> grind

/-- Once it has realized, a processor has done so for good. -/
theorem Course.late_of_moved (h : Course False a v b) (late : c.isLate = true)
    (moved : .moved c ∈ v) : b.isLate = true := by
  induction h with
  | rest => cases moved
  | go _ t ih =>
    obtain before | now := List.mem_append.mp moved
    · exact (t.late (ih before)).1
    · exact t.late_of_moved late now

theorem Transition.begun (t : Transition False op a v b r) (begun : a ≠ .unrealized) :
    .announced .configured ∉ v := by
  cases t <;> simp_all

theorem Transition.ne_unrealized (t : Transition False op a v b r) : b ≠ .unrealized := by
  cases t <;> simp

/-- A processor that has begun its course tells no more that it is configured. -/
theorem Course.begun (h : Course False a v b) (begun : a ≠ .unrealized) :
    b ≠ .unrealized ∧ .announced .configured ∉ v := by
  induction h with
  | rest => exact ⟨begun, List.not_mem_nil⟩
  | go _ t ih =>
    obtain ⟨begun, before⟩ := ih
    exact ⟨t.ne_unrealized, by simp [before, t.begun begun]⟩

theorem Course.ne_unrealized (h : Course False a v b) (moved : v ≠ []) : b ≠ .unrealized := by
  cases h with
  | rest => exact absurd rfl moved
  | go _ t => exact t.ne_unrealized

theorem mem_lastPhase (moved : lastPhase v ≠ .unrealized) : .moved (lastPhase v) ∈ v := by
  induction v using List.reverseRecOn with
  | nil => exact absurd rfl moved
  | append_singleton v act ih =>
    cases act with
    | moved phase => simp
    | announced e =>
      rw [lastPhase_announced] at moved ⊢
      exact List.mem_append_left _ (ih moved)

end Course

section Journal

variable {x : Subscriber} {p : ProcessorId} {e : Event} {later journal : List Entry}

theorem mem_audience (member : x ∈ audience p journal) : .subscribed p x ∈ journal := by
  induction journal with
  | nil => cases member
  | cons entry journal ih =>
    cases entry with
    | subscribed q y =>
      simp only [audience] at member
      split at member
      case isTrue same =>
        obtain before | here := List.mem_append.mp member
        · exact List.mem_cons_of_mem _ (ih before)
        · obtain rfl := List.mem_singleton.mp here
          rw [same]
          exact List.mem_cons_self
      case isFalse => exact List.mem_cons_of_mem _ (ih member)
    | _ => exact List.mem_cons_of_mem _ (ih member)

/-- Nothing more is due to a subscriber if nothing is announced or it has not subscribed. -/
theorem due_append (h : .announced p e ∉ later ∨ .subscribed p x ∉ later ++ journal) :
    due x p e (later ++ journal) = due x p e journal := by
  induction later with
  | nil => rfl
  | cons entry later ih =>
    have rest := ih (h.imp (fun apart member => apart (List.mem_cons_of_mem _ member))
      fun apart member => apart (List.mem_cons_of_mem _ member))
    cases entry with
    | announced q f =>
      simp only [List.cons_append, due, rest]
      split
      case isTrue same =>
        obtain ⟨rfl, rfl⟩ := same
        obtain apart | apart := h
        · exact absurd List.mem_cons_self apart
        · have nobody : x ∉ audience q (later ++ journal) := fun member =>
            apart (List.mem_cons_of_mem _ (mem_audience member))
          rw [List.count_eq_zero.mpr nobody, Nat.add_zero]
      case isFalse => rfl
    | _ => exact rest

theorem mem_acts_announced (member : .announced p e ∈ journal) :
    .announced e ∈ acts p journal :=
  List.mem_reverse.mpr (List.mem_filterMap.mpr ⟨_, member, by simp⟩)

/-- A subscriber is told nothing that is not announced to it. -/
theorem not_told (before : underWay journal = some [])
    (after : underWay (later ++ journal) = some [])
    (h : .announced p e ∉ later ∨ .subscribed p x ∉ later ++ journal) :
    .told x p e ∉ later := by
  have first : journal.count (.told x p e) = due x p e journal := told_count before
  have all : (later ++ journal).count (.told x p e) = due x p e (later ++ journal) :=
    told_count after
  rw [List.count_append, due_append h] at all
  exact List.count_eq_zero.mp (by omega)

end Journal

/-- A session whose processor tells it an event that does not drive it writes a line, and leaves
the rig as it is. -/
theorem rests_captureUpdate {again : {β : Type} → Call β → Run S β} {s : SessionId} {e : Event}
    (rests : (Subscriber.capture s).drivenBy e = false) (p : ProcessorId) (w : World S) :
    Ensures (captureUpdate app again s p e) w fun _ w' => w'.rig = w.rig := by
  refine ensures_bind.mpr (ensures_session.mpr fun x _ => ?_)
  cases e with
  | configured => cases rests
  | realized | started | stopped | closed | failed =>
    exact ensures_sessionNotice.mpr fun _ _ => rfl

theorem rests_streamUpdate {again : {β : Type} → Call β → Run S β} {s : SessionId} {k : Ssrc}
    {e : Event} (rests : (Subscriber.stream s k).drivenBy e = false) (p : ProcessorId)
    (w : World S) : Ensures (streamUpdate app again s k p e) w fun _ w' => w'.rig = w.rig := by
  cases e with
  | configured | realized => cases rests
  | started | stopped | closed | failed => exact ensures_sessionNotice.mpr fun _ _ => rfl

/-- A processor that was turned away had realized by then. -/
theorem late_of_untaken (quiet : app.QuietPlugIns) {depth : Nat} {program : Program S α} {s : S}
    {a : α} {u : World S} (run : program.run (perform app depth) { app := s } = .ok (a, u))
    (internal : u.Internal) {t : SessionId} {k : Ssrc} {p : ProcessorId}
    (joined : .subscribed p (.stream t k) ∈ u.journal)
    (untaken : ¬Taken p (.stream t k) u.journal) : (u.rig.phase p).isLate = true := by
  have proceeds : Proceeds False p { app := s } u :=
    (Proceeds.lawful (.inr quiet) p).program depth program _ a u run
  obtain ⟨v, whole, course⟩ := proceeds.leads.course (internal p)
  have whole : acts p u.journal = v := whole
  have parts := (Parts.lawful quiet).program depth program _ a u run
  obtain ⟨after, before, eq⟩ := List.append_of_mem joined
  have within : .subscribed p (.stream t k) :: before <:+ u.journal := ⟨after, eq.symm⟩
  have apart := (parts.settled internal .nil).apart p _ before within
  have notEarly : early p before = false := by
    cases isEarly : early p before with
    | false => rfl
    | true => exact absurd ⟨before, within, isEarly⟩ untaken
  have late := Phase.isLate_of _ notEarly apart
  refine course.late_of_moved late ?_
  rw [← whole]
  refine (acts_of_suffix ((List.suffix_cons _ _).trans within)).subset (mem_lastPhase ?_)
  intro unrealized
  rw [unrealized] at late
  cases late

/-- What the end of a run says about a subscriber that has a processor not in use: the processor
will not tell it again anything by which it is driven. -/
theorem stale_past (quiet : app.QuietPlugIns) {depth : Nat} {program : Program S α} {s : S} {a : α}
    {u : World S} (run : program.run (perform app depth) { app := s } = .ok (a, u))
    (internal : u.Internal) {x : Subscriber} {p : ProcessorId} (stale : ¬u.rig.uses x p)
    (joined : .subscribed p x ∈ u.journal) {e : Event} (drives : x.drivenBy e = true)
    {b : Phase} {v : List Act} (course : Course False (u.rig.phase p) v b) :
    .announced e ∉ v := by
  have proceeds : Proceeds False p { app := s } u :=
    (Proceeds.lawful (.inr quiet) p).program depth program _ a u run
  obtain ⟨v₀, whole, course₀⟩ := proceeds.leads.course (internal p)
  have whole : acts p u.journal = v₀ := whole
  have accounts := (Accounts.abiding app).program depth program _ a u run
  have account := (accounts.audits internal (World.recorded_start s)).accounted _
    (World.accounted_start s)
  have begun (session : x.isSession = true) : u.rig.phase p ≠ .unrealized := by
    obtain moved | isFresh := account.moved p x session joined
    · exact course₀.ne_unrealized (whole ▸ moved)
    · exact isFresh.elim
  cases x with
  | watcher => cases drives
  | capture t =>
    cases e with
    | configured => exact (course.begun (begun rfl)).2
    | _ => cases drives
  | stream t k =>
    cases e with
    | configured => exact (course.begun (begun rfl)).2
    | realized =>
      -- The stream was lost because it was never taken, or because its processor has closed. Either
      -- way it is too late for the processor to be realized.
      suffices late : (u.rig.phase p).isLate = true from (course.late late).2.2
      by_cases taken : Taken p (.stream t k) u.journal
      · obtain here | closed | away := account.stream t k p taken
        · exact absurd here stale
        · rw [proceeds.closed (internal p) closed]
          rfl
        · exact away.elim
      · exact late_of_untaken quiet run internal joined taken
    | _ => cases drives

/-- A run ends, and another one goes on from there. A subscription whose session has the processor
in use no longer, or never had, is told nothing in the second run for which the session would do
something, unless the processor is given to the session anew; all that it does about the rest is to
write it down. -/
theorem stale_inert (quiet : app.QuietPlugIns) {depth depth' : Nat} {program : Program S α}
    {further : Program S β} {s : S} {a : α} {b : β} {u w : World S}
    (run : program.run (perform app depth) { app := s } = .ok (a, u))
    (run' : further.run (perform app depth') u = .ok (b, w)) (internal : w.Internal) :
    (∃ later, w.journal = later ++ u.journal ∧ ∀ x p, ¬u.rig.uses x p → .subscribed p x ∉ later →
      ∀ e, x.drivenBy e = true → .told x p e ∉ later) ∧
    ∀ (again : {γ : Type} → Call γ → Run S γ) (p : ProcessorId) (e : Event) (v : World S),
      (∀ t, (Subscriber.capture t).drivenBy e = false →
        Ensures (captureUpdate app again t p e) v fun _ v' => v'.rig = v.rig) ∧
      ∀ t k, (Subscriber.stream t k).drivenBy e = false →
        Ensures (streamUpdate app again t k p e) v fun _ v' => v'.rig = v.rig := by
  refine ⟨?_, fun again p e v => ⟨fun t rests => rests_captureUpdate rests p v,
    fun t k rests => rests_streamUpdate rests p v⟩⟩
  have lasts := (Lasts.lawful app).program depth' further u b w run'
  obtain ⟨later, eq⟩ := lasts.journal
  refine ⟨later, eq.symm, fun x p stale apart e drives => ?_⟩
  have start : World.Amid { app := s } [] := ⟨fun p => rfl, rfl⟩
  have attends : Lawful app (Attends (S := S)) := Attends.steady.lawful fun _ => trivial
  have before := attends.program depth program _ a u run [] start
  have after := attends.program depth' further u b w run' [] before
  refine not_told before.underWay (eq ▸ after.underWay) ?_
  -- One who had subscribed before is past what drives it. One who had not, and does not now, is in
  -- no audience.
  by_cases joined : .subscribed p x ∈ u.journal
  · left
    intro announced
    have proceeds : Proceeds False p u w :=
      (Proceeds.lawful (.inr quiet) p).program depth' further u b w run'
    obtain ⟨v, grown, course⟩ := proceeds.leads.course (internal p)
    have same : v = acts p later := by
      have grown : acts p w.journal = acts p u.journal ++ v := grown
      rw [← eq, acts_append] at grown
      exact (List.append_cancel_left grown).symm
    refine stale_past quiet run (lasts.internal internal) stale joined drives course ?_
    rw [same]
    exact mem_acts_announced announced
  · right
    intro member
    obtain new | old := List.mem_append.mp member
    · exact apart new
    · exact joined old

def Program.removal : Program Unit Unit := do
  let p ← .source "p"
  let s ← .send (.newSession "s" ⟨"d", "d", false⟩ {})
  let _ ← .send (.addStream s 1 p)
  let _ ← .send (.removeStream s 1)

/-- A stream of the same name is added with another processor, and the first is asked to realize. -/
def Program.addition : Program Unit Unit := do
  let q ← .source "q"
  let _ ← .send (.addStream 0 1 q)
  let _ ← .send (.realize 0)

theorem stale_inert_silent : (Application.silent Unit).QuietPlugIns ∧
    ∃ u w later, Program.removal.run (perform (.silent Unit) 6) { app := () } = .ok ((), u) ∧
      Program.addition.run (perform (.silent Unit) 6) u = .ok ((), w) ∧ w.Internal ∧
      ¬u.rig.uses (.stream 0 1) 0 ∧ w.journal = later ++ u.journal ∧
      .told (.stream 0 1) 0 .realized ∉ later := by
  have quiet : (Application.silent Unit).QuietPlugIns :=
    ⟨fun _ _ => trivial, fun _ => trivial, fun _ => trivial⟩
  have ends : (Program.removal.run (perform (.silent Unit) 6)).Ends { app := () } fun u =>
      (Program.addition.run (perform (.silent Unit) 6)).Ends u fun w => w.Internal ∧
        u.rig.stored 0 1 = none ∧ w.journal.count (.subscribed 0 (.stream 0 1)) =
          u.journal.count (.subscribed 0 (.stream 0 1)) := by
    decide +kernel
  obtain ⟨_, u, run, _, w, run', internal, gone, once⟩ := ends
  have stale : ¬u.rig.uses (.stream 0 1) 0 := fun inUse => by cases gone.symm.trans inUse
  obtain ⟨later, eq, inert⟩ := (stale_inert quiet run run' internal).1
  refine ⟨quiet, u, w, later, run, run', internal, stale, eq, ?_⟩
  apply inert _ _ stale _ _ rfl
  rw [eq, List.count_append] at once
  exact List.count_eq_zero.mp (by omega)

/-- A processor of the application has realized and is turned away. A stream of the same name is
added with another processor. Then the first tells that it is configured. -/
def Program.lateTelling : Program Unit Unit := do
  let p ← .send (.newExternal "p" .realized [⟨.audio .telephone, true⟩])
  let q ← .source "q"
  let s ← .send (.newSession "s" ⟨"d", "d", false⟩ {})
  let _ ← .send (.addStream s 1 p)
  let _ ← .send (.addStream s 1 q)
  .send (.emit p .configured)

/-- The stream is played by the second processor, and the first gets the effect of the stream and
is asked to realize. -/
theorem stale_driven :
    (Program.lateTelling.run (perform (.silent Unit) 6)).Ends { app := () } fun w =>
      (w.rig.sessions[0]?).bind (·.stream? 1) = some ⟨1, 2⟩ ∧
      .told (.stream 0 1) 0 .configured ∈ w.journal ∧
      (w.rig.processors[0]?).map (·.tracks.map (·.chain)) = some [[.effect 2]] ∧
      .request 0 .realize ∈ w.journal := by
  decide +kernel

end Metering
