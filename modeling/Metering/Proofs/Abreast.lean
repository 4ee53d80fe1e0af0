import Metering.Proofs.Comparing
import Metering.Rig.Sessions
/-!
Runs that stay abreast. What two worlds may differ in is kept by all that a processor does with its
plug-ins, by the telling of events and by the transitions of a processor in which the worlds do not
differ.
-/

namespace Metering.Comparison

variable {S K ι : Type} {c : Comparison S K ι} {app : Application S}
variable {again : {β : Type} → Call β → Run S β} {q : ProcessorId}

namespace Abreast

section PlugIns

variable (suits : c.Suits app)
include suits

theorem offer (x : PlugIn) (f : Format) : c.Abreast (Chain.offer app again x f) := by
  cases x with
  | effect e => exact (effect e).bind fun _ => (modifyEffect e _).bind fun _ => pure _
  | codec i name => exact bind (aside rfl) fun _ => run (suits.offer i f)

theorem negotiate (chain : List PlugIn) (f : Format) :
    c.Abreast (Chain.negotiate app again chain f) := by
  induction chain generalizing f with
  | nil => exact pure _
  | cons x xs ih =>
    refine (offer suits x f).bind fun r => ?_
    cases r with
    | some g => exact bind (aside rfl) fun _ => ih g
    | none => exact pure _

theorem openPlugIn (x : PlugIn) : c.Abreast (Chain.openPlugIn app again x) := by
  have succeeds : c.Abreast
      (do Run.record (.opened x); return .ok () : Run S (Except Fault Unit)) :=
    bind (aside rfl) fun _ => pure _
  cases x with
  | effect e => exact succeeds
  | codec i name =>
    refine bind (aside rfl) fun _ => (run (suits.opens i)).bind fun r => ?_
    cases r with
    | ok => exact succeeds
    | error f => exact pure _

theorem closePlugIn (x : PlugIn) : c.Abreast (Chain.closePlugIn app again x) := by
  have closed : c.Abreast (Run.record (.closed x) : Run S Unit) := aside rfl
  cases x with
  | effect e => exact closed
  | codec i name =>
    exact bind (aside rfl) fun _ => (run (suits.close i)).bind fun _ => closed

theorem closeAll (chain : List PlugIn) : c.Abreast (Chain.closeAll app again chain) :=
  each (closePlugIn suits) chain

theorem openAll (before chain : List PlugIn) :
    c.Abreast (Chain.openAll app again before chain) := by
  induction chain generalizing before with
  | nil => exact pure _
  | cons x xs ih =>
    refine (openPlugIn suits x).bind fun r => ?_
    cases r with
    | ok => exact ih _
    | error f => exact (notice _).bind fun _ => (closeAll suits before).bind fun _ => pure _

variable (sees : c.Sees q)
include sees

theorem negotiateTracks (is : List Nat) : c.Abreast (negotiateTracks app again q is) := by
  induction is with
  | nil => exact pure _
  | cons i is ih =>
    refine (track sees i).bind fun t => ?_
    cases t with
    | none => exact ih
    | some t =>
      refine (holding sees i (negotiate suits t.chain t.format)).bind fun r => ?_
      cases r with
      | ok => exact ih
      | error f => exact pure _

theorem openTrack (i : Nat) : c.Abreast (openTrack app again q i) := by
  refine (track sees i).bind fun t => ?_
  cases t with
  | none => exact pure _
  | some t =>
    refine (holding sees i (openAll suits [] t.chain)).bind fun r => ?_
    cases r with
    | ok => exact bind (modifyProcessor sees fun _ => rfl) fun _ => pure _
    | error f => exact pure _

theorem closeTrack (i : Nat) : c.Abreast (closeTrack app again q i) := by
  refine (track sees i).bind fun t => ?_
  cases t with
  | none => exact pure _
  | some t =>
    dsimp only
    split
    · exact bind (modifyProcessor sees fun _ => rfl) fun _ =>
        holding sees i (closeAll suits t.chain)
    · exact pure _

theorem openTracks (before is : List Nat) : c.Abreast (openTracks app again q before is) := by
  induction is generalizing before with
  | nil => exact pure _
  | cons i is ih =>
    refine (openTrack suits sees i).bind fun r => ?_
    cases r with
    | ok => exact ih _
    | error f => exact (each (closeTrack suits sees) before).bind fun _ => pure _

theorem prepare : c.Abreast (prepare app again q) := by
  refine (processor sees).bind fun x => (negotiateTracks suits sees _).bind fun r => ?_
  cases r with
  | ok => exact openTracks suits sees [] _
  | error f => exact pure _

end PlugIns

theorem sessionNotice (s : SessionId) (x : SessionNotice) :
    c.Abreast (sessionNotice s x : Run S Unit) :=
  session (fun _ _ => rfl) fun _ => notice _

section Asking

variable (suits : c.Suits app)
include suits

theorem ask (asked : c.asked q) (r : Request) : c.Abreast (ask app again q r) :=
  bind (aside rfl) fun _ => run (suits.request q asked r)

variable (one : c.told q) (sees : c.Sees q)
include one sees

theorem trackControls : c.Abreast (trackControls app again q) := by
  refine look one sees fun x asked => ?_
  split
  case isTrue external =>
    refine bind (aside rfl) fun _ => (run (suits.request q (asked external) _)).bind fun r => ?_
    cases r with
    | ok => exact (processor sees).bind fun _ => pure _
    | error f => exact pure _
  case isFalse =>
    split
    · exact pure _
    · exact pure _

theorem install (e : EffectId) (side : Side) : c.Abreast (install app again q e side) := by
  refine (trackControls suits one sees).bind fun r => ?_
  cases r with
  | error f => exact (notice _).bind fun _ => pure _
  | ok tracks =>
    dsimp only
    split
    · exact (notice _).bind fun _ => pure _
    · have sets (i : Nat) (chain : List PlugIn) :
          c.Abreast (setChain q i chain : Run S (Except Fault Unit)) := by
        refine (track sees i).bind fun t => ?_
        split
        · exact pure _
        · split
          · exact (awaitChain sees i).bind fun _ =>
              bind (modifyProcessor sees fun _ => rfl) fun _ => pure _
          · exact pure _
      refine (sets _ _).bind fun r => ?_
      cases r with
      | ok => exact (notice _).bind fun _ => pure _
      | error f => exact (notice _).bind fun _ => pure _

end Asking

end Abreast

/-- One more for a session. -/
def another (n : SessionId → Nat) (t : SessionId) : SessionId → Nat :=
  fun r => if r = t then n r + 1 else n r

/-- Whoever gives up one user of a session leaves it to the others. -/
def Releases (c : Comparison S K ι) (again : {β : Type} → Call β → Run S β) : Prop :=
  ∀ t n u v, c.Beside (another n t) u v →
    Alike (c.Beside n) (again (.releaseSession t) u) (again (.releaseSession t) v)

section Users

variable {n m : SessionId → Nat} {u v : World S} {t : SessionId}

theorem releases (depth : Nat) : c.Releases (perform app depth) := by
  intro t n u v h
  cases depth with
  | zero => trivial
  | succ depth =>
    refine h.session fun x known => ?_
    have more := c.more_eq t
    have users := h.users t x known
    simp only [another, if_true] at users
    dsimp only
    -- In neither world is this the last user, so the session goes on in both.
    rw [if_neg (by grind), if_neg (by omega)]
    refine ⟨rfl, h.modifySession known ?_ (fun r other => ?_) ?_⟩
    · have sum : x.users + c.more t - 1 = x.users - 1 + c.more t := by grind
      rw [sum]
    · simp [another, other]
    · change x.users - 1 = 0 ∧ _ ∨ n t < x.users - 1
      grind

/-- A session that both worlds use is used a little more in both. -/
theorem Abreast.whileUsed {again : {β : Type} → Call β → Run S β} (releases : c.Releases again)
    {body : Run S Unit} (abreast : c.Abreast body) : c.Abreast (whileUsed again t body) := by
  intro n u v h
  refine h.session fun x known => ?_
  dsimp only
  obtain ⟨none, unused⟩ | some := h.users t x known
  · have same := c.more_eq t unused
    rw [if_neg (by omega), if_neg (by omega)]
    exact ⟨rfl, h⟩
  · rw [if_pos (by omega), if_pos (by omega)]
    have used : c.Beside (another n t) _ _ := h.modifySession
      (f := fun y => { y with users := y.users + 1 })
      (g := fun y => { y with users := y.users + 1 }) known (by simp [Nat.add_right_comm])
      (fun r other => by simp [another, other]) (by simp [another, some])
    exact (abreast _ _ _ used).bind fun _ _ _ h => releases t n _ _ h

end Users

namespace Abreast

theorem captureUpdate {e : Event} (apart : e ≠ .configured) (s : SessionId) (p : ProcessorId) :
    c.Abreast (captureUpdate app again s p e) := by
  refine session (fun _ _ => rfl) fun x => ?_
  cases e with
  | configured => contradiction
  | realized | started | stopped | closed | failed => exact sessionNotice s _

theorem streamUpdate {e : Event} (apart : e ≠ .configured)
    (starts : e = .realized → c.Abreast (again (.start q))) (s : SessionId) (k : Ssrc) :
    c.Abreast (streamUpdate app again s k q e) := by
  cases e with
  | configured => contradiction
  | realized =>
    refine session (fun _ _ => rfl) fun x => ?_
    split
    · refine (starts rfl).bind fun r => ?_
      cases r with
      | ok => exact pure _
      | error f => exact sessionNotice s _
    · exact pure _
  | started | stopped | closed | failed => exact sessionNotice s _

variable (suits : c.Suits app)
include suits

/-- To hear of an event leads no further than to the start of a processor that has realized. -/
theorem hear (one : c.told q) (releases : c.Releases again) {e : Event} (apart : e ≠ .configured)
    (starts : e = .realized → c.Abreast (again (.start q))) (x : Subscriber) :
    c.Abreast (hear app again q e x) := by
  cases x with
  | watcher w => exact run (suits.event q one w e)
  | capture s => exact whileUsed releases (captureUpdate apart s q)
  | stream s k => exact whileUsed releases (streamUpdate apart starts s k)

variable (one : c.told q) (sees : c.Sees q)
include one sees

theorem emit (releases : c.Releases again) {e : Event} (apart : e ≠ .configured)
    (starts : e = .realized → c.Abreast (again (.start q))) : c.Abreast (emit app again q e) := by
  refine bind (aside rfl) fun _ => (processor sees).bind fun x => each (fun y => ?_) _
  exact (record (admits_told sees y e)).bind fun _ => hear suits one releases apart starts y

theorem settle {α : Type} (releases : c.Releases again) (phase : Phase) (e : Event)
    (apart : e ≠ .configured) (starts : e = .realized → c.Abreast (again (.start q))) (a : α) :
    c.Abreast (do Run.moveTo q phase; Metering.emit app again q e; return a) :=
  (moveTo sees phase).bind fun _ => (emit suits one sees releases apart starts).bind fun _ => pure a

theorem start (depth : Nat) : c.Abreast (perform app depth (.start q)) := by
  cases depth with
  | zero => exact throw _
  | succ depth =>
    refine look one sees fun x asked => ?_
    split
    case isTrue external => exact ask suits (asked external) _
    case isFalse =>
      split
      · exact settle suits one sees (Comparison.releases depth) .started .started nofun nofun _
      · exact pure _
      · exact pure _

theorem realize (depth : Nat) : c.Abreast (perform app depth (.realize q)) := by
  cases depth with
  | zero => exact throw _
  | succ depth =>
    have releases : c.Releases (perform app depth) := Comparison.releases depth
    refine look one sees fun x asked => ?_
    split
    case isTrue external => exact ask suits (asked external) _
    case isFalse =>
      split
      · refine (moveTo sees _).bind fun _ => (prepare suits sees).bind fun r => ?_
        cases r with
        | error f =>
          exact (processor sees).bind fun _ => (notice _).bind fun _ =>
            settle suits one sees releases .configured (.failed f.message) nofun nofun _
        | ok =>
          refine (processor sees).bind fun y => bind (aside rfl) fun _ => ?_
          refine bind (modifyProcessor sees fun _ => rfl) fun _ => (notice _).bind fun _ => ?_
          exact settle suits one sees releases .realized .realized nofun
            (fun _ => start suits one sees depth) _
      · exact pure _
      · exact pure _
      · exact pure _

/-- What a session does about a configured processor. -/
theorem captureConfigured (depth : Nat) (s : SessionId) :
    c.Abreast (Metering.captureUpdate app (perform app depth) s q .configured) := by
  refine session (fun _ _ => rfl) fun x => (install suits one sees _ _).bind fun _ => ?_
  refine (realize suits one sees depth).bind fun r => ?_
  cases r with
  | ok => exact pure _
  | error f => exact sessionNotice s _

theorem streamConfigured (depth : Nat) (s : SessionId) (k : Ssrc) :
    c.Abreast (Metering.streamUpdate app (perform app depth) s k q .configured) := by
  have installed : c.Abreast (Metering.streamConfigured app (perform app depth) s k q) := by
    refine session (fun _ _ => rfl) fun x => ?_
    split
    · exact (install suits one sees _ _).bind fun _ => pure _
    · exact sessionNotice s _
  refine installed.bind fun _ => (realize suits one sees depth).bind fun r => ?_
  cases r with
  | ok => exact pure _
  | error f => exact sessionNotice s _

theorem close (releases : c.Releases again) : c.Abreast (close app again q) := by
  refine look one sees fun x asked => ?_
  split
  case isTrue external => exact (ask suits (asked external) _).bind fun _ => pure _
  case isFalse =>
    split
    · refine (moveTo sees _).bind fun _ => ?_
      have rest : c.Abreast (do
          Run.notice (.processor x.name .closed)
          Metering.emit app again q .closed) :=
        (notice _).bind fun _ => emit suits one sees releases nofun nofun
      dsimp only
      split
      · exact (each (closeTrack suits sees) _).bind fun _ => rest
      · exact rest
    · exact pure _

end Abreast

end Metering.Comparison
