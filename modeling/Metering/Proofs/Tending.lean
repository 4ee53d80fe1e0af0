import Metering.Proofs.Answering
/-!
Relations kept while the plug-ins of a processor are tended: while formats are agreed on and
chains are opened and closed. A `Stable` relation is kept by that, by single changes of phase and
by the telling of events, and so by every transition. A `Steady` one is plain as well, and is then
lawful.
-/

namespace Metering

variable {S : Type}

/-- What the plug-ins of the application do when they are offered a format, opened or closed keeps
the relation. -/
structure PlugInsKeep (app : Application S) (again : {β : Type} → Call β → Run S β)
    (R : World S → World S → Prop) : Prop where
  offer : ∀ c f, Keeps R ((app.offer c f).run again)
  opens : ∀ c, Keeps R ((app.opens c).run again)
  close : ∀ c, Keeps R ((app.close c).run again)

/-- The plug-ins do not call back when they are offered a format, opened or closed. -/
structure Application.QuietPlugIns (app : Application S) : Prop where
  offer : ∀ c f, (app.offer c f).Quiet
  opens : ∀ c, (app.opens c).Quiet
  close : ∀ c, (app.close c).Quiet

/-- The relation is kept while the plug-ins of some of the processors are tended. -/
structure Tending (among : ProcessorId → Prop) (R : World S → World S → Prop) : Prop
    extends Loose R where
  holding : ∀ {α : Type} (p : ProcessorId), among p → ∀ (i : Nat) {calls : Run S α},
    Keeps R calls → Keeps R (Run.holding p i calls)
  opened : ∀ x, Keeps R (Run.record (.opened x))
  closed : ∀ x, Keeps R (Run.record (.closed x))
  setOpen : ∀ p i isOpen, Keeps R (Run.modifyTrack p i fun t => { t with isOpen })

section

variable {app : Application S} {again : {β : Type} → Call β → Run S β}
variable {R : World S → World S → Prop}

theorem Loose.plugIns (h : Loose R) (quiet : app.QuietPlugIns) : PlugInsKeep app again R where
  offer c f := h.quiet (quiet.offer c f)
  opens c := h.quiet (quiet.opens c)
  close c := h.quiet (quiet.close c)

theorem Tame.plugIns (h : Tame R) (answers : Answers R again) : PlugInsKeep app again R where
  offer _ _ := h.run answers _
  opens _ := h.run answers _
  close _ := h.run answers _

theorem Loose.negotiate (h : Loose R) (plugIns : PlugInsKeep app again R) (chain : List PlugIn)
    (f : Format) : Keeps R (Chain.negotiate app again chain f) := by
  induction chain generalizing f with
  | nil => exact h.pure _
  | cons x xs ih =>
    have offered : Keeps R (Chain.offer app again x f) := by
      cases x with
      | effect e => exact h.offerEffect e f
      | codec c _ => exact h.bind (h.aside _ rfl) fun _ => plugIns.offer c f
    refine h.bind offered fun r => ?_
    cases r with
    | some g => exact h.bind (h.aside _ rfl) fun _ => ih g
    | none => exact h.pure _

theorem Loose.negotiateTracks (h : Loose R) (plugIns : PlugInsKeep app again R)
    {p : ProcessorId} (holding : ∀ {α : Type} (i : Nat) {calls : Run S α}, Keeps R calls →
      Keeps R (Run.holding p i calls)) (is : List Nat) :
    Keeps R (negotiateTracks app again p is) := by
  induction is with
  | nil => exact h.pure _
  | cons i is ih =>
    refine h.bind (h.track p i) fun t => ?_
    cases t with
    | none => exact ih
    | some t =>
      refine h.bind (holding i (h.negotiate plugIns t.chain t.format)) fun r => ?_
      cases r with
      | ok => exact ih
      | error f => exact h.pure _

end

namespace Tending

variable {app : Application S} {again : {β : Type} → Call β → Run S β}
variable {among : ProcessorId → Prop} {R : World S → World S → Prop} (h : Tending among R)
variable (plugIns : PlugInsKeep app again R) {p : ProcessorId} (one : among p)
include h plugIns

theorem openPlugIn (x : PlugIn) : Keeps R (Chain.openPlugIn app again x) := by
  have succeeds : Keeps R (do Run.record (.opened x); return .ok () : Run S (Except Fault Unit)) :=
    h.bind (h.opened x) fun _ => h.pure _
  cases x with
  | effect e => exact succeeds
  | codec c name =>
    refine h.bind (h.aside _ rfl) fun _ => h.bind (plugIns.opens c) fun r => ?_
    cases r with
    | ok => exact succeeds
    | error f => exact h.pure _

theorem closePlugIn (x : PlugIn) : Keeps R (Chain.closePlugIn app again x) := by
  cases x with
  | effect e => exact h.closed _
  | codec c name =>
    exact h.bind (h.aside _ rfl) fun _ => h.bind (plugIns.close c) fun _ => h.closed _

theorem closeAll (chain : List PlugIn) : Keeps R (Chain.closeAll app again chain) :=
  h.each (h.closePlugIn plugIns) chain

theorem openAll (before chain : List PlugIn) : Keeps R (Chain.openAll app again before chain) := by
  induction chain generalizing before with
  | nil => exact h.pure _
  | cons x xs ih =>
    refine h.bind (h.openPlugIn plugIns x) fun r => ?_
    cases r with
    | ok => exact ih _
    | error f =>
      exact h.bind (h.notice _) fun _ => h.bind (h.closeAll plugIns before) fun _ => h.pure _

include one

theorem openTrack (i : Nat) : Keeps R (openTrack app again p i) := by
  refine h.bind (h.track p i) fun t => ?_
  cases t with
  | none => exact h.pure _
  | some t =>
    refine h.bind (h.holding p one i (h.openAll plugIns [] t.chain)) fun r => ?_
    cases r with
    | ok => exact h.bind (h.setOpen p i true) fun _ => h.pure _
    | error f => exact h.pure _

theorem closeTrack (i : Nat) : Keeps R (closeTrack app again p i) := by
  refine h.bind (h.track p i) fun t => ?_
  cases t with
  | none => exact h.pure _
  | some t =>
    dsimp only
    split
    · exact h.bind (h.setOpen p i false) fun _ => h.holding p one i (h.closeAll plugIns t.chain)
    · exact h.pure _

theorem openTracks (before is : List Nat) :
    Keeps R (openTracks app again p before is) := by
  induction is generalizing before with
  | nil => exact h.pure _
  | cons i is ih =>
    refine h.bind (h.openTrack plugIns one i) fun r => ?_
    cases r with
    | ok => exact ih _
    | error f => exact h.bind (h.each (h.closeTrack plugIns one) before) fun _ => h.pure _

theorem prepare : Keeps R (prepare app again p) := by
  refine h.bind (h.processor p) fun x =>
    h.bind (h.negotiateTracks plugIns (h.holding p one) _) fun r => ?_
  cases r with
  | ok => exact h.openTracks plugIns one [] _
  | error f => exact h.pure _

end Tending

/-- The relation is kept by the transitions of some of the processors, except by realization. -/
structure Settling (app : Application S) (among : ProcessorId → Prop)
    (R : World S → World S → Prop) : Prop extends Tame R, Tending among R where
  moveTo : ∀ p, among p → ∀ phase, phase ≠ .realizing → Keeps R (Run.moveTo p phase)
  readied : ∀ p, among p → ∀ tracks, Keeps R (Run.record (.readied p tracks))
  lockTracks : ∀ p, among p → Keeps R (lockTracks p)
  emit : ∀ (again : {β : Type} → Call β → Run S β), Answers R again →
    ∀ p, among p → ∀ e, Keeps R (emit app again p e)

/-- The relation is kept by the transitions of some of the processors. -/
structure Stable (app : Application S) (among : ProcessorId → Prop)
    (R : World S → World S → Prop) : Prop extends Tame R, Tending among R where
  moveTo : ∀ p, among p → ∀ phase, Keeps R (Run.moveTo p phase)
  readied : ∀ p, among p → ∀ tracks, Keeps R (Run.record (.readied p tracks))
  lockTracks : ∀ p, among p → Keeps R (lockTracks p)
  emit : ∀ (again : {β : Type} → Call β → Run S β), Answers R again →
    ∀ p, among p → ∀ e, Keeps R (emit app again p e)

/-- The relation is plain and kept by the transitions of some of the processors. -/
structure Steady (app : Application S) (among : ProcessorId → Prop)
    (R : World S → World S → Prop) : Prop extends Plain R, Stable app among R

/-- Events keep a relation that their announcement and their telling keep. -/
theorem Tame.emit {app : Application S} {R : World S → World S → Prop} (h : Tame R)
    (announced : ∀ p e, Keeps R (Run.record (.announced p e)))
    (heard : ∀ x p e, Keeps R (Run.record (.told x p e)))
    (again : {β : Type} → Call β → Run S β) (answers : Answers R again) (p : ProcessorId)
    (e : Event) : Keeps R (emit app again p e) :=
  h.bind (announced p e) fun _ => h.bind (h.processor p) fun _ =>
    h.each (h.deliver answers fun x => heard x p e) _

namespace Settling

variable {app : Application S} {again : {β : Type} → Call β → Run S β}
variable {among : ProcessorId → Prop} {R : World S → World S → Prop} (h : Settling app among R)
include h

variable (answers : Answers R again) {p : ProcessorId} (one : among p)
include answers one

theorem settle {α : Type} (phase : Phase) (apart : phase ≠ .realizing) (e : Event) (a : α) :
    Keeps R (do Run.moveTo p phase; Metering.emit app again p e; return a) :=
  h.bind (h.moveTo p one phase apart) fun _ => h.bind (h.emit again answers p one e) fun _ =>
    h.pure a

theorem configure : Keeps R (configure app again p) := by
  refine h.bind (h.processor p) fun x => ?_
  split
  · exact h.ask answers p _
  · split
    · exact h.bind (h.moveTo p one _ nofun) fun _ => h.bind (h.notice _) fun _ =>
        h.settle answers one .configured nofun _ _
    · exact h.pure _
    · exact h.pure _

theorem failRealize (f : Fault) : Keeps R (failRealize app again p f) :=
  h.bind (h.processor p) fun _ => h.bind (h.notice _) fun _ =>
    h.settle answers one .configured nofun _ _

/-- What is left to do for a processor whose plug-ins are ready. -/
theorem completeRealize (name : String) : Keeps R (do
    Run.record (.readied p (← Run.processor p).enabledTracks)
    Metering.lockTracks p
    Run.notice (.processor name .realized)
    Run.moveTo p .realized
    Metering.emit app again p .realized
    return (.ok () : Except Fault Unit)) := by
  refine h.bind (h.processor p) fun y => h.bind (h.readied p one _) fun _ => ?_
  exact h.bind (h.lockTracks p one) fun _ => h.bind (h.notice _) fun _ =>
    h.settle answers one .realized nofun _ _

theorem start : Keeps R (start app again p) := by
  refine h.bind (h.processor p) fun x => ?_
  split
  · exact h.ask answers p _
  · split
    · exact h.settle answers one .started nofun _ _
    · exact h.pure _
    · exact h.pure _

theorem stop : Keeps R (stop app again p) := by
  refine h.bind (h.processor p) fun x => ?_
  split
  · exact h.ask answers p _
  · split
    · exact h.settle answers one .realized nofun _ _
    · exact h.pure _
    · exact h.pure _

/-- What is left to do for a processor that has stored that it is closed. -/
theorem finish (x : Processor) : Keeps R (do
    if x.phase.hadRealized then
      Run.each (closeTrack app again p) (List.range x.tracks.length)
    Run.notice (.processor x.name .closed)
    Metering.emit app again p .closed) := by
  have closes (i : Nat) : Keeps R (closeTrack app again p i) :=
    h.closeTrack (h.toTame.plugIns answers) one i
  dsimp only
  split
  case' isTrue => refine h.bind (h.each closes _) fun _ => ?_
  all_goals exact h.bind (h.notice _) fun _ => h.emit again answers p one _

theorem close : Keeps R (close app again p) := by
  refine h.bind (h.processor p) fun x => ?_
  split
  · exact h.bind (h.ask answers p _) fun _ => h.pure _
  · split
    · exact h.bind (h.moveTo p one _ nofun) fun _ => h.finish answers one x
    · exact h.pure _

end Settling

namespace Stable

variable {app : Application S} {again : {β : Type} → Call β → Run S β}
variable {among : ProcessorId → Prop} {R : World S → World S → Prop} (h : Stable app among R)
include h

theorem settling : Settling app among R :=
  { h with moveTo := fun p one phase _ => h.moveTo p one phase }

section

variable (answers : Answers R again) {p : ProcessorId} (one : among p)
include answers one

theorem configure : Keeps R (configure app again p) := h.settling.configure answers one

theorem realize : Keeps R (realize app again p) := by
  refine h.bind (h.processor p) fun x => ?_
  split
  · exact h.ask answers p _
  · split
    · refine h.bind (h.moveTo p one _) fun _ =>
        h.bind (h.prepare (h.toTame.plugIns answers) one) fun r => ?_
      cases r with
      | error f => exact h.settling.failRealize answers one f
      | ok => exact h.settling.completeRealize answers one x.name
    · exact h.pure _
    · exact h.pure _
    · exact h.pure _

theorem start : Keeps R (start app again p) := h.settling.start answers one

theorem stop : Keeps R (stop app again p) := h.settling.stop answers one

theorem close : Keeps R (close app again p) := h.settling.close answers one

end

theorem driven (all : ∀ p, among p) : Driven app R where
  configure _ answers p := h.configure answers (all p)
  realize _ answers p := h.realize answers (all p)
  start _ answers p := h.start answers (all p)
  stop _ answers p := h.stop answers (all p)
  close _ answers p := h.close answers (all p)
  enter p phase := by
    refine h.bind (h.processor p) fun x => ?_
    split
    · exact h.moveTo p (all p) phase
    · exact h.pure _
  emit again answers p e := by
    refine h.bind (h.processor p) fun x => ?_
    split
    · exact h.emit again answers p (all p) e
    · exact h.pure _

end Stable

theorem Steady.lawful {app : Application S} {among : ProcessorId → Prop}
    {R : World S → World S → Prop} (h : Steady app among R) (all : ∀ p, among p) :
    Lawful app R where
  toPlain := h.toPlain
  toDriven := h.toStable.driven all

end Metering
