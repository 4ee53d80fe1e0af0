import Metering.Proofs.Announcing
import Metering.Proofs.Exchanging
import Metering.Proofs.Resources
/-!
To realize is all or nothing. First every enabled track agrees on formats, from the first plug-in of
its chain to the last, and only then are plug-ins opened, in the same order. If one of them rejects
its format or does not open, what was opened is closed again and the processor is as it was.
-/

namespace Metering

variable {S : Type}

/-- The chains of tracks agree on formats, one track after the other. Each chain is offered the
format of its track. -/
inductive AllAgreed : List Track → List Exchange → Prop
  | nil : AllAgreed [] []
  | cons {t : Track} {ts : List Track} {own rest : List Exchange} {f : Format} :
    Chain.Agreed t.format t.chain own f → AllAgreed ts rest → AllAgreed (t :: ts) (own ++ rest)

/-- The tracks agree on formats, or one of them does not, and those behind it are not asked. -/
inductive Negotiated (ts : List Track) : List Exchange → Except Fault Unit → Prop
  | agreed {talk : List Exchange} : AllAgreed ts talk → Negotiated ts talk (.ok ())
  | rejected {earlier later : List Track} {t : Track} {talk own : List Exchange} {f : Fault} :
    ts = earlier ++ t :: later → AllAgreed earlier talk →
    Chain.Negotiated t.format t.chain own (.error f) →
    Negotiated ts (talk ++ own) (.error f)

/-- All plug-ins of the tracks are opened, or one of them does not open; those behind it are left
alone then, and those before it are closed again. -/
inductive Opened (ts : List Track) : List Exchange → Except Fault Unit → Prop
  | whole : Opened ts ((ts.flatMap (·.chain)).map .opens) (.ok ())
  | stuck {earlier later : List Track} {t : Track} {own : List Exchange} {f : Fault} :
    ts = earlier ++ t :: later → Chain.Opened t.chain own (.error f) →
    Opened ts ((earlier.flatMap (·.chain)).map .opens ++
      (own ++ (earlier.flatMap (·.chain)).map .closed)) (.error f)

/-- What is said to the plug-ins of tracks that are realized, and what comes of it. -/
inductive Realization (ts : List Track) : List Exchange → Except Fault Unit → Prop
  | refused {talk : List Exchange} {f : Fault} :
    Negotiated ts talk (.error f) → Realization ts talk (.error f)
  | opened {talk own : List Exchange} {r : Except Fault Unit} :
    AllAgreed ts talk → Opened ts own r → Realization ts (talk ++ own) r

section Shape

variable {ts : List Track} {talk own : List Exchange} {r : Except Fault Unit} {f : Fault}

def Exchange.IsOffer : Exchange → Prop
  | .offered .. => True
  | _ => False

theorem Chain.Agreed.offers {chain : List PlugIn} {f g : Format} (h : Agreed f chain talk g) :
    ∀ x ∈ talk, x.IsOffer := by
  induction h with
  | nil => exact fun x member => (List.not_mem_nil member).elim
  | cons _ ih =>
    rintro x (_ | ⟨_, member⟩)
    · trivial
    · exact ih x member

theorem AllAgreed.offers (h : AllAgreed ts talk) : ∀ x ∈ talk, x.IsOffer := by
  induction h with
  | nil => exact fun x member => (List.not_mem_nil member).elim
  | cons agreed _ ih =>
    intro x member
    obtain first | later := List.mem_append.mp member
    · exact agreed.offers x first
    · exact ih x later

theorem Negotiated.offers (h : Negotiated ts talk r) : ∀ x ∈ talk, x.IsOffer := by
  cases h with
  | agreed agreed => exact agreed.offers
  | rejected _ before own =>
    cases own with
    | rejected _ agreed =>
      intro x member
      simp only [List.mem_append, List.mem_singleton] at member
      obtain first | first | rfl := member
      · exact before.offers x first
      · exact agreed.offers x first
      · trivial

/-- Whatever is offered, nothing is opened and nothing is closed by it. -/
theorem Exchange.not_opened (offers : ∀ x ∈ talk, x.IsOffer) :
    talk.filterMap Exchange.opened? = [] ∧ talk.filterMap Exchange.closed? = [] := by
  constructor
  · refine List.filterMap_eq_nil_iff.mpr fun x member => ?_
    cases x with
    | offered => rfl
    | _ => exact (offers _ member).elim
  · refine List.filterMap_eq_nil_iff.mpr fun x member => ?_
    cases x with
    | offered => rfl
    | _ => exact (offers _ member).elim

/-- A chain that does not open closes what it opened. -/
theorem Chain.Opened.balanced {chain : List PlugIn} (h : Opened chain talk (.error f)) :
    talk.filterMap Exchange.closed? = talk.filterMap Exchange.opened? := by
  cases h with
  | stuck => simp [List.filterMap_cons, Function.comp_def]

/-- If the processor does not realize, every plug-in was closed as often as it was opened. -/
theorem Realization.balanced (h : Realization ts talk (.error f)) :
    (talk.filterMap Exchange.closed?).Perm (talk.filterMap Exchange.opened?) := by
  cases h with
  | refused negotiated =>
    obtain ⟨opened, closed⟩ := Exchange.not_opened negotiated.offers
    rw [opened, closed]
  | opened agreed opens =>
    obtain ⟨opened, closed⟩ := Exchange.not_opened agreed.offers
    cases opens with
    | stuck _ own =>
      simp [opened, closed, own.balanced, Function.comp_def, List.perm_append_comm]

/-- If it realizes, the plug-ins of the tracks were opened in order, and none was closed. -/
theorem Realization.whole (h : Realization ts talk (.ok ())) :
    talk.filterMap Exchange.opened? = ts.flatMap (·.chain) ∧
      talk.filterMap Exchange.closed? = [] := by
  cases h with
  | opened agreed opens =>
    obtain ⟨opened, closed⟩ := Exchange.not_opened agreed.offers
    cases opens with
    | whole => simp [opened, closed, Function.comp_def]

/-- Before any plug-in is asked to open, all tracks have agreed on formats. -/
theorem Realization.agreed_before (h : Realization ts talk r) {before after : List Exchange}
    {x : PlugIn} {answer : Except Fault Unit}
    (split : talk = before ++ .opened x answer :: after) :
    ∃ first, first <+: before ∧ AllAgreed ts first := by
  have asked : Exchange.opened x answer ∈ talk := split ▸ List.mem_append_right _ List.mem_cons_self
  cases h with
  | refused negotiated => exact (negotiated.offers _ asked).elim
  | @opened first _ _ agreed _ =>
    refine ⟨first, ?_, agreed⟩
    obtain ⟨more, rfl, -⟩ | ⟨more, rfl, rest⟩ := List.append_eq_append_iff.mp split
    · exact List.prefix_append ..
    · cases more with
      | nil => simp
      | cons e more =>
        obtain rfl : _ = e := (List.cons.inj rest).1
        exact (agreed.offers (.opened x answer) (by simp)).elim

end Shape

def Processor.tracksAt (x : Processor) (is : List Nat) : List Track := is.filterMap (x.tracks[·]?)

section TracksAt

variable {x : Processor}

theorem Processor.tracksAt_cons {i : Nat} {t : Track} (track : x.tracks[i]? = some t)
    (is : List Nat) : x.tracksAt (i :: is) = t :: x.tracksAt is := List.filterMap_cons_some track

theorem Processor.tracksAt_append (is js : List Nat) :
    x.tracksAt (is ++ js) = x.tracksAt is ++ x.tracksAt js := List.filterMap_append

theorem filterMap_range_getElem? {α : Type} (l : List α) :
    (List.range l.length).filterMap (l[·]?) = l := by
  induction l with
  | nil => rfl
  | cons a l ih => simp [List.range_succ_eq_map, List.filterMap_map, ih]

theorem Processor.tracksAt_enabled : x.tracksAt x.enabledTracks = x.tracks.filter (·.enabled) := by
  have each (i : Nat) : (if (x.tracks[i]?).any (·.enabled) then x.tracks[i]? else none) =
      (x.tracks[i]?).filter (·.enabled) := by
    cases x.tracks[i]? with
    | none => rfl
    | some t => simp [Option.filter]
  rw [tracksAt, enabledTracks, List.filterMap_filter]
  simp only [each]
  rw [← List.filter_filterMap]
  exact congrArg (List.filter _) (filterMap_range_getElem? x.tracks)

theorem Processor.enabled_within : ∀ i ∈ x.enabledTracks, i < x.tracks.length := by
  intro i member
  exact List.mem_range.mp (List.mem_of_mem_filter member)

theorem Processor.enabled_nodup : x.enabledTracks.Nodup := List.nodup_range.filter _

/-- A track has the flag that its place is given. -/
theorem Processor.withOpen_known {i : Nat} {t : Track} (track : x.tracks[i]? = some t)
    (f : Nat → Bool) : (x.withOpen f).tracks[i]? = some { t with isOpen := f i } := by
  rw [Processor.withOpen_track, track]
  rfl

/-- The flags after one chain is closed, and the others behind it. -/
theorem flags_closed (f : Nat → Bool) (i : Nat) (is : List Nat) :
    (fun j => (if j = i then false else f j) && decide (j ∉ is)) =
      fun j => f j && decide (j ∉ i :: is) := by
  funext j
  by_cases same : j = i
  · simp [same]
  · simp [same]

/-- The flags after one more chain is opened. -/
theorem flags_opened (before : List Nat) (i : Nat) :
    (fun j => if j = i then true else decide (j ∈ before)) =
      fun j => decide (j ∈ before ++ [i]) := by
  funext j
  by_cases same : j = i
  · simp [same]
  · simp [same]

end TracksAt

section Tracks

variable {app : Application S} (quiet : app.QuietPlugIns)
variable {again : {β : Type} → Call β → Run S β} {u w : World S} {p : ProcessorId}
variable {x : Processor} {talk : List Exchange}
include quiet

theorem negotiateTracks_talks (known : w.rig.processors[p]? = some x) (free : x.held = [])
    (made : ∀ t ∈ x.tracks, ∀ y ∈ t.chain, y.Made w.rig.effects.length) (is : List Nat) :
    Yields (negotiateTracks app again p is) w fun r w' =>
      ∃ talk, Negotiated (x.tracksAt is) talk r ∧ Talks app talk w w' := by
  induction is generalizing w with
  | nil => exact yields_pure.mpr ⟨[], .agreed .nil, .refl w⟩
  | cons i is ih =>
    apply Yields.track known
    cases track : x.tracks[i]? with
    | none =>
      have skipped : x.tracksAt (i :: is) = x.tracksAt is := List.filterMap_cons_none track
      rw [skipped]
      exact ih known made
    | some t =>
      rw [Processor.tracksAt_cons track]
      refine (Yields.holding
        (R := fun u r v => ∃ talk, Chain.Negotiated t.format t.chain talk r ∧ Talks app talk u v)
        known (by simp [free])
        (fun ⟨talk, negotiated, talks⟩ => ⟨talk, negotiated, talks.modify p _⟩)
        (Chain.negotiate_talks (w := w.modify p _) quiet (made t (List.mem_of_getElem? track))
          t.format)).bind ?_
      rintro r v ⟨own, negotiated, talks⟩
      cases negotiated with
      | rejected split agreed =>
        have alone : Negotiated (t :: x.tracksAt is) ([] ++ _) _ :=
          .rejected rfl .nil (.rejected split agreed)
        exact yields_pure.mpr ⟨_, alone, talks⟩
      | agreed agreed =>
        have made : ∀ t ∈ x.tracks, ∀ y ∈ t.chain, y.Made v.rig.effects.length :=
          talks.effects_length ▸ made
        refine (ih (talks.processors ▸ known) made).mono ?_
        rintro r w' ⟨talk, rest, later⟩
        refine ⟨own ++ talk, ?_, talks.trans later⟩
        cases rest with
        | agreed all => exact .agreed (.cons agreed all)
        | rejected split earlier refused =>
          rw [← List.append_assoc]
          exact .rejected (congrArg (t :: ·) split) (.cons agreed earlier) refused

theorem openTrack_talks (known : w.rig.processors[p]? = some x) (free : x.held = []) {i : Nat}
    {t : Track} (track : x.tracks[i]? = some t) : Yields (openTrack app again p i) w fun r w' =>
      ∃ talk, Chain.Opened t.chain talk r ∧ Talks app talk
        (if r.isOk then w.modify p fun x => x.modifyTrack i fun t => { t with isOpen := true }
          else w) w' := by
  apply Yields.track known
  rw [track]
  refine (Yields.holding
    (R := fun u r v => ∃ talk, Chain.Opened t.chain talk r ∧ Talks app talk u v)
    known (by simp [free]) (fun ⟨talk, opened, talks⟩ => ⟨talk, opened, talks.modify p _⟩)
    (Chain.openAll_talks quiet [] t.chain)).bind ?_
  rintro r v ⟨talk, opened, talks⟩
  cases r with
  | ok =>
    exact yields_bind.mpr (yields_modifyProcessor.mpr
      (yields_pure.mpr ⟨talk, opened, talks.modify p _⟩))
  | error f => exact yields_pure.mpr ⟨talk, opened, talks⟩

theorem closeTrack_talks (known : w.rig.processors[p]? = some x) (free : x.held = []) {i : Nat}
    {t : Track} (track : x.tracks[i]? = some t) (isOpen : t.isOpen = true) :
    Yields (closeTrack app again p i) w fun _ w' => Talks app (t.chain.map .closed)
      (w.modify p fun x => x.modifyTrack i fun t => { t with isOpen := false }) w' := by
  apply Yields.track known
  rw [track]
  dsimp only
  rw [if_pos isOpen]
  refine yields_bind.mpr (yields_modifyProcessor.mpr ?_)
  exact Yields.holding (R := fun u _ v => Talks app (t.chain.map .closed) u v)
    (World.modify_processor known) (by simp [Processor.modifyTrack, free])
    (fun talks => talks.modify p _) (closeAll_talks quiet t.chain)

/-- Some of the open chains of a processor are closed. -/
theorem closeTracks_talks (known : w.rig.processors[p]? = some x) (free : x.held = [])
    {is : List Nat} {f : Nat → Bool} (h : Talks app talk (w.modify p (·.withOpen f)) u)
    (within : ∀ i ∈ is, i < x.tracks.length) (distinct : is.Nodup)
    (isOpen : ∀ i ∈ is, f i = true) :
    Yields (Run.each (closeTrack app again p) is) u fun _ u' =>
      Talks app (talk ++ ((x.tracksAt is).flatMap (·.chain)).map .closed)
        (w.modify p (·.withOpen fun i => f i && decide (i ∉ is))) u' := by
  induction is generalizing f talk u with
  | nil => exact yields_pure.mpr (by simpa [Processor.tracksAt] using h)
  | cons i is ih =>
    obtain ⟨fresh, distinct⟩ := List.nodup_cons.mp distinct
    obtain ⟨t, track⟩ : ∃ t, x.tracks[i]? = some t :=
      ⟨_, List.getElem?_eq_getElem (within i List.mem_cons_self)⟩
    have here : u.rig.processors[p]? = some (x.withOpen f) := by
      rw [h.processors]
      exact World.modify_processor known
    refine (closeTrack_talks quiet here free (Processor.withOpen_known track f)
      (isOpen i List.mem_cons_self)).bind ?_
    intro _ v closed
    have closed := (h.modify p _).trans closed
    simp only [World.modify_modify, Processor.withOpen_modify] at closed
    refine (ih closed (fun j member => within j (List.mem_cons_of_mem _ member)) distinct
      fun j member => ?_).mono ?_
    · have other : j ≠ i := fun same => fresh (same ▸ member)
      rw [if_neg other]
      exact isOpen j (List.mem_cons_of_mem _ member)
    · intro _ u' rest
      rw [flags_closed] at rest
      simpa [Processor.tracksAt_cons track] using rest

theorem openTracks_talks (known : w.rig.processors[p]? = some x) (free : x.held = [])
    {before is : List Nat}
    (h : Talks app talk (w.modify p (·.withOpen fun i => decide (i ∈ before))) u)
    (within : ∀ i ∈ before ++ is, i < x.tracks.length) (distinct : (before ++ is).Nodup) :
    Yields (openTracks app again p before is) u fun r u' => ∃ own,
      Opened (x.tracksAt (before ++ is))
        (((x.tracksAt before).flatMap (·.chain)).map .opens ++ own) r ∧
      Talks app (talk ++ own)
        (w.modify p (·.withOpen fun i => r.isOk && decide (i ∈ before ++ is))) u' := by
  -- By the tracks left. Those in `before` are open, and only they are closed again when one fails.
  induction is generalizing before talk u with
  | nil =>
    have every : Opened (x.tracksAt before) (((x.tracksAt before).flatMap (·.chain)).map .opens)
        (.ok ()) := .whole
    exact yields_pure.mpr ⟨[], by simpa using every, by simpa [Except.isOk, Except.toBool] using h⟩
  | cons i is ih =>
    obtain ⟨t, track⟩ : ∃ t, x.tracks[i]? = some t :=
      ⟨_, List.getElem?_eq_getElem (within i (by simp))⟩
    have here : u.rig.processors[p]? = some (x.withOpen fun i => decide (i ∈ before)) := by
      rw [h.processors]
      exact World.modify_processor known
    refine (openTrack_talks quiet here free (Processor.withOpen_known track _)).bind ?_
    rintro r v ⟨own, opened, talks⟩
    cases r with
    | ok =>
      have next := (h.modify p _).trans talks
      simp only [World.modify_modify, Processor.withOpen_modify, flags_opened] at next
      have onward : before ++ i :: is = before ++ [i] ++ is := by simp
      have alone : x.tracksAt [i] = [t] := x.tracksAt_cons track []
      rw [onward] at within distinct ⊢
      refine (ih next within distinct).mono ?_
      rintro r u' ⟨more, opens, rest⟩
      refine ⟨own ++ more, ?_, by simpa using rest⟩
      cases opened with
      | whole => simpa [x.tracksAt_append before [i], alone] using opens
    | error f =>
      have split : x.tracksAt (before ++ i :: is) = x.tracksAt before ++ t :: x.tracksAt is := by
        rw [x.tracksAt_append, x.tracksAt_cons track]
      refine (closeTracks_talks quiet known free (h.trans talks)
        (fun j member => within j (by simp [member])) (List.nodup_append.mp distinct).1
        (fun j member => by simpa using member)).bind ?_
      intro _ v' shut
      refine yields_pure.mpr ⟨_, .stuck split opened, ?_⟩
      simpa [Except.isOk, Except.toBool] using shut

/-- A processor with no chain open prepares its enabled tracks. -/
theorem prepare_talks (known : w.rig.processors[p]? = some x) (free : x.held = [])
    (shut : ∀ t ∈ x.tracks, t.isOpen = false)
    (made : ∀ t ∈ x.tracks, ∀ y ∈ t.chain, y.Made w.rig.effects.length) :
    Yields (prepare app again p) w fun r w' => ∃ talk,
      Realization (x.tracks.filter (·.enabled)) talk r ∧
      Talks app talk (w.modify p (·.withOpen fun i => r.isOk && decide (i ∈ x.enabledTracks)))
        w' := by
  apply Yields.processor known
  refine (negotiateTracks_talks quiet known free made x.enabledTracks).bind ?_
  rintro r v ⟨talk, negotiated, talks⟩
  have nothing : w.modify p (·.withOpen fun _ => false) = w :=
    World.modify_of_fixed known
      (Processor.withOpen_self fun i t track => shut t (List.mem_of_getElem? track))
  rw [Processor.tracksAt_enabled] at negotiated
  cases r with
  | error f =>
    exact yields_pure.mpr ⟨talk, .refused negotiated, nothing.symm ▸ talks⟩
  | ok =>
    have start : Talks app talk (w.modify p (·.withOpen fun i => decide (i ∈ []))) v := by
      simpa [nothing] using talks
    have within : ∀ i ∈ [] ++ x.enabledTracks, i < x.tracks.length := Processor.enabled_within
    refine (openTracks_talks quiet known free start within Processor.enabled_nodup).mono ?_
    rintro r w' ⟨own, opened, talks⟩
    refine ⟨talk ++ own, ?_, talks⟩
    cases negotiated with
    | agreed agreed =>
      rw [List.nil_append, Processor.tracksAt_enabled] at opened
      exact .opened agreed opened

end Tracks

/-- The processor when it has realized: all chains are locked, and those of enabled tracks are
open. -/
def Processor.realized (x : Processor) : Processor :=
  { x with
    phase := .realized
    tracks := x.tracks.map fun t => { t with locked := true, isOpen := t.enabled } }

/-- What a processor says of the outcome. -/
def Event.ofRealizing : Except Fault Unit → Event
  | .ok () => .realized
  | .error f => .failed f.message

theorem Yields.moveTo {α : Type} {p : ProcessorId} {phase : Phase} {f : Unit → Run S α}
    {w : World S} {x : Processor} {Q : α → World S → Prop}
    (known : w.rig.processors[p]? = some x) (rest : Yields (f ()) (w.move p phase) Q) :
    Yields (Run.moveTo p phase >>= f) w Q := by
  refine yields_bind.mpr (Yields.processor known ?_)
  exact yields_bind.mpr (yields_modifyProcessor.mpr (yields_record.mpr rest))

theorem Talks.move {app : Application S} {talk : List Exchange} {u v : World S}
    (h : Talks app talk u v) (p : ProcessorId) (phase : Phase) :
    Talks app talk (u.modify p fun x => { x with phase }) (v.move p phase) :=
  (h.modify p _).record rfl

section Outcome

variable {x : Processor}

/-- A configured processor with no chain open goes back to what it was. -/
theorem Processor.restored (configured : x.phase = .configured)
    (shut : ∀ t ∈ x.tracks, t.isOpen = false) :
    { Processor.withOpen { x with phase := .realizing } (fun _ => false) with
      phase := .configured } = x := by
  have same : x.withOpen (fun _ => false) = x :=
    Processor.withOpen_self fun i t track => shut t (List.mem_of_getElem? track)
  calc
    _ = { x.withOpen (fun _ => false) with phase := .configured } := rfl
    _ = x := by rw [same, ← configured]

/-- A configured processor whose enabled tracks are open goes on to be realized. -/
theorem Processor.realized_eq :
    { (Processor.withOpen { x with phase := .realizing }
      fun i => decide (i ∈ x.enabledTracks)).lock with phase := .realized } = x.realized := by
  have tracks : (x.withOpen fun i => decide (i ∈ x.enabledTracks)).lock.tracks =
      x.tracks.map fun t => { t with locked := true, isOpen := t.enabled } := by
    refine List.ext_getElem? fun i => ?_
    rw [Processor.lock, List.getElem?_map, Processor.withOpen_track, List.getElem?_map]
    cases track : x.tracks[i]? with
    | none => rfl
    | some t =>
      obtain ⟨within, rfl⟩ := List.getElem?_eq_some_iff.mp track
      simp [Processor.enabledTracks, within]
  exact congrArg (fun ts => { x with phase := .realized, tracks := ts }) tracks

end Outcome

section Realize

variable {app : Application S} {v w : World S} {p : ProcessorId} {x : Processor}
variable {talk : List Exchange}

/-- A processor that goes back to what it was says why. -/
theorem failRealize_talks (known : w.rig.processors[p]? = some x)
    (undisturbed : w.rig.Undisturbed app p x.subscribers) {g : Processor → Processor}
    (talks : Talks app talk (w.modify p g) v) (same : { g x with phase := .configured } = x)
    (f : Fault) (depth : Nat) :
    Yields (failRealize app (perform app (depth + 1)) p f) v fun r w' => r = .error f ∧
      ∃ u, Talks app talk w u ∧ Told app p (.failed f.message) x.subscribers u w' := by
  have here : v.rig.processors[p]? = some (g x) :=
    (congrArg (·[p]?) talks.processors).trans (World.modify_processor known)
  have noted := talks.record (e := .notice (.processor (g x).name (.realizeFailed f))) rfl
  have back := noted.move p .configured
  rw [World.modify_modify, World.modify_of_fixed known same] at back
  apply Yields.processor here
  refine yields_bind.mpr (yields_notice.mpr ?_)
  apply Yields.moveTo (w := v.record _) here
  have after := undisturbed.congr (congrArg (·.sessions) back.rig)
  refine (emit_told (e := .failed f.message) (back.processors ▸ known)
    (fun z member => after.watchers z member _) after.attended
    (fun z _ => Rig.drives_mere rfl) depth).bind ?_
  intro _ w' told
  exact yields_pure.mpr ⟨rfl, _, back, told⟩

/-- A configured processor realizes, or it does not and is as it was. -/
theorem realize_talks (quiet : app.QuietPlugIns) (known : w.rig.processors[p]? = some x)
    (internal : x.isExternal = false) (configured : x.phase = .configured) (free : x.held = [])
    (shut : ∀ t ∈ x.tracks, t.isOpen = false)
    (made : ∀ t ∈ x.tracks, ∀ y ∈ t.chain, y.Made w.rig.effects.length)
    (undisturbed : w.rig.Undisturbed app p x.subscribers) (depth : Nat) :
    Yields (realize app (perform app (depth + 1)) p) w fun r w' => ∃ talk u,
      Realization (x.tracks.filter (·.enabled)) talk r ∧
      Talks app talk (if r.isOk then w.modify p Processor.realized else w) u ∧
      Told app p (.ofRealizing r) x.subscribers u w' := by
  apply Yields.processor known
  simp only [internal, configured, Bool.false_eq_true, if_false]
  apply Yields.moveTo known
  have begun : (w.move p .realizing).rig.processors[p]? = some { x with phase := .realizing } :=
    World.move_processor known
  refine (prepare_talks quiet begun free shut made).bind ?_
  rintro r v ⟨talk, realization, talks⟩
  -- To go to `realizing` is no exchange with a plug-in, so the talk is that of the preparation
  -- alone.
  have moved : Talks app [] (w.modify p fun x => { x with phase := .realizing })
      (w.move p .realizing) := (Talks.refl w).move p .realizing
  have talks := (moved.modify p _).trans talks
  rw [World.modify_modify, List.nil_append] at talks
  cases r with
  | error f =>
    have same := Processor.restored configured shut
    refine (failRealize_talks known undisturbed talks same f depth).mono ?_
    rintro _ w' ⟨rfl, u, talks, told⟩
    exact ⟨talk, u, realization, talks, told⟩
  | ok =>
    obtain ⟨y, here⟩ : ∃ y, v.rig.processors[p]? = some y :=
      ⟨_, (congrArg (·[p]?) talks.processors).trans (World.modify_processor known)⟩
    have readied := talks.record (e := .readied p y.enabledTracks) rfl
    have locked := (readied.modify p Processor.lock).record
      (e := .notice (.processor x.name .realized)) rfl
    have done := locked.move p .realized
    rw [World.modify_modify, World.modify_modify,
      World.modify_congr_of known Processor.realized_eq] at done
    have known' : (w.modify p Processor.realized).rig.processors[p]? = some x.realized :=
      World.modify_processor known
    apply Yields.processor here
    apply Yields.record
    refine yields_bind.mpr (yields_modifyProcessor.mpr ?_)
    refine yields_bind.mpr (yields_notice.mpr ?_)
    have there : ((v.record (.readied p y.enabledTracks)).modify p
        Processor.lock).rig.processors[p]? = some y.lock := World.modify_processor here
    apply Yields.moveTo (w := ((v.record _).modify p Processor.lock).record _) there
    have after := undisturbed.congr (congrArg (·.sessions) done.rig)
    refine (emit_told (x := x.realized) (done.processors ▸ known')
      (fun z member => after.watchers z member _) after.attended after.still depth).bind ?_
    intro _ w' told
    exact yields_pure.mpr ⟨talk, _, realization, done, told⟩

end Realize

section Runs

variable {app : Application S} {α : Type} {depth : Nat} {program : Program S α} {s : S} {a : α}
variable {w : World S} {m : Moment} {p : ProcessorId} {x : Processor}

theorem Moment.latched_of_run (run : program.run (perform app depth) { app := s } = .ok (a, w))
    (internal : w.rig.isExternal p = false) (seen : m ∈ w.now :: w.moments) :
    m.rig.isExternal p = false ∧ m.Latched p := by
  have latched := World.latched_of_run run internal
  obtain rfl | before := List.mem_cons.mp seen
  · exact ⟨internal, latched.now⟩
  · exact ⟨(latched.moments m before).1, (latched.moments m before).2.1⟩

/-- A processor that has not realized has no lock on any chain. -/
theorem Moment.Latched.unlocked (latched : m.Latched p) (known : m.rig.processors[p]? = some x)
    (configured : x.phase = .configured) : ∀ t ∈ x.tracks, t.locked = false := by
  have phase : m.rig.phase p = .configured := (Rig.phase_of known).trans configured
  have never : ¬HasRealized p m.journal := by
    rw [← latched.phase (by simp [phase]), phase]
    decide
  intro t member
  by_contra locked
  exact never ((latched.locked x known t member).mp (by simpa using locked))

/-- To realize is all or nothing. At any moment of any run, a configured processor has no chain
locked or open. When it is realized, no plug-in is opened before all enabled tracks have agreed on
formats. If it does not realize, every plug-in was closed as often as it was opened, and the
processor is as it was; if it does, the plug-ins of the enabled tracks were opened in order, none
was closed, and all chains are locked. Other processors and the sessions are as they were, and the
subscribers are told the outcome. -/
theorem realize_all_or_nothing (quiet : app.QuietPlugIns)
    (run : program.run (perform app depth) { app := s } = .ok (a, w))
    (internal : w.rig.isExternal p = false) (seen : m ∈ w.now :: w.moments)
    (known : m.rig.processors[p]? = some x) (configured : x.phase = .configured)
    (made : ∀ t ∈ x.tracks, ∀ y ∈ t.chain, y.Made m.rig.effects.length)
    (undisturbed : m.rig.Undisturbed app p x.subscribers) {v : World S} (here : v.rig = m.rig)
    (further : Nat) :
    (∀ t ∈ x.tracks, t.locked = false ∧ t.isOpen = false) ∧
    Yields (perform app (further + 2) (.realize p)) v fun r v' => ∃ talk u,
      Realization (x.tracks.filter (·.enabled)) talk r ∧
      Talks app talk (if r.isOk then v.modify p Processor.realized else v) u ∧
      Told app p (.ofRealizing r) x.subscribers u v' ∧
      (∀ before y answer after, talk = before ++ .opened y answer :: after →
        ∃ first, first <+: before ∧ AllAgreed (x.tracks.filter (·.enabled)) first) ∧
      match r with
      | .error _ => (talk.filterMap Exchange.closed?).Perm (talk.filterMap Exchange.opened?) ∧
        v'.rig = { v.rig with effects := v'.rig.effects }
      | .ok () => talk.filterMap Exchange.opened? =
          (x.tracks.filter (·.enabled)).flatMap (·.chain) ∧
        talk.filterMap Exchange.closed? = [] ∧
        v'.rig = { v.rig.modifyProcessor p Processor.realized with effects := v'.rig.effects } := by
  obtain ⟨external, latched⟩ := Moment.latched_of_run run internal seen
  have unlocked := latched.unlocked known configured
  have external : x.isExternal = false := (Rig.isExternal_of known).symm.trans external
  have free : x.held = [] := by
    by_contra holds
    simpa [Phase.Tends, configured] using latched.tends known holds
  -- No track of a processor that is not up is open at any moment of a run.
  have shut : ∀ t ∈ x.tracks, t.isOpen = false := by
    intro t member
    obtain ⟨i, track⟩ := List.mem_iff_getElem?.mp member
    have sound := (Moment.balanced_of_run quiet run seen).sound p x known
    exact sound.shut (.inr (by rw [configured]; rfl)) i t track
  refine ⟨fun t member => ⟨unlocked t member, shut t member⟩, ?_⟩
  rw [← here] at known made undisturbed
  have realizes : Yields (perform app (further + 2) (.realize p)) v _ :=
    realize_talks quiet known external configured free shut made undisturbed further
  refine realizes.mono ?_
  rintro r v' ⟨talk, u, realization, talks, told⟩
  refine ⟨talk, u, realization, talks, told,
    fun _ _ _ _ split => realization.agreed_before split, ?_⟩
  have same : v'.rig = { (if r.isOk then v.modify p Processor.realized else v).rig with
      effects := v'.rig.effects } := by
    rw [told.rig]
    exact talks.rig
  cases r with
  | error f => exact ⟨realization.balanced, same⟩
  | ok => exact ⟨realization.whole.1, realization.whole.2, same⟩

/-- The third plug-in does not open. What is asked to open is kept. -/
def Application.jammed : Application (List CodecId) :=
  { Application.silent _ with
    opens := fun c => .update (fun cs => ((), cs ++ [c])) fun _ =>
      .done (if c = 2 then .error (.processingFailed "jammed") else .ok ()) }

/-- A processor whose last track does not open, and one of whose tracks is not enabled. -/
def Program.threeTracks : Program (List CodecId) Unit := do
  let p ← .send (.newProcessor "p" [⟨.audio .telephone, true⟩, ⟨.audio .telephone, true⟩,
    ⟨.audio .telephone, true⟩])
  let _ ← .send (.configure p)
  let _ ← .send (.setChain p 0 [.codec 0 "a", .codec 0 "a"])
  let _ ← .send (.setChain p 1 [.codec 3 "d"])
  let _ ← .send (.setChain p 2 [.codec 1 "b", .codec 2 "c"])
  .send (.setEnabled p 1 false)

theorem realize_all_or_nothing_jammed : ∃ w v,
    Program.threeTracks.run (perform .jammed 3) { app := [] } = .ok ((), w) ∧
      Application.jammed.QuietPlugIns ∧
      perform Application.jammed 2 (.realize 0) w = .ok (.error (.processingFailed "jammed"), v) ∧
      v.app = [0, 0, 1, 2] ∧ v.rig = { w.rig with effects := v.rig.effects } := by
  have quiet : Application.jammed.QuietPlugIns :=
    ⟨fun _ _ => trivial, fun _ _ => trivial, fun _ => trivial⟩
  have ends : (Program.threeTracks.run (perform .jammed 3)).Ends { app := [] } fun w =>
      (w.rig.processors[0]?).any (fun x => x.phase == .configured && x.subscribers.isEmpty) ∧
      w.rig.isExternal 0 = false ∧ w.rig.Backed ∧
      Yields (perform .jammed 2 (.realize 0)) w fun r v =>
        r = .error (.processingFailed "jammed") ∧ v.app = [0, 0, 1, 2] := by
    decide +kernel
  obtain ⟨_, w, run, processor, internal, backed, r, v, fails, rfl, asked⟩ := ends
  obtain ⟨x, known, fits⟩ := (Option.any_eq_true _ _).mp processor
  simp only [Bool.and_eq_true, beq_iff_eq, List.isEmpty_iff] at fits
  have undisturbed : w.now.rig.Undisturbed Application.jammed 0 x.subscribers := by
    rw [fits.2]
    exact ⟨nofun, nofun, nofun⟩
  have made := backed x (List.mem_of_getElem? known)
  obtain ⟨-, r, v', ran, talk, u, -, -, -, -, outcome⟩ := realize_all_or_nothing quiet run internal
    List.mem_cons_self known fits.1 made undisturbed rfl 0
  obtain ⟨rfl, rfl⟩ : r = .error (.processingFailed "jammed") ∧ v' = v := by
    simpa using ran.symm.trans fails
  exact ⟨w, v', run, quiet, fails, asked, outcome.2⟩

end Runs

end Metering
