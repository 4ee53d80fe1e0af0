import Mathlib.Algebra.Ring.Nat
import Metering.Proofs.Proceeding
/-!
The plug-ins that are open. The journal says how often a plug-in was opened with success and how
often it was closed; the difference is the number of places that it has in open chains. While a
processor tends its plug-ins, this holds again each time it has finished with a track.
-/

namespace Metering

variable {S : Type}

/-- A kind of plug-in, such as all places of one plug-in. -/
abbrev Kind := PlugIn → Bool

def Entry.opens (k : Kind) : Entry → Bool
  | .opened x => k x
  | _ => false

def Entry.closes (k : Kind) : Entry → Bool
  | .closed x => k x
  | _ => false

def Entry.isIdle : Entry → Bool
  | .opened _ | .closed _ | .readied .. => false
  | _ => true

/-- How much oftener plug-ins of a kind were opened than closed. -/
def net (k : Kind) (journal : List Entry) : Int :=
  journal.countP (Entry.opens k) - journal.countP (Entry.closes k)

/-- How many places of open chains hold plug-ins of a kind. -/
def Track.inUse (k : Kind) (t : Track) : Nat := if t.isOpen then t.chain.countP k else 0

def Processor.inUse (k : Kind) (x : Processor) : Nat := (x.tracks.map (Track.inUse k)).sum

def Rig.inUse (k : Kind) (r : Rig) : Nat := (r.processors.map (Processor.inUse k)).sum

/-- The tracks that were enabled when a processor was last ready to realize. -/
def lastReadied (p : ProcessorId) (journal : List Entry) : Option (List Nat) :=
  journal.findSome? fun e => match e with
    | .readied q tracks => if q = p then some tracks else none
    | _ => none

def Processor.openTracks (x : Processor) : List Nat :=
  (List.range x.tracks.length).filter fun i => (x.tracks[i]?).any (·.isOpen)

/-- A processor that has realized. Its plug-ins are open. -/
def Phase.isUp : Phase → Bool
  | .realized | .started => true
  | _ => false

def Processor.withOpen (x : Processor) (isOpen : Nat → Bool) : Processor :=
  { x with tracks := x.tracks.mapIdx fun i t => { t with isOpen := isOpen i } }

theorem sum_modify {α : Type} (f : α → Nat) (g : α → α) {l : List α} {i : Nat} {a : α}
    (known : l[i]? = some a) :
    ((l.modify i g).map f).sum + f a = (l.map f).sum + f (g a) := by
  induction l generalizing i with
  | nil => simp at known
  | cons b l ih =>
    cases i with
    | zero =>
      obtain rfl : b = a := by simpa using known
      simp
      omega
    | succ i =>
      have := ih (i := i) (by simpa using known)
      simp
      omega

section Net

variable {k : Kind} {journal : List Entry}

theorem net_opened (x : PlugIn) :
    net k (.opened x :: journal) = net k journal + if k x then 1 else 0 := by
  simp only [net, List.countP_cons, Entry.opens, Entry.closes]
  grind

theorem net_closed (x : PlugIn) :
    net k (.closed x :: journal) = net k journal - if k x then 1 else 0 := by
  simp only [net, List.countP_cons, Entry.opens, Entry.closes]
  grind

end Net

/-- Plug-ins are busy, and some are opened or closed: so much the balance changes. -/
structure Shifts (change : Kind → Int) (w w' : World S) : Prop where
  processors : w'.rig.processors = w.rig.processors
  moments : w'.moments = w.moments
  readied : ∀ q, lastReadied q w'.journal = lastReadied q w.journal
  net : ∀ k, net k w'.journal = net k w.journal + change k

namespace Shifts

variable {u v w : World S} {c d : Kind → Int}

theorem congr (h : Shifts c v w) (same : ∀ k, c k = d k) : Shifts d v w :=
  { h with net := fun k => (same k) ▸ h.net k }

theorem trans (first : Shifts c u v) (second : Shifts d v w) :
    Shifts (fun k => c k + d k) u w where
  processors := second.processors.trans first.processors
  moments := second.moments.trans first.moments
  readied q := (second.readied q).trans (first.readied q)
  net k := by rw [second.net, first.net, Int.add_assoc]

/-- A processor changes, then and now. -/
theorem modify (h : Shifts c w v) (p : ProcessorId) (f : Processor → Processor) :
    Shifts c (w.modify p f) (v.modify p f) where
  processors := by simp [h.processors]
  moments := h.moments
  readied := h.readied
  net := h.net

theorem holding {α : Type} {p : ProcessorId} {i : Nat} {calls : Run S α} {c : α → Kind → Int}
    (does : Ensures calls (w.modify p (·.hold i)) fun a => Shifts (c a) (w.modify p (·.hold i))) :
    Ensures (Run.holding p i calls) w fun a => Shifts (c a) w :=
  Ensures.holding (R := fun u a => Shifts (c a) u) (fun next => next.modify p _) does

theorem of_idle {e : Entry} (idle : e.isIdle = true) : Shifts (fun _ => 0) w (w.record e) := by
  cases e with
  | opened | closed | readied => cases idle
  | _ => exact ⟨rfl, rfl, fun _ => rfl, fun _ => by simp [Metering.net, Entry.opens, Entry.closes]⟩

theorem loose : Loose (Shifts (S := S) fun _ => 0) where
  refl _ := ⟨rfl, rfl, fun _ => rfl, fun _ => (Int.add_zero _).symm⟩
  trans first second := (trans first second).congr fun _ => rfl
  own _ _ := ⟨rfl, rfl, fun _ => rfl, fun _ => (Int.add_zero _).symm⟩
  aside e aside _ := ensures_record.mpr <| of_idle <| by
    cases e <;> first | rfl | cases aside
  effects _ _ _ := ⟨rfl, rfl, fun _ => rfl, fun _ => (Int.add_zero _).symm⟩
  story _ _ := ⟨rfl, rfl, fun _ => rfl, fun _ => (Int.add_zero _).symm⟩

theorem opened (x : PlugIn) :
    Shifts (fun k => if k x then 1 else 0) w (w.record (.opened x)) :=
  ⟨rfl, rfl, fun _ => rfl, fun _ => net_opened x⟩

theorem closed (x : PlugIn) :
    Shifts (fun k => -if k x then 1 else 0) w (w.record (.closed x)) :=
  ⟨rfl, rfl, fun _ => rfl, fun _ => (net_closed x).trans (Int.sub_eq_add_neg ..)⟩

/-- What has happened so far is followed by something that changes no balance. -/
theorem follow {α : Type} {m : Run S α} (first : Shifts c u w)
    (rest : Keeps (Shifts fun _ => 0) m) : Ensures m w fun _ => Shifts c u :=
  (rest w).mono fun _ _ next => (first.trans next).congr fun _ => Int.add_zero _

end Shifts

section Chains

variable {app : Application S} {again : {β : Type} → Call β → Run S β}
variable (quiet : app.QuietPlugIns) {u w : World S}
include quiet

theorem shifts_openPlugIn (x : PlugIn) : Ensures (Chain.openPlugIn app again x) w fun r =>
    Shifts (fun k => if r.isOk ∧ k x then 1 else 0) w := by
  have loose := Shifts.loose (S := S)
  have succeeds {v : World S} (h : Shifts (fun _ => 0) w v) :
      Ensures (do Run.record (.opened x); return .ok () : Run S (Except Fault Unit)) v fun r =>
        Shifts (fun k => if r.isOk ∧ k x then 1 else 0) w := by
    apply Ensures.record
    refine ensures_pure.mpr ?_
    exact (h.trans (.opened x)).congr fun k => by simp [Except.isOk, Except.toBool]
  cases x with
  | effect e => exact succeeds (loose.refl w)
  | codec c name =>
    have asked : Shifts (fun _ => 0) w (w.record (.codec c .opens)) := .of_idle rfl
    have opens : Keeps (Shifts fun _ => 0) ((app.opens c).run again) := loose.quiet (quiet.opens c)
    apply Ensures.record
    refine Ensures.bind (asked.follow opens) fun r _ h => ?_
    cases r with
    | ok => exact succeeds h
    | error f => exact ensures_pure.mpr (h.congr fun k => by simp [Except.isOk, Except.toBool])

theorem shifts_closePlugIn (x : PlugIn) : Ensures (Chain.closePlugIn app again x) w fun _ =>
    Shifts (fun k => -if k x then 1 else 0) w := by
  have loose := Shifts.loose (S := S)
  have finish {v : World S} (h : Shifts (fun _ => 0) w v) :
      Ensures (Run.record (.closed x)) v fun _ => Shifts (fun k => -if k x then 1 else 0) w :=
    ensures_record.mpr ((h.trans (.closed x)).congr fun _ => Int.zero_add _)
  cases x with
  | effect e => exact finish (loose.refl w)
  | codec c name =>
    have asked : Shifts (fun _ => 0) w (w.record (.codec c .close)) := .of_idle rfl
    have closes : Keeps (Shifts fun _ => 0) ((app.close c).run again) := loose.quiet (quiet.close c)
    apply Ensures.record
    exact Ensures.bind (asked.follow closes) fun _ _ h => finish h

theorem shifts_closeAll (chain : List PlugIn) : Ensures (Chain.closeAll app again chain) w fun _ =>
    Shifts (fun k => -chain.countP k) w := by
  induction chain generalizing w with
  | nil => exact ensures_pure.mpr (Shifts.loose.refl w)
  | cons x xs ih =>
    refine Ensures.bind (shifts_closePlugIn quiet x) fun _ v first => ?_
    exact ih.mono fun _ _ rest => (first.trans rest).congr fun k => by
      simp only [List.countP_cons]
      grind

theorem shifts_openAll (before chain : List PlugIn) :
    Ensures (Chain.openAll app again before chain) w fun r =>
      Shifts (fun k => if r.isOk then chain.countP k else -before.countP k) w := by
  induction chain generalizing before w with
  | nil => exact ensures_pure.mpr (Shifts.loose.refl w)
  | cons x xs ih =>
    refine Ensures.bind (shifts_openPlugIn quiet x) fun r v first => ?_
    cases r with
    | ok =>
      refine (ih (before ++ [x])).mono fun r _ rest => (first.trans rest).congr fun k => ?_
      simp [Except.isOk, Except.toBool, List.countP_cons]
      grind
    | error f =>
      apply Ensures.notice
      refine Ensures.bind (shifts_closeAll quiet before) fun _ _ closed => ?_
      refine ensures_pure.mpr ?_
      refine ((first.trans (.of_idle rfl)).trans closed).congr fun k => ?_
      simp [Except.isOk, Except.toBool]

end Chains

/-- While a processor tends its tracks, so far with these chains open. -/
structure Stage (w₀ : World S) (p : ProcessorId) (isOpen : Nat → Bool) (w : World S) : Prop where
  processors : w.rig.processors = w₀.rig.processors.modify p (·.withOpen isOpen)
  moments : w.moments = w₀.moments
  readied : ∀ q, lastReadied q w.journal = lastReadied q w₀.journal
  balance : ∀ k, net k w.journal = w.rig.inUse k

section WithOpen

variable {x : Processor} {f g : Nat → Bool} {i : Nat}

theorem Processor.withOpen_track :
    (x.withOpen f).tracks[i]? = (x.tracks[i]?).map fun t => { t with isOpen := f i } := by
  simp [Processor.withOpen]

theorem Processor.withOpen_isOpen {t : Track} (known : (x.withOpen f).tracks[i]? = some t) :
    t.isOpen = f i := by
  rw [withOpen_track] at known
  obtain ⟨_, -, rfl⟩ := Option.map_eq_some_iff.mp known
  rfl

theorem Processor.withOpen_congr (same : ∀ i < x.tracks.length, f i = g i) :
    x.withOpen f = x.withOpen g := by
  have tracks : (x.withOpen f).tracks = (x.withOpen g).tracks := by
    refine List.ext_getElem? fun i => ?_
    rw [withOpen_track, withOpen_track]
    by_cases within : i < x.tracks.length
    · rw [same i within]
    · simp [List.getElem?_eq_none (Nat.le_of_not_lt within)]
  exact congrArg (fun ts => { x with tracks := ts }) tracks

theorem Processor.withOpen_self (same : ∀ i t, x.tracks[i]? = some t → t.isOpen = f i) :
    x.withOpen f = x := by
  have tracks : (x.withOpen f).tracks = x.tracks := by
    refine List.ext_getElem? fun i => ?_
    rw [withOpen_track]
    cases known : x.tracks[i]? with
    | none => rfl
    | some t => rw [Option.map_some, ← same i t known]
  exact congrArg (fun ts => { x with tracks := ts }) tracks

theorem Processor.withOpen_modify (b : Bool) :
    (x.withOpen f).modifyTrack i (fun t => { t with isOpen := b }) =
      x.withOpen fun j => if j = i then b else f j := by
  have tracks : ((x.withOpen f).modifyTrack i fun t => { t with isOpen := b }).tracks =
      (x.withOpen fun j => if j = i then b else f j).tracks := by
    refine List.ext_getElem? fun j => ?_
    rw [withOpen_track, Processor.modifyTrack, List.getElem?_modify, withOpen_track]
    cases x.tracks[j]? <;> grind
  exact congrArg (fun ts => { x with tracks := ts }) tracks

theorem Processor.withOpen_enabledTracks : (x.withOpen f).enabledTracks = x.enabledTracks := by
  simp [Processor.enabledTracks, Processor.withOpen, Option.any_map]

/-- The positions where chains are opened are those where chains are open. -/
theorem Processor.withOpen_openTracks :
    (x.withOpen fun i => decide (i ∈ x.enabledTracks)).openTracks = x.enabledTracks := by
  simp only [Processor.openTracks, Processor.withOpen, List.length_mapIdx, List.getElem?_mapIdx,
    Option.any_map]
  refine List.filter_congr fun i within => ?_
  have within := List.mem_range.mp within
  simp [Processor.enabledTracks, within]

/-- A chain counts when it is opened and no longer when it is closed. -/
theorem Processor.inUse_modify {t : Track} (known : x.tracks[i]? = some t) (b : Bool) (k : Kind) :
    (x.modifyTrack i fun t => { t with isOpen := b }).inUse k + t.inUse k =
      x.inUse k + if b then t.chain.countP k else 0 :=
  sum_modify (Track.inUse k) _ known

end WithOpen

theorem Rig.inUse_modify {w : World S} {p : ProcessorId} {x : Processor}
    (known : w.rig.processors[p]? = some x) (f : Processor → Processor) (k : Kind) :
    (w.modify p f).rig.inUse k + x.inUse k = w.rig.inUse k + (f x).inUse k :=
  sum_modify (Processor.inUse k) f known

theorem Rig.inUse_same {w : World S} {p : ProcessorId} {f : Processor → Processor} {k : Kind}
    (same : ∀ x, w.rig.processors[p]? = some x → (f x).inUse k = x.inUse k) :
    (w.modify p f).rig.inUse k = w.rig.inUse k := by
  cases known : w.rig.processors[p]? with
  | none =>
    have unchanged := List.modify_eq_self (f := f) (List.getElem?_eq_none_iff.mp known)
    simp [World.modify, unchanged]
  | some x =>
    have whole := Rig.inUse_modify known f k
    rw [same x known] at whole
    exact Nat.add_right_cancel whole

namespace Stage

variable {w₀ w v : World S} {p : ProcessorId} {f g : Nat → Bool} {x : Processor} {t : Track}

theorem congr (h : Stage w₀ p f w)
    (same : ∀ x, w₀.rig.processors[p]? = some x → ∀ i < x.tracks.length, f i = g i) :
    Stage w₀ p g w where
  processors := by
    rw [h.processors]
    refine List.ext_getElem? fun q => ?_
    simp only [List.getElem?_modify]
    split
    case isTrue here =>
      subst here
      cases known : w₀.rig.processors[p]? with
      | none => rfl
      | some x => exact congrArg some (Processor.withOpen_congr (same x known))
    case isFalse => rfl
  moments := h.moments
  readied := h.readied
  balance := h.balance

/-- A chain is opened or closed, and the balance follows. -/
theorem setOpen (h : Stage w₀ p f w) {i : Nat} {b : Bool} {change : Kind → Int}
    (known : w.rig.processors[p]? = some x) (track : x.tracks[i]? = some t)
    (done : Shifts change (w.modify p fun x => x.modifyTrack i fun t => { t with isOpen := b }) v)
    (counts : ∀ k, change k = (if b then (t.chain.countP k : Int) else 0) - t.inUse k) :
    Stage w₀ p (fun j => if j = i then b else f j) v where
  processors := by
    rw [done.processors, World.modify_processors, h.processors, List.modify_modify_eq]
    congr
    funext y
    exact Processor.withOpen_modify b
  moments := done.moments.trans h.moments
  readied q := (done.readied q).trans (h.readied q)
  balance k := by
    have whole := Rig.inUse_modify known
      (fun x => x.modifyTrack i fun t => { t with isOpen := b }) k
    have part := Processor.inUse_modify track b k
    have same : v.rig.inUse k = (w.modify p fun x =>
        x.modifyTrack i fun t => { t with isOpen := b }).rig.inUse k := by
      simp only [Rig.inUse, done.processors]
    rw [done.net, World.modify_journal, h.balance, counts, same]
    split at part <;> simp_all <;> omega

theorem shift (h : Stage w₀ p f w) (done : Shifts (fun _ => 0) w v) : Stage w₀ p f v where
  processors := done.processors.trans h.processors
  moments := done.moments.trans h.moments
  readied q := (done.readied q).trans (h.readied q)
  balance k := by
    rw [done.net, Int.add_zero, h.balance, Rig.inUse, Rig.inUse, done.processors]

theorem start (balance : ∀ k, Metering.net k w.journal = w.rig.inUse k)
    (flags : ∀ x, w.rig.processors[p]? = some x →
      ∀ i t, x.tracks[i]? = some t → t.isOpen = f i) : Stage w p f w where
  processors := by
    refine List.ext_getElem? fun q => ?_
    rw [List.getElem?_modify]
    split
    case isTrue here =>
      subst here
      cases known : w.rig.processors[p]? with
      | none => rfl
      | some x => exact congrArg some (Processor.withOpen_self (flags x known)).symm
    case isFalse => simp
  moments := rfl
  readied _ := rfl
  balance := balance

theorem isOpen (h : Stage w₀ p f w) (known : w.rig.processors[p]? = some x) {i : Nat}
    (track : x.tracks[i]? = some t) : t.isOpen = f i := by
  rw [h.processors, List.getElem?_modify_eq] at known
  obtain ⟨y, -, rfl⟩ := Option.map_eq_some_iff.mp known
  exact Processor.withOpen_isOpen track

/-- Nothing changes where a processor has no track. -/
theorem outside (h : Stage w₀ p f w) (known : w.rig.processors[p]? = some x) {i : Nat}
    (missing : x.tracks[i]? = none) (b : Bool) :
    Stage w₀ p (fun j => if j = i then b else f j) w := by
  refine h.congr fun y known' j within => (if_neg ?_).symm
  rintro rfl
  rw [h.processors, List.getElem?_modify_eq, known'] at known
  obtain rfl : y.withOpen f = x := by simpa using known
  rw [Processor.withOpen_track, List.getElem?_eq_getElem within] at missing
  cases missing

variable {app : Application S} {again : {β : Type} → Call β → Run S β}
variable (quiet : app.QuietPlugIns)
include quiet

theorem openTrack (h : Stage w₀ p f w) {i : Nat} (shut : f i = false) :
    Ensures (openTrack app again p i) w fun r =>
      Stage w₀ p fun j => if j = i then r.isOk else f j := by
  apply Ensures.track
  intro x known
  cases track : x.tracks[i]? with
  | none => exact ensures_pure.mpr (h.outside known track true)
  | some t =>
    refine Ensures.bind (Shifts.holding (shifts_openAll quiet [] t.chain)) fun r v done => ?_
    have isOpen : t.isOpen = false := (h.isOpen known track).trans shut
    cases r with
    | ok =>
      refine ensures_bind.mpr (ensures_modifyProcessor.mpr (ensures_pure.mpr ?_))
      refine h.setOpen known track (done.modify p _) fun k => ?_
      simp [Except.isOk, Except.toBool, Track.inUse, isOpen]
    | error f =>
      refine ensures_pure.mpr ((h.shift (done.congr fun _ => rfl)).congr fun _ _ j _ => ?_)
      grind [Except.toBool]

theorem closeTrack (h : Stage w₀ p f w) (i : Nat) :
    Ensures (closeTrack app again p i) w fun _ =>
      Stage w₀ p fun j => if j = i then false else f j := by
  apply Ensures.track
  intro x known
  cases track : x.tracks[i]? with
  | none => exact ensures_pure.mpr (h.outside known track false)
  | some t =>
    dsimp only
    split
    case isTrue isOpen =>
      refine ensures_bind.mpr (ensures_modifyProcessor.mpr ?_)
      refine (Shifts.holding (shifts_closeAll quiet t.chain)).mono fun _ v done => ?_
      refine h.setOpen known track done fun k => ?_
      simp [Track.inUse, isOpen]
    case isFalse shut =>
      refine ensures_pure.mpr (h.congr fun y _ j _ => ?_)
      have := h.isOpen known track
      grind

theorem closeTracks (h : Stage w₀ p f w) (is : List Nat) :
    Ensures (Run.each (Metering.closeTrack app again p) is) w fun _ =>
      Stage w₀ p fun j => f j && decide (j ∉ is) := by
  induction is generalizing f w with
  | nil => exact ensures_pure.mpr (h.congr fun _ _ j _ => by simp)
  | cons i is ih =>
    refine Ensures.bind (h.closeTrack quiet i) fun _ v next => ?_
    refine (ih next).mono fun _ _ last => last.congr fun _ _ j _ => ?_
    grind

/-- In the end the chains of all these tracks are open, or no chain at all. -/
theorem openTracks (h : Stage w₀ p f w) (before is : List Nat) (distinct : is.Nodup)
    (shut : ∀ i ∈ is, f i = false) (known : ∀ i, f i = true → i ∈ before) :
    Ensures (openTracks app again p before is) w fun r =>
      Stage w₀ p fun j => r.isOk && (f j || decide (j ∈ is)) := by
  induction is generalizing f w before with
  | nil => exact ensures_pure.mpr (h.congr fun _ _ j _ => by simp [Except.isOk, Except.toBool])
  | cons i is ih =>
    obtain ⟨once, distinct⟩ := List.nodup_cons.mp distinct
    have here := shut i (List.mem_cons_self ..)
    refine Ensures.bind (h.openTrack quiet here) fun r v next => ?_
    cases r with
    | ok =>
      refine (ih next (before ++ [i]) distinct ?_ ?_).mono fun r _ last =>
        last.congr fun _ _ j _ => ?_
      · grind
      · grind
      · grind [Except.toBool]
    | error f =>
      refine Ensures.bind (next.closeTracks quiet before) fun _ _ last => ?_
      refine ensures_pure.mpr (last.congr fun _ _ j _ => ?_)
      grind [Except.toBool]

theorem prepare (balance : ∀ k, Metering.net k w.journal = w.rig.inUse k)
    (known : w.rig.processors[p]? = some x)
    (shut : ∀ (i : Nat) (t : Track), x.tracks[i]? = some t → t.isOpen = false) :
    Ensures (prepare app again p) w fun r =>
      Stage w p fun j => r.isOk && decide (j ∈ x.enabledTracks) := by
  have begin : Stage w p (fun _ => false) w := start balance fun y known' i t track => by
    obtain rfl : x = y := by simpa [known] using known'
    exact shut i t track
  apply Ensures.processor
  intro y known'
  obtain rfl : x = y := by simpa [known] using known'
  have loose := Shifts.loose (S := S)
  have holding {α : Type} (i : Nat) {calls : Run S α} (keeps : Keeps (Shifts fun _ => 0) calls) :
      Keeps (Shifts fun _ => 0) (Run.holding p i calls) := fun _ => Shifts.holding (keeps _)
  refine Ensures.bind (loose.negotiateTracks (loose.plugIns quiet) holding _ w) fun r v agreed => ?_
  cases r with
  | ok =>
    have distinct : x.enabledTracks.Nodup := List.nodup_range.filter _
    exact ((begin.shift agreed).openTracks quiet [] _ distinct (fun _ _ => rfl) nofun).mono
      fun _ _ last => last.congr fun _ _ j _ => by simp
  | error f => exact ensures_pure.mpr (begin.shift agreed)

end Stage

end Metering
