import Mathlib.Algebra.Ring.Nat
import Metering.Proofs.Tending
/-!
Who is told what. The journal says when an event is announced and when each subscriber is told, and
the tellings that are under way can be read off it. Subscribers may drive a processor further while
others are still to be told, so that one telling goes on inside of another.
-/

namespace Metering

variable {S α : Type}

/-- An event on its way, and the subscribers that are still to be told. -/
structure Telling where
  processor : ProcessorId
  event : Event
  left : List Subscriber
deriving DecidableEq, Repr

/-- A telling on top of others, unless nobody is left. -/
def Telling.over (t : Telling) (ts : List Telling) : List Telling :=
  if t.left = [] then ts else t :: ts

/-- The subscribers of a processor, in the order in which they subscribed. -/
def audience (p : ProcessorId) : List Entry → List Subscriber
  | [] => []
  | .subscribed q x :: journal =>
    if q = p then audience p journal ++ [x] else audience p journal
  | _ :: journal => audience p journal

/-- Someone is told an event. This can only be who comes next in the latest telling. -/
def told (x : Subscriber) (p : ProcessorId) (e : Event) : List Telling → Option (List Telling)
  | ⟨q, f, y :: left⟩ :: ts =>
    if q = p ∧ f = e ∧ y = x then some (Telling.over ⟨p, e, left⟩ ts) else none
  | _ => none

/-- The tellings under way, the latest first. There is no such list if someone was told out of
turn. -/
def underWay : List Entry → Option (List Telling)
  | [] => some []
  | .announced p e :: journal =>
    (underWay journal).map fun ts => Telling.over ⟨p, e, audience p journal⟩ ts
  | .told x p e :: journal => (underWay journal).bind (told x p e)
  | _ :: journal => underWay journal

/-- How often a subscriber is still to be told an event. -/
def outstanding (x : Subscriber) (p : ProcessorId) (e : Event) (ts : List Telling) : Nat :=
  (ts.map fun t => if t.processor = p ∧ t.event = e then t.left.count x else 0).sum

/-- How often an event was announced to a subscriber. -/
def due (x : Subscriber) (p : ProcessorId) (e : Event) : List Entry → Nat
  | [] => 0
  | .announced q f :: journal =>
    due x p e journal + if q = p ∧ f = e then (audience q journal).count x else 0
  | _ :: journal => due x p e journal

def Rig.subscribers (r : Rig) (p : ProcessorId) : List Subscriber :=
  ((r.processors[p]?).map (·.subscribers)).getD []

/-- The journal knows the subscribers of every processor and says which tellings are under way. -/
structure World.Amid (w : World S) (ts : List Telling) : Prop where
  enrolled : ∀ p, audience p w.journal = w.rig.subscribers p
  underWay : underWay w.journal = some ts

/-- Every telling that began has come to its end. -/
def Attends (w w' : World S) : Prop := ∀ ts, w.Amid ts → w'.Amid ts

/-- The entry is about neither subscribers nor events. -/
def Entry.isSilent : Entry → Bool
  | .subscribed .. | .announced .. | .told .. => false
  | _ => true

section Entries

variable {e : Entry} {journal : List Entry}

theorem audience_cons (silent : e.isSilent = true) (p : ProcessorId) :
    audience p (e :: journal) = audience p journal := by
  cases e <;> first | rfl | cases silent

theorem underWay_cons (silent : e.isSilent = true) :
    underWay (e :: journal) = underWay journal := by
  cases e <;> first | rfl | cases silent

end Entries

section Counts

variable {x : Subscriber} {p : ProcessorId} {e : Event} {ts : List Telling}

theorem outstanding_over (t : Telling) : outstanding x p e (t.over ts) =
    (if t.processor = p ∧ t.event = e then t.left.count x else 0) + outstanding x p e ts := by
  unfold Telling.over
  split
  case isTrue nobody => simp [nobody]
  case isFalse => rfl

/-- Nobody is told an event more often than it was announced to them, nor less often in the end. -/
theorem told_count {journal : List Entry} (h : underWay journal = some ts) :
    journal.count (.told x p e) + outstanding x p e ts = due x p e journal := by
  induction journal generalizing ts with
  | nil =>
    obtain rfl : [] = ts := by simpa [underWay] using h
    rfl
  | cons entry journal ih =>
    cases entry with
    | announced q f =>
      obtain ⟨before, now, rfl⟩ := Option.map_eq_some_iff.mp h
      rw [List.count_cons_of_ne (by simp), outstanding_over, due, ← ih now]
      dsimp only
      omega
    | told y q f =>
      obtain ⟨before, now, next⟩ := Option.bind_eq_some_iff.mp h
      have earlier := ih now
      unfold told at next
      split at next
      case h_1 q' f' y' left rest =>
        split at next
        case isTrue same =>
          obtain ⟨rfl, rfl, rfl⟩ := same
          cases next
          rw [outstanding_over, show due x p e (.told y' q' f' :: journal) = _ from earlier.symm]
          simp only [outstanding, List.map_cons, List.sum_cons, List.count_cons, beq_iff_eq]
          grind
        case isFalse => cases next
      case h_2 => cases next
    | _ => simpa [due, List.count_cons] using ih h

end Counts

section Subscribers

variable {r : Rig} {p q : ProcessorId} {f : Processor → Processor}

theorem Rig.subscribers_of {x : Processor} (known : r.processors[p]? = some x) :
    r.subscribers p = x.subscribers := by
  simp [Rig.subscribers, known]

theorem World.modify_subscribers {w : World S}
    (same : ∀ x, (f x).subscribers = x.subscribers) :
    (w.modify q f).rig.subscribers p = w.rig.subscribers p := by
  simp only [Rig.subscribers, World.modify_processors, List.getElem?_modify]
  split <;> cases w.rig.processors[p]? <;> simp [same]

end Subscribers

namespace Attends

variable {w : World S}

theorem flow : Flow (Attends (S := S)) where
  refl _ _ := id
  trans first second ts now := second ts (first ts now)

theorem record {e : Entry} (silent : e.isSilent = true) :
    Keeps (S := S) Attends (Run.record e) := fun _ =>
  ensures_record.mpr fun _ now =>
    ⟨fun p => (audience_cons silent p).trans (now.enrolled p),
      (underWay_cons silent).trans now.underWay⟩

theorem modify (q : ProcessorId) {f : Processor → Processor}
    (same : ∀ x, (f x).subscribers = x.subscribers) :
    Keeps (S := S) Attends (Run.modifyProcessor q f) := fun _ =>
  ensures_modifyProcessor.mpr fun _ now =>
    ⟨fun p => (now.enrolled p).trans (World.modify_subscribers same).symm, now.underWay⟩

theorem newProcessor {x : Processor} (fresh : x.subscribers = []) :
    Keeps (S := S) Attends (Run.newProcessor x) := by
  intro w
  simp only [Run.newProcessor, ensures_bind, ensures_get, ensures_modifyRig, ensures_pure]
  refine fun ts now => ⟨fun p => (now.enrolled p).trans ?_, now.underWay⟩
  simp only [Rig.subscribers, List.getElem?_append]
  grind

theorem subscribe (q : ProcessorId) (x : Subscriber) :
    Keeps (S := S) Attends (subscribe q x) := by
  intro w
  simp only [Metering.subscribe, ensures_bind, ensures_processor, ensures_modifyProcessor,
    ensures_record]
  refine fun y known ts now => ⟨fun p => ?_, now.underWay⟩
  simp only [World.record_journal, World.modify_journal, audience, World.record_rig]
  split
  case isTrue same =>
    subst same
    rw [Rig.subscribers_of (World.modify_processor known), now.enrolled, Rig.subscribers_of known]
  case isFalse other =>
    rw [now.enrolled]
    simp [Rig.subscribers, other]

theorem plain : Plain (Attends (S := S)) where
  toFlow := flow
  own _ _ _ now := ⟨now.enrolled, now.underWay⟩
  aside e aside := record (by cases e <;> first | rfl | cases aside)
  effects _ _ _ _ now := ⟨now.enrolled, now.underWay⟩
  story _ _ _ now := ⟨now.enrolled, now.underWay⟩
  mark _ := ensures_mark.mpr fun _ now => ⟨now.enrolled, now.underWay⟩
  sessions _ _ _ now := ⟨now.enrolled, now.underWay⟩
  newProcessor _ _ := newProcessor rfl
  newExternal _ _ _ := newProcessor rfl
  subscribe := subscribe
  setChain := flow.setChain fun q _ => modify q fun _ => rfl
  setEnabled q _ _ := modify q fun _ => rfl
  counted q := modify q fun _ => rfl

variable {app : Application S} {again : {β : Type} → Call β → Run S β}

/-- Those who are left are told one after the other, whatever they do about it. -/
theorem each (answers : Answers Attends again) (p : ProcessorId) (e : Event)
    (xs : List Subscriber) {ts : List Telling} (now : w.Amid (Telling.over ⟨p, e, xs⟩ ts)) :
    Ensures (Run.each (deliver app again p e) xs) w fun _ w' => w'.Amid ts := by
  induction xs generalizing w with
  | nil => exact ensures_pure.mpr now
  | cons x xs ih =>
    have next : (w.record (.told x p e)).Amid (Telling.over ⟨p, e, xs⟩ ts) := by
      refine ⟨now.enrolled, ?_⟩
      simp [underWay, now.underWay, Telling.over, told]
    have delivers : Ensures (deliver app again p e x) w fun _ w' =>
        w'.Amid (Telling.over ⟨p, e, xs⟩ ts) := by
      apply Ensures.record
      exact (plain.hear answers p e x _).mono fun _ _ heard => heard _ next
    refine Ensures.bind delivers fun _ w' amid => ?_
    exact ih amid

theorem emit (again : {β : Type} → Call β → Run S β) (answers : Answers Attends again)
    (p : ProcessorId) (e : Event) : Keeps Attends (emit app again p e) := by
  intro w
  apply Ensures.record
  apply Ensures.processor
  intro x known a w' run ts now
  have begun : (w.record (.announced p e)).Amid (Telling.over ⟨p, e, x.subscribers⟩ ts) := by
    refine ⟨now.enrolled, ?_⟩
    simp [underWay, now.underWay, now.enrolled, ← Rig.subscribers_of known]
  exact each answers p e x.subscribers begun a w' run

theorem steady : Steady app (fun _ => True) (Attends (S := S)) where
  toPlain := plain
  holding q _ := flow.holding fun _ => modify q fun _ => rfl
  opened _ := record rfl
  closed _ := record rfl
  setOpen q _ _ := modify q fun _ => rfl
  moveTo q _ _ :=
    flow.bind (flow.processor q) fun _ => flow.bind (modify q fun _ => rfl) fun _ => record rfl
  readied _ _ _ := record rfl
  lockTracks q _ := modify q fun _ => rfl
  emit again answers q _ := emit again answers q

end Attends

end Metering
