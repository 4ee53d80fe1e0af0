import Metering.Proofs.Tending
/-!
The course of a processor's life. Its acts are the changes of its phase and the announcements of
events, in the order of the journal, and a course is put together from transitions, each of which
stores a phase and announces one event. Runs of a processor's operations extend its course.
-/

namespace Metering

variable {S α : Type}

/-- What a processor does for all to see. -/
inductive Act
  | moved (phase : Phase)
  | announced (e : Event)
deriving DecidableEq, Repr

@[simp]
def Entry.act? (p : ProcessorId) : Entry → Option Act
  | .moved q phase => if q = p then some (.moved phase) else none
  | .announced q e => if q = p then some (.announced e) else none
  | _ => none

/-- The acts of a processor from the first to the last. -/
def acts (p : ProcessorId) (journal : List Entry) : List Act :=
  (journal.filterMap (Entry.act? p)).reverse

@[simp]
theorem acts_cons (p : ProcessorId) (e : Entry) (journal : List Entry) :
    acts p (e :: journal) = acts p journal ++ (e.act? p).toList := by
  simp only [acts, List.filterMap_cons]
  cases e.act? p <;> simp

theorem acts_append (p : ProcessorId) (later journal : List Entry) :
    acts p (later ++ journal) = acts p journal ++ acts p later := by
  simp [acts]

theorem acts_of_suffix {p : ProcessorId} {journal later : List Entry} (h : journal <:+ later) :
    acts p journal <+: acts p later := by
  obtain ⟨es, rfl⟩ := h
  exact ⟨acts p es, (acts_append p es journal).symm⟩

theorem mem_acts {p : ProcessorId} {phase : Phase} {journal : List Entry}
    (h : .moved p phase ∈ journal) : .moved phase ∈ acts p journal :=
  List.mem_reverse.mpr (List.mem_filterMap.mpr ⟨_, h, by simp⟩)

/-- The phase of a processor. One that is yet to be made counts as unrealized. -/
def Rig.phase (r : Rig) (p : ProcessorId) : Phase :=
  ((r.processors[p]?).map (·.phase)).getD .unrealized

def Rig.isExternal (r : Rig) (p : ProcessorId) : Bool :=
  ((r.processors[p]?).map (·.isExternal)).getD false

/-- The transitions of a processor: what was asked of it, the phase it was in, the acts that make
up the transition, the phase it comes to and the answer. `intruded` says that plug-ins may call the
processor while it realizes. If one of them closes it then, the processor announces that at once,
and takes up its course again when it has finished with its plug-ins. -/
inductive Transition (intruded : Prop) :
    Request → Phase → List Act → Phase → Except Fault Unit → Prop
  | configure : Transition intruded .configure .unrealized
      [.moved .configuring, .moved .configured, .announced .configured] .configured (.ok ())
  | realize : Transition intruded .realize .configured
      [.moved .realizing, .moved .realized, .announced .realized] .realized (.ok ())
  | refuse (f : Fault) : Transition intruded .realize .configured
      [.moved .realizing, .moved .configured, .announced (.failed f.message)] .configured
      (.error f)
  | start : Transition intruded .start .realized [.moved .started, .announced .started] .started
      (.ok ())
  | stop : Transition intruded .stop .started [.moved .realized, .announced .stopped] .realized
      (.ok ())
  | close {a : Phase} (alive : a ≠ .closed) : Transition intruded .close a
      [.moved .closed, .announced .closed] .closed (.ok ())
  | revive (h : intruded) : Transition intruded .realize .configured
      [.moved .realizing, .moved .closed, .announced .closed, .moved .realized,
        .announced .realized] .realized (.ok ())
  | reviveRefused (h : intruded) (f : Fault) : Transition intruded .realize .configured
      [.moved .realizing, .moved .closed, .announced .closed, .moved .configured,
        .announced (.failed f.message)] .configured (.error f)

inductive Course (intruded : Prop) : Phase → List Act → Phase → Prop
  | rest (a : Phase) : Course intruded a [] a
  | go {a b c : Phase} {v u : List Act} {op : Request} {r : Except Fault Unit} :
      Course intruded a v b → Transition intruded op b u c r → Course intruded a (v ++ u) c

variable {intruded : Prop} {a b c : Phase} {v u : List Act}

theorem Transition.course {op : Request} {r : Except Fault Unit}
    (t : Transition intruded op a v b r) : Course intruded a v b := .go (.rest a) t

theorem Course.trans (first : Course intruded a v b) (second : Course intruded b u c) :
    Course intruded a (v ++ u) c := by
  induction second with
  | rest => rwa [List.append_nil]
  | go _ t ih => rw [← List.append_assoc]; exact .go ih t

/-- A closed processor has run its course. -/
theorem Course.of_closed (h : Course intruded .closed v b) : v = [] ∧ b = .closed := by
  induction h with
  | rest => exact ⟨rfl, rfl⟩
  | go _ t ih =>
    obtain ⟨rfl, rfl⟩ := ih
    cases t with
    | close alive => exact absurd rfl alive

/-- All that can happen to a processor while it realizes is that it is closed. -/
theorem Course.of_realizing (h : Course intruded .realizing v b) :
    (v = [] ∧ b = .realizing) ∨ (v = [.moved .closed, .announced .closed] ∧ b = .closed) := by
  induction h with
  | rest => exact .inl ⟨rfl, rfl⟩
  | go _ t ih =>
    obtain ⟨rfl, rfl⟩ | ⟨rfl, rfl⟩ := ih
    · cases t with
      | close => exact .inr ⟨rfl, rfl⟩
    · cases t with
      | close alive => exact absurd rfl alive

/-- From one moment to a later one a processor goes on in its course. -/
structure Leads (intruded : Prop) (p : ProcessorId) (m n : Moment) : Prop where
  external : m.rig.isExternal p = true → n.rig.isExternal p = true
  course : n.rig.isExternal p = false →
    ∃ v, acts p n.journal = acts p m.journal ++ v ∧
      Course intruded (m.rig.phase p) v (n.rig.phase p)

theorem Leads.refl (p : ProcessorId) (m : Moment) : Leads intruded p m m where
  external := id
  course _ := ⟨[], by simp, .rest _⟩

theorem Leads.internal {p : ProcessorId} {m n : Moment} (h : Leads intruded p m n)
    (last : n.rig.isExternal p = false) : m.rig.isExternal p = false := by
  cases external : m.rig.isExternal p with
  | false => rfl
  | true => exact (h.external external).symm.trans last

theorem Leads.trans {p : ProcessorId} {l m n : Moment} (first : Leads intruded p l m)
    (second : Leads intruded p m n) : Leads intruded p l n where
  external h := second.external (first.external h)
  course h := by
    obtain ⟨v, acts, course⟩ := first.course (second.internal h)
    obtain ⟨u, acts', course'⟩ := second.course h
    exact ⟨v ++ u, by rw [acts', acts, List.append_assoc], course.trans course'⟩

end Metering
