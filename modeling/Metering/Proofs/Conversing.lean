import Metering.Proofs.Acting
import Metering.Proofs.Registering
/-!
Plug-ins in conversation. While chains are prepared, plug-ins are offered formats, opened and
closed, and what they answer decides who is asked next. A conversation lists the questions with
their answers, from the first to the last. What a chain comes to, and what it leaves behind, can be
read off it.
-/

namespace Metering

variable {S : Type}

/-- A plug-in is offered a format, opened or closed, and answers. -/
inductive Exchange
  | offered (x : PlugIn) (f : Format) (answer : Option Format)
  | opened (x : PlugIn) (answer : Except Fault Unit)
  | closed (x : PlugIn)

/-- What plug-ins answer from: the state of the application, and the effects of the rig. -/
structure Respondents (S : Type) where
  app : S
  effects : List LevelEffect

def World.respondents (w : World S) : Respondents S := ⟨w.app, w.rig.effects⟩

namespace Exchange

/-- The plug-in gives this answer, and leaves this behind. Only codecs are the application's. -/
def Occurs (app : Application S) (u v : Respondents S) : Exchange → Prop
  | offered (.effect e) f answer => ∃ z, u.effects[e]? = some z ∧ (z.offer f).1 = answer ∧
      v = { u with effects := u.effects.modify e fun _ => (z.offer f).2 }
  | offered (.codec c _) f answer =>
    ∃ s, (app.offer c f).act u.app = some (answer, s) ∧ v = { u with app := s }
  | opened (.effect _) answer => answer = .ok () ∧ v = u
  | opened (.codec c _) answer =>
    ∃ s, (app.opens c).act u.app = some (answer, s) ∧ v = { u with app := s }
  | closed (.effect _) => v = u
  | closed (.codec c _) =>
    ∃ s, (app.close c).act u.app = some ((), s) ∧ v = { u with app := s }

def call? : Exchange → Option (CodecId × CodecMethod)
  | offered (.codec c _) _ _ => some (c, .setInputFormat)
  | opened (.codec c _) _ => some (c, .opens)
  | closed (.codec c _) => some (c, .close)
  | _ => none

def opened? : Exchange → Option PlugIn
  | opened x (.ok ()) => some x
  | _ => none

def closed? : Exchange → Option PlugIn
  | closed x => some x
  | _ => none

def opens (x : PlugIn) : Exchange := opened x (.ok ())

@[simp]
theorem opened_opens (x : PlugIn) : (opens x).opened? = some x := rfl

@[simp]
theorem closed_opens (x : PlugIn) : (opens x).closed? = none := rfl

@[simp]
theorem opened_closed (x : PlugIn) : (closed x).opened? = none := rfl

@[simp]
theorem closed_closed (x : PlugIn) : (closed x).closed? = some x := rfl

@[simp]
theorem opened_error (x : PlugIn) (f : Fault) : (opened x (.error f)).opened? = none := rfl

@[simp]
theorem closed_opened (x : PlugIn) (answer : Except Fault Unit) :
    (opened x answer).closed? = none := rfl

end Exchange

def Entry.call? : Entry → Option (CodecId × CodecMethod)
  | .codec c m => some (c, m)
  | _ => none

def calls (journal : List Entry) : List (CodecId × CodecMethod) :=
  (journal.filterMap Entry.call?).reverse

theorem calls_cons (e : Entry) (journal : List Entry) :
    calls (e :: journal) = calls journal ++ e.call?.toList := by
  simp only [calls, List.filterMap_cons]
  cases e.call? <;> simp

/-- The plug-ins answer so, one after the other. -/
inductive Application.Converses (app : Application S) :
    List Exchange → Respondents S → Respondents S → Prop
  | nil (u : Respondents S) : app.Converses [] u u
  | cons {x : Exchange} {talk : List Exchange} {u v w : Respondents S} :
    x.Occurs app u v → app.Converses talk v w → app.Converses (x :: talk) u w

section Converses

variable {app : Application S} {x : Exchange} {talk more : List Exchange} {u v w : Respondents S}

theorem Application.Converses.append (first : app.Converses talk u v)
    (rest : app.Converses more v w) : app.Converses (talk ++ more) u w := by
  induction first with
  | nil => exact rest
  | cons occurs _ ih => exact .cons occurs (ih rest)

theorem Exchange.Occurs.effects_length (h : x.Occurs app u v) :
    v.effects.length = u.effects.length := by
  cases x with
  | offered y =>
    cases y with
    | effect =>
      obtain ⟨z, -, -, rfl⟩ := h
      exact List.length_modify ..
    | codec =>
      obtain ⟨s, -, rfl⟩ := h
      rfl
  | opened y =>
    cases y with
    | effect =>
      obtain ⟨-, rfl⟩ := h
      rfl
    | codec =>
      obtain ⟨s, -, rfl⟩ := h
      rfl
  | closed y =>
    cases y with
    | effect =>
      obtain rfl := h
      rfl
    | codec =>
      obtain ⟨s, -, rfl⟩ := h
      rfl

theorem Application.Converses.effects_length (h : app.Converses talk u v) :
    v.effects.length = u.effects.length := by
  induction h with
  | nil => rfl
  | cons occurs _ ih => exact ih.trans occurs.effects_length

end Converses

/-- The plug-ins talk, and nothing else happens. -/
structure Talks (app : Application S) (talk : List Exchange) (w w' : World S) : Prop where
  converses : app.Converses talk w.respondents w'.respondents
  calls : calls w'.journal = calls w.journal ++ talk.filterMap Exchange.call?
  rig : w'.rig = { w.rig with effects := w'.rig.effects }

namespace Talks

variable {app : Application S} {talk more : List Exchange} {u v w : World S}

theorem refl (w : World S) : Talks app [] w w := ⟨.nil _, by simp, rfl⟩

theorem trans (first : Talks app talk u v) (second : Talks app more v w) :
    Talks app (talk ++ more) u w where
  converses := first.converses.append second.converses
  calls := by rw [second.calls, first.calls, List.filterMap_append, List.append_assoc]
  rig := by rw [second.rig, first.rig]

theorem processors (h : Talks app talk u v) : v.rig.processors = u.rig.processors :=
  congrArg (·.processors) h.rig

theorem effects_length (h : Talks app talk u v) :
    v.rig.effects.length = u.rig.effects.length := h.converses.effects_length

/-- Something is written down, but no call. -/
theorem record (h : Talks app talk u v) {e : Entry} (silent : e.call? = none) :
    Talks app talk u (v.record e) where
  converses := h.converses
  calls := by rw [World.record_journal, calls_cons, silent, h.calls, Option.toList_none,
    List.append_nil]
  rig := h.rig

/-- A processor changes, then and now. -/
theorem modify (h : Talks app talk u v) (p : ProcessorId) (f : Processor → Processor) :
    Talks app talk (u.modify p f) (v.modify p f) where
  converses := h.converses
  calls := h.calls
  rig := by
    change { v.rig with processors := v.rig.processors.modify p f } = _
    rw [h.rig]
    rfl

theorem of_occurs {x : Exchange} (occurs : x.Occurs app w.respondents v.respondents)
    (calls : Metering.calls v.journal = Metering.calls w.journal ++ x.call?.toList)
    (rig : v.rig = { w.rig with effects := v.rig.effects }) : Talks app [x] w v where
  converses := .cons occurs (.nil _)
  calls := by
    rw [calls]
    cases here : x.call? <;> simp [here]
  rig := rig

end Talks

/-- Lines are no calls. -/
theorem calls_acted (w : World S) (s : S) (lines : List String) :
    calls (w.acted s lines).journal = calls w.journal := by
  have none (l : List String) : (l.map Entry.note).filterMap Entry.call? = [] := by
    simp [List.filterMap_map, Function.comp_def, Entry.call?]
  simp [calls, none]

section Calls

variable {app : Application S} (quiet : app.QuietPlugIns)
variable {again : {β : Type} → Call β → Run S β} {w : World S}
include quiet

theorem offer_talks {x : PlugIn} (made : x.Made w.rig.effects.length) (f : Format) :
    Yields (Chain.offer app again x f) w fun answer w' =>
      Talks app [.offered x f answer] w w' := by
  cases x with
  | effect e =>
    have known : w.rig.effects[e]? = some w.rig.effects[e] := List.getElem?_eq_getElem made
    apply Yields.effect known
    refine yields_bind.mpr (yields_modifyEffect.mpr (yields_pure.mpr ?_))
    exact .of_occurs ⟨_, known, rfl, rfl⟩ (List.append_nil _).symm rfl
  | codec c name =>
    obtain ⟨answer, s, acts⟩ := (quiet.offer c f).acts w.app
    apply Yields.record
    refine ⟨answer, _, Program.run_of_act again acts, ?_⟩
    exact .of_occurs ⟨s, acts, rfl⟩ ((calls_acted _ _ _).trans (calls_cons _ _)) rfl

theorem openPlugIn_talks (x : PlugIn) :
    Yields (Chain.openPlugIn app again x) w fun answer w' =>
      Talks app [.opened x answer] w w' := by
  cases x with
  | effect e =>
    have opens : Talks app [.opened (.effect e) (.ok ())] w w :=
      .of_occurs ⟨rfl, rfl⟩ (List.append_nil _).symm rfl
    exact ⟨.ok (), w.record (.opened (.effect e)), rfl, opens.record rfl⟩
  | codec c name =>
    obtain ⟨answer, s, acts⟩ := (quiet.opens c).acts w.app
    apply Yields.record
    have asked : Talks app [.opened (.codec c name) answer] w
        ((w.record (.codec c .opens)).acted s ((app.opens c).lines w.app)) :=
      .of_occurs ⟨s, acts, rfl⟩ ((calls_acted _ _ _).trans (calls_cons _ _)) rfl
    have run : (app.opens c).run again (w.record (.codec c .opens)) = .ok (answer, _) :=
      Program.run_of_act again acts
    refine yields_bind.mpr ⟨answer, _, run, ?_⟩
    cases answer with
    | ok =>
      apply Yields.record
      exact yields_pure.mpr (asked.record rfl)
    | error f => exact yields_pure.mpr asked

theorem closePlugIn_talks (x : PlugIn) :
    Yields (Chain.closePlugIn app again x) w fun _ w' => Talks app [.closed x] w w' := by
  cases x with
  | effect e =>
    have closes : Talks app [.closed (.effect e)] w w :=
      .of_occurs (Eq.refl w.respondents) (List.append_nil _).symm rfl
    exact yields_record.mpr (closes.record rfl)
  | codec c name =>
    obtain ⟨⟨⟩, s, acts⟩ := (quiet.close c).acts w.app
    apply Yields.record
    have run : (app.close c).run again (w.record (.codec c .close)) = .ok ((), _) :=
      Program.run_of_act again acts
    refine yields_bind.mpr ⟨(), _, run, yields_record.mpr (.record ?_ rfl)⟩
    exact .of_occurs ⟨s, acts, rfl⟩ ((calls_acted _ _ _).trans (calls_cons _ _)) rfl

theorem closeAll_talks (chain : List PlugIn) : Yields (Chain.closeAll app again chain) w
    fun _ w' => Talks app (chain.map .closed) w w' := by
  induction chain generalizing w with
  | nil => exact yields_pure.mpr (.refl w)
  | cons x xs ih =>
    refine (closePlugIn_talks quiet x).bind ?_
    intro _ v closed
    exact ih.mono fun _ _ rest => closed.trans rest

end Calls

namespace Chain

/-- A chain agrees on formats: each plug-in accepts the format that the one before it gave. -/
inductive Agreed : Format → List PlugIn → List Exchange → Format → Prop
  | nil (f : Format) : Agreed f [] [] f
  | cons {x : PlugIn} {xs : List PlugIn} {talk : List Exchange} {f g h : Format} :
    Agreed g xs talk h → Agreed f (x :: xs) (.offered x f (some g) :: talk) h

/-- What is said of a plug-in that rejects a format. -/
def refusal (x : PlugIn) (f : Format) : Fault :=
  .unsupportedFormat (x.name ++ " rejected " ++ f.debug)

/-- A chain agrees on formats, or one of its plug-ins rejects the format it is offered, and those
behind it are not asked. -/
inductive Negotiated (f : Format) (chain : List PlugIn) :
    List Exchange → Except Fault Format → Prop
  | agreed {talk : List Exchange} {g : Format} :
    Agreed f chain talk g → Negotiated f chain talk (.ok g)
  | rejected {before after : List PlugIn} {x : PlugIn} {talk : List Exchange} {g : Format} :
    chain = before ++ x :: after → Agreed f before talk g →
    Negotiated f chain (talk ++ [.offered x g none]) (.error (refusal x g))

/-- All plug-ins of a chain are opened, or one of them does not open; those behind it are left
alone then, and those before it are closed again. -/
inductive Opened (chain : List PlugIn) : List Exchange → Except Fault Unit → Prop
  | whole : Opened chain (chain.map .opens) (.ok ())
  | stuck {before after : List PlugIn} {x : PlugIn} {f : Fault} :
    chain = before ++ x :: after →
    Opened chain (before.map .opens ++ .opened x (.error f) :: before.map .closed) (.error f)

variable {app : Application S} (quiet : app.QuietPlugIns)
variable {again : {β : Type} → Call β → Run S β} {w : World S}

theorem Negotiated.cons {x : PlugIn} {xs : List PlugIn} {f g : Format} {talk : List Exchange}
    {r : Except Fault Format} (h : Negotiated g xs talk r) :
    Negotiated f (x :: xs) (.offered x f (some g) :: talk) r := by
  cases h with
  | agreed agreed => exact .agreed (.cons agreed)
  | rejected split agreed =>
    exact .rejected (congrArg (x :: ·) split) (.cons agreed)

include quiet

theorem negotiate_talks {chain : List PlugIn} (made : ∀ y ∈ chain, y.Made w.rig.effects.length)
    (f : Format) : Yields (negotiate app again chain f) w fun r w' =>
      ∃ talk, Negotiated f chain talk r ∧ Talks app talk w w' := by
  induction chain generalizing f w with
  | nil => exact yields_pure.mpr ⟨[], .agreed (.nil f), .refl w⟩
  | cons x xs ih =>
    refine (offer_talks quiet (made x List.mem_cons_self) f).bind ?_
    intro answer v asked
    cases answer with
    | none =>
      have first : x :: xs = [] ++ x :: xs := rfl
      exact yields_pure.mpr ⟨_, .rejected first (.nil f), asked⟩
    | some g =>
      apply Yields.record
      have asked : Talks app [.offered x f (some g)] w (v.record (.accepted x)) :=
        asked.record rfl
      have made : ∀ y ∈ xs, y.Made (v.record (.accepted x)).rig.effects.length :=
        asked.effects_length ▸ fun y member => made y (List.mem_cons_of_mem _ member)
      refine (ih made g).mono ?_
      rintro r w' ⟨talk, negotiated, rest⟩
      exact ⟨_, negotiated.cons, asked.trans rest⟩

theorem openAll_talks (before chain : List PlugIn) :
    Yields (openAll app again before chain) w fun r w' =>
      ∃ talk, Opened (before ++ chain) (before.map .opens ++ talk) r ∧ Talks app talk w w' := by
  induction chain generalizing before w with
  | nil =>
    have every : Opened before (before.map .opens) (.ok ()) := .whole
    exact yields_pure.mpr ⟨[], by simpa using every, .refl w⟩
  | cons x xs ih =>
    refine (openPlugIn_talks quiet x).bind ?_
    intro r v asked
    cases r with
    | ok =>
      refine (ih (before ++ [x])).mono ?_
      rintro r w' ⟨talk, opened, rest⟩
      refine ⟨_, ?_, asked.trans rest⟩
      simpa [Exchange.opens] using opened
    | error f =>
      refine yields_bind.mpr (yields_notice.mpr ?_)
      have noted := asked.record (e := .notice (.plugInNotOpened x.name f)) rfl
      refine (closeAll_talks quiet before).bind ?_
      intro _ v' closed
      exact yields_pure.mpr ⟨_, .stuck rfl, noted.trans closed⟩

end Chain

end Metering
