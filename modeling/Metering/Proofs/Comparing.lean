import Metering.Proofs.Acting
/-!
Two runs side by side. The worlds they go through differ in what one of them is ahead of the other:
one processor has been changed already, or a session has more users. Who looks from a standpoint
sees no difference in what both do from there on.
-/

namespace Metering

variable {S K ι α β : Type}

/-- Both runs come to no result, or both to the same one in worlds that are related. -/
def Alike (T : World S → World S → Prop) (x y : Except Halt (α × World S)) : Prop :=
  match x, y with
  | .ok (a, u), .ok (b, v) => a = b ∧ T u v
  | .error _, .error _ => True
  | _, _ => False

structure Standpoint (S K ι : Type) where
  /-- What is known of the application's state. -/
  own : S → K
  /-- The places at which entries of the journal are seen. -/
  view : ι → Entry → Bool

/-- The same entries are seen at every place. -/
def Standpoint.Matches (o : Standpoint S K ι) (a b : List Entry) : Prop :=
  ∀ i, a.filter (o.view i) = b.filter (o.view i)

/-- In states that one cannot tell apart the program answers the same, and again one cannot tell
apart what it makes of them. -/
def Standpoint.Follows (o : Standpoint S K ι) (p : Program S α) : Prop :=
  ∀ s t, o.own s = o.own t → ∃ a s' t', p.act s = some (a, s') ∧ p.act t = some (a, t') ∧
    o.own s' = o.own t' ∧ o.Matches ((p.lines s).map .note) ((p.lines t).map .note)

/-- All that the application does when plug-ins are driven, when watchers are told of some of the
processors, and when it is asked for some of its own. -/
structure Standpoint.Suits (o : Standpoint S K ι) (app : Application S)
    (told asked : ProcessorId → Prop) : Prop where
  offer : ∀ c f, o.Follows (app.offer c f)
  opens : ∀ c, o.Follows (app.opens c)
  close : ∀ c, o.Follows (app.close c)
  event : ∀ p, told p → ∀ x e, o.Follows (app.event x p e)
  request : ∀ p, asked p → ∀ r, o.Follows (app.request p r)

structure Comparison (S K ι : Type) extends Standpoint S K ι where
  /-- The processor is one of those that are driven. -/
  told : ProcessorId → Prop
  /-- The processor may be one of the application's own. -/
  asked : ProcessorId → Prop
  processor : ProcessorId
  /-- What this processor is in the first run and in the second, if it differs. -/
  apart : Option (Processor × Processor)
  /-- The session is in use all the time. -/
  used : SessionId → Prop
  /-- How many more users a session has in the first run. -/
  more : SessionId → Nat
  more_eq : ∀ s, ¬used s → more s = 0
  /-- The journal of the first run when the comparison begins. -/
  first : List Entry
  /-- The journal of the second run when the comparison begins. -/
  second : List Entry

/-- The entry says that somebody is told an event. -/
def Entry.isTold : Entry → Bool
  | .told .. => true
  | _ => false

namespace Comparison

abbrev Suits (c : Comparison S K ι) (app : Application S) : Prop :=
  c.toStandpoint.Suits app c.told c.asked

/-- The runs do not differ in the processor. -/
def Sees (c : Comparison S K ι) (q : ProcessorId) : Prop := q = c.processor → c.apart = none

/-- Nobody is told of a processor in which the runs differ. -/
def Admits (c : Comparison S K ι) (e : Entry) : Prop := ∀ x q f, e = .told x q f → c.Sees q

/-- The worlds differ as they may. A session that is in use has more users than `n` says. -/
structure Beside (c : Comparison S K ι) (n : SessionId → Nat) (u v : World S) : Prop where
  processors : ∀ q, c.Sees q → u.rig.processors[q]? = v.rig.processors[q]?
  apart : ∀ x y, c.apart = some (x, y) →
    u.rig.processors[c.processor]? = some x ∧ v.rig.processors[c.processor]? = some y
  internal : ∀ q x, c.told q → ¬c.asked q → u.rig.processors[q]? = some x → x.isExternal = false
  effects : u.rig.effects = v.rig.effects
  sessions : ∀ s, u.rig.sessions[s]? =
    (v.rig.sessions[s]?).map fun x : Session => { x with users := x.users + c.more s }
  users : ∀ s x, v.rig.sessions[s]? = some x → x.users = 0 ∧ ¬c.used s ∨ n s < x.users
  known : ∀ s, c.used s → (v.rig.sessions[s]?).isSome
  own : c.own u.app = c.own v.app
  journal : ∃ a b, u.journal = a ++ c.first ∧ v.journal = b ++ c.second ∧ c.Matches a b ∧
    ∀ e ∈ a ++ b, c.Admits e

/-- The run leaves the worlds as different as they were. -/
def Abreast (c : Comparison S K ι) (m : Run S α) : Prop :=
  ∀ n u v, c.Beside n u v → Alike (c.Beside n) (m u) (m v)

end Comparison

section Alike

variable {T T' : World S → World S → Prop} {u v : World S}

theorem Alike.mono {x y : Except Halt (α × World S)} (h : Alike T x y)
    (imp : ∀ u v, T u v → T' u v) : Alike T' x y := by
  match x, y, h with
  | .ok _, .ok _, ⟨same, related⟩ => exact ⟨same, imp _ _ related⟩
  | .error _, .error _, _ => trivial

theorem Alike.of_eq {x x' y y' : Except Halt (α × World S)} (h : Alike T x' y') (first : x = x')
    (second : y = y') : Alike T x y := by
  rwa [first, second]

/-- Two runs that come to no result end alike. -/
theorem Alike.stuck {m m' : Run S α} (h : Ensures m u fun _ _ => False)
    (h' : Ensures m' v fun _ _ => False) : Alike T (m u) (m' v) := by
  match first : m u, second : m' v with
  | .ok (a, w), _ => exact (h a w first).elim
  | .error _, .ok (a, w) => exact (h' a w second).elim
  | .error _, .error _ => trivial

/-- What the first run comes to may be used for the rest of both. -/
theorem Alike.bind_of {P : β → World S → Prop} {m m' : Run S β} {f f' : β → Run S α}
    (h : Alike T (m u) (m' v)) (ensures : Ensures m u P)
    (rest : ∀ b u' v', T u' v' → P b u' → Alike T' (f b u') (f' b v')) :
    Alike T' ((m >>= f) u) ((m' >>= f') v) := by
  change Alike T' (StateT.bind m f u) (StateT.bind m' f' v)
  match first : m u, second : m' v, h with
  | .ok (b, u'), .ok (_, v'), ⟨rfl, related⟩ =>
    simp only [StateT.bind, first, second, Except.bind, Bind.bind]
    exact rest b u' v' related (ensures b u' first)
  | .error _, .error _, _ =>
    simp only [StateT.bind, first, second, Except.bind, Bind.bind]
    trivial

theorem Alike.bind {m m' : Run S β} {f f' : β → Run S α} (h : Alike T (m u) (m' v))
    (rest : ∀ b u' v', T u' v' → Alike T' (f b u') (f' b v')) :
    Alike T' ((m >>= f) u) ((m' >>= f') v) :=
  h.bind_of (P := fun _ _ => True) (fun _ _ _ => trivial) fun b u' v' related _ =>
    rest b u' v' related

end Alike

namespace Standpoint

variable {o : Standpoint S K ι} {a b c d : List Entry}

theorem Matches.refl (a : List Entry) : o.Matches a a := fun _ => rfl

theorem Matches.append (h : o.Matches a b) (h' : o.Matches c d) :
    o.Matches (a ++ c) (b ++ d) := fun i => by
  rw [List.filter_append, List.filter_append, h i, h' i]

end Standpoint

namespace Comparison

variable {c : Comparison S K ι} {n : SessionId → Nat} {u v : World S} {q : ProcessorId}

theorem Beside.record (h : c.Beside n u v) {e : Entry} (admits : c.Admits e) :
    c.Beside n (u.record e) (v.record e) := by
  obtain ⟨a, b, first, second, same, admitted⟩ := h.journal
  refine { h with journal := ⟨e :: a, e :: b, ?_, ?_, ?_, ?_⟩ }
  · simp [first]
  · simp [second]
  · exact Standpoint.Matches.append (.refl [e]) same
  · intro f member
    simp only [List.cons_append, List.mem_cons, List.mem_append] at member
    obtain rfl | member | rfl | member := member
    · exact admits
    · exact admitted f (List.mem_append_left _ member)
    · exact admits
    · exact admitted f (List.mem_append_right _ member)

theorem Beside.acted (h : c.Beside n u v) {s t : S} (own : c.own s = c.own t)
    {l l' : List String} (same : c.Matches (l.map .note) (l'.map .note)) :
    c.Beside n (u.acted s l) (v.acted t l') := by
  obtain ⟨a, b, first, second, matched, admitted⟩ := h.journal
  refine { h with own, journal := ⟨l.map .note ++ a, l'.map .note ++ b, ?_, ?_, ?_, ?_⟩ }
  · simp [first]
  · simp [second]
  · exact same.append matched
  · intro e member
    simp only [List.mem_append, List.mem_map] at member
    obtain (⟨text, -, rfl⟩ | member) | ⟨text, -, rfl⟩ | member := member
    · nofun
    · exact admitted e (List.mem_append_left _ member)
    · nofun
    · exact admitted e (List.mem_append_right _ member)

theorem Beside.modify (h : c.Beside n u v) (sees : c.Sees q) {f : Processor → Processor}
    (keeps : ∀ x, (f x).isExternal = x.isExternal) :
    c.Beside n (u.modify q f) (v.modify q f) := by
  refine { h with
    processors := fun r seen => ?_
    apart := fun x y differ => ?_
    internal := fun r x one inside known => ?_ }
  · simp only [World.modify_processors, List.getElem?_modify, h.processors r seen]
  · have other : q ≠ c.processor := fun same => by cases (sees same).symm.trans differ
    simpa [other] using h.apart x y differ
  · simp only [World.modify_processors, List.getElem?_modify] at known
    obtain ⟨y, before, rfl⟩ := Option.map_eq_some_iff.mp known
    split
    · exact (keeps y).trans (h.internal r y one inside before)
    · exact h.internal r y one inside before

/-- A session is changed in both worlds, and the users that it has more in the first remain. -/
theorem Beside.modifySession (h : c.Beside n u v) {m : SessionId → Nat} {s : SessionId}
    {x : Session} (known : v.rig.sessions[s]? = some x) {f g : Session → Session}
    (same : f { x with users := x.users + c.more s } =
      { g x with users := (g x).users + c.more s })
    (others : ∀ t, t ≠ s → m t = n t)
    (enough : (g x).users = 0 ∧ ¬c.used s ∨ m s < (g x).users) :
    c.Beside m (u.arrange s f) (v.arrange s g) := by
  refine { h with sessions := fun t => ?_, users := fun t y => ?_, known := fun t used => ?_ }
  · simp only [World.arrange, List.getElem?_modify, h.sessions t]
    by_cases here : s = t
    · subst here
      simp [known, same]
    · simp [here]
  · simp only [World.arrange, List.getElem?_modify]
    by_cases here : s = t
    · subst here
      simp only [known, if_true, Option.map_eq_map, Option.map_some, Option.some.injEq]
      rintro rfl
      exact enough
    · intro other
      rw [others t fun eq => here eq.symm]
      exact h.users t y (by simpa [here] using other)
  · simpa only [World.arrange, List.getElem?_modify, Option.map_eq_map, Option.isSome_map]
      using h.known t used

/-- A session is changed in both worlds, but not in its users. -/
theorem Beside.arrange (h : c.Beside n u v) (s : SessionId) {f : Session → Session}
    (same : ∀ x k, f { x with users := k } = { f x with users := k })
    (users : ∀ x, (f x).users = x.users) : c.Beside n (u.arrange s f) (v.arrange s f) := by
  cases known : v.rig.sessions[s]? with
  | some x =>
    refine h.modifySession known ?_ (fun _ _ => rfl) ?_
    · rw [same, users]
    · rw [users]
      exact h.users s x known
  | none =>
    have unknown : u.rig.sessions[s]? = none := by rw [h.sessions, known]; rfl
    have out {w : World S} (none : w.rig.sessions[s]? = none) : w.arrange s f = w := by
      rw [World.arrange, List.modify_eq_self (List.getElem?_eq_none_iff.mp none)]
    rwa [out known, out unknown]

theorem Beside.session (h : c.Beside n u v) {T : World S → World S → Prop} {s : SessionId}
    {f g : Session → Run S α} (rest : ∀ x, v.rig.sessions[s]? = some x →
      Alike T (f { x with users := x.users + c.more s } u) (g x v)) :
    Alike T ((Run.session s >>= f) u) ((Run.session s >>= g) v) := by
  change Alike T ((Run.known u.rig.sessions[s]? >>= f) u) ((Run.known v.rig.sessions[s]? >>= g) v)
  rw [h.sessions s]
  cases known : v.rig.sessions[s]? with
  | none => trivial
  | some x => exact rest x known

theorem admits_aside {e : Entry} (aside : e.isTold = false) : c.Admits e := by
  rintro x q f rfl
  cases aside

theorem admits_told (sees : c.Sees q) (x : Subscriber) (e : Event) :
    c.Admits (.told x q e) := by
  rintro _ _ _ ⟨⟩
  exact sees

namespace Abreast

theorem pure (a : α) : c.Abreast (pure a : Run S α) := fun _ _ _ h => ⟨rfl, h⟩

theorem throw (e : Halt) : c.Abreast (throw e : Run S α) := fun _ _ _ _ => trivial

theorem bind {m : Run S β} {f : β → Run S α} (first : c.Abreast m)
    (rest : ∀ b, c.Abreast (f b)) : c.Abreast (m >>= f) :=
  fun n u v h => (first n u v h).bind fun b _ _ => rest b n _ _

theorem record {e : Entry} (admits : c.Admits e) : c.Abreast (Run.record e : Run S Unit) :=
  fun _ _ _ h => ⟨rfl, h.record admits⟩

theorem aside {e : Entry} (aside : e.isTold = false) : c.Abreast (Run.record e : Run S Unit) :=
  record (admits_aside aside)

theorem notice (x : Notice) : c.Abreast (Run.notice x : Run S Unit) := aside rfl

theorem each {f : β → Run S Unit} (abreast : ∀ b, c.Abreast (f b)) (bs : List β) :
    c.Abreast (Run.each f bs) := by
  induction bs with
  | nil => exact pure ()
  | cons b bs ih => exact (abreast b).bind fun _ => ih

/-- What is known in both worlds, or in neither. -/
theorem known {x : World S → Option α} (same : ∀ n u v, c.Beside n u v → x u = x v) :
    c.Abreast (do Run.known (x (← get)) : Run S α) := by
  intro n u v h
  change Alike _ (Run.known (x u) u) (Run.known (x v) v)
  rw [same n u v h]
  cases x v with
  | none => trivial
  | some a => exact ⟨rfl, h⟩

theorem processor (sees : c.Sees q) : c.Abreast (Run.processor q : Run S _) :=
  known fun _ _ _ h => h.processors q sees

/-- Only processors of the application's own are external. -/
theorem look (one : c.told q) (sees : c.Sees q) {f : Processor → Run S α}
    (rest : ∀ x, (x.isExternal = true → c.asked q) → c.Abreast (f x)) :
    c.Abreast (Run.processor q >>= f) := by
  intro n u v h
  change Alike _ ((Run.known u.rig.processors[q]? >>= f) u)
    ((Run.known v.rig.processors[q]? >>= f) v)
  rw [← h.processors q sees]
  cases known : u.rig.processors[q]? with
  | none => trivial
  | some x =>
    refine rest x (fun external => Classical.byContradiction fun inside => ?_) n u v h
    cases external.symm.trans (h.internal q x one inside known)

theorem effect (e : EffectId) : c.Abreast (Run.effect e : Run S _) :=
  known fun _ _ _ h => by rw [h.effects]

theorem track (sees : c.Sees q) (i : Nat) : c.Abreast (Run.track? q i : Run S _) :=
  (processor sees).bind fun _ => pure _

/-- Who looks at a session, but not at its users, sees no difference. -/
theorem session {s : SessionId} {f : Session → Run S α}
    (same : ∀ x k, f { x with users := k } = f x) (rest : ∀ x, c.Abreast (f x)) :
    c.Abreast (Run.session s >>= f) := by
  intro n u v h
  refine h.session fun x _ => ?_
  rw [same]
  exact rest x n u v h

theorem modifyProcessor (sees : c.Sees q) {f : Processor → Processor}
    (keeps : ∀ x, (f x).isExternal = x.isExternal) :
    c.Abreast (Run.modifyProcessor q f : Run S Unit) :=
  fun _ _ _ h => ⟨rfl, h.modify sees keeps⟩

theorem awaitChain (sees : c.Sees q) (i : Nat) :
    c.Abreast (Run.awaitChain q i : Run S Unit) := by
  refine (processor sees).bind fun x => ?_
  split
  · exact throw _
  · exact pure _

theorem holding (sees : c.Sees q) (i : Nat) {calls : Run S α} (abreast : c.Abreast calls) :
    c.Abreast (Run.holding q i calls) := by
  refine (awaitChain sees i).bind fun _ => bind (modifyProcessor sees ?_) fun _ =>
    abreast.bind fun _ => bind (modifyProcessor sees ?_) fun _ => pure _
  · exact fun _ => rfl
  · exact fun _ => rfl

theorem modifyEffect (e : EffectId) (f : LevelEffect → LevelEffect) :
    c.Abreast (Run.modifyEffect e f : Run S Unit) := by
  intro n u v h
  refine ⟨rfl, { h with effects := ?_ }⟩
  change u.rig.effects.modify e f = v.rig.effects.modify e f
  rw [h.effects]

theorem arrange (s : SessionId) {f : Session → Session}
    (same : ∀ x k, f { x with users := k } = { f x with users := k })
    (users : ∀ x, (f x).users = x.users) : c.Abreast (Run.modifySession s f : Run S Unit) :=
  fun _ _ _ h => ⟨rfl, h.arrange s same users⟩

theorem moveTo (sees : c.Sees q) (phase : Phase) : c.Abreast (Run.moveTo q phase : Run S Unit) :=
  (processor sees).bind fun _ => bind (modifyProcessor sees fun _ => rfl) fun _ => aside rfl

theorem run {again : {β : Type} → Call β → Run S β} {p : Program S α} (follows : c.Follows p) :
    c.Abreast (p.run again) := by
  intro n u v h
  obtain ⟨a, s, t, first, second, own, same⟩ := follows u.app v.app h.own
  rw [Program.run_of_act again first, Program.run_of_act again second]
  exact ⟨rfl, h.acted own same⟩

end Abreast

end Comparison

end Metering
