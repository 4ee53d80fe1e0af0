import Metering.Proofs.Acting
import Metering.Rig.Perform
/-!
A level effect in a chain among other plug-ins. The others are functions of a state of their own.
They are given the same frames with the effect and without it, and the result is the same, with one
exception: a frame that is to be discarded when it comes does not get past an effect at the head of
the chain, though without the effect it enters the first plug-in.

* `transparent_iff`: the exception is the only one;
* `discarded_stops`: it occurs.
-/

namespace Metering

variable {S K α : Type}

/-- What comes of a frame that is sent through a chain: the result, and what the plug-ins were
given, from the first of them to the last that the frame has reached. -/
structure Passage where
  result : Except Fault Buffer
  inputs : List Buffer

/-- The same passage with a plug-in more at the head of the chain. -/
def Passage.after (x : Passage) (b : Buffer) : Passage := { x with inputs := b :: x.inputs }

/-- Sends a frame through a chain and keeps what each plug-in is given. -/
def Chain.pass (app : Application S) (again : {β : Type} → Call β → Run S β) :
    List PlugIn → Buffer → Run S Passage
  | [], b => return ⟨.ok b, []⟩
  | x :: xs, b => do
    match ← process app again x b with
    | .ok out =>
      if out.discard then return ⟨.ok out, [b]⟩
      else return (← pass app again xs out).after b
    | .error f => return ⟨.error f, [b]⟩

/-- The plug-ins of the application are functions of a part of its state. -/
def Application.Computes (app : Application S) (own : S → K)
    (f : CodecId → Buffer → K → Except Fault Buffer × K) : Prop :=
  ∀ c b s, ∃ s', (app.transform c b (.empty b.format)).act s = some ((f c b (own s)).1, s') ∧
    own s' = (f c b (own s)).2

def PlugIn.reply (f : CodecId → Buffer → K → Except Fault Buffer × K) (b : Buffer) (k : K) :
    PlugIn → Except Fault Buffer × K
  | .effect _ => (.ok b, k)
  | .codec c _ => f c b k

/-- What a chain makes of a frame, given what the plug-ins make of it. -/
def Passage.through (f : CodecId → Buffer → K → Except Fault Buffer × K) :
    List PlugIn → Buffer → K → Passage × K
  | [], b, k => (⟨.ok b, []⟩, k)
  | x :: xs, b, k =>
    match x.reply f b k with
    | (.ok out, k) =>
      if out.discard then (⟨.ok out, [b]⟩, k)
      else ((Passage.through f xs out k).1.after b, (Passage.through f xs out k).2)
    | (.error e, k) => (⟨.error e, [b]⟩, k)

section Reference

variable {f : CodecId → Buffer → K → Except Fault Buffer × K} {b : Buffer} {k : K}

/-- A frame that is not to be discarded passes the effect. -/
theorem Passage.through_effect (e : EffectId) (xs : List PlugIn) (kept : b.discard = false) :
    Passage.through f (.effect e :: xs) b k =
      ((Passage.through f xs b k).1.after b, (Passage.through f xs b k).2) := by
  simp [Passage.through, PlugIn.reply, kept]

theorem Passage.through_insert (e : EffectId) (before after : List PlugIn)
    (kept : before = [] → b.discard = false) :
    (Passage.through f (before ++ .effect e :: after) b k).1.result =
        (Passage.through f (before ++ after) b k).1.result ∧
      (Passage.through f (before ++ .effect e :: after) b k).1.inputs.eraseIdx before.length =
        (Passage.through f (before ++ after) b k).1.inputs ∧
      (Passage.through f (before ++ .effect e :: after) b k).2 =
        (Passage.through f (before ++ after) b k).2 := by
  induction before generalizing b k with
  | nil =>
    rw [List.nil_append, List.nil_append, Passage.through_effect e after (kept rfl)]
    exact ⟨rfl, rfl, rfl⟩
  | cons x before ih =>
    simp only [List.cons_append, Passage.through]
    split
    case h_1 out k' _ =>
      split
      case isTrue => exact ⟨rfl, rfl, rfl⟩
      case isFalse going =>
        -- Whatever comes out of a plug-in and goes on is not to be discarded.
        obtain ⟨result, inputs, state⟩ := ih (b := out) (k := k') fun _ => by simpa using going
        exact ⟨result, congrArg (b :: ·) inputs, state⟩
    case h_2 => exact ⟨rfl, rfl, rfl⟩

/-- A frame that is to be discarded does not get past the effect at the head. -/
theorem Passage.through_discarded (e : EffectId) (xs : List PlugIn) (discard : b.discard = true) :
    Passage.through f (.effect e :: xs) b k = (⟨.ok b, [b]⟩, k) := by
  simp [Passage.through, PlugIn.reply, discard]

/-- The first plug-in of a chain is given the frame as it came. -/
theorem Passage.through_head (x : PlugIn) (xs : List PlugIn) :
    ∃ rest, (Passage.through f (x :: xs) b k).1.inputs = b :: rest := by
  simp only [Passage.through]
  split
  · split
    · exact ⟨_, rfl⟩
    · exact ⟨_, rfl⟩
  · exact ⟨_, rfl⟩

end Reference

section Chain

variable {app : Application S} {again : {β : Type} → Call β → Run S β} {own : S → K}
variable {f : CodecId → Buffer → K → Except Fault Buffer × K} {b : Buffer} {w : World S}

/-- The result of the passage is what the chain gives. -/
theorem Chain.pass_result (xs : List PlugIn) (b : Buffer) :
    Passage.result <$> Chain.pass app again xs b = Chain.send app again xs b := by
  induction xs generalizing b with
  | nil => rfl
  | cons x xs ih =>
    simp only [Chain.pass, Chain.send, map_bind]
    congr 1
    funext r
    cases r with
    | error e => rfl
    | ok out =>
      dsimp only
      split
      · rfl
      · rw [← ih out, map_bind, map_eq_pure_bind]
        rfl

/-- Nothing but the state of the plug-ins decides what a plug-in of the application does. -/
theorem Application.Computes.run (computes : app.Computes own f) (c : CodecId) :
    Yields ((app.transform c b (.empty b.format)).run again) w fun r w' =>
      (r, own w'.app) = f c b (own w.app) ∧ w'.rig = w.rig := by
  obtain ⟨s, acts, state⟩ := computes c b w.app
  exact ⟨_, _, Program.run_of_act again acts, Prod.ext rfl state, rfl⟩

/-- To look at a frame is nothing to the plug-ins, if to be told a level is nothing to them. -/
theorem Chain.observe_apart
    (apart : ∀ l n, Keeps (fun w w' => own w'.app = own w.app) ((app.level l n).run again))
    (e : EffectId) (b slot : Buffer) :
    Ensures (Chain.observe app again e b slot) w fun out w' =>
      out = b ∧ own w'.app = own w.app := by
  simp only [Chain.observe, ensures_bind, ensures_effect, ensures_modifyEffect]
  intro x known
  split
  · simp only [ensures_bind, ensures_record, ensures_page]
    exact (apart _ _ _).mono fun _ w' same => ensures_pure.mpr ⟨rfl, same⟩
  · simp

/-- The chain does with a frame what its plug-ins do with it. -/
theorem Chain.pass_through (computes : app.Computes own f)
    (apart : ∀ l n, Keeps (fun w w' => own w'.app = own w.app) ((app.level l n).run again))
    (xs : List PlugIn) :
    Ensures (Chain.pass app again xs b) w fun x w' =>
      (x, own w'.app) = Passage.through f xs b (own w.app) := by
  induction xs generalizing b w with
  | nil => exact ensures_pure.mpr rfl
  | cons x xs ih =>
    have replies : Ensures (Chain.process app again x b) w fun r w' =>
        (r, own w'.app) = x.reply f b (own w.app) := by
      cases x with
      | effect e =>
        refine Ensures.bind (Chain.observe_apart apart e b (.empty b.format)) fun out w' same => ?_
        obtain ⟨rfl, same⟩ := same
        exact ensures_pure.mpr (by rw [same]; rfl)
      | codec c name =>
        apply Ensures.record
        exact (computes.run c).ensures.mono fun r w' h => h.1
    refine Ensures.bind replies fun r w' reply => ?_
    simp only [Passage.through, ← reply]
    cases r with
    | error e => exact ensures_pure.mpr rfl
    | ok out =>
      dsimp only
      split
      · exact ensures_pure.mpr rfl
      · refine Ensures.bind ih fun y v passed => ?_
        rw [← passed]
        exact ensures_pure.mpr rfl

/-- If listeners are quiet, a frame comes to the end of its passage. -/
theorem Chain.pass_yields (computes : app.Computes own f) (quiet : ∀ l n, (app.level l n).Quiet)
    (xs : List PlugIn) (known : ∀ e, .effect e ∈ xs → e < w.rig.effects.length) :
    Yields (Chain.pass app again xs b) w fun _ _ => True := by
  induction xs generalizing b w with
  | nil => exact yields_pure.mpr trivial
  | cons x xs ih =>
    have replies : Yields (Chain.process app again x b) w fun _ w' =>
        w'.rig.effects.length = w.rig.effects.length := by
      cases x with
      | effect e =>
        have here := List.getElem?_eq_getElem (known e List.mem_cons_self)
        simp only [Chain.process, Chain.observe, yields_bind, yields_pure]
        refine yields_effect.mpr ⟨_, here, yields_modifyEffect.mpr ?_⟩
        split
        · next l n _ =>
          simp only [yields_bind, yields_record, yields_page]
          exact ((quiet l n).settles _).mono fun _ w' same => by simp [same]
        · simp
      | codec c name =>
        apply Yields.record
        exact (computes.run c).mono fun r w' h => by rw [h.2]; rfl
    refine Yields.bind replies fun r w' same => ?_
    have rest : ∀ e, .effect e ∈ xs → e < w'.rig.effects.length := by
      intro e member
      rw [same]
      exact known e (List.mem_cons_of_mem _ member)
    cases r with
    | error e => exact yields_pure.mpr trivial
    | ok out =>
      dsimp only
      split
      · exact yields_pure.mpr trivial
      · exact Yields.bind (ih rest) fun _ _ _ => yields_pure.mpr trivial

/-- With the effect at any place of a chain and without it, a frame comes to the same result, and
the other plug-ins are given the same frames and left with the same state, exactly if it is not the
case that the effect is put before other plug-ins and the frame is to be discarded when it comes. -/
theorem transparent_iff (computes : app.Computes own f)
    (apart : ∀ l n, Keeps (fun w w' => own w'.app = own w.app) ((app.level l n).run again))
    (before after : List PlugIn) (e : EffectId) (b : Buffer) (w : World S) :
    (∀ xs b, Passage.result <$> Chain.pass app again xs b = Chain.send app again xs b) ∧
    (∀ x y u v, Chain.pass app again (before ++ .effect e :: after) b w = .ok (x, u) →
      Chain.pass app again (before ++ after) b w = .ok (y, v) →
      ((x.result = y.result ∧ x.inputs.eraseIdx before.length = y.inputs ∧
          own u.app = own v.app) ↔
        ¬(before = [] ∧ after ≠ [] ∧ b.discard = true))) ∧
    ((∀ l n, (app.level l n).Quiet) →
      (∀ d, .effect d ∈ before ++ .effect e :: after → d < w.rig.effects.length) →
      (∃ x u, Chain.pass app again (before ++ .effect e :: after) b w = .ok (x, u)) ∧
        ∃ y v, Chain.pass app again (before ++ after) b w = .ok (y, v)) := by
  refine ⟨Chain.pass_result, ?_, ?_⟩
  · intro x y u v withEffect without
    have passed := Chain.pass_through computes apart _ _ _ withEffect
    have passed' := Chain.pass_through computes apart _ _ _ without
    obtain ⟨rfl, state⟩ := Prod.ext_iff.mp passed
    obtain ⟨rfl, state'⟩ := Prod.ext_iff.mp passed'
    rw [show own u.app = _ from state, show own v.app = _ from state']
    constructor
    · rintro ⟨-, inputs, -⟩ ⟨rfl, more, discard⟩
      obtain ⟨z, zs, rfl⟩ := List.exists_cons_of_ne_nil more
      obtain ⟨rest, head⟩ := Passage.through_head (f := f) (b := b) (k := own w.app) z zs
      rw [List.nil_append, List.nil_append, Passage.through_discarded e _ discard, head] at inputs
      cases inputs
    · intro fine
      -- With the effect alone in the chain there is no plug-in that could be given another frame.
      by_cases only : before = [] ∧ after = []
      · obtain ⟨rfl, rfl⟩ := only
        simp [Passage.through, PlugIn.reply, Passage.after]
      · apply Passage.through_insert
        rintro rfl
        simpa using fun discard => fine ⟨rfl, fun none => only ⟨rfl, none⟩, discard⟩
  · intro quiet known
    constructor
    · obtain ⟨x, u, run, -⟩ := Chain.pass_yields (b := b) computes quiet _ known
      exact ⟨x, u, run⟩
    · have others : ∀ d, .effect d ∈ before ++ after → d < w.rig.effects.length := by
        intro d member
        apply known d
        obtain first | last := List.mem_append.mp member
        · exact List.mem_append_left _ first
        · exact List.mem_append_right _ (List.mem_cons_of_mem _ last)
      obtain ⟨y, v, run, -⟩ := Chain.pass_yields (b := b) computes quiet _ others
      exact ⟨y, v, run⟩

end Chain

/-- Every plug-in puts a byte in front of a frame: how many frames all of them were given before.
The levels that listeners are told are kept beside. -/
def Application.counting : Application (Nat × List Int) :=
  { Application.silent _ with
    level := fun _ n => .modify fun s => (s.1, n :: s.2)
    transform := fun _ b _ =>
      .update (fun s => (s.1, s.1 + 1, s.2)) fun n =>
        .done (.ok { b with data := n.toUInt8 :: b.data }) }

def World.single {S : Type} (s : S) : World S :=
  { app := s, rig := { effects := [LevelEffect.new {}] } }

theorem transparent_iff_counting :
    ∃ x y u v, Chain.pass .counting (perform .counting 1) [.codec 0 "a", .effect 0, .codec 1 "b"]
        (.empty (.audio .telephone)) (.single (0, [])) = .ok (x, u) ∧
      Chain.pass .counting (perform .counting 1) [.codec 0 "a", .codec 1 "b"]
        (.empty (.audio .telephone)) (.single (0, [])) = .ok (y, v) ∧
      x.result = y.result ∧ x.inputs.eraseIdx 1 = y.inputs ∧ u.app.1 = v.app.1 := by
  have computes : Application.counting.Computes Prod.fst
      fun _ b k => (.ok { b with data := k.toUInt8 :: b.data }, k + 1) :=
    fun c b s => ⟨(s.1 + 1, s.2), rfl, rfl⟩
  have apart (l : ListenerId) (n : Int) : Keeps (fun w w' => w'.app.1 = w.app.1)
      ((Application.counting.level l n).run (perform .counting 1)) := by
    intro w a w' run
    cases run
    rfl
  obtain ⟨-, agree, total⟩ := transparent_iff computes apart [.codec 0 "a"] [.codec 1 "b"] 0
    (.empty (.audio .telephone)) (.single (0, []))
  obtain ⟨⟨x, u, withEffect⟩, y, v, without⟩ :=
    total (fun _ _ _ => trivial) (by simp [World.single])
  exact ⟨x, y, u, v, withEffect, without,
    (agree x y u v withEffect without).mpr fun first => by cases first.1⟩

/-- A frame that is to be discarded when it comes enters the plug-in, but not if an effect is put
before it. -/
theorem discarded_stops :
    ∃ x y u v, Chain.pass .counting (perform .counting 1) [.effect 0, .codec 0 "a"]
        { Buffer.empty (.audio .telephone) with discard := true } (.single (0, [])) =
          .ok (x, u) ∧
      Chain.pass .counting (perform .counting 1) [.codec 0 "a"]
        { Buffer.empty (.audio .telephone) with discard := true } (.single (0, [])) =
          .ok (y, v) ∧
      x.result.map (·.data) = .ok [] ∧ y.result.map (·.data) = .ok [0] ∧
      (x.inputs.eraseIdx 0).length = 0 ∧ y.inputs.length = 1 :=
  ⟨_, _, _, _, rfl, rfl, rfl, rfl, rfl, rfl⟩

end Metering
