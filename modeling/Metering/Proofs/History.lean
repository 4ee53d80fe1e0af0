import Mathlib.Data.List.Induction
import Metering.Proofs.Levels
import Metering.Proofs.Story
/-!
A level effect against its history. What an effect remembers is its listener and the levels of the
frames that counted since the listener was set or the effect was reset. From this follows what it
shows as its last level and whom it tells which level, also if its listener uses the effect again
while it is told.
-/

namespace Metering

variable {S α β : Type}

/-- What an effect has measured for whom: the listener that was set last, and the levels of the
frames that counted since then, or since the effect was reset, from the first to the last. -/
structure History where
  listener : Option ListenerId := none
  levels : List Int := []
deriving DecidableEq, Repr

namespace EffectConfig

/-- The last level that is shown of some levels, falls being slowed down. -/
def last (c : EffectConfig) (levels : List Int) : Option Int :=
  levels.foldl (fun last level => some (c.next last level)) none

@[simp]
theorem last_append (c : EffectConfig) (levels : List Int) (level : Int) :
    c.last (levels ++ [level]) = some (c.next (c.last levels) level) := by
  simp [last]

theorem last_eq_none_iff (c : EffectConfig) (levels : List Int) :
    c.last levels = none ↔ levels = [] := by
  rcases List.eq_nil_or_concat levels with rfl | ⟨earlier, level, rfl⟩
  · simp [last]
  · simp

/-- Levels are shown as they are, or they fall by some amount and do not rise by it. -/
def Falls (c : EffectConfig) : Prop := c.animate = false ∨ 0 ≤ c.maxDecrement.toInt

end EffectConfig

def Level.OnScale (n : Int) : Prop := Level.lowest ≤ n ∧ n ≤ Level.highest

instance (n : Int) : Decidable (Level.OnScale n) := inferInstanceAs (Decidable (_ ∧ _))

theorem Level.onScale_nearest (x : Float) : OnScale (Binary64.nearest lowest highest x) := by
  unfold OnScale Binary64.nearest Binary64.clamp lowest highest
  split
  · decide
  · omega

theorem Level.onScale_ofRmsBy (log10 : Float → Float) (rms : Float) :
    OnScale (ofRmsBy log10 rms) := by
  unfold ofRmsBy
  split
  · decide
  · exact onScale_nearest _

theorem Buffer.onScale_level (b : Buffer) : Level.OnScale b.level := Level.onScale_ofRmsBy _ _

namespace EffectConfig

variable {c : EffectConfig}

theorem Falls.next (h : c.Falls) {last : Option Int} (before : ∀ n, last = some n → Level.OnScale n)
    {level : Int} (measured : Level.OnScale level) : Level.OnScale (c.next last level) := by
  unfold EffectConfig.next Level.animate
  split
  case isTrue animate =>
    obtain still | falls := h
    · exact absurd (still.symm.trans animate) (by decide)
    · cases last with
      | none => exact measured
      | some n =>
        have before := before n rfl
        unfold Level.OnScale at *
        dsimp only
        split
        · omega
        · exact measured
  case isFalse => exact measured

/-- What is shown last is on the scale if all that was measured is. -/
theorem Falls.last (h : c.Falls) {levels : List Int} (measured : ∀ n ∈ levels, Level.OnScale n)
    {n : Int} (shown : c.last levels = some n) : Level.OnScale n := by
  induction levels using List.reverseRecOn generalizing n with
  | nil => cases shown
  | append_singleton levels level ih =>
    rw [last_append] at shown
    cases shown
    exact h.next (fun _ before => ih (fun m member => measured m (by simp [member])) before)
      (measured level (by simp))

end EffectConfig

/-- A deed with an effect, and with nothing else. -/
def Deed.IsOn (e : EffectId) : Deed → Prop
  | .setListener e' _ | .resetEffect e' | .offer e' _ | .observe e' _ _ => e' = e
  | _ => False

namespace History

/-- The history after a frame, which counts if somebody listens. -/
def hears (h : History) (b : Buffer) : History :=
  if h.listener.isSome ∧ b.counts then { h with levels := h.levels ++ [b.level] } else h

/-- Who is told about a frame, and which level. A level equal to the one before it need not be
told. -/
def told (c : EffectConfig) (h : History) (b : Buffer) : Option (ListenerId × Int) :=
  if b.counts ∧ ¬(c.changesOnly ∧ c.last h.levels = c.last (h.levels ++ [b.level])) then
    h.listener.map (·, c.next (c.last h.levels) b.level)
  else none

/-- The history of an effect after a deed. -/
def after (e : EffectId) (h : History) : Deed → History
  | .setListener e' l => if e' = e then { listener := l } else h
  | .resetEffect e' => if e' = e then { h with levels := [] } else h
  | .observe e' b _ => if e' = e then h.hears b else h
  | _ => h

/-- What a deed lets a listener be told. -/
def tells (c : EffectConfig) (e : EffectId) (h : History) : Deed → Option (ListenerId × Int)
  | .observe e' b _ => if e' = e then h.told c b else none
  | _ => none

structure Of (c : EffectConfig) (h : History) (x : LevelEffect) : Prop where
  config : x.calculator.config = c
  listener : x.listener = h.listener
  last : x.last = c.last h.levels

structure Fits (c : EffectConfig) (e : EffectId) (h : History) (r : Rig) : Prop where
  effect : ∃ x, r.effects[e]? = some x ∧ h.Of c x
  measured : ∀ n ∈ h.levels, Level.OnScale n

def reference (c : EffectConfig) (e : EffectId) : Reference History where
  start := {}
  after := after e
  tells := tells c e
  fits := Fits c e

/-- Whoever is told something is the listener that was set last. -/
theorem told_listener {c : EffectConfig} {h : History} {b : Buffer} {l : ListenerId} {n : Int}
    (told : h.told c b = some (l, n)) : h.listener = some l := by
  unfold History.told at told
  split at told
  · obtain ⟨_, listens, eq⟩ := Option.map_eq_some_iff.mp told
    cases eq
    exact listens
  · cases told

section Of

variable {c : EffectConfig} {h : History} {x : LevelEffect}

theorem Of.new (c : EffectConfig) : History.Of c {} (.new c) := ⟨rfl, rfl, rfl⟩

theorem Of.setListener (of : h.Of c x) (l : Option ListenerId) :
    History.Of c { listener := l } (x.setListener l) := ⟨of.config, rfl, rfl⟩

theorem Of.reset (of : h.Of c x) : History.Of c { h with levels := [] } x.reset :=
  ⟨of.config, of.listener, rfl⟩

/-- What an effect makes of a frame. -/
theorem Of.observe (of : h.Of c x) (b : Buffer) :
    (x.observe b).1 = h.told c b ∧ (h.hears b).Of c (x.observe b).2 := by
  have last : x.calculator.last = c.last h.levels := of.last
  cases listens : h.listener with
  | none =>
    have same : x.observe b = (none, x) := by
      unfold LevelEffect.observe LevelEffect.observeBy
      rw [of.listener, listens]
    have silent : h.hears b = h := by simp [hears, listens]
    rw [same, silent]
    exact ⟨by simp [told, listens], of⟩
  | some l =>
    rw [LevelEffect.observe_eq (of.listener.trans listens)]
    unfold Calculator.sees
    -- A frame that counts makes the history longer by its level, and the listener is told unless
    -- the level shown stays the same and only changes are wanted.
    by_cases counts : b.counts = true
    · have grown : h.hears b = { h with levels := h.levels ++ [b.level] } := by
        simp [hears, listens, counts]
      have shown : History.Of c { h with levels := h.levels ++ [b.level] } { x with
          calculator := { config := c, last := some (c.next (c.last h.levels) b.level) } } :=
        ⟨rfl, of.listener, (c.last_append h.levels b.level).symm⟩
      rw [grown]
      simp only [told, counts, of.config, last, EffectConfig.last_append, if_true, true_and]
      rw [listens] at shown ⊢
      by_cases same : c.changesOnly = true ∧
          c.last h.levels = some (c.next (c.last h.levels) b.level)
      · rw [if_neg (not_not.mpr same)]
        simpa [same.1, ← same.2] using shown
      · have tells : (c.changesOnly && c.last h.levels ==
            some (c.next (c.last h.levels) b.level)) = false := by simpa using same
        rw [if_pos same, tells]
        exact ⟨rfl, shown⟩
    · have silent : h.hears b = h := by simp [hears, counts]
      rw [silent]
      exact ⟨by simp [told, counts], by simpa [counts] using of⟩

end Of

section Fits

variable {c : EffectConfig} {e : EffectId} {h : History} {r : Rig}

theorem Fits.lastLevel (fits : Fits c e h r) : r.lastLevel e = c.last h.levels := by
  obtain ⟨x, known, of⟩ := fits.effect
  rw [← of.last, Rig.lastLevel, known]
  rfl

theorem after_measured (measured : ∀ n ∈ h.levels, Level.OnScale n) (d : Deed) :
    ∀ n ∈ (after e h d).levels, Level.OnScale n := by
  cases d with
  | setListener e' l =>
    by_cases here : e' = e
    · simp [after, here]
    · simpa [after, here] using measured
  | resetEffect e' =>
    by_cases here : e' = e
    · simp [after, here]
    · simpa [after, here] using measured
  | observe e' b slot =>
    by_cases counts : e' = e ∧ h.listener.isSome ∧ b.counts
    · intro n member
      simp only [after, hears, counts, and_self, if_true, List.mem_append, List.mem_singleton]
        at member
      obtain member | rfl := member
      · exact measured n member
      · exact b.onScale_level
    · have same : after e h (.observe e' b slot) = h := by
        simp only [after, hears]
        grind
      rwa [same]
  | _ => exact measured

/-- The effect is as its history says after a deed if it is changed in the way of the deed. -/
theorem Fits.after (fits : Fits c e h r) (d : Deed) {f : LevelEffect → LevelEffect}
    (changes : ∀ x, r.effects[e]? = some x → h.Of c x → (History.after e h d).Of c (f x)) :
    Fits c e (History.after e h d) { r with effects := r.effects.modify e f } := by
  obtain ⟨x, known, of⟩ := fits.effect
  have known' : (r.effects.modify e f)[e]? = some (f x) := by simp [known]
  exact ⟨⟨f x, known', changes x known of⟩, after_measured fits.measured d⟩

end Fits

section Answers

variable {app : Application S} {c : EffectConfig} {e : EffectId} {w : World S}
variable {again : {β : Type} → Call β → Run S β}

/-- The run so far is as the history of the effect says. -/
abbrev Holds (c : EffectConfig) (e : EffectId) (w : World S) : Prop :=
  (reference c e).Holds (fun _ => True) w

abbrev Begins (c : EffectConfig) (e : EffectId) (d : Deed) (w : World S) : Prop :=
  (reference c e).Begins (fun _ => True) d w

/-- A call that tells nobody anything. -/
theorem changes {d : Deed} (begins : Begins c e d w) {f : LevelEffect → LevelEffect}
    (silent : ∀ h, tells c e h d = none)
    (same : ∀ (h : History) (x : LevelEffect), w.rig.effects[e]? = some x → h.Of c x →
      (after e h d).Of c (f x)) :
    Holds c e { w with rig := { w.rig with effects := w.rig.effects.modify e f } } :=
  begins.ends rfl (fun h _ => silent h) fun h fits => Fits.after fits d (same h)

/-- The effect is there to be used. -/
theorem known {d : Deed} (begins : Begins c e d w) : ∃ x, w.rig.effects[e]? = some x := by
  obtain ⟨ps, -, before⟩ := begins
  obtain ⟨x, known, -⟩ := (before trivial).2.effect
  exact ⟨x, known⟩

theorem setListener {l : Option ListenerId} (begins : Begins c e (.setListener e l) w) :
    Meets (· = .tooDeep) (setListener e l) w fun _ => Holds c e := by
  refine changes begins (fun _ => rfl) ?_
  intro h x _ of
  simpa [after] using of.setListener l

theorem resetEffect (begins : Begins c e (.resetEffect e) w) :
    Meets (· = .tooDeep) (resetEffect e) w fun _ => Holds c e := by
  refine changes begins (fun _ => rfl) ?_
  intro h x _ of
  simpa [after] using of.reset

theorem offerEffect {f : Format} (begins : Begins c e (.offer e f) w) :
    Meets (· = .tooDeep) (Chain.offerEffect e f) w fun _ => Holds c e := by
  obtain ⟨x, here⟩ := known begins
  apply Meets.effect here
  refine changes (f := fun _ => (x.offer f).2) begins (fun _ => rfl) ?_
  intro h y there of
  obtain rfl := Option.some.inj (here.symm.trans there)
  unfold LevelEffect.offer
  split
  · exact ⟨of.config, of.listener, of.last⟩
  · exact of

/-- A frame goes through the effect as it is, and the listener's program comes directly after. -/
theorem observe {b slot : Buffer} (begins : Begins c e (.observe e b slot) w)
    (listens : ∀ l n (w : World S), Holds c e w →
      Meets (· = .tooDeep) ((app.level l n).run again) w fun _ => Holds c e) :
    Meets (· = .tooDeep) (Chain.observe app again e b slot) w fun out w' =>
      out = b ∧ Holds c e w' := by
  obtain ⟨x, here⟩ := known begins
  apply Meets.effect here
  have seen (h : History) (fits : Fits c e h w.rig) :
      (x.observe b).1 = tells c e h (.observe e b slot) ∧
        Fits c e (after e h (.observe e b slot)) { w.rig with
          effects := w.rig.effects.modify e fun _ => (x.observe b).2 } := by
    obtain ⟨y, there, of⟩ := fits.effect
    obtain rfl := Option.some.inj (here.symm.trans there)
    constructor
    · simpa [tells] using (of.observe b).1
    · refine Fits.after fits (.observe e b slot) ?_
      intro z there of
      obtain rfl := Option.some.inj (here.symm.trans there)
      simpa [after] using (of.observe b).2
  -- The effect has changed before the listener is called, so that its program meets the new
  -- history.
  rw [meets_bind, meets_modifyEffect]
  cases told : (x.observe b).1 with
  | none =>
    simp only [meets_pure]
    refine ⟨Buffer.copyFrom_eq slot b, ?_⟩
    exact begins.ends rfl (fun h fits => (seen h fits).1.symm.trans told) fun h fits =>
      (seen h fits).2
  | some t =>
    obtain ⟨l, n⟩ := t
    have holds : Holds c e { w with
        rig := { w.rig with effects := w.rig.effects.modify e fun _ => (x.observe b).2 },
        journal := .level l n :: w.journal, story := .heard l n :: w.story } :=
      begins.tells (fun _ _ => id) rfl (fun h fits => (seen h fits).1.symm.trans told) fun h fits =>
        (seen h fits).2
    simp only [meets_bind, meets_record, meets_page]
    refine (listens l n _ holds).mono ?_
    intro _ w' holds
    exact ⟨Buffer.copyFrom_eq slot b, holds⟩

theorem answer {d : Call β} (on : d.deed.IsOn e) (begins : Begins c e d.deed w)
    (listens : ∀ l n (w : World S), Holds c e w →
      Meets (· = .tooDeep) ((app.level l n).run again) w fun _ => Holds c e) :
    Meets (· = .tooDeep) (answer app again d) w fun _ => Holds c e := by
  cases d with
  | setListener e' l =>
    obtain rfl : e' = e := on
    exact setListener begins
  | resetEffect e' =>
    obtain rfl : e' = e := on
    exact resetEffect begins
  | offer e' f =>
    obtain rfl : e' = e := on
    exact offerEffect begins
  | observe e' b slot =>
    obtain rfl : e' = e := on
    exact (observe begins listens).mono fun _ _ => And.right
  | _ => exact on.elim

end Answers

end History

/-- A frame that an effect observes comes back as it is. -/
theorem ensures_observe {app : Application S} {again : {β : Type} → Call β → Run S β}
    {e : EffectId} {b slot : Buffer} {w : World S} :
    Ensures (Chain.observe app again e b slot) w fun out _ => out = b := by
  simp only [Chain.observe, ensures_bind, ensures_effect, ensures_modifyEffect]
  intro x _
  split
  · simp only [ensures_bind, ensures_record, ensures_page, ensures_pure, Buffer.copyFrom_eq]
    exact fun _ _ _ => trivial
  · simp

/-- An effect that is used in whatever way, by its listeners too, is at every moment as its history
says, and tells just what its history lets it tell. A run can fail only if its calls are nested too
deeply, every frame comes back as it is, and what is shown last is on the scale. -/
theorem effect_follows_history {app : Application S} {c : EffectConfig} (falls : c.Falls)
    {e : EffectId} (listens : ∀ l n, (app.level l n).Confined (Deed.IsOn e))
    {program : Program S α} (confined : program.Confined (Deed.IsOn e)) {w : World S}
    (fresh : w.rig.effects[e]? = some (.new c)) (blank : w.story = []) (depth : Nat) :
    (Meets (· = .tooDeep) (program.run (perform app depth)) w fun _ w' =>
      (History.reference c e).Follows w'.story none ∧
      History.Fits c e ((History.reference c e).state w'.story) w'.rig) ∧
    (∀ (b slot out : Buffer) (u v : World S),
      perform app depth (.observe e b slot) u = .ok (out, v) → out = b) ∧
    (∀ (b : Buffer) (out : Except Fault Buffer) (u v : World S),
      Chain.process app (perform app depth) (.effect e) b u = .ok (out, v) → out = .ok b) ∧
    ∀ h r, History.Fits c e h r → r.lastLevel e = c.last h.levels ∧
      (r.lastLevel e = none ↔ h.levels = []) ∧ ∀ n, r.lastLevel e = some n → Level.OnScale n := by
  refine ⟨?_, ?_, ?_, ?_⟩
  · have start : History.Holds c e w := by
      intro _
      rw [blank]
      exact ⟨.nil, ⟨_, fresh, .new c⟩, by simp [Reference.state, History.reference]⟩
    have runs : Meets (· = .tooDeep) (program.run (perform app depth)) w
        fun _ => History.Holds c e := by
      refine start.program (· = .tooDeep) rfl (fun _ _ => id) listens ?_ depth confined
      intro depth told β d on w begins
      exact History.answer on begins told
    exact runs.mono fun _ _ holds => holds trivial
  · intro b slot out u v run
    cases depth with
    | zero => cases run
    | succ depth => exact ensures_observe out v run
  · intro b out u v run
    have passes : Ensures (Chain.process app (perform app depth) (.effect e) b) u
        fun out _ => out = .ok b :=
      ensures_bind.mpr (ensures_observe.mono fun _ _ same => ensures_pure.mpr (by rw [same]))
    exact passes out v run
  · intro h r fits
    rw [fits.lastLevel]
    exact ⟨rfl, c.last_eq_none_iff h.levels, fun n shown => falls.last fits.measured shown⟩

/-- A listener that makes way for the next one as soon as it is told a level. -/
def Application.courteous : Application Unit :=
  { Application.silent Unit with level := fun l _ => .send (.setListener 0 (some (l + 1))) }

def Program.measuring (b : Buffer) : Program Unit Unit := do
  .send (.setListener 0 (some 0))
  let _ ← .send (.observe 0 b b)
  let _ ← .send (.observe 0 b b)

/-- Each of the listeners is told the one frame that it is there for. -/
theorem effect_follows_history_courteous : EffectConfig.Falls {} ∧
    (∀ l n, (Application.courteous.level l n).Confined (Deed.IsOn 0)) ∧
    (Program.measuring .tick).Confined (Deed.IsOn 0) ∧
    ∃ w, (Program.measuring .tick).run (perform Application.courteous 3)
        { app := (), rig := { effects := [.new {}] } } = .ok ((), w) ∧
      levels w.journal = [(0, 0), (1, 0)] ∧
      (History.reference {} 0).state w.story = { listener := some 2 } ∧
      (History.reference {} 0).Follows w.story none ∧
      History.Fits {} 0 { listener := some 2 } w.rig := by
  have falls : EffectConfig.Falls {} := .inr (by decide)
  have listens (l : ListenerId) (n : Int) :
      (Application.courteous.level l n).Confined (Deed.IsOn 0) := ⟨rfl, fun _ => trivial⟩
  have confined : (Program.measuring .tick).Confined (Deed.IsOn 0) :=
    ⟨rfl, fun _ => ⟨rfl, fun _ => ⟨rfl, fun _ => trivial⟩⟩⟩
  have ends : ((Program.measuring .tick).run (perform Application.courteous 3)).Ends
      { app := (), rig := { effects := [.new {}] } } fun w => levels w.journal = [(0, 0), (1, 0)] ∧
        (History.reference {} 0).state w.story = { listener := some 2 } := by
    decide +kernel
  obtain ⟨⟨⟩, w, run, told, state⟩ := ends
  have follows := (effect_follows_history falls listens confined
    (w := { app := (), rig := { effects := [.new {}] } }) rfl rfl 3).1.ensures () w run
  exact ⟨falls, listens, confined, w, run, told, state, follows.1, state ▸ follows.2⟩

end Metering
