import Metering.Proofs.Envelope
import Metering.Proofs.Gauging
import Metering.Proofs.History
import Metering.Proofs.Loading
/-!
Which configurations keep levels on the scale. What is measured by itself is on the scale always,
but a decrement below zero lets a falling level rise beyond the top. The logarithm is left open
here: all that matters is that it takes one to zero.
-/

namespace Metering

variable {S α : Type}

/-- What holds of the state to begin with, and is kept whatever is taken in, vouches for all that is
given back. -/
theorem outcomes_forall {σ β γ : Type} {take : σ → β → γ × σ} (good : σ → Prop)
    (fine : γ → Prop) (keeps : ∀ s b, good s → fine (take s b).1 ∧ good (take s b).2) {s : σ}
    (start : good s) (bs : List β) : ∀ c ∈ outcomes take s bs, fine c := by
  induction bs generalizing s with
  | nil => simp [outcomes]
  | cons b bs ih =>
    obtain ⟨first, next⟩ := keeps s b start
    intro c member
    obtain rfl | later := List.mem_cons.mp member
    · exact first
    · exact ih next c later

namespace Level

/-- A signal at full scale has the highest level. -/
theorem ofRmsBy_one {log10 : Float → Float} (one : log10 1.0 = 0.0) :
    ofRmsBy log10 1.0 = highest := by
  have finite : ((1.0 : Float) ≤ 0.0 || !(1.0 : Float).isFinite) = false := by decide +kernel
  rw [ofRmsBy, finite, if_neg Bool.false_ne_true, one]
  decide +kernel

theorem ofRmsBy_zero (log10 : Float → Float) : ofRmsBy log10 0.0 = lowest := by
  have silent : ((0.0 : Float) ≤ 0.0 || !(0.0 : Float).isFinite) = true := by decide +kernel
  rw [ofRmsBy, silent, if_pos rfl]

/-- From a level on the scale a decrement can be taken away in 32 bits. -/
theorem OnScale.sub_toInt {n : Int} (h : OnScale n) {decrement : Int32}
    (falls : 0 ≤ decrement.toInt) :
    (Int32.ofInt n - decrement).toInt = n - decrement.toInt := by
  have low : 0 ≤ n := h.1
  have high : n ≤ 127 := h.2
  have below := decrement.toInt_lt
  have size : Int32.size = 4294967296 := rfl
  have same : n.bmod Int32.size = n := Int.bmod_eq_of_le (by omega) (by omega)
  rw [Int32.toInt_sub, Int32.toInt_ofInt, same]
  exact Int.bmod_eq_of_le (by omega) (by omega)

end Level

/-- Nothing that a calculator remembers or does takes levels off the scale. -/
structure Calculator.InRange (c : Calculator) : Prop where
  falls : c.config.Falls
  last : ∀ n, c.last = some n → Level.OnScale n

namespace Calculator

theorem InRange.measureBy {c : Calculator} (h : c.InRange) (log10 : Float → Float)
    (data : List UInt8) (f : AudioFormat) :
    (∀ n, (c.measureBy log10 data f).1 = some n → Level.OnScale n) ∧
    (c.measureBy log10 data f).2.InRange := by
  unfold Calculator.measureBy
  split
  · exact ⟨nofun, h⟩
  · next rms _ =>
    have level := h.falls.next h.last (Level.onScale_ofRmsBy log10 rms)
    refine ⟨?_, h.falls, ?_⟩
    · rintro n ⟨⟩
      exact level
    · rintro n ⟨⟩
      exact level

end Calculator

namespace LevelEffect

/-- A frame whose level is news to the listener. -/
theorem observeBy_told {log10 : Float → Float} {e : LevelEffect} {l : ListenerId} {b : Buffer}
    {f : AudioFormat} {rms : Float} {level : Int} (listens : e.listener = some l)
    (format : frameFormat? b = some f) (power : Pcm.power? f b.data = some rms)
    (shown : e.calculator.config.next e.last (Level.ofRmsBy log10 rms) = level)
    (news : e.last ≠ some level) : e.observeBy log10 b =
      (some (l, level), { e with calculator := { e.calculator with last := some level } }) := by
  have told : tells e.calculator level = true := by
    unfold last at news
    simp [tells, news]
  unfold last at shown
  simp [observeBy, listens, format, Calculator.measureBy, power, shown, told]

/-- An effect tells levels on the scale only, and will go on doing so. -/
theorem observeBy_inRange (log10 : Float → Float) {e : LevelEffect} (h : e.calculator.InRange)
    (b : Buffer) : (∀ l n, (e.observeBy log10 b).1 = some (l, n) → Level.OnScale n) ∧
      (e.observeBy log10 b).2.calculator.InRange := by
  unfold observeBy
  split
  · next f _ _ =>
    obtain ⟨level, after⟩ := h.measureBy log10 b.data f
    split
    · next n _ measured =>
      rw [measured] at level after
      refine ⟨?_, after⟩
      intro l m told
      split at told
      · cases told
        exact level n rfl
      · cases told
    · exact ⟨nofun, h⟩
  · exact ⟨nofun, h⟩

end LevelEffect

/-- One sample at full scale, and one of silence. -/
def Pcm.crash : List (List UInt8) := [[0, 128], [0, 0]]

theorem Pcm.power?_loud : power? (.linear16 8000.0 1) [0, 128] = some 1.0 := by decide +kernel

theorem Pcm.power?_hushed : power? (.linear16 8000.0 1) [0, 0] = some 0.0 := by decide +kernel

namespace EffectConfig

/-- The levels that a new calculator gives back for some frames. -/
def measured (log10 : Float → Float) (c : EffectConfig)
    (frames : List (List UInt8 × AudioFormat)) : List (Option Int) :=
  outcomes (fun (k : Calculator) x => k.measureBy log10 x.1 x.2) { config := c } frames

theorem measured_log10 (c : EffectConfig) :
    c.measured Float.log10 = ({ config := c } : Calculator).measures := rfl

/-- Who is told which level about some frames by a new effect with a listener. -/
def tellings (log10 : Float → Float) (c : EffectConfig) (l : ListenerId) (frames : List Buffer) :
    List (Option (ListenerId × Int)) :=
  outcomes (fun e b => e.observeBy log10 b) ((LevelEffect.new c).setListener (some l)) frames

variable {log10 : Float → Float} {c : EffectConfig}

theorem Falls.new (h : c.Falls) : ({ config := c } : Calculator).InRange := ⟨h, nofun⟩

theorem Falls.measured (h : c.Falls) (frames : List (List UInt8 × AudioFormat)) (n : Int)
    (shown : some n ∈ c.measured log10 frames) : Level.OnScale n :=
  outcomes_forall Calculator.InRange (fun m => ∀ n, m = some n → Level.OnScale n)
    (fun _ x k => k.measureBy log10 x.1 x.2) h.new frames _ shown n rfl

theorem Falls.tellings (h : c.Falls) {l m : ListenerId} (frames : List Buffer) (n : Int)
    (told : some (m, n) ∈ c.tellings log10 l frames) : Level.OnScale n :=
  outcomes_forall (fun e => e.calculator.InRange)
    (fun t => ∀ m n, t = some (m, n) → Level.OnScale n)
    (fun _ b k => LevelEffect.observeBy_inRange log10 k b) h.new frames _ told m n rfl

section Escape

variable (animate : c.animate = true) (rises : c.maxDecrement.toInt < 0)

theorem next_first (level : Int) : c.next none level = level := by
  unfold next Level.animate
  split
  · rfl
  · rfl

theorem off_scale (rises : c.maxDecrement.toInt < 0) :
    ¬Level.OnScale (Level.highest - c.maxDecrement.toInt) := by
  unfold Level.OnScale
  omega

include animate rises

/-- With a decrement below zero a signal at full scale falls up. -/
theorem next_highest :
    c.next (some Level.highest) Level.lowest = Level.highest - c.maxDecrement.toInt := by
  have below : Level.lowest < Level.highest := by decide
  simp only [next, animate, if_true, Level.animate, below]
  unfold Level.highest Level.lowest
  omega

variable (one : log10 1.0 = 0.0)
include one

/-- The levels of a crash. -/
theorem measured_crash : c.measured log10 (Pcm.crash.map (·, .linear16 8000.0 1)) =
    [some Level.highest, some (Level.highest - c.maxDecrement.toInt)] := by
  simp only [measured, Pcm.crash, List.map_cons, List.map_nil, outcomes, Calculator.measureBy,
    Pcm.power?_loud, Pcm.power?_hushed, Level.ofRmsBy_one one, Level.ofRmsBy_zero, next_first,
    next_highest animate rises]

/-- A listener is told all of them. -/
theorem tellings_crash (l : ListenerId) :
    c.tellings log10 l (Pcm.crash.map fun data => { data, format := .audio (.linear16 8000.0 1) }) =
      [some (l, Level.highest), some (l, Level.highest - c.maxDecrement.toInt)] := by
  have shown : c.next none (Level.ofRmsBy log10 1.0) = Level.highest := by
    rw [Level.ofRmsBy_one one, next_first]
  have risen : c.next (some Level.highest) (Level.ofRmsBy log10 0.0) =
      Level.highest - c.maxDecrement.toInt := by
    rw [Level.ofRmsBy_zero, next_highest animate rises]
  have news : some Level.highest ≠ some (Level.highest - c.maxDecrement.toInt) := by
    rw [ne_eq, Option.some.injEq]
    omega
  have crash : ((LevelEffect.new c).setListener (some l)).observeBy log10
      { data := [0, 128], format := .audio (.linear16 8000.0 1) } = (some (l, Level.highest),
        { calculator := ⟨c, some Level.highest⟩, listener := some l }) :=
    LevelEffect.observeBy_told rfl rfl Pcm.power?_loud shown (Option.some_ne_none _).symm
  have hush : (LevelEffect.observeBy log10 ⟨⟨c, some Level.highest⟩, some l, none⟩
      { data := [0, 0], format := .audio (.linear16 8000.0 1) }).1 =
        some (l, Level.highest - c.maxDecrement.toInt) :=
    congrArg Prod.fst (LevelEffect.observeBy_told (e := ⟨⟨c, some Level.highest⟩, some l, none⟩)
      rfl rfl Pcm.power?_hushed risen news)
  simp only [tellings, Pcm.crash, List.map_cons, List.map_nil, outcomes, crash, hush]

end Escape

end EffectConfig

namespace Gauge

/-- All levels that effects remember, and all that were told, are on the scale. -/
structure InRange (g : Gauge) : Prop where
  effects : ∀ x ∈ g.effects, ∀ n, x.last = some n → Level.OnScale n
  told : ∀ t ∈ g.told, Level.OnScale t.2

variable {g h : Gauge}

theorem Step.outlast (step : g.Step h) : Outlast g.effects h.effects := by
  cases step with
  | new c l => exact .append _ _
  | setListener e l => exact .modify fun _ _ => rfl
  | reset e => exact .modify fun _ _ => rfl
  | offer known f =>
    refine .modify fun x here => ?_
    obtain rfl := Option.some.inj (known.symm.trans here)
    exact LevelEffect.offer_config _ f
  | observe known b =>
    refine .modify fun x here => ?_
    obtain rfl := Option.some.inj (known.symm.trans here)
    exact LevelEffect.observe_config _ b

/-- Every effect keeps its configuration. -/
theorem Step.falls (step : g.Step h) (falls : ∀ x ∈ h.effects, x.calculator.config.Falls) :
    ∀ x ∈ g.effects, x.calculator.config.Falls := by
  intro x member
  obtain ⟨y, there, same⟩ :=
    List.mem_map.mp (step.outlast.subset (List.mem_map_of_mem member))
  exact same ▸ falls y there

/-- A changed list holds what it held, or what it was changed to. -/
theorem mem_modify {es : List LevelEffect} {e : EffectId} {f : LevelEffect → LevelEffect}
    {x : LevelEffect} (member : x ∈ es.modify e f) :
    x ∈ es ∨ ∃ y, es[e]? = some y ∧ x = f y := by
  obtain ⟨i, here⟩ := List.mem_iff_getElem?.mp member
  rw [List.getElem?_modify] at here
  obtain ⟨y, before, rfl⟩ := Option.map_eq_some_iff.mp here
  by_cases same : e = i
  · exact .inr ⟨y, same ▸ before, by simp [same]⟩
  · exact .inl (by simpa [same] using List.mem_of_getElem? before)

theorem InRange.change (inRange : g.InRange) {e : EffectId} {f : LevelEffect → LevelEffect}
    (changed : ∀ x, g.effects[e]? = some x → ∀ n, (f x).last = some n → Level.OnScale n)
    (told : List (ListenerId × Int)) (news : ∀ t ∈ told, Level.OnScale t.2) :
    InRange { effects := g.effects.modify e f, told := g.told ++ told } where
  effects x member := by
    obtain before | ⟨y, known, rfl⟩ := mem_modify member
    · exact inRange.effects x before
    · exact changed y known
  told t member := by
    obtain before | now := List.mem_append.mp member
    · exact inRange.told t before
    · exact news t now

theorem InRange.step (inRange : g.InRange) (falls : ∀ x ∈ g.effects, x.calculator.config.Falls)
    (step : g.Step h) : h.InRange := by
  have quietly {e : EffectId} {f : LevelEffect → LevelEffect}
      (changed : ∀ x, g.effects[e]? = some x → ∀ n, (f x).last = some n → Level.OnScale n) :
      InRange { g with effects := g.effects.modify e f } := by
    simpa using inRange.change changed [] nofun
  cases step with
  | new c l =>
    refine ⟨fun x member n last => ?_, inRange.told⟩
    obtain before | new := List.mem_append.mp member
    · exact inRange.effects x before n last
    · obtain rfl := List.mem_singleton.mp new
      cases last
  | setListener e l => exact quietly fun _ _ _ last => by cases last
  | reset e => exact quietly fun _ _ _ last => by cases last
  | @offer e x known f =>
    refine quietly fun _ _ n last => inRange.effects x (List.mem_of_getElem? known) n ?_
    unfold LevelEffect.offer at last
    split at last
    · exact last
    · exact last
  | @observe e x known b =>
    have member := List.mem_of_getElem? known
    obtain ⟨told, after⟩ := LevelEffect.observeBy_inRange Float.log10
      ⟨falls x member, inRange.effects x member⟩ b
    refine inRange.change (fun _ _ => after.last) _ fun t news => ?_
    exact told t.1 t.2 (Option.mem_toList.mp news)

/-- If levels are on the scale to begin with, they stay there, unless there is an effect whose
levels may rise by themselves. -/
theorem InRange.steps (inRange : g.InRange) (run : g.Steps h)
    (falls : ∀ x ∈ h.effects, x.calculator.config.Falls) : h.InRange := by
  induction run with
  | refl => exact inRange
  | tail _ step ih => exact (ih (step.falls falls)).step (step.falls falls) step

end Gauge

/-- What is loaded lets levels fall only, by an amount that 32 bits have room for. -/
theorem SessionConfig.load_falls {text : String} {explain : String → String}
    {config : SessionConfig} (loaded : SessionConfig.load text explain = .ok config) :
    config.effect.Falls ∧ ∀ n, Level.OnScale n →
      (Int32.ofInt n - config.effect.maxDecrement).toInt =
        n - config.effect.maxDecrement.toInt := by
  obtain ⟨some_steps, -⟩ := config.problem?_eq_none.mp (config.load_ok loaded)
  have falls : 0 ≤ config.effect.maxDecrement.toInt := by omega
  exact ⟨.inr falls, fun n h => h.sub_toInt falls⟩

/-- Every level that a calculator gives back is on the scale, and so is every level that an effect
tells, just if levels are not animated or the decrement is not negative. So it is for every
configuration that is loaded, and the decrement is then taken away in 32 bits without loss. In a
run with such configurations only, whatever the application does, all levels that are told or
remembered are on the scale. -/
theorem levels_on_scale_iff {log10 : Float → Float} (one : log10 1.0 = 0.0) (c : EffectConfig) :
    ((∀ frames n, some n ∈ c.measured log10 frames → Level.OnScale n) ↔ c.Falls) ∧
    ((∀ l frames m n, some (m, n) ∈ c.tellings log10 l frames → Level.OnScale n) ↔ c.Falls) ∧
    (∀ text explain config, SessionConfig.load text explain = .ok config → config.effect.Falls ∧
      ∀ n, Level.OnScale n → (Int32.ofInt n - config.effect.maxDecrement).toInt =
        n - config.effect.maxDecrement.toInt) ∧
    ∀ {S α : Type} (app : Application S) (program : Program S α) (s : S) (depth : Nat),
      Ensures (program.run (perform app depth)) { app := s } fun _ w =>
        (∀ x ∈ w.rig.effects, x.calculator.config.Falls) →
        (∀ l n, (l, n) ∈ levels w.journal → Level.OnScale n) ∧
        ∀ e n, w.rig.lastLevel e = some n → Level.OnScale n := by
  have bad (wrong : ¬c.Falls) : c.animate = true ∧ c.maxDecrement.toInt < 0 := by
    simpa [EffectConfig.Falls] using wrong
  refine ⟨⟨fun fine => ?_, fun h frames n => h.measured frames n⟩,
    ⟨fun fine => ?_, fun h l frames m n => h.tellings frames n⟩,
    fun _ _ _ => SessionConfig.load_falls, ?_⟩
  · by_contra wrong
    obtain ⟨animate, rises⟩ := bad wrong
    refine EffectConfig.off_scale rises (fine (Pcm.crash.map (·, .linear16 8000.0 1)) _ ?_)
    simp [EffectConfig.measured_crash animate rises one]
  · by_contra wrong
    obtain ⟨animate, rises⟩ := bad wrong
    refine EffectConfig.off_scale rises (fine 0 (Pcm.crash.map fun data =>
      { data, format := .audio (.linear16 8000.0 1) }) 0 _ ?_)
    simp [EffectConfig.tellings_crash animate rises one]
  · intro S α app program s depth
    refine (Gauged.program app depth program _).mono fun _ w run falls => ?_
    have start : (World.gauge { app := s }).InRange := ⟨nofun, nofun⟩
    have inRange := start.steps run falls
    refine ⟨fun l n told => inRange.told (l, n) told, fun e n last => ?_⟩
    obtain ⟨x, known, last⟩ := Option.bind_eq_some_iff.mp last
    exact inRange.effects x (List.mem_of_getElem? known) n last

/-- The logarithm to base ten, which takes one to zero. -/
def Level.log10 (x : Float) : Float := if x == 1.0 then 0.0 else x.log10

theorem levels_on_scale_iff_log10 : Level.log10 1.0 = 0.0 ∧
    (∀ frames n, some n ∈ EffectConfig.measured Level.log10 {} frames → Level.OnScale n) ∧
    ¬∀ l frames m n,
      some (m, n) ∈ EffectConfig.tellings Level.log10 { maxDecrement := -1 } l frames →
        Level.OnScale n := by
  have one : Level.log10 1.0 = 0.0 := by decide +kernel
  have rises : ¬EffectConfig.Falls { maxDecrement := -1 } := by
    unfold EffectConfig.Falls
    decide
  exact ⟨one, (levels_on_scale_iff one {}).1.mpr (.inr (by decide)),
    fun fine => rises ((levels_on_scale_iff one { maxDecrement := -1 }).2.1.mp fine)⟩

end Metering
