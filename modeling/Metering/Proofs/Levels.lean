import Metering.Rig.Journal
/-!
Which levels a stream of frames makes an effect tell: the frames that count are measured, falls
are slowed down, and levels that say nothing new may be left out.
-/

namespace Metering

namespace Pcm

theorem pairs_length (order : ByteOrder) (signed : Bool) (done : List Int) (data : List UInt8) :
    (pairs order signed done data).length = done.length + data.length / 2 := by
  induction done, data using pairs.induct order signed with
  | case1 done first second rest ih =>
    rw [pairs, ih]
    simp only [List.length_cons]
    omega
  | case2 data done short =>
    match data, short with
    | [], _ => simp [pairs]
    | [_], _ => simp [pairs]
    | first :: second :: rest, short => exact (short first second rest rfl).elim

/-- A frame can be measured if its coding is linear, its samples have 8 or 16 bits and there is a
whole one. -/
theorem power?_isSome_iff (f : AudioFormat) (data : List UInt8) :
    (power? f data).isSome ↔ f.encoding = .linear ∧ (f.sampleBits = 8 ∨ f.sampleBits = 16) ∧
      f.bytesPerSample ≤ data.length := by
  have measured : (power? f data).isSome ↔ ∃ samples, samples? f data = some samples ∧
      0 < samples.length := by
    unfold power?
    split <;> simp_all
  rw [measured]
  unfold samples?
  by_cases linear : f.encoding = .linear
  · by_cases eight : f.sampleBits = 8
    · simp [AudioFormat.isLinear, AudioFormat.bytesPerSample, linear, eight, Nat.succ_le_iff]
    · by_cases sixteen : f.sampleBits = 16
      · simp [AudioFormat.isLinear, AudioFormat.bytesPerSample, linear, sixteen, pairs_length]
      · simp [AudioFormat.isLinear, linear, eight, sixteen]
  · simp [AudioFormat.isLinear, linear]

end Pcm

/-- A frame that is measured: it is not to be discarded, it holds something, and its own format is
linear, of 8 or 16 bits, with a whole sample in the frame. -/
def Buffer.counts (b : Buffer) : Bool :=
  !b.discard && !b.isEmpty && b.format.audio?.any fun f =>
    f.encoding = .linear && (f.sampleBits = 8 || f.sampleBits = 16) &&
      f.bytesPerSample ≤ b.data.length

def Buffer.level (b : Buffer) : Int :=
  Level.ofRms ((b.format.audio?.bind fun f => Pcm.power? f b.data).getD 0.0)

namespace EffectConfig

/-- The levels to report, one after the other. -/
def shown (c : EffectConfig) (last : Option Int) : List Int → List Int
  | [] => []
  | level :: rest => c.next last level :: c.shown (some (c.next last level)) rest

/-- The levels that are told: those equal to the one before may be left out. -/
def told (c : EffectConfig) (last : Option Int) : List Int → List Int
  | [] => []
  | level :: rest =>
    if c.changesOnly && last == some level then c.told (some level) rest
    else level :: c.told (some level) rest

def heard (c : EffectConfig) (last : Option Int) (frames : List Buffer) : List Int :=
  c.told last (c.shown last ((frames.filter (·.counts)).map (·.level)))

end EffectConfig

namespace Calculator

/-- The level told about a frame and what is remembered of it. -/
def sees (c : Calculator) (b : Buffer) : Option Int × Calculator :=
  if b.counts then
    let level := c.config.next c.last b.level
    (if c.config.changesOnly && c.last == some level then none else some level,
      { c with last := some level })
  else (none, c)

theorem heard_cons (c : Calculator) (b : Buffer) (frames : List Buffer) :
    c.config.heard c.last (b :: frames) =
      (c.sees b).1.toList ++ c.config.heard (c.sees b).2.last frames := by
  unfold sees EffectConfig.heard
  cases counts : b.counts with
  | false => simp [counts]
  | true =>
    simp only [List.filter_cons, counts, if_true, List.map_cons, EffectConfig.shown,
      EffectConfig.told]
    split <;> rfl

@[simp]
theorem sees_config (c : Calculator) (b : Buffer) : (c.sees b).2.config = c.config := by
  unfold sees
  split <;> rfl

end Calculator

namespace LevelEffect

/-- The root mean square that an effect measures. -/
def power? (b : Buffer) : Option Float := (frameFormat? b).bind fun f => Pcm.power? f b.data

theorem power?_isSome (b : Buffer) : (power? b).isSome = b.counts := by
  unfold power? frameFormat? Buffer.counts
  cases b.discard with
  | true => simp
  | false =>
    cases b.isEmpty with
    | true => simp
    | false =>
      cases b.format with
      | video f => simp [Format.audio?]
      | audio f =>
        change (Pcm.power? f b.data).isSome = _
        rw [Bool.eq_iff_iff, Pcm.power?_isSome_iff]
        simp [Format.audio?, and_assoc]

theorem level_of_power? {b : Buffer} {rms : Float} (measured : power? b = some rms) :
    b.level = Level.ofRms rms := by
  unfold power? frameFormat? at measured
  split at measured
  · cases measured
  · rw [Buffer.level, measured]
    rfl

theorem tells_eq (c : Calculator) (level : Int) :
    tells c level = !(c.config.changesOnly && c.last == some level) := by
  rw [Bool.not_and]
  rfl

/-- An effect with a listener tells what its calculator makes of a frame. -/
theorem observe_eq {e : LevelEffect} {l : ListenerId} (listens : e.listener = some l)
    (b : Buffer) : e.observe b =
      ((e.calculator.sees b).1.map (l, ·), { e with calculator := (e.calculator.sees b).2 }) := by
  obtain ⟨c, listener, inputFormat⟩ := e
  subst listens
  unfold observe observeBy Calculator.sees
  rw [← power?_isSome b]
  cases format : frameFormat? b with
  | none => simp [power?, format]
  | some f =>
    cases power : Pcm.power? f b.data with
    | none => simp [power?, format, power, Calculator.measureBy]
    | some rms =>
      have measured : power? b = some rms := by simp [power?, format, power]
      rw [measured, level_of_power? measured, Level.ofRms]
      simp only [Calculator.measureBy, power, Option.isSome_some, if_true, tells_eq]
      generalize c.config.next c.last (Level.ofRmsBy Float.log10 rms) = level
      by_cases silent : (c.config.changesOnly && c.last == some level) = true
      · simp only [silent, Bool.not_true, Bool.false_eq_true, if_false, if_true, Option.map_none]
      · simp only [silent, Bool.not_false, Bool.false_eq_true, if_false, if_true, Option.map_some]

end LevelEffect

/-- A frame of one sample, which is silent. -/
def Buffer.tick : Buffer where
  data := [0, 0]
  format := .audio (.linear16 8000.0 1)

/-! ### What was told -/

def Entry.level? : Entry → Option (ListenerId × Int)
  | .level l n => some (l, n)
  | _ => none

/-- Who was told which level, from the first to the last. -/
def levels (journal : List Entry) : List (ListenerId × Int) :=
  (journal.filterMap Entry.level?).reverse

@[simp]
theorem levels_cons (e : Entry) (journal : List Entry) :
    levels (e :: journal) = levels journal ++ e.level?.toList := by
  simp only [levels, List.filterMap_cons]
  cases e.level? <;> simp

end Metering
