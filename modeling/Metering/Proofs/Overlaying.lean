import Metering.Proofs.Loading
import Metering.Proofs.Spelling
/-!
What a document says of a configuration. The fields that it gives are laid over the defaults,
whatever their order, whatever stands between them and whatever else the document holds. A field
that is given twice, or as something else than it is, spoils the document.
-/

namespace Metering

namespace Json

variable {ms : List (List Piece × Value)}

def named (name : String) (ms : List (List Piece × Value)) : List Value :=
  (ms.filter fun m => text? m.1 == some name).map (·.2)

/-- All the keys of an object are texts. -/
def Readable (ms : List (List Piece × Value)) : Prop := ∀ m ∈ ms, (text? m.1).isSome

theorem keyed?_eq_some {entries : List (String × Value)} (h : keyed? ms = some entries) :
    Readable ms ∧ ∀ name, under name entries = named name ms := by
  induction ms generalizing entries with
  | nil =>
    obtain rfl := Option.some.inj h
    exact ⟨nofun, fun _ => rfl⟩
  | cons m ms ih =>
    obtain ⟨k, rest, key, later, rfl⟩ := keyed?_cons.mp h
    obtain ⟨readable, same⟩ := ih later
    refine ⟨List.forall_mem_cons.mpr ⟨by simp [key], readable⟩, fun name => ?_⟩
    have later := same name
    unfold under named at later ⊢
    by_cases here : k = name
    · simp [key, here, later]
    · simp [key, here, later]

theorem keyed?_of_readable (h : Readable ms) : ∃ entries, keyed? ms = some entries := by
  induction ms with
  | nil => exact ⟨[], rfl⟩
  | cons m ms ih =>
    rw [Readable, List.forall_mem_cons] at h
    obtain ⟨k, key⟩ := Option.isSome_iff_exists.mp h.1
    obtain ⟨rest, later⟩ := ih h.2
    exact ⟨_, keyed?_cons.mpr ⟨k, rest, key, later, rfl⟩⟩

theorem single?_eq_some {vs : List Value} {o : Option Value} :
    single? vs = some o ↔ vs = o.toList := by
  match vs with
  | [] => cases o <;> simp [single?]
  | [v] => cases o <;> simp [single?, eq_comm]
  | v :: w :: vs => cases o <;> simp [single?]

theorem mapM_single?_eq_some {values : String → List Value} {names : List String}
    {os : List (Option Value)} : names.mapM (fun name => single? (values name)) = some os ↔
      List.Forall₂ (fun name o => values name = o.toList) names os := by
  induction names generalizing os with
  | nil => simp [eq_comm]
  | cons name names ih =>
    simp only [List.mapM_cons, Option.bind_eq_bind, Option.bind_eq_some_iff, Option.pure_def,
      Option.some.injEq, single?_eq_some, ih, List.forall₂_cons_left_iff]
    constructor
    · rintro ⟨o, first, os, rest, rfl⟩
      exact ⟨o, os, first, rest, rfl⟩
    · rintro ⟨o, os, first, rest, rfl⟩
      exact ⟨o, first, os, rest, rfl⟩

/-- The fields of a record are read from an object if its keys are texts and no field is given
twice. -/
theorem record?_eq_some {names : List String} {os : List (Option Value)} :
    record? names (.object ms) = some os ↔
      Readable ms ∧ List.Forall₂ (fun name o => named name ms = o.toList) names os := by
  rw [record?, Option.bind_eq_some_iff, ← mapM_single?_eq_some]
  constructor
  · rintro ⟨entries, keys, fields⟩
    obtain ⟨readable, same⟩ := keyed?_eq_some keys
    simp only [same] at fields
    exact ⟨readable, fields⟩
  · rintro ⟨readable, fields⟩
    obtain ⟨entries, keys⟩ := keyed?_of_readable readable
    refine ⟨entries, keys, ?_⟩
    simp only [(keyed?_eq_some keys).2]
    exact fields

/-- What may be missing is not given twice. -/
theorem not_twice {vs : List Value} {o : Option Value} (h : vs = o.toList) : ¬2 ≤ vs.length := by
  cases o <;> simp [h]

/-- What stands under a name stands in the object. -/
theorem member_of_named {name : String} {v : Value} (h : v ∈ named name ms) :
    ∃ k, (k, v) ∈ ms := by
  obtain ⟨⟨k, w⟩, member, rfl⟩ := List.mem_map.mp h
  exact ⟨k, (List.mem_filter.mp member).1⟩

end Json

open Json

namespace EffectConfig

structure Fields where
  animate : Option Bool := none
  maxDecrement : Option Int32 := none
  changesOnly : Option Bool := none

def overlay (c : EffectConfig) (f : Fields) : EffectConfig where
  animate := f.animate.getD c.animate
  maxDecrement := f.maxDecrement.getD c.maxDecrement
  changesOnly := f.changesOnly.getD c.changesOnly

variable {ms : List (List Piece × Value)}

/-- An object gives exactly these fields, whatever else it holds. -/
structure Gives (ms : List (List Piece × Value)) (f : Fields) : Prop where
  readable : Readable ms
  animate : named "animate" ms = (f.animate.map Value.bool).toList
  maxDecrement : named "max_decrement_per_frame" ms =
    (f.maxDecrement.map fun d => Value.number (literal d.toInt)).toList
  changesOnly : named "notify_on_change_only" ms = (f.changesOnly.map Value.bool).toList

/-- A field is given twice, or as something else than it is. -/
inductive Faulty (ms : List (List Piece × Value)) : Prop
  | twice {name : String} (known : name ∈ fields) (again : 2 ≤ (named name ms).length)
  | animate {v : Value} (given : v ∈ named "animate" ms) (other : ∀ b, v ≠ .bool b)
  | maxDecrement {v : Value} (given : v ∈ named "max_decrement_per_frame" ms)
      (other : ∀ d : Int32, v ≠ .number (literal d.toInt))
  | changesOnly {v : Value} (given : v ∈ named "notify_on_change_only" ms)
      (other : ∀ b, v ≠ .bool b)

theorem integer?_int32 (d : Int32) :
    integer? (-2147483648) 2147483647 (.number (literal d.toInt)) = some d.toInt := by
  have low := d.le_toInt
  have high := d.toInt_lt
  rw [integer?, Number.inRange?, integer?_literal, Option.bind_some]
  exact if_pos ⟨by omega, by omega⟩

/-- The fields that are given are laid over the defaults. -/
theorem Gives.ofValue? {f : Fields} (h : Gives ms f) :
    ofValue? (.object ms) = some (overlay {} f) := by
  have record : record? fields (.object ms) = some [f.animate.map .bool,
      f.maxDecrement.map fun d => .number (literal d.toInt), f.changesOnly.map .bool] :=
    record?_eq_some.mpr
      ⟨h.readable, .cons h.animate (.cons h.maxDecrement (.cons h.changesOnly .nil))⟩
  rw [EffectConfig.ofValue?, record]
  obtain ⟨animate, decrement, changes⟩ := f
  cases animate <;> cases decrement <;> cases changes <;>
    simp [Json.optional, bool?, integer?_int32, overlay]

theorem bool?_eq_some {v : Value} {b : Bool} : bool? v = some b ↔ v = .bool b := by
  unfold bool?
  split
  · simp
  · next other =>
    simp only [reduceCtorEq, false_iff]
    rintro rfl
    exact other b rfl

/-- A flag that is read was not given, or given as a flag. -/
theorem optional_bool? {missing b : Bool} {o : Option Value}
    (h : Json.optional bool? missing o = some b) :
    ∃ given : Option Bool, o = given.map .bool ∧ b = given.getD missing := by
  cases o with
  | none =>
    obtain rfl := Option.some.inj h
    exact ⟨none, rfl, rfl⟩
  | some v =>
    obtain rfl := bool?_eq_some.mp h
    exact ⟨some b, rfl, rfl⟩

/-- A decrement that is read was not given, or given as the literal of an integer of 32 bits. -/
theorem optional_integer? {i : Int} {o : Option Value} (spellable : ∀ v ∈ o, v.Spellable)
    (h : Json.optional (integer? (-2147483648) 2147483647) 8 o = some i) :
    ∃ given : Option Int32, o = given.map (fun d => .number (literal d.toInt)) ∧
      Int32.ofInt i = given.getD 8 := by
  cases o with
  | none =>
    obtain rfl := Option.some.inj h
    exact ⟨none, rfl, rfl⟩
  | some v =>
    change integer? _ _ v = some i at h
    unfold integer? at h
    split at h
    · next n =>
      obtain ⟨j, plain, range⟩ := Option.bind_eq_some_iff.mp h
      split at range
      · next fits =>
        obtain rfl := Option.some.inj range
        have same : (Int32.ofInt j).toInt = j := by
          rw [Int32.toInt_ofInt]
          exact Int.bmod_eq_of_le (by simp; omega) (by simp; omega)
        refine ⟨some (Int32.ofInt j), ?_, rfl⟩
        rw [Option.map_some, same, literal_of_integer? (spellable _ rfl).whole plain]
      · cases range
    · cases h

theorem gives_of_ofValue? {c : EffectConfig} (spellable : (Value.object ms).Spellable)
    (h : EffectConfig.ofValue? (.object ms) = some c) : ∃ f, Gives ms f ∧ c = overlay {} f := by
  unfold EffectConfig.ofValue? at h
  split at h
  · next animate decrement changes record =>
    obtain ⟨readable, names⟩ := record?_eq_some.mp record
    simp only [fields, List.forall₂_cons, List.Forall₂.nil, and_true] at names
    obtain ⟨first, second, third⟩ := names
    simp only [Option.bind_eq_bind, Option.bind_eq_some_iff, Option.pure_def,
      Option.some.injEq] at h
    obtain ⟨a, ha, i, hi, g, hg, rfl⟩ := h
    have within : ∀ v ∈ decrement, v.Spellable := by
      intro v given
      obtain ⟨k, member⟩ := member_of_named (by rw [second]; exact Option.mem_toList.mpr given)
      exact spellable.member member
    obtain ⟨animate, rfl, rfl⟩ := optional_bool? ha
    obtain ⟨decrement, rfl, same⟩ := optional_integer? within hi
    obtain ⟨changes, rfl, rfl⟩ := optional_bool? hg
    exact ⟨⟨animate, decrement, changes⟩, ⟨readable, first, second, third⟩, by rw [overlay, same]⟩
  · cases h

/-- What gives fields is without fault. -/
theorem Gives.not_faulty {f : Fields} (h : Gives ms f) : ¬Faulty ms := by
  rintro (⟨known, again⟩ | ⟨given, other⟩ | ⟨given, other⟩ | ⟨given, other⟩)
  · simp only [fields, List.mem_cons, List.not_mem_nil, or_false] at known
    obtain rfl | rfl | rfl := known
    · exact not_twice h.animate again
    · exact not_twice h.maxDecrement again
    · exact not_twice h.changesOnly again
  · rw [h.animate] at given
    obtain ⟨b, -, rfl⟩ := Option.map_eq_some_iff.mp (Option.mem_toList.mp given)
    exact other b rfl
  · rw [h.maxDecrement] at given
    obtain ⟨d, -, rfl⟩ := Option.map_eq_some_iff.mp (Option.mem_toList.mp given)
    exact other d rfl
  · rw [h.changesOnly] at given
    obtain ⟨b, -, rfl⟩ := Option.map_eq_some_iff.mp (Option.mem_toList.mp given)
    exact other b rfl

end EffectConfig

namespace SessionConfig

structure Fields where
  effect : Option EffectConfig.Fields := none
  startStreams : Option Bool := none

def overlay (c : SessionConfig) (f : Fields) : SessionConfig where
  effect := (f.effect.map c.effect.overlay).getD c.effect
  startStreams := f.startStreams.getD c.startStreams

def Fields.Usable (f : Fields) : Prop :=
  ∀ d, f.effect.bind (·.maxDecrement) = some d → 1 ≤ d.toInt ∧ d.toInt ≤ 127

/-- The decrement is the one that is given, or eight. -/
theorem Fields.Usable.overlay {f : Fields} (h : f.Usable) : (overlay {} f).problem? = none := by
  rw [problem?_eq_none]
  obtain ⟨effect, start⟩ := f
  cases effect with
  | none =>
    change 1 ≤ (8 : Int32).toInt ∧ (8 : Int32).toInt ≤ 127
    decide
  | some e =>
    obtain ⟨animate, decrement, changes⟩ := e
    cases decrement with
    | none =>
      change 1 ≤ (8 : Int32).toInt ∧ (8 : Int32).toInt ≤ 127
      decide
    | some d => exact h d rfl

variable {ms : List (List Piece × Value)}

/-- An object gives exactly these fields, whatever else it holds. -/
structure Gives (ms : List (List Piece × Value)) (f : Fields) : Prop where
  readable : Readable ms
  effect : match f.effect with
    | none => named "level_effect" ms = []
    | some e => ∃ inner, named "level_effect" ms = [.object inner] ∧ EffectConfig.Gives inner e
  startStreams : named "start_receive_streams" ms = (f.startStreams.map Value.bool).toList

/-- A field is given twice, or as something else than it is. -/
inductive Faulty (ms : List (List Piece × Value)) : Prop
  | twice {name : String} (known : name ∈ fields) (again : 2 ≤ (named name ms).length)
  | effect {v : Value} (given : v ∈ named "level_effect" ms) (noObject : ∀ inner, v ≠ .object inner)
      (noArray : ∀ items, v ≠ .array items)
  | inner {inner : List (List Piece × Value)} (given : .object inner ∈ named "level_effect" ms)
      (faulty : EffectConfig.Faulty inner)
  | startStreams {v : Value} (given : v ∈ named "start_receive_streams" ms)
      (other : ∀ b, v ≠ .bool b)

/-- What is read from an object. -/
theorem ofValue?_eq_some {c : SessionConfig} : ofValue? (.object ms) = some c ↔
    Readable ms ∧ ∃ effect start, named "level_effect" ms = effect.toList ∧
      named "start_receive_streams" ms = start.toList ∧
      Json.optional EffectConfig.ofValue? {} effect = some c.effect ∧
      Json.optional bool? true start = some c.startStreams := by
  constructor
  · intro h
    unfold ofValue? at h
    split at h
    · next effect start record =>
      obtain ⟨readable, names⟩ := record?_eq_some.mp record
      simp only [fields, List.forall₂_cons, List.Forall₂.nil, and_true] at names
      simp only [Option.bind_eq_bind, Option.bind_eq_some_iff, Option.pure_def,
        Option.some.injEq] at h
      obtain ⟨e, he, b, hb, rfl⟩ := h
      exact ⟨readable, effect, start, names.1, names.2, he, hb⟩
    · cases h
  · rintro ⟨readable, effect, start, first, second, he, hb⟩
    have record : record? fields (.object ms) = some [effect, start] :=
      record?_eq_some.mpr ⟨readable, .cons first (.cons second .nil)⟩
    simp [ofValue?, record, he, hb]

/-- The fields that are given are laid over the defaults. -/
theorem Gives.ofValue? {f : Fields} (h : Gives ms f) :
    ofValue? (.object ms) = some (overlay {} f) := by
  obtain ⟨effect, start⟩ := f
  have flag : Json.optional bool? true (start.map Value.bool) = some (start.getD true) := by
    cases start <;> rfl
  cases effect with
  | none => exact ofValue?_eq_some.mpr ⟨h.readable, none, _, h.effect, h.startStreams, rfl, flag⟩
  | some e =>
    obtain ⟨inner, given, gives⟩ := h.effect
    exact ofValue?_eq_some.mpr
      ⟨h.readable, some (.object inner), _, given, h.startStreams, gives.ofValue?, flag⟩

/-- A document with a fault is not read. -/
theorem Faulty.ofValue? (h : Faulty ms) (spellable : (Value.object ms).Spellable) :
    ofValue? (.object ms) = none := by
  -- Had it been read, what was read would have been given, and given once.
  by_contra read
  obtain ⟨c, read⟩ := Option.ne_none_iff_exists'.mp read
  obtain ⟨readable, effect, start, first, second, he, hb⟩ := ofValue?_eq_some.mp read
  have given {v : Value} (member : v ∈ named "level_effect" ms) :
      EffectConfig.ofValue? v = some c.effect := by
    rw [first, Option.mem_toList] at member
    rwa [member] at he
  cases h with
  | twice known again =>
    simp only [fields, List.mem_cons, List.not_mem_nil, or_false] at known
    obtain rfl | rfl := known
    · exact not_twice first again
    · exact not_twice second again
  | @effect v member noObject noArray =>
    have unread : record? EffectConfig.fields v = none := by
      cases v with
      | object inner => exact absurd rfl (noObject inner)
      | array items => exact absurd rfl (noArray items)
      | null | bool | number | string => rfl
    have := given member
    rw [EffectConfig.ofValue?, unread] at this
    cases this
  | @inner inner member faulty =>
    obtain ⟨k, here⟩ := member_of_named member
    obtain ⟨f, gives, -⟩ := EffectConfig.gives_of_ofValue? (spellable.member here) (given member)
    exact gives.not_faulty faulty
  | @startStreams v member other =>
    rw [second, Option.mem_toList] at member
    rw [member] at hb
    exact other _ (EffectConfig.bool?_eq_some.mp hb)

theorem load_unread {text : String} (h : ofText? text = none) (explain : String → String) :
    load text explain = .error (malformed (explain text)) := by
  rw [load, h]

/-- The fields that a document gives are laid over the defaults, in whatever order they stand,
with whatever white space, and whatever else the document holds. A document in which a field is
given twice, or as something else than it is, is refused, and so is one whose keys are not all
texts, and a text that is no document. The fault says then what the reader has against the text. -/
theorem load_overlays (explain : String → String) :
    (∀ (text : String) (ms : List (List Piece × Value)) (f : Fields),
      Spells text (.object ms) → Gives ms f → f.Usable →
        load text explain = .ok (overlay {} f)) ∧
    (∀ (text : String) (ms : List (List Piece × Value)), Spells text (.object ms) →
      Faulty ms ∨ ¬Readable ms → load text explain = .error (malformed (explain text))) ∧
    (∀ text : String, (∀ v, ¬Spells text v) →
      load text explain = .error (malformed (explain text))) := by
  refine ⟨fun text ms f spelled gives usable => ?_, fun text ms spelled wrong => ?_,
    fun text nothing => ?_⟩
  · have read : ofText? text = some (overlay {} f) := by
      rw [ofText?, parse?_iff_spells.mpr spelled]
      exact gives.ofValue?
    rw [load_eq _ read, usable.overlay]
  · refine load_unread ?_ explain
    rw [ofText?, parse?_iff_spells.mpr spelled]
    change ofValue? (.object ms) = none
    obtain faulty | unreadable := wrong
    · exact faulty.ofValue? spelled.spellable
    · by_contra read
      obtain ⟨c, read⟩ := Option.ne_none_iff_exists'.mp read
      exact unreadable (ofValue?_eq_some.mp read).1
  · refine load_unread ?_ explain
    cases parsed : parse? text with
    | none => rw [ofText?, parsed, Option.bind_none]
    | some v => exact absurd (parse?_iff_spells.mp parsed) (nothing v)

/-- Two fields between white space, behind something that nobody asks for. -/
theorem load_overlays_mixed :
    load "\x7b \"x\" : [1e999, \x7b\x7d] ,\"start_receive_streams\":false,
      \"level_effect\" : \x7b\"max_decrement_per_frame\":12,\"y\" : null\x7d\x7d" =
        .ok { effect := { maxDecrement := 12 }, startStreams := false } ∧
    load "\x7b\"start_receive_streams\":true,\"start_receive_streams\":true\x7d" =
      .error (malformed "no session configuration") ∧
    load "\x7b" (fun _ => "EOF while parsing an object at line 1 column 1") =
      .error (.invalidConfiguration
        "failed to parse configuration: EOF while parsing an object at line 1 column 1") := by
  have inner : EffectConfig.Gives
      [(pieces "max_decrement_per_frame", .number (literal 12)), (pieces "y", .null)]
      { maxDecrement := some 12 } :=
    ⟨by simp [Readable], by simp [named], by simp [named], by simp [named]⟩
  have mixed : Gives
      [(pieces "x", .array [.number ⟨false, ['1'], [], some (false, ['9', '9', '9'])⟩, .object []]),
        (pieces "start_receive_streams", .bool false), (pieces "level_effect", .object
          [(pieces "max_decrement_per_frame", .number (literal 12)), (pieces "y", .null)])]
      { effect := some { maxDecrement := some 12 }, startStreams := some false } :=
    ⟨by simp [Readable], ⟨_, by simp [named], inner⟩, by simp [named]⟩
  have twice : Faulty [(pieces "start_receive_streams", .bool true),
      (pieces "start_receive_streams", .bool true)] :=
    @Faulty.twice _ "start_receive_streams" (by decide) (by simp [named])
  refine ⟨(load_overlays unexplained).1 _ _ _ ?_ mixed ?_,
    (load_overlays unexplained).2.1 _ _ ?_ (.inl twice),
    (load_overlays _).2.2 _ fun v spelled => ?_⟩
  · rw [← parse?_iff_spells, parse?_eq_some]
    simp only [Value.tokens, furtherItems, furtherMembers]
    decide +kernel
  · rintro _ ⟨⟩
    decide
  · rw [← parse?_iff_spells, parse?_eq_some]
    simp only [Value.tokens, furtherMembers]
    decide +kernel
  · rw [← parse?_iff_spells] at spelled
    cases spelled

end SessionConfig

end Metering
