import Metering.Proofs.Members
import Metering.Session.Load
/-!
A configuration that was written is loaded again, unless it may not be used. What is loaded may
always be used.
-/

namespace Metering

open Json

namespace EffectConfig
variable (c : EffectConfig)

def memberTexts : List (String × String) :=
  [("animate", toString c.animate), ("max_decrement_per_frame", toString c.maxDecrement.toInt),
    ("notify_on_change_only", toString c.changesOnly)]

theorem toJson_eq : c.toJson = objectText c.memberTexts := by
  have animate : "\x7b\"animate\":" = "\x7b" ++ (quote "animate" ++ ":") := by decide
  have decrement : ",\"max_decrement_per_frame\":" =
      "," ++ (quote "max_decrement_per_frame" ++ ":") := by decide
  have changes : ",\"notify_on_change_only\":" =
      "," ++ (quote "notify_on_change_only" ++ ":") := by decide
  unfold toJson
  simp only [memberTexts, animate, decrement, changes, objectText, memberText, List.map_cons,
    List.map_nil, String.intercalate_cons_cons, String.intercalate_singleton,
    String.append_assoc]

theorem parse?_toJson : parse? c.toJson = some (.object (membersOf c.memberTexts)) := by
  rw [toJson_eq]
  apply parse?_objectText
  intro m hm
  simp only [memberTexts, List.mem_cons, List.not_mem_nil, or_false] at hm
  obtain rfl | rfl | rfl := hm
  · exact holds_of (parse?_bool _)
  · exact holds_of (parse?_integer _)
  · exact holds_of (parse?_bool _)

theorem ofValue?_members : ofValue? (.object (membersOf c.memberTexts)) = some c := by
  have record : record? fields (.object (membersOf c.memberTexts)) =
      some [some (.bool c.animate), some (.number (literal c.maxDecrement.toInt)),
        some (.bool c.changesOnly)] := by
    rw [record?_membersOf, ← valueOf_eq (parse?_bool c.animate),
      ← valueOf_eq (parse?_bool c.changesOnly),
      ← valueOf_eq (parse?_integer c.maxDecrement.toInt)]
    simp [fields, memberTexts, under, single?]
  have low := c.maxDecrement.le_toInt
  have high := c.maxDecrement.toInt_lt
  have range : (literal c.maxDecrement.toInt).inRange? (-2147483648) 2147483647 =
      some c.maxDecrement.toInt := by
    rw [Number.inRange?, integer?_literal, Option.bind_some]
    apply if_pos
    omega
  simp [ofValue?, record, Json.optional, bool?, integer?, range]

end EffectConfig

namespace SessionConfig
variable (c : SessionConfig)

def memberTexts : List (String × String) :=
  [("level_effect", c.effect.toJson), ("start_receive_streams", toString c.startStreams)]

theorem toJson_eq : c.toJson = objectText c.memberTexts := by
  have effect : "\x7b\"level_effect\":" = "\x7b" ++ (quote "level_effect" ++ ":") := by decide
  have start : ",\"start_receive_streams\":" =
      "," ++ (quote "start_receive_streams" ++ ":") := by decide
  unfold toJson
  simp only [memberTexts, effect, start, objectText, memberText, List.map_cons, List.map_nil,
    String.intercalate_cons_cons, String.intercalate_singleton, String.append_assoc]

theorem parse?_toJson : parse? c.toJson = some (.object (membersOf c.memberTexts)) := by
  rw [toJson_eq]
  apply parse?_objectText
  intro m hm
  simp only [memberTexts, List.mem_cons, List.not_mem_nil, or_false] at hm
  obtain rfl | rfl := hm
  · exact holds_of c.effect.parse?_toJson
  · exact holds_of (parse?_bool _)

/-- What is written is read back. -/
theorem ofText?_toJson : ofText? c.toJson = some c := by
  have record : record? fields (.object (membersOf c.memberTexts)) =
      some [some (.object (membersOf c.effect.memberTexts)), some (.bool c.startStreams)] := by
    rw [record?_membersOf, ← valueOf_eq (parse?_bool c.startStreams),
      ← valueOf_eq c.effect.parse?_toJson]
    simp [fields, memberTexts, under, single?]
  rw [ofText?, parse?_toJson, Option.bind_some]
  simp [ofValue?, record, Json.optional, bool?, c.effect.ofValue?_members]

/-- Nothing is wrong with a configuration whose levels fall by one step of the scale at least
and by the whole scale at most. -/
theorem problem?_eq_none : c.problem? = none ↔
    1 ≤ c.effect.maxDecrement.toInt ∧ c.effect.maxDecrement.toInt ≤ 127 := by
  have highest : (Level.highest : Int) = 127 := rfl
  simp only [problem?, EffectConfig.problem?]
  split
  · simp only [reduceCtorEq, false_iff]
    omega
  · simp only [true_iff]
    omega

theorem load_eq {text : String} (h : ofText? text = some c) (explain : String → String) :
    load text explain = (match c.problem? with
      | some problem => .error (.invalidConfiguration problem)
      | none => .ok c) := by
  cases hp : c.problem? <;> simp [load, h, hp]

/-- What is loaded may be used. -/
theorem load_ok {text : String} {explain : String → String} (h : load text explain = .ok c) :
    c.problem? = none := by
  unfold load at h
  split at h
  · cases h
  · split at h
    · cases h
    · cases h
      assumption

theorem load_error {text : String} {explain : String → String} {fault : Fault}
    (h : load text explain = .error fault) : ∃ why, fault = .invalidConfiguration why := by
  unfold load at h
  split at h
  · cases h
    exact ⟨_, rfl⟩
  · split at h
    · cases h
      exact ⟨_, rfl⟩
    · cases h

/-- A configuration that was written is loaded again if it may be used, and else refused for what
is wrong with it. What is loaded may be used, whatever the text, and what is refused is an
invalid configuration. So it is whatever the reader says of a text that it cannot read. -/
theorem loads_what_may_be_used (explain : String → String) :
    (∀ c : SessionConfig,
      (1 ≤ c.effect.maxDecrement.toInt ∧ c.effect.maxDecrement.toInt ≤ 127 →
        load c.toJson explain = .ok c) ∧
      (¬(1 ≤ c.effect.maxDecrement.toInt ∧ c.effect.maxDecrement.toInt ≤ 127) →
        ∃ problem, c.problem? = some problem ∧
          load c.toJson explain = .error (.invalidConfiguration problem))) ∧
    (∀ text c, load text explain = .ok c → c.problem? = none) ∧
    ∀ text fault, load text explain = .error fault →
      ∃ why, fault = .invalidConfiguration why := by
  refine ⟨fun c => ⟨fun range => ?_, fun range => ?_⟩, fun _ c => c.load_ok, fun _ _ => load_error⟩
  · rw [c.load_eq c.ofText?_toJson, c.problem?_eq_none.mpr range]
  · have wrong : c.problem? ≠ none := fun h => range (c.problem?_eq_none.mp h)
    obtain ⟨problem, hp⟩ := Option.ne_none_iff_exists'.mp wrong
    exact ⟨problem, hp, by rw [c.load_eq c.ofText?_toJson, hp]⟩

theorem loads_what_may_be_used_default :
    (∃ problem, ({ effect := { maxDecrement := 0 } } : SessionConfig).problem? = some problem ∧
      load ({ effect := { maxDecrement := 0 } } : SessionConfig).toJson =
        .error (.invalidConfiguration problem)) ∧
    load ({} : SessionConfig).toJson = .ok {} ∧ ({} : SessionConfig).problem? = none := by
  have loaded := ((loads_what_may_be_used unexplained).1 {}).1 (by decide)
  exact ⟨((loads_what_may_be_used unexplained).1 _).2 (by decide), loaded,
    (loads_what_may_be_used unexplained).2.1 _ _ loaded⟩

end SessionConfig

end Metering
