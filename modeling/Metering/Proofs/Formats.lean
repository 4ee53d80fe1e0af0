import Metering.Proofs.Finite
import Metering.Proofs.Members
import Metering.Media.Document
/-!
Formats that were written are read back, in whatever order their members stand. The reader looks
at the whole document before it knows the kind, so every part of it has to have a meaning.
-/

namespace Metering

namespace Json

/-! ### Documents whose every part has a meaning -/

def opens : Token → Bool
  | .openBracket | .openBrace => true
  | _ => false

/-- A text that holds a value whose every part has a meaning, with at most `n` containers. -/
def Sound (n : Nat) (text : String) : Prop :=
  Holds text ∧ meaningful (valueOf text).tokens ∧ (valueOf text).tokens.countP opens ≤ n

theorem sound_of {n : Nat} {text : String} {v : Value} (h : parse? text = some v)
    (meaning : meaningful v.tokens) (containers : v.tokens.countP opens ≤ n) : Sound n text :=
  ⟨holds_of h, by rwa [valueOf_eq h], by rwa [valueOf_eq h]⟩

theorem Sound.mono {n m : Nat} {text : String} (h : Sound n text) (le : n ≤ m) : Sound m text :=
  ⟨h.1, h.2.1, h.2.2.trans le⟩

theorem sound_quote (s : String) : Sound 0 (quote s) :=
  sound_of (parse?_quote s) (by simp [Value.tokens, meaningful]) (by simp [Value.tokens, opens])

theorem sound_bool (b : Bool) : Sound 0 (toString b) :=
  sound_of (parse?_bool b) (by simp [Value.tokens, meaningful]) (by simp [Value.tokens, opens])

theorem sound_natural {n : Nat} (h : n < 2 ^ 53) : Sound 0 (toString n) :=
  sound_of (parse?_natural n) (by simp [Value.tokens, meaningful, float?_literal h])
    (by simp [Value.tokens, opens])

/-- What a token does to the count of open containers and to the greatest count so far. -/
def nest (counts : Nat × Nat) : Token → Nat × Nat
  | .openBracket | .openBrace => (counts.1 + 1, max counts.2 (counts.1 + 1))
  | .closeBracket | .closeBrace => (counts.1 - 1, counts.2)
  | _ => counts

theorem nest_foldl (ts : List Token) (counts : Nat × Nat) :
    (ts.foldl nest counts).2 ≤ max counts.2 (counts.1 + ts.countP opens) := by
  induction ts generalizing counts with
  | nil => exact Nat.le_max_left ..
  | cons t ts ih =>
    have := ih (nest counts t)
    rw [List.foldl_cons, List.countP_cons]
    cases t <;> simp only [nest, opens, if_true, Bool.false_eq_true, if_false] at this ⊢ <;> omega

/-- No more containers are open at once than there are. -/
theorem depth_le (ts : List Token) : depth ts ≤ ts.countP opens := by
  have : depth ts = (ts.foldl nest (0, 0)).2 := by
    unfold depth
    congr 2
  have := nest_foldl ts (0, 0)
  omega

section
variable {n : Nat} {ms : List (String × String)}

theorem meaningful_furtherMembers (h : ∀ m ∈ ms, Sound n m.2) :
    meaningful (furtherMembers (membersOf ms)) := by
  induction ms with
  | nil => rfl
  | cons m ms ih =>
    have first := (h m List.mem_cons_self).2.1
    have further := ih fun m hm => h m (List.mem_cons_of_mem _ hm)
    simp only [meaningful, membersOf, List.map_cons, furtherMembers, List.all_cons,
      List.all_append] at *
    simp [first, further]

theorem opens_furtherMembers (h : ∀ m ∈ ms, Sound n m.2) :
    (furtherMembers (membersOf ms)).countP opens ≤ ms.length * n := by
  induction ms with
  | nil => exact Nat.zero_le _
  | cons m ms ih =>
    have first := (h m List.mem_cons_self).2.2
    have further := ih fun m hm => h m (List.mem_cons_of_mem _ hm)
    simp only [membersOf, List.map_cons, furtherMembers, List.countP_cons, List.countP_append,
      List.length_cons, Nat.succ_mul] at *
    simp [opens] at *
    omega

theorem tokens_object (ms : List (List Piece × Value)) :
    (Value.object ms).tokens = .openBrace :: ((furtherMembers ms).tail ++ [.closeBrace]) := by
  cases ms <;> simp [Value.tokens, furtherMembers]

theorem sound_objectText (h : ∀ m ∈ ms, Sound n m.2) :
    Sound (ms.length * n + 1) (objectText ms) := by
  have meaning := meaningful_furtherMembers h
  have containers := opens_furtherMembers h
  have fewer := (List.tail_sublist (furtherMembers (membersOf ms))).countP_le (p := opens)
  apply sound_of (parse?_objectText fun m hm => (h m hm).1)
  · rw [tokens_object]
    simp only [meaningful, List.all_cons, List.all_append, Bool.true_and, List.all_nil,
      Bool.and_true, List.all_eq_true] at meaning ⊢
    exact fun t ht => meaning t (List.mem_of_mem_tail ht)
  · rw [tokens_object, List.countP_cons, List.countP_append, List.countP_singleton]
    simp only [opens, if_true, Bool.false_eq_true, if_false]
    omega

end

end Json

theorem Json.integer?_word (n : Nat) (high : Int) (h : n ≤ high) :
    Json.integer? 0 high (.number (Json.literal n)) = some n := by
  rw [integer?, Number.inRange?, integer?_literal, Option.bind_some]
  exact if_pos ⟨Int.natCast_nonneg n, h⟩

namespace Encoding
variable (lenient : Bool) (e : Encoding)

theorem toJson_other (name : String) :
    toJson (.other name) = Json.objectText [("other", Json.quote name)] := by
  have key : "\x7b\"other\":" = "\x7b" ++ (Json.quote "other" ++ ":") := by decide
  unfold toJson
  simp only [key, Json.objectText, Json.memberText, List.map_cons, List.map_nil,
    String.intercalate_singleton, String.append_assoc]

theorem sound_toJson : Json.Sound 1 e.toJson := by
  cases e with
  | linear | ulaw | alaw => exact (Json.sound_quote _).mono (Nat.zero_le _)
  | other name =>
    rw [toJson_other]
    apply Json.sound_objectText (n := 0)
    simp [Json.sound_quote]

theorem ofValue?_toJson : ofValue? lenient (Json.valueOf e.toJson) = some e := by
  cases e with
  | linear | ulaw | alaw =>
    rw [toJson, Json.valueOf_eq (Json.parse?_quote _)]
    simp [ofValue?, Json.choice?, Json.isNothing]
  | other name =>
    have value : Json.parse? (toJson (.other name)) =
        some (.object (Json.membersOf [("other", Json.quote name)])) := by
      rw [toJson_other]
      apply Json.parse?_objectText
      simpa using Json.holds_of (Json.parse?_quote name)
    rw [Json.valueOf_eq value]
    simp [ofValue?, Json.choice?, Json.membersOf, Json.valueOf_eq (Json.parse?_quote name),
      Json.required, Json.string?]

end Encoding

namespace ByteOrder
variable (lenient : Bool) (o : ByteOrder)

theorem sound_toJson : Json.Sound 0 o.toJson := by
  cases o <;> exact Json.sound_quote _

theorem ofValue?_toJson : ofValue? lenient (Json.valueOf o.toJson) = some o := by
  cases o <;> rw [toJson, Json.valueOf_eq (Json.parse?_quote _)] <;>
    simp [ofValue?, Json.choice?, Json.isNothing]

end ByteOrder

namespace AudioFormat
variable (f : AudioFormat)

def memberTexts : List (String × String) :=
  [("encoding", f.encoding.toJson), ("sample_rate", Json.layout.text f.sampleRate),
    ("sample_size_bits", toString f.sampleBits.toNat), ("channels", toString f.channels.toNat),
    ("endian", f.order.toJson), ("signed", toString f.signed)]

theorem members_eq : f.members = ",".intercalate (f.memberTexts.map Json.memberText) := by
  have encoding : "\"encoding\":" = Json.quote "encoding" ++ ":" := by decide
  have rate : ",\"sample_rate\":" = "," ++ (Json.quote "sample_rate" ++ ":") := by decide
  have bits : ",\"sample_size_bits\":" = "," ++ (Json.quote "sample_size_bits" ++ ":") := by
    decide
  have channels : ",\"channels\":" = "," ++ (Json.quote "channels" ++ ":") := by decide
  have order : ",\"endian\":" = "," ++ (Json.quote "endian" ++ ":") := by decide
  have signed : ",\"signed\":" = "," ++ (Json.quote "signed" ++ ":") := by decide
  unfold members
  simp only [memberTexts, encoding, rate, bits, channels, order, signed, Json.memberText,
    List.map_cons, List.map_nil, String.intercalate_cons_cons, String.intercalate_singleton,
    String.append_assoc]

theorem record?_memberTexts :
    Json.record? fields (.object (Json.membersOf f.memberTexts)) =
      some [some (Json.valueOf f.encoding.toJson),
        some (Json.valueOf (Json.layout.text f.sampleRate)),
        some (.number (Json.literal f.sampleBits.toNat)),
        some (.number (Json.literal f.channels.toNat)),
        some (Json.valueOf f.order.toJson), some (.bool f.signed)] := by
  rw [Json.record?_membersOf, ← Json.valueOf_eq (Json.parse?_bool f.signed),
    ← Json.valueOf_eq (Json.parse?_natural f.sampleBits.toNat),
    ← Json.valueOf_eq (Json.parse?_natural f.channels.toNat)]
  simp [fields, memberTexts, Json.under, Json.single?]

theorem ofValue?_perm (lenient : Bool) {ms ns : List (List Json.Piece × Json.Value)}
    (h : ms.Perm ns) : ofValue? lenient (.object ms) = ofValue? lenient (.object ns) := by
  simp only [ofValue?, Json.record?_perm _ h]

/-- What is written is read back, with the sample rate that its digits are read as. -/
theorem ofValue?_memberTexts (lenient : Bool) :
    ofValue? lenient (.object (Json.membersOf f.memberTexts)) =
      (Json.float? (Json.valueOf (Json.layout.text f.sampleRate))).map fun rate =>
        { f with sampleRate := rate } := by
  have bits := Json.integer?_word f.sampleBits.toNat 65535 (by
    have := f.sampleBits.toNat_lt
    omega)
  have channels := Json.integer?_word f.channels.toNat 65535 (by
    have := f.channels.toNat_lt
    omega)
  simp only [ofValue?, record?_memberTexts, Json.required, f.encoding.ofValue?_toJson,
    f.order.ofValue?_toJson, bits, channels, Json.bool?]
  cases Json.float? (Json.valueOf (Json.layout.text f.sampleRate)) <;> simp

end AudioFormat

namespace VideoFormat
variable (f : VideoFormat)

def memberTexts : List (String × String) :=
  [("encoding", Json.quote f.encoding), ("width", toString f.width.toNat),
    ("height", toString f.height.toNat)]

theorem members_eq : f.members = ",".intercalate (f.memberTexts.map Json.memberText) := by
  have encoding : "\"encoding\":" = Json.quote "encoding" ++ ":" := by decide
  have width : ",\"width\":" = "," ++ (Json.quote "width" ++ ":") := by decide
  have height : ",\"height\":" = "," ++ (Json.quote "height" ++ ":") := by decide
  unfold members
  simp only [memberTexts, encoding, width, height, Json.memberText, List.map_cons, List.map_nil,
    String.intercalate_cons_cons, String.intercalate_singleton, String.append_assoc]

theorem record?_memberTexts :
    Json.record? fields (.object (Json.membersOf f.memberTexts)) =
      some [some (.string (Json.pieces f.encoding)),
        some (.number (Json.literal f.width.toNat)),
        some (.number (Json.literal f.height.toNat))] := by
  rw [Json.record?_membersOf, ← Json.valueOf_eq (Json.parse?_quote f.encoding),
    ← Json.valueOf_eq (Json.parse?_natural f.width.toNat),
    ← Json.valueOf_eq (Json.parse?_natural f.height.toNat)]
  simp [fields, memberTexts, Json.under, Json.single?]

theorem ofValue?_perm {ms ns : List (List Json.Piece × Json.Value)} (h : ms.Perm ns) :
    ofValue? (.object ms) = ofValue? (.object ns) := by
  simp only [ofValue?, Json.record?_perm _ h]

theorem ofValue?_memberTexts :
    ofValue? (.object (Json.membersOf f.memberTexts)) = some f := by
  have width := Json.integer?_word f.width.toNat 4294967295 (by
    have := f.width.toNat_lt
    omega)
  have height := Json.integer?_word f.height.toNat 4294967295 (by
    have := f.height.toNat_lt
    omega)
  simp only [ofValue?, record?_memberTexts, Json.required, width, height, Json.string?,
    Json.text?_pieces]
  simp

end VideoFormat

/-- The double is read back from the digits that it is written with. -/
def Rereads (x : Float) : Prop := (Json.parse? (Json.layout.text x)).bind Json.float? = some x

instance (x : Float) : Decidable (Rereads x) :=
  inferInstanceAs (Decidable ((Json.parse? (Json.layout.text x)).bind Json.float? = some x))

theorem Rereads.sound {x : Float} (h : Rereads x) :
    Json.Sound 0 (Json.layout.text x) ∧
      Json.float? (Json.valueOf (Json.layout.text x)) = some x := by
  obtain ⟨v, parsed, read⟩ := Option.bind_eq_some_iff.mp h
  rw [Json.valueOf_eq parsed]
  refine ⟨?_, read⟩
  cases v with
  | number n =>
    have meaning : n.float?.isSome := Option.isSome_of_eq_some read
    exact Json.sound_of parsed (by simp [Json.Value.tokens, Json.meaningful, meaning])
      (by simp [Json.Value.tokens, Json.opens])
  | null | bool | string | array | object => cases read

/-- A double that is no number is written as null. -/
theorem layout_null {x : Float} (h : x.isNaN ∨ x.isInf) : Json.layout.text x = "null" := by
  unfold Decimal.Layout.text
  split_ifs with nan infinite
  · rfl
  · rfl
  · rfl
  all_goals simp_all

namespace Format

def memberTexts : Format → List (String × String)
  | .audio f => ("kind", Json.quote "audio") :: f.memberTexts
  | .video f => ("kind", Json.quote "video") :: f.memberTexts

theorem toJson_eq (f : Format) : f.toJson = Json.objectText f.memberTexts := by
  cases f with
  | audio f =>
    have kind : "\x7b\"kind\":\"audio\"," =
        "\x7b" ++ (Json.quote "kind" ++ (":" ++ (Json.quote "audio" ++ ","))) := by decide
    have others : f.memberTexts.map Json.memberText ≠ [] := by simp [AudioFormat.memberTexts]
    unfold toJson
    simp only [kind, f.members_eq, memberTexts, Json.objectText, List.map_cons,
      String.intercalate_cons_of_ne_nil others, Json.memberText, String.append_assoc]
  | video f =>
    have kind : "\x7b\"kind\":\"video\"," =
        "\x7b" ++ (Json.quote "kind" ++ (":" ++ (Json.quote "video" ++ ","))) := by decide
    have others : f.memberTexts.map Json.memberText ≠ [] := by simp [VideoFormat.memberTexts]
    unfold toJson
    simp only [kind, f.members_eq, memberTexts, Json.objectText, List.map_cons,
      String.intercalate_cons_of_ne_nil others, Json.memberText, String.append_assoc]

/-- A format is read from an object in whatever order its members stand. -/
theorem ofValue?_perm {ms ns : List (List Json.Piece × Json.Value)} (h : ms.Perm ns) :
    ofValue? (.object ms) = ofValue? (.object ns) := by
  have others := h.filter fun m => Json.text? m.1 != some "kind"
  have audio := AudioFormat.ofValue?_perm true others
  have video := VideoFormat.ofValue?_perm others
  cases hl : Json.keyed? ms with
  | none => simp [ofValue?, split?, hl, Json.keyed?_none_perm h hl]
  | some l =>
    obtain ⟨l', hl', perm⟩ := Json.keyed?_perm h hl
    simp [ofValue?, split?, hl, hl', Json.under_perm perm, audio, video, Option.bind_assoc]

theorem split?_kind (kind : String) (ms : List (String × String)) (h : ∀ m ∈ ms, m.1 ≠ "kind") :
    split? (.object (Json.membersOf (("kind", Json.quote kind) :: ms))) =
      some (kind, .object (Json.membersOf ms)) := by
  have keys := Json.keyed?_membersOf (("kind", Json.quote kind) :: ms)
  have none_else : (ms.filter fun m => m.1 == "kind") = [] := by simpa using h
  have only : Json.under "kind" ((("kind", Json.quote kind) :: ms).map fun m =>
      (m.1, Json.valueOf m.2)) = [.string (Json.pieces kind)] := by
    simp [Json.under, List.filter_map, Function.comp_def, none_else,
      Json.valueOf_eq (Json.parse?_quote kind)]
  have others : ((Json.membersOf (("kind", Json.quote kind) :: ms)).filter fun m =>
      Json.text? m.1 != some "kind") = Json.membersOf ms := by
    have all_else : (Json.membersOf ms).filter (fun m => Json.text? m.1 != some "kind") =
        Json.membersOf ms := by
      rw [List.filter_eq_self]
      intro m hm
      obtain ⟨n, hn, rfl⟩ := List.mem_map.mp hm
      simpa using h n hn
    rw [← all_else]
    simp [Json.membersOf]
  simp only [split?, keys, Option.bind_eq_bind, Option.bind_some, only, others, Json.single?,
    Json.required, Json.string?, Json.text?_pieces]

/-- A document is read as the value that its members make. -/
theorem ofText?_objectText {ms : List (String × String)} (h : ∀ m ∈ ms, Json.Sound 1 m.2)
    (few : ms.length ≤ 126) :
    ofText? (Json.objectText ms) = ofValue? (.object (Json.membersOf ms)) := by
  have parsed := Json.parse?_objectText fun m hm => (h m hm).1
  obtain ⟨-, meaning, containers⟩ := Json.sound_objectText h
  rw [Json.valueOf_eq parsed] at meaning containers
  have shallow := (Json.depth_le _).trans containers
  have within : Json.depth (Json.Value.object (Json.membersOf ms)).tokens ≤ deepest := by
    unfold deepest
    omega
  simp [ofText?, Json.parse?_eq_some.mp parsed, within, meaning,
    Json.ofTokens?_eq_some.mpr rfl]

theorem ofText?_perm {ms ns : List (String × String)} (perm : ms.Perm ns)
    (h : ∀ m ∈ ns, Json.Sound 1 m.2) (few : ns.length ≤ 126) :
    ofText? (Json.objectText ms) = ofValue? (.object (Json.membersOf ns)) := by
  rw [ofText?_objectText (fun m hm => h m (perm.mem_iff.mp hm)) (perm.length_eq ▸ few)]
  exact ofValue?_perm (perm.map _)

/-- The sample rate of the format, if it has one, is read back from its digits. -/
def Rereads : Format → Prop
  | .audio f => Metering.Rereads f.sampleRate
  | .video _ => True

instance : (f : Format) → Decidable f.Rereads
  | .audio f => inferInstanceAs (Decidable (Metering.Rereads f.sampleRate))
  | .video _ => .isTrue trivial

/-- The members of an audio document have a meaning if the digits of its rate have one. -/
theorem sound_audio {f : AudioFormat} (h : Json.Sound 0 (Json.layout.text f.sampleRate)) :
    ∀ m ∈ (audio f).memberTexts, Json.Sound 1 m.2 := by
  have bits := f.sampleBits.toNat_lt
  have channels := f.channels.toNat_lt
  simp only [memberTexts, AudioFormat.memberTexts, List.forall_mem_cons, List.not_mem_nil,
    false_implies, implies_true, and_true]
  exact ⟨(Json.sound_quote _).mono (by decide), f.encoding.sound_toJson, h.mono (by decide),
    (Json.sound_natural (by omega)).mono (by decide),
    (Json.sound_natural (by omega)).mono (by decide), f.order.sound_toJson.mono (by decide),
    (Json.sound_bool _).mono (by decide)⟩

theorem sound_video (f : VideoFormat) : ∀ m ∈ (video f).memberTexts, Json.Sound 1 m.2 := by
  have width := f.width.toNat_lt
  have height := f.height.toNat_lt
  simp only [memberTexts, VideoFormat.memberTexts, List.forall_mem_cons, List.not_mem_nil,
    false_implies, implies_true, and_true]
  exact ⟨(Json.sound_quote _).mono (by decide), (Json.sound_quote _).mono (by decide),
    (Json.sound_natural (by omega)).mono (by decide),
    (Json.sound_natural (by omega)).mono (by decide)⟩

/-- What an audio document is read as, with the sample rate that its digits are read as. -/
theorem ofValue?_audio (f : AudioFormat) :
    ofValue? (.object (Json.membersOf (audio f).memberTexts)) =
      (Json.float? (Json.valueOf (Json.layout.text f.sampleRate))).map fun rate =>
        audio { f with sampleRate := rate } := by
  have split := split?_kind "audio" f.memberTexts (by
    simp [AudioFormat.memberTexts])
  simp only [memberTexts, ofValue?, split, Option.bind_eq_bind, Option.bind_some, if_true,
    f.ofValue?_memberTexts, Option.map_map]
  rfl

theorem ofValue?_video (f : VideoFormat) :
    ofValue? (.object (Json.membersOf (video f).memberTexts)) = some (video f) := by
  have split := split?_kind "video" f.memberTexts (by
    simp [VideoFormat.memberTexts])
  simp [memberTexts, ofValue?, split, f.ofValue?_memberTexts]

/-- A format is read back from the members of its document in any order. -/
theorem ofText?_members {f : Format} (h : f.Rereads) {ms : List (String × String)}
    (perm : ms.Perm f.memberTexts) : ofText? (Json.objectText ms) = some f := by
  cases f with
  | audio f =>
    obtain ⟨sound, rate⟩ := Metering.Rereads.sound h
    rw [ofText?_perm perm (sound_audio sound) (by decide : 7 ≤ 126), ofValue?_audio, rate]
    rfl
  | video f => rw [ofText?_perm perm (sound_video f) (by decide : 4 ≤ 126), ofValue?_video]

/-- What has null for its sample rate is read as no format. -/
theorem ofText?_null {f : AudioFormat} (h : f.sampleRate.isNaN ∨ f.sampleRate.isInf)
    {ms : List (String × String)} (perm : ms.Perm (audio f).memberTexts) :
    ofText? (Json.objectText ms) = none := by
  have parsed : Json.parse? "null" = some .null := by
    rw [Json.parse?_eq_some, Json.Value.tokens]
    decide
  have sound : Json.Sound 0 (Json.layout.text f.sampleRate) := by
    rw [layout_null h]
    exact Json.sound_of parsed (by decide) (by decide)
  rw [ofText?_perm perm (sound_audio sound) (by decide : 7 ≤ 126), ofValue?_audio, layout_null h,
    Json.valueOf_eq parsed]
  rfl

/-- Every format is read back from its document, and from every document that has the same
members in another order. So no two formats have one document. A sample rate that is no number is
written as null, and no format is read back. -/
theorem formats_reread :
    (∀ f : Format, f.Rereads → f.toJson = Json.objectText f.memberTexts ∧
      ofText? f.toJson = some f ∧
      ∀ ms, ms.Perm f.memberTexts → ofText? (Json.objectText ms) = some f) ∧
    (∀ f g : Format, f.Rereads → g.Rereads → f.toJson = g.toJson → f = g) ∧
    ∀ f : AudioFormat, f.sampleRate.isNaN ∨ f.sampleRate.isInf →
      Json.layout.text f.sampleRate = "null" ∧ ofText? (audio f).toJson = none ∧
      ∀ ms, ms.Perm (audio f).memberTexts → ofText? (Json.objectText ms) = none := by
  have reread : ∀ {f : Format}, f.Rereads → ofText? f.toJson = some f := by
    intro f h
    rw [f.toJson_eq]
    exact ofText?_members h (.refl _)
  refine ⟨fun f h => ⟨f.toJson_eq, reread h, fun ms => ofText?_members h⟩, fun f g hf hg same => ?_,
    fun f h => ⟨layout_null h, ?_, fun ms => ofText?_null h⟩⟩
  · have := (reread hf).symm.trans ((congrArg ofText? same).trans (reread hg))
    exact Option.some.inj this
  · rw [toJson_eq]
    exact ofText?_null h (.refl _)

/-- A format of telephone audio, with its kind behind its other members. -/
theorem formats_reread_telephone :
    ofText? (Json.objectText ((audio .telephone).memberTexts.drop 1 ++
      [("kind", Json.quote "audio")])) = some (audio .telephone) ∧
    ofText? (audio { AudioFormat.telephone with sampleRate := 0.0 / 0.0 }).toJson = none := by
  refine ⟨(formats_reread.1 (audio .telephone) (by decide +kernel)).2.2 _ ?_,
    (formats_reread.2.2 _ (.inl (by decide +kernel))).2.1⟩
  exact List.perm_append_comm

end Format

end Metering
