import Metering.Proofs.Protocol
/-!
In which order events arrive. A subscriber that drives a processor further from inside its callback
lets later events overtake the one that it is being told: those who come after it are told the later
events first. Everybody else is told everything in the order in which it happened.
-/

namespace Metering

variable {S α : Type} {app : Application S} {again : {β : Type} → Call β → Run S β}

/-- An event of a processor on its way: its place among the events of the processor, who has been
told, and who is left. -/
structure Round where
  place : Nat
  event : Event
  heard : List Subscriber
  left : List Subscriber

/-- A round on top of others, unless nobody is left. -/
def Round.over (r : Round) (rs : List Round) : List Round := if r.left = [] then rs else r :: rs

/-- Whoever comes next in the latest round is told. -/
def Round.next : List Round → List Round
  | ⟨n, e, heard, y :: left⟩ :: rs => Round.over ⟨n, e, heard ++ [y], left⟩ rs
  | rs => rs

def announcements (p : ProcessorId) : List Entry → Nat
  | [] => 0
  | .announced q _ :: journal => announcements p journal + if q = p then 1 else 0
  | _ :: journal => announcements p journal

/-- The rounds of a processor that are under way, the latest first. -/
def rounds (p : ProcessorId) : List Entry → List Round
  | [] => []
  | .announced q e :: journal =>
    if q = p then Round.over ⟨announcements p journal, e, [], audience p journal⟩ (rounds p journal)
    else rounds p journal
  | .told _ q _ :: journal => if q = p then Round.next (rounds p journal) else rounds p journal
  | _ :: journal => rounds p journal

/-- The events of a processor that a subscriber was told, as they came. Each has the place of the
round in which it was told. -/
def receipts (x : Subscriber) (p : ProcessorId) : List Entry → List (Nat × Event)
  | [] => []
  | .told y q e :: journal => receipts x p journal ++
    if q = p ∧ y = x then [((rounds p journal).head?.elim 0 (·.place), e)] else []
  | _ :: journal => receipts x p journal

/-- The events that a processor announced to a subscriber, in the order in which it did so. -/
def dues (x : Subscriber) (p : ProcessorId) : List Entry → List (Nat × Event)
  | [] => []
  | .announced q e :: journal => dues x p journal ++
    if q = p then List.replicate ((audience p journal).count x) (announcements p journal, e) else []
  | _ :: journal => dues x p journal

/-- A subscriber is still to be told of an event. -/
def Waits (x : Subscriber) (p : ProcessorId) (journal : List Entry) : Prop :=
  ∃ r ∈ rounds p journal, x ∈ r.left

/-- An event was announced while the subscriber was still to be told an earlier one. -/
def Overtaken (x : Subscriber) (p : ProcessorId) (journal : List Entry) : Prop :=
  ∃ later e earlier, journal = later ++ .announced p e :: earlier ∧ Waits x p earlier

/-- What a subscriber has been told, and then what it would be told if nothing else happened. -/
def outlook (x : Subscriber) (p : ProcessorId) (journal : List Entry) : List (Nat × Event) :=
  receipts x p journal ++
    (rounds p journal).flatMap fun r => List.replicate (r.left.count x) (r.place, r.event)

def Entry.concerns (p : ProcessorId) : Entry → Bool
  | .announced q _ | .told _ q _ => q == p
  | _ => false

section Other

variable {e : Entry} {p : ProcessorId} (other : e.concerns p = false) (journal : List Entry)
include other

theorem rounds_other : rounds p (e :: journal) = rounds p journal := by
  cases e <;> simp_all [rounds, Entry.concerns]

theorem announcements_other : announcements p (e :: journal) = announcements p journal := by
  cases e <;> simp_all [announcements, Entry.concerns]

theorem receipts_other (x : Subscriber) : receipts x p (e :: journal) = receipts x p journal := by
  cases e <;> simp_all [receipts, Entry.concerns]

theorem dues_other (x : Subscriber) : dues x p (e :: journal) = dues x p journal := by
  cases e <;> simp_all [dues, Entry.concerns]

theorem outlook_other (x : Subscriber) : outlook x p (e :: journal) = outlook x p journal := by
  rw [outlook, outlook, receipts_other other, rounds_other other]

end Other

theorem overtaken_cons {x : Subscriber} {p : ProcessorId} {e : Entry} {journal : List Entry} :
    Overtaken x p (e :: journal) ↔
      (∃ f, e = .announced p f ∧ Waits x p journal) ∨ Overtaken x p journal := by
  constructor
  · rintro ⟨later, f, earlier, eq, waits⟩
    cases later with
    | nil =>
      obtain ⟨rfl, rfl⟩ := List.cons.inj eq
      exact .inl ⟨f, rfl, waits⟩
    | cons _ later =>
      obtain ⟨rfl, rfl⟩ := List.cons.inj eq
      exact .inr ⟨later, f, earlier, rfl, waits⟩
  · rintro (⟨f, rfl, waits⟩ | ⟨later, f, earlier, rfl, waits⟩)
    · exact ⟨[], f, journal, rfl, waits⟩
    · exact ⟨e :: later, f, earlier, rfl, waits⟩

theorem overtaken_other {x : Subscriber} {p : ProcessorId} {e : Entry} {journal : List Entry}
    (other : ∀ f, e ≠ .announced p f) : Overtaken x p (e :: journal) ↔ Overtaken x p journal := by
  rw [overtaken_cons]
  exact or_iff_right fun ⟨f, eq, _⟩ => other f eq

/-- The processor tells its events in turn: whoever is told is the next one in the latest round. -/
inductive InTurn (p : ProcessorId) : List Entry → Prop
  | start : InTurn p []
  | announced (e : Event) {journal : List Entry} (h : InTurn p journal) :
      InTurn p (.announced p e :: journal)
  | told {y : Subscriber} {e : Event} {n : Nat} {heard left : List Subscriber} {rs : List Round}
      {journal : List Entry} (next : rounds p journal = ⟨n, e, heard, y :: left⟩ :: rs)
      (h : InTurn p journal) : InTurn p (.told y p e :: journal)
  | other {e : Entry} {journal : List Entry} (other : e.concerns p = false)
      (h : InTurn p journal) : InTurn p (e :: journal)

theorem told_eq {x : Subscriber} {p : ProcessorId} {e : Event} {us ts : List Telling}
    (h : told x p e us = some ts) :
    ∃ left rest, us = ⟨p, e, x :: left⟩ :: rest ∧ ts = Telling.over ⟨p, e, left⟩ rest := by
  unfold told at h
  split at h
  case h_1 q f y left rest =>
    split at h
    case isTrue same =>
      obtain ⟨rfl, rfl, rfl⟩ := same
      exact ⟨left, rest, rfl, (Option.some.inj h).symm⟩
    case isFalse => cases h
  case h_2 => cases h

def Matches (p : ProcessorId) (rs : List Round) (ts : List Telling) : Prop :=
  rs.map (fun r => (r.event, r.left)) =
    (ts.filter (·.processor = p)).map fun t => (t.event, t.left)

section Matches

variable {p q : ProcessorId} {e : Event} {left : List Subscriber} {rs : List Round}
variable {ts : List Telling}

theorem Matches.over (h : Matches p rs ts) (n : Nat) (heard : List Subscriber) :
    Matches p (Round.over ⟨n, e, heard, left⟩ rs) (Telling.over ⟨p, e, left⟩ ts) := by
  unfold Matches Round.over Telling.over
  split
  · exact h
  · simpa [Matches] using h

theorem Matches.over_other (h : Matches p rs ts) (other : q ≠ p) :
    Matches p rs (Telling.over ⟨q, e, left⟩ ts) := by
  unfold Telling.over
  split
  · exact h
  · simpa [Matches, other] using h

theorem Matches.head (h : Matches p rs (⟨p, e, left⟩ :: ts)) :
    ∃ n heard rest, rs = ⟨n, e, heard, left⟩ :: rest ∧ Matches p rest ts := by
  unfold Matches at h
  rw [List.filter_cons_of_pos (by simp), List.map_cons] at h
  obtain ⟨⟨n, f, heard, left'⟩, rest, rfl, same, matched⟩ := List.map_eq_cons_iff.mp h
  simp only [Prod.mk.injEq] at same
  obtain ⟨rfl, rfl⟩ := same
  exact ⟨n, heard, rest, rfl, matched⟩

/-- The rounds of a processor are its tellings under way. -/
theorem Matches.of_underWay {journal : List Entry} (h : underWay journal = some ts) :
    Matches p (rounds p journal) ts := by
  -- Both are read off the journal from its beginning. An entry about another processor leaves the
  -- rounds alone.
  induction journal generalizing ts with
  | nil =>
    obtain rfl : [] = ts := by simpa [underWay] using h
    rfl
  | cons entry journal ih =>
    cases entry with
    | announced q e =>
      obtain ⟨before, now, rfl⟩ := Option.map_eq_some_iff.mp h
      unfold rounds
      split
      case isTrue same => exact same ▸ (ih now).over _ _
      case isFalse other => exact (ih now).over_other other
    | told y q e =>
      obtain ⟨before, now, next⟩ := Option.bind_eq_some_iff.mp h
      obtain ⟨left, rest, rfl, rfl⟩ := told_eq next
      unfold rounds
      split
      case isTrue same =>
        subst same
        obtain ⟨n, heard, rs, eq, matched⟩ := (ih now).head
        rw [eq]
        exact matched.over _ _
      case isFalse other =>
        have matched : Matches p (rounds p journal) rest := by
          simpa [Matches, other] using ih now
        exact matched.over_other other
    | _ => exact ih h

end Matches

theorem InTurn.of_underWay {p : ProcessorId} {journal : List Entry} {ts : List Telling}
    (h : underWay journal = some ts) : InTurn p journal := by
  induction journal generalizing ts with
  | nil => exact .start
  | cons entry journal ih =>
    cases entry with
    | announced q e =>
      obtain ⟨before, now, -⟩ := Option.map_eq_some_iff.mp h
      by_cases here : q = p
      · exact here ▸ .announced e (here ▸ ih now)
      · exact .other (by simp [Entry.concerns, here]) (ih now)
    | told y q e =>
      obtain ⟨before, now, next⟩ := Option.bind_eq_some_iff.mp h
      by_cases here : q = p
      · subst here
        obtain ⟨left, rest, rfl, -⟩ := told_eq next
        obtain ⟨n, heard, rs, eq, -⟩ := (Matches.of_underWay now).head
        exact .told eq (ih now)
      · exact .other (by simp [Entry.concerns, here]) (ih now)
    | _ => exact .other rfl (ih h)

section Rounds

variable {x y : Subscriber} {p : ProcessorId} {e : Event} {n : Nat} {heard left : List Subscriber}
variable {r : Round} {rs : List Round} {journal : List Entry}

theorem mem_over (member : r ∈ Round.over ⟨n, e, heard, left⟩ rs) :
    r = ⟨n, e, heard, left⟩ ∨ r ∈ rs := by
  unfold Round.over at member
  split at member
  · exact .inr member
  · exact List.mem_cons.mp member

theorem rounds_announced (p : ProcessorId) (e : Event) (journal : List Entry) :
    rounds p (.announced p e :: journal) =
      Round.over ⟨announcements p journal, e, [], audience p journal⟩ (rounds p journal) := by
  simp [rounds]

theorem rounds_told (here : rounds p journal = ⟨n, e, heard, y :: left⟩ :: rs) :
    rounds p (.told y p e :: journal) = Round.over ⟨n, e, heard ++ [y], left⟩ rs := by
  simp [rounds, here, Round.next]

theorem flatMap_over (x : Subscriber) :
    ((Round.over ⟨n, e, heard, left⟩ rs).flatMap fun r =>
        List.replicate (r.left.count x) (r.place, r.event)) =
      List.replicate (left.count x) (n, e) ++
        rs.flatMap fun r => List.replicate (r.left.count x) (r.place, r.event) := by
  unfold Round.over
  split
  case isTrue nobody => simp [show left = [] from nobody]
  case isFalse => rfl

/-- Telling an event makes come true what was to be expected. -/
theorem outlook_told (x : Subscriber)
    (here : rounds p journal = ⟨n, e, heard, y :: left⟩ :: rs) :
    outlook x p (.told y p e :: journal) = outlook x p journal := by
  rw [outlook, outlook, rounds_told here, flatMap_over, receipts, here]
  by_cases same : y = x
  · simp [same, List.replicate_succ]
  · simp [same]

/-- An event that is announced will be told before those that are still on their way. -/
theorem outlook_announced (x : Subscriber) (p : ProcessorId) (e : Event) (journal : List Entry) :
    outlook x p (.announced p e :: journal) = receipts x p journal ++
      (List.replicate ((audience p journal).count x) (announcements p journal, e) ++
        (rounds p journal).flatMap fun r =>
          List.replicate (r.left.count x) (r.place, r.event)) := by
  rw [outlook, rounds_announced, flatMap_over]
  rfl

theorem waits_iff : Waits x p journal ↔ ((rounds p journal).flatMap fun r =>
    List.replicate (r.left.count x) (r.place, r.event)) ≠ [] := by
  simp [Waits, List.flatMap_eq_nil_iff, List.count_eq_zero]

/-- Subscribers stay, and more come after them. -/
theorem audience_grows (entry : Entry) (p : ProcessorId) (journal : List Entry) :
    audience p journal <+: audience p (entry :: journal) := by
  cases entry with
  | subscribed q x =>
    rw [show audience p (.subscribed q x :: journal) =
      if q = p then audience p journal ++ [x] else audience p journal from rfl]
    split
    · exact List.prefix_append _ _
    · exact List.prefix_rfl
  | _ => exact List.prefix_rfl

theorem InTurn.suffix {later : List Entry} (h : InTurn p (later ++ journal)) :
    InTurn p journal := by
  induction later with
  | nil => exact h
  | cons e later ih =>
    cases h with
    | announced e h => exact ih h
    | told next h => exact ih h
    | other other h => exact ih h

/-- The first subscribers take part in a round, in the order in which they subscribed. -/
theorem audience_of_round (h : InTurn p journal) :
    ∀ r ∈ rounds p journal, r.heard ++ r.left <+: audience p journal := by
  induction h with
  | start => simp [rounds]
  | @announced e journal h ih =>
    intro r member
    rw [rounds_announced] at member
    obtain rfl | member := mem_over member
    · exact List.prefix_rfl
    · exact ih r member
  | @told y e n heard left rs journal next h ih =>
    intro r member
    rw [rounds_told next] at member
    obtain rfl | member := mem_over member
    · rw [List.append_assoc]
      exact ih ⟨n, e, heard, y :: left⟩ (next ▸ List.mem_cons_self)
    · exact ih r (next ▸ List.mem_cons_of_mem _ member)
  | @other entry journal other h ih =>
    intro r member
    rw [rounds_other other] at member
    exact (ih r member).trans (audience_grows entry p journal)

/-- Places are given away in order. -/
theorem outlook_places (h : InTurn p journal) :
    ∀ receipt ∈ outlook x p journal, receipt.1 < announcements p journal := by
  induction h with
  | start => simp [outlook, receipts, rounds]
  | @announced e journal h ih =>
    intro receipt member
    have more : announcements p (.announced p e :: journal) = announcements p journal + 1 := by
      simp [announcements]
    rw [outlook_announced] at member
    rw [more]
    obtain member | member := List.mem_append.mp member
    · exact Nat.lt_succ_of_lt (ih receipt (List.mem_append_left _ member))
    obtain member | member := List.mem_append.mp member
    · rw [List.eq_of_mem_replicate member]
      exact Nat.lt_succ_self _
    · exact Nat.lt_succ_of_lt (ih receipt (List.mem_append_right _ member))
  | @told y e n heard left rs journal next h ih =>
    rw [outlook_told x next]
    exact ih
  | @other entry journal other h ih =>
    rw [outlook_other other, announcements_other other]
    exact ih

theorem dues_announced (x : Subscriber) (p : ProcessorId) (e : Event) (journal : List Entry) :
    dues x p (.announced p e :: journal) = dues x p journal ++
      List.replicate ((audience p journal).count x) (announcements p journal, e) := by
  simp [dues]

/-- A subscriber is told all that is due to it and nothing else. -/
theorem outlook_perm (h : InTurn p journal) : (outlook x p journal).Perm (dues x p journal) := by
  -- An announcement adds to what is due and to what is left to tell, but at different ends.
  induction h with
  | start => exact .refl _
  | @announced e journal h ih =>
    rw [outlook_announced, dues_announced, ← List.append_assoc]
    refine .trans ?_ (ih.append_right _)
    rw [outlook, List.append_assoc, List.append_assoc]
    exact .append_left _ List.perm_append_comm
  | @told y e n heard left rs journal next h ih =>
    rw [outlook_told x next]
    exact ih
  | @other entry journal other h ih =>
    rw [outlook_other other, dues_other other]
    exact ih

/-- A subscriber is told what is due to it in the order in which it happened, exactly if nothing was
announced while it was still to be told something else. -/
theorem outlook_eq_iff (h : InTurn p journal) :
    outlook x p journal = dues x p journal ↔ ¬Overtaken x p journal := by
  induction h with
  | start => simp [outlook, receipts, rounds, dues, Overtaken]
  | @announced e journal h ih =>
    rw [outlook_announced, dues_announced, overtaken_cons]
    by_cases waits : Waits x p journal
    · refine iff_of_false (fun same => ?_) fun calm => calm (.inl ⟨e, rfl, waits⟩)
      obtain ⟨r, member, left⟩ := waits
      have here : x ∈ audience p journal :=
        (audience_of_round h r member).subset (List.mem_append_right _ left)
      obtain ⟨k, count⟩ := Nat.exists_eq_succ_of_ne_zero
        (Nat.ne_of_gt (List.count_pos_iff.mpr here))
      have pending := waits_iff.mp ⟨r, member, left⟩
      -- The last that the subscriber will be told is an earlier event; the last due is this one.
      obtain ⟨before, z, split⟩ := (List.eq_nil_or_concat _).resolve_left pending
      rw [count, List.replicate_succ', split] at same
      simp only [← List.append_assoc, List.concat_eq_append] at same
      obtain ⟨-, last⟩ := List.append_inj' same rfl
      have earlier : z ∈ outlook x p journal := List.mem_append_right _ (split ▸ by simp)
      rw [List.cons.inj last |>.1] at earlier
      exact absurd (outlook_places h _ earlier) (Nat.lt_irrefl _)
    · have none : ((rounds p journal).flatMap fun r =>
          List.replicate (r.left.count x) (r.place, r.event)) = [] :=
        not_not.mp (mt waits_iff.mpr waits)
      have whole : outlook x p journal = receipts x p journal := by
        rw [outlook, none, List.append_nil]
      rw [none, List.append_nil, List.append_left_inj, ← whole, ih]
      simp [waits]
  | @told y e n heard left rs journal next h ih =>
    rw [outlook_told x next, overtaken_other (by simp)]
    exact ih
  | @other entry journal other h ih =>
    have never (f : Event) : entry ≠ .announced p f := by
      rintro rfl
      simp [Entry.concerns] at other
    rw [outlook_other other, dues_other other, overtaken_other never]
    exact ih

end Rounds

/-- The telling that an announcement asks for at once. -/
def pending : List Entry → Option Entry
  | .announced p e :: journal => (audience p journal).head?.map fun y => .told y p e
  | _ => none

/-- Between an announcement and its first telling nothing else happens. -/
def Prompt : List Entry → Prop
  | [] => True
  | e :: journal => (∀ next, pending journal = some next → e = next) ∧ Prompt journal

/-- Every announcement has reached its first subscriber. -/
structure Punctual (journal : List Entry) : Prop where
  prompt : Prompt journal
  done : pending journal = none

section Punctual

variable {x : Subscriber} {p : ProcessorId} {e : Event} {entry : Entry}
variable {later earlier journal : List Entry}

theorem Punctual.cons (h : Punctual journal) (done : pending (entry :: journal) = none) :
    Punctual (entry :: journal) where
  prompt := ⟨fun _ asked => absurd (h.done.symm.trans asked) nofun, h.prompt⟩
  done := done

theorem Prompt.suffix (h : Prompt (later ++ journal)) : Prompt journal := by
  induction later with
  | nil => exact h
  | cons e later ih => exact ih h.2

theorem Prompt.of_announced (h : Prompt (later ++ .announced p e :: earlier)) :
    Punctual earlier := by
  obtain ⟨first, prompt⟩ := h.suffix
  refine ⟨prompt, Option.eq_none_iff_forall_ne_some.mpr fun entry asked => ?_⟩
  obtain rfl := first entry asked
  unfold pending at asked
  split at asked
  · simp at asked
  · cases asked

/-- In a round that is not just beginning someone has been told. -/
theorem Prompt.rounds (h : Prompt journal) (turn : InTurn p journal) :
    (∀ r ∈ (rounds p journal).tail, r.heard ≠ []) ∧
      ((∀ y e, pending journal ≠ some (.told y p e)) → ∀ r ∈ rounds p journal, r.heard ≠ []) := by
  -- By the entries. Only a round that has just been announced has told no one yet, and then the
  -- next entry that is pending is of this processor.
  induction turn with
  | start => simp [Metering.rounds]
  | @announced e journal turn ih =>
    have first : Prompt ([] ++ .announced p e :: journal) := h
    have done := (Prompt.of_announced first).done
    have all := (ih h.2).2 (by simp [done])
    rw [rounds_announced, Round.over]
    split
    case isTrue => exact ⟨fun r member => all r (List.mem_of_mem_tail member), fun _ => all⟩
    case isFalse someone =>
      refine ⟨all, fun calm => ?_⟩
      obtain ⟨y, ys, first⟩ := List.exists_cons_of_ne_nil someone
      have asked : pending (.announced p e :: journal) = some (.told y p e) := by
        simp only [pending]
        rw [show audience p journal = y :: ys from first]
        rfl
      exact absurd asked (calm y e)
  | @told y e n heard left rs journal next turn ih =>
    have rest : ∀ r ∈ rs, r.heard ≠ [] := by
      simpa [next] using (ih h.2).1
    have all : ∀ r ∈ Metering.rounds p (.told y p e :: journal), r.heard ≠ [] := by
      intro r member
      rw [rounds_told next] at member
      obtain rfl | member := mem_over member
      · simp
      · exact rest r member
    exact ⟨fun r member => all r (List.mem_of_mem_tail member), fun _ => all⟩
  | @other entry journal other turn ih =>
    have calm (y : Subscriber) (e : Event) : pending journal ≠ some (.told y p e) := by
      intro asked
      rw [h.1 _ asked] at other
      simp [Entry.concerns] at other
    have all := (ih h.2).2 calm
    rw [rounds_other other]
    exact ⟨fun r member => all r (List.mem_of_mem_tail member), fun _ => all⟩

end Punctual

/-- Every telling that began has come to its end, and every announcement reached its first
subscriber at once. -/
structure Heeds (w w' : World S) : Prop where
  attends : Attends w w'
  punctual : ∀ ts, w.Amid ts → Punctual w.journal → Punctual w'.journal

def Unwritten (w w' : World S) : Prop := w'.journal = w.journal

theorem Unwritten.flow : Flow (Unwritten (S := S)) := ⟨fun _ => rfl, fun first second =>
  Eq.trans second first⟩

theorem Unwritten.modifyProcessor (p : ProcessorId) (f : Processor → Processor) :
    Keeps (S := S) Unwritten (Run.modifyProcessor p f) := fun _ =>
  ensures_modifyProcessor.mpr rfl

namespace Heeds

variable {w : World S}

theorem flow : Flow (Heeds (S := S)) where
  refl w := ⟨Attends.flow.refl w, fun _ _ => id⟩
  trans first second := ⟨Attends.flow.trans first.attends second.attends,
    fun ts now was => second.punctual ts (first.attends ts now) (first.punctual ts now was)⟩

theorem of_unwritten {m : Run S α} (attends : Keeps Attends m) (same : Keeps Unwritten m) :
    Keeps Heeds m := fun w a w' run =>
  ⟨attends w a w' run, fun _ _ was => by rwa [show w'.journal = _ from same w a w' run]⟩

theorem record {e : Entry} (attends : Keeps (S := S) Attends (Run.record e))
    (done : ∀ journal, pending (e :: journal) = none) : Keeps (S := S) Heeds (Run.record e) :=
  fun w => ensures_record.mpr
    ⟨ensures_record.mp (attends w), fun _ _ was => was.cons (done w.journal)⟩

theorem record_silent {e : Entry} (silent : e.isSilent = true) :
    Keeps (S := S) Heeds (Run.record e) :=
  record (Attends.record silent) fun _ => by cases e <;> first | rfl | cases silent

theorem newProcessor {x : Processor} (fresh : x.subscribers = []) :
    Keeps (S := S) Heeds (Run.newProcessor x) :=
  of_unwritten (Attends.newProcessor fresh) fun w a w' run => by cases run; rfl

theorem subscribe (q : ProcessorId) (x : Subscriber) : Keeps (S := S) Heeds (subscribe q x) := by
  intro w a w' run
  refine ⟨Attends.subscribe q x w a w' run, fun _ _ was => ?_⟩
  have written : Ensures (Metering.subscribe q x) w fun _ w' =>
      w'.journal = .subscribed q x :: w.journal := by
    simp [Metering.subscribe]
  rw [written a w' run]
  exact was.cons rfl

theorem plain : Plain (Heeds (S := S)) where
  toFlow := flow
  own w s := ⟨Attends.plain.own w s, fun _ _ => id⟩
  aside e aside := record_silent (by cases e <;> first | rfl | cases aside)
  effects w es last := ⟨Attends.plain.effects w es last, fun _ _ => id⟩
  story w page := ⟨Attends.plain.story w page, fun _ _ => id⟩
  mark := of_unwritten Attends.plain.mark fun _ => ensures_mark.mpr rfl
  sessions w ss := ⟨Attends.plain.sessions w ss, fun _ _ => id⟩
  newProcessor _ _ := newProcessor rfl
  newExternal _ _ _ := newProcessor rfl
  subscribe := subscribe
  setChain p i chain := of_unwritten (Attends.plain.setChain p i chain)
    (Unwritten.flow.setChain (fun q _ => .modifyProcessor q _) p i chain)
  setEnabled q i enabled :=
    of_unwritten (Attends.plain.setEnabled q i enabled) (.modifyProcessor q _)
  counted q := of_unwritten (Attends.plain.counted q) (.modifyProcessor q _)

/-- Those who are left are told one after the other. -/
theorem each (answers : Answers Heeds again) (p : ProcessorId) (e : Event) (xs : List Subscriber)
    {ts : List Telling} (now : w.Amid (Telling.over ⟨p, e, xs⟩ ts))
    (prompt : Prompt w.journal)
    (next : pending w.journal = none ∨ pending w.journal = xs.head?.map fun y => .told y p e) :
    Ensures (Run.each (deliver app again p e) xs) w fun _ w' => Punctual w'.journal := by
  induction xs generalizing w with
  | nil => exact ensures_pure.mpr ⟨prompt, by simpa using next⟩
  | cons x xs ih =>
    have amid : (w.record (.told x p e)).Amid (Telling.over ⟨p, e, xs⟩ ts) := by
      refine ⟨now.enrolled, ?_⟩
      simp [underWay, now.underWay, Telling.over, told]
    have punctual : Punctual (w.record (.told x p e)).journal := by
      refine ⟨⟨fun next' asked => ?_, prompt⟩, rfl⟩
      obtain none | some := next
      · rw [none] at asked
        cases asked
      · exact (Option.some.inj (some.symm.trans asked)).symm ▸ rfl
    have delivers : Ensures (deliver app again p e x) w fun _ w' =>
        w'.Amid (Telling.over ⟨p, e, xs⟩ ts) ∧ Punctual w'.journal := by
      apply Ensures.record
      exact (plain.hear answers p e x _).mono fun _ _ heard =>
        ⟨heard.attends _ amid, heard.punctual _ amid punctual⟩
    refine Ensures.bind delivers fun _ w' told => ?_
    exact ih told.1 told.2.prompt (.inl told.2.done)

theorem emit (again : {β : Type} → Call β → Run S β) (answers : Answers Heeds again)
    (p : ProcessorId) (e : Event) : Keeps Heeds (emit app again p e) := by
  have attending : Answers Attends again := fun c w => (answers c w).mono fun _ _ h => h.attends
  refine fun w a w' run => ⟨Attends.emit again attending p e w a w' run, fun ts now was => ?_⟩
  suffices h : Ensures (Metering.emit app again p e) w fun _ w' => Punctual w'.journal from
    h a w' run
  apply Ensures.record
  apply Ensures.processor
  intro x known
  have begun : (w.record (.announced p e)).Amid (Telling.over ⟨p, e, x.subscribers⟩ ts) := by
    refine ⟨now.enrolled, ?_⟩
    simp [underWay, now.underWay, now.enrolled, ← Rig.subscribers_of known]
  refine each answers p e x.subscribers begun ⟨by simp [was.done], was.prompt⟩ (.inr ?_)
  rw [World.record_journal, pending, now.enrolled]
  exact congrArg (fun xs => xs.head?.map fun y => Entry.told y p e) (Rig.subscribers_of known)

theorem steady : Steady app (fun _ => True) (Heeds (S := S)) where
  toPlain := plain
  holding q _ := flow.holding fun _ =>
    of_unwritten (Attends.modify q fun _ => rfl) (.modifyProcessor q _)
  opened _ := record_silent rfl
  closed _ := record_silent rfl
  setOpen q _ _ := of_unwritten (Attends.modify q fun _ => rfl) (.modifyProcessor q _)
  moveTo q _ _ := flow.bind (flow.processor q) fun _ =>
    flow.bind (of_unwritten (Attends.modify q fun _ => rfl) (.modifyProcessor q _)) fun _ =>
      record_silent rfl
  readied _ _ _ := record_silent rfl
  lockTracks q _ := of_unwritten (Attends.modify q fun _ => rfl) (.modifyProcessor q _)
  emit again answers q _ := emit again answers q

end Heeds

/-- Every transition of a processor announces one event, and a subscriber is told each event that
is announced to it once. They reach it in the order of the transitions exactly if none was announced
while it was still to be told another. That takes someone who subscribed before it and was already
told the other: it is from inside a callback that the processor was driven further. -/
theorem events_in_order_iff (quiet : app.QuietPlugIns) {depth : Nat} {program : Program S α}
    {s : S} {a : α} {w : World S}
    (run : program.run (perform app depth) { app := s } = .ok (a, w)) {p : ProcessorId}
    (internal : w.rig.isExternal p = false) (x : Subscriber) :
    Course False .unrealized (acts p w.journal) (w.rig.phase p) ∧
    (receipts x p w.journal).Perm (dues x p w.journal) ∧
    (receipts x p w.journal = dues x p w.journal ↔ ¬Overtaken x p w.journal) ∧
    ∀ later e earlier, w.journal = later ++ .announced p e :: earlier →
      ∀ r ∈ rounds p earlier, x ∈ r.left →
        r.heard ≠ [] ∧ r.heard ++ r.left <+: audience p earlier := by
  have amid : World.Amid { app := s } [] := ⟨fun p => rfl, rfl⟩
  have heeds := (Heeds.steady.lawful fun _ => trivial).program depth program _ a w run
  have now := (heeds.attends [] amid).underWay
  have turn : InTurn p w.journal := .of_underWay now
  -- When the program has ended nothing is under way, so that the outlook is what was received.
  have nobody : rounds p w.journal = [] := by
    simpa [Matches] using Matches.of_underWay (p := p) now
  have whole : outlook x p w.journal = receipts x p w.journal := by
    rw [outlook, nobody, List.flatMap_nil, List.append_nil]
  refine ⟨?_, whole ▸ outlook_perm turn, whole ▸ outlook_eq_iff turn, ?_⟩
  · have lawful : Lawful app (Proceeds (S := S) False p) := Proceeds.lawful (.inr quiet) p
    obtain ⟨v, acts, course⟩ := (lawful.program depth program _ a w run).leads.course internal
    rw [show Metering.acts p w.journal = v from acts]
    exact course
  · intro later e earlier eq r member left
    rw [eq] at turn
    have before : InTurn p earlier := by
      rw [List.append_cons] at turn
      exact turn.suffix
    have punctual : Punctual w.journal := heeds.punctual [] amid ⟨trivial, rfl⟩
    have first : Punctual earlier := Prompt.of_announced (eq ▸ punctual.prompt)
    have heard := (first.prompt.rounds before).2 (by simp [first.done])
    exact ⟨heard r member, audience_of_round before r member⟩

/-- The second watcher learns that the processor is realized before it learns that it is configured,
because the first one realizes it at once. -/
theorem events_overtaken : Application.hasty.QuietPlugIns ∧
    ∃ w, Program.driven.run (perform Application.hasty 4) { app := () } = .ok ((), w) ∧
      w.rig.isExternal 0 = false ∧
      dues (.watcher 1) 0 w.journal = [(0, .configured), (1, .realized), (2, .closed)] ∧
      receipts (.watcher 1) 0 w.journal = [(1, .realized), (0, .configured), (2, .closed)] :=
  ⟨⟨fun _ _ => trivial, fun _ => trivial, fun _ => trivial⟩, _, rfl, rfl, rfl, rfl⟩

theorem events_in_order_iff_hasty : Application.hasty.QuietPlugIns ∧
    ∃ w, Program.driven.run (perform Application.hasty 4) { app := () } = .ok ((), w) ∧
      w.rig.isExternal 0 = false ∧ ¬Overtaken (.watcher 0) 0 w.journal ∧
      Overtaken (.watcher 1) 0 w.journal := by
  have quiet : Application.hasty.QuietPlugIns :=
    ⟨fun _ _ => trivial, fun _ => trivial, fun _ => trivial⟩
  have ends : ∃ w, Program.driven.run (perform Application.hasty 4) { app := () } = .ok ((), w) ∧
      w.rig.isExternal 0 = false ∧
      receipts (.watcher 0) 0 w.journal = dues (.watcher 0) 0 w.journal ∧
      receipts (.watcher 1) 0 w.journal ≠ dues (.watcher 1) 0 w.journal :=
    ⟨_, rfl, rfl, rfl, by decide⟩
  obtain ⟨w, run, internal, inOrder, outOfOrder⟩ := ends
  refine ⟨quiet, w, run, internal, ?_, ?_⟩
  · exact (events_in_order_iff quiet run internal (.watcher 0)).2.2.1.mp inOrder
  · have iff := (events_in_order_iff quiet run internal (.watcher 1)).2.2.1
    exact not_not.mp (mt iff.mpr outOfOrder)

end Metering
