/-
OperatorGrammar/Proofs/ListSeparation.lean

How the elements of a list may be separated.

The rules count slots and commas.  Here they are compared with the commas and
elements themselves, in the order in which they come.

* A call is accepted when there is no comma at all, or exactly one between any two
  arguments (`ArgumentEvents`).
* In an array a comma that follows no element leaves a hole (`slotsOf`).  Behind
  its first comma no two elements may stand side by side (`crowded`).  In front of
  it several may, but the first comma makes one slot of them, and all but the first
  element are lost.

So an array that starts with elements side by side and then has a comma is
accepted with elements missing, while a call is refused there.

Main results: `Dialect.arguments_decided`, `Dialect.elements_decided`.
-/
import OperatorGrammar.Proofs.ListRun
import OperatorGrammar.Proofs.Sameness
import OperatorGrammar.Proofs.Spelling
import OperatorGrammar.Proofs.Termination

namespace OperatorGrammar

variable {s : Slots} {events : List SlotEvent} {items : List (Option Expr)}

/-- Elements side by side, without commas. -/
def spaced (es : List Expr) : List SlotEvent :=
  es.map .filled

/-! ### Arguments of a call -/

/-- Each element with a comma in front. -/
def followed (es : List Expr) : List SlotEvent :=
  es.flatMap fun e => [.comma, .filled e]

/-- What may stand between the parentheses of a call, and its arguments. -/
inductive ArgumentEvents : List SlotEvent → List Expr → Prop
  /-- No comma at all. -/
  | spaced (es) : ArgumentEvents (spaced es) es
  /-- At least two arguments, and one comma between any two. -/
  | separated (e e' es) : ArgumentEvents (.filled e :: followed (e' :: es)) (e :: e' :: es)

namespace Slots

/-- Behind an element, more of them may follow, each with its comma. -/
theorem outcome_followed (hsize : s.items.size = s.commas + 1) (es : List Expr) :
    s.outcome .arguments (followed es) = some (s.items.toList ++ es.map some) := by
  induction es generalizing s with
  | nil =>
    have hclosable : s.closable .arguments := by simp [closable, hsize]
    rw [followed, List.flatMap_nil, outcome, if_pos hclosable, List.map_nil, List.append_nil]
  | cons e es ih =>
    let next : Slots := ⟨s.items, s.commas + 1⟩
    have hcomma : s.comma .arguments = some next := if_pos hsize.symm
    have haccepts : next.accepts := by simp [accepts, next, hsize]
    have hfill : (next.fill e).items.size = (next.fill e).commas + 1 := by
      simp [fill, next, hsize]
    have hcons : followed (e :: es) = .comma :: .filled e :: followed es := rfl
    rw [hcons, outcome, hcomma, Option.bind_some, outcome, if_pos haccepts, ih hfill]
    simp [fill, next]

/-- Without a comma, elements are taken as they come. -/
theorem outcome_spaced (kind : ListKind) (hcommas : s.commas = 0) (es : List Expr)
    (events : List SlotEvent) :
    s.outcome kind (spaced es ++ events)
      = outcome kind ⟨s.items ++ (es.map some).toArray, 0⟩ events := by
  induction es generalizing s with
  | nil =>
    have hs : s = ⟨s.items ++ (List.map some ([] : List Expr)).toArray, 0⟩ := by
      rw [← hcommas]
      simp
    rw [← hs]
    rfl
  | cons e es ih =>
    have haccepts : s.accepts := by simp [accepts, hcommas]
    have hcons : spaced (e :: es) ++ events = .filled e :: (spaced es ++ events) := rfl
    have hfill : (s.fill e).commas = 0 := hcommas
    rw [hcons, outcome, if_pos haccepts, ih hfill]
    simp [fill]

/-- Commas and the arguments of a call take turns, once there is a comma. -/
theorem followed_of_outcome : ∀ {s : Slots} {events : List SlotEvent},
    (∀ e more, events = .filled e :: more → s.commas ≠ 0) → s.items.size = s.commas + 1 →
      s.outcome .arguments events = some items →
        ∃ es, events = followed es ∧ items = s.items.toList ++ es.map some
  | s, [], _, _, h => by
    rw [outcome] at h
    split at h
    · cases h
      exact ⟨[], rfl, by simp⟩
    · cases h
  | s, .filled e :: _, hcommas, hsize, h => by
    have haccepts : ¬ s.accepts := by simp [accepts, hcommas e _ rfl, hsize]
    rw [outcome, if_neg haccepts] at h
    cases h
  | s, [.comma], _, hsize, h => by
    have hcomma : s.comma .arguments = some ⟨s.items, s.commas + 1⟩ := if_pos hsize.symm
    have hclosable : ¬ closable .arguments ⟨s.items, s.commas + 1⟩ := by simp [closable, hsize]
    rw [outcome, hcomma, Option.bind_some, outcome, if_neg hclosable] at h
    cases h
  | s, .comma :: .comma :: _, _, hsize, h => by
    have hcomma : s.comma .arguments = some ⟨s.items, s.commas + 1⟩ := if_pos hsize.symm
    have hrefused : comma .arguments ⟨s.items, s.commas + 1⟩ = none := by simp [comma, hsize]
    rw [outcome, hcomma, Option.bind_some, outcome, hrefused] at h
    cases h
  | s, .comma :: .filled e :: events, _, hsize, h => by
    let next : Slots := ⟨s.items, s.commas + 1⟩
    have hcomma : s.comma .arguments = some next := if_pos hsize.symm
    have haccepts : next.accepts := by simp [accepts, next, hsize]
    have hfill : (next.fill e).items.size = (next.fill e).commas + 1 := by
      simp [fill, next, hsize]
    have hne : (next.fill e).commas ≠ 0 := Nat.succ_ne_zero _
    rw [outcome, hcomma, Option.bind_some, outcome, if_pos haccepts] at h
    obtain ⟨es, rfl, rfl⟩ := followed_of_outcome (fun _ _ _ => hne) hfill h
    exact ⟨e :: es, rfl, by simp [fill, next]⟩

end Slots

/-- In front of the first comma, if there is one, elements stand side by side. -/
theorem exists_spaced (events : List SlotEvent) :
    ∃ es, events = spaced es ∨ ∃ more, events = spaced es ++ .comma :: more := by
  induction events with
  | nil => exact ⟨[], .inl rfl⟩
  | cons event events ih =>
    cases event with
    | comma => exact ⟨[], .inr ⟨events, rfl⟩⟩
    | filled e =>
      obtain ⟨es, rfl | ⟨more, rfl⟩⟩ := ih
      · exact ⟨e :: es, .inl rfl⟩
      · exact ⟨e :: es, .inr ⟨more, rfl⟩⟩

theorem Slots.outcome_empty_spaced (kind : ListKind) (es : List Expr) :
    Slots.empty.outcome kind (spaced es) = some (es.map some) := by
  have hclosable : closable kind ⟨(es.map some).toArray, 0⟩ := by cases kind <;> rfl
  have houtcome := outcome_spaced (s := .empty) kind rfl es []
  rw [List.append_nil] at houtcome
  rw [houtcome]
  simpa [outcome, empty] using hclosable

/-- What may stand between the parentheses is what the rules for calls allow. -/
theorem ArgumentEvents.outcome {es : List Expr} (h : ArgumentEvents events es) :
    Slots.empty.outcome .arguments events = some (es.map some) := by
  cases h with
  | spaced es => exact Slots.outcome_empty_spaced .arguments es
  | separated e e' es =>
    have hlead := Slots.outcome_spaced (s := .empty) .arguments rfl [e]
      (followed (e' :: es))
    exact hlead.trans (Slots.outcome_followed (s := ⟨#[some e], 0⟩) rfl (e' :: es))

theorem exists_argumentEvents (h : Slots.empty.outcome .arguments events = some items) :
    ∃ es, ArgumentEvents events es := by
  obtain ⟨es, rfl | ⟨more, rfl⟩⟩ := exists_spaced events
  · exact ⟨es, .spaced es⟩
  rw [Slots.outcome_spaced .arguments rfl] at h
  -- a call takes its first comma behind its first argument
  have hlength : es.length = 1 := by
    by_contra hne
    have hrefused : Slots.comma .arguments ⟨Slots.empty.items ++ (es.map some).toArray, 0⟩
        = none := by
      simpa [Slots.comma, Slots.empty, eq_comm] using hne
    rw [Slots.outcome, hrefused] at h
    cases h
  obtain ⟨e, rfl⟩ := List.length_eq_one_iff.mp hlength
  obtain ⟨es, hmore, -⟩ := Slots.followed_of_outcome (fun _ _ h => by cases h) rfl h
  cases es with
  | nil => cases hmore
  | cons e' es =>
    rw [hmore]
    exact ⟨_, .separated e e' es⟩

/-! ### Elements of an array -/

/-- The slots that commas and elements stand for: each element is one, and so is each comma
without an element since the last comma; `filled` when an element stands in front. -/
def slotsOf : (filled : Bool) → List SlotEvent → List (Option Expr)
  | _, [] => []
  | true, .comma :: events => slotsOf false events
  | false, .comma :: events => none :: slotsOf false events
  | _, .filled e :: events => some e :: slotsOf true events

/-- Whether an element stands right behind another one; `filled` when one stands in front. -/
def crowded : (filled : Bool) → List SlotEvent → Bool
  | _, [] => false
  | _, .comma :: events => crowded false events
  | filled, .filled _ :: events => filled || crowded true events

namespace Slots

/-- An array takes every comma.  It ends a filled slot or leaves a hole, when no slot is too
many. -/
theorem comma_elements {filled : Bool} (hsize : s.items.size = s.commas + filled.toNat) :
    ∃ next, s.comma .elements = some next ∧ next.commas = s.commas + 1 ∧
      next.items.size = next.commas + false.toNat ∧
      ∀ events, next.items.toList ++ slotsOf false events
        = s.items.toList ++ slotsOf filled (.comma :: events) := by
  cases filled with
  | true => exact ⟨⟨s.items, s.commas + 1⟩, if_pos hsize.symm, rfl, hsize, fun _ => rfl⟩
  | false =>
    obtain ⟨next, hnext, hnextSize, hitems⟩ := comma_hole hsize
    have hcommas : next.commas = s.commas + 1 := by
      have hlength := congrArg List.length hitems
      simp only [Array.length_toList, List.length_append, List.length_singleton] at hlength
      simp only [Bool.toNat_false] at hsize
      omega
    refine ⟨next, hnext, hcommas, hnextSize, fun events => ?_⟩
    rw [hitems, List.append_assoc]
    rfl

/-- Behind its first comma an array takes whatever is not crowded. -/
theorem outcome_behind (filled : Bool) (hcommas : s.commas ≠ 0)
    (hsize : s.items.size = s.commas + filled.toNat) (events : List SlotEvent) :
    s.outcome .elements events =
      if crowded filled events then none else some (s.items.toList ++ slotsOf filled events) := by
  induction events generalizing s filled with
  | nil => simp [outcome, closable, crowded, slotsOf]
  | cons event events ih =>
    cases event with
    | comma =>
      obtain ⟨next, hnext, hnextCommas, hnextSize, hitems⟩ := comma_elements hsize
      have hne : next.commas ≠ 0 := by
        rw [hnextCommas]
        exact Nat.succ_ne_zero _
      rw [outcome, hnext, Option.bind_some, ih false hne hnextSize, hitems, crowded]
    | filled e =>
      cases filled with
      | true =>
        have haccepts : ¬ s.accepts := by simp [accepts, hcommas, hsize]
        rw [outcome, if_neg haccepts]
        rfl
      | false =>
        have haccepts : s.accepts := by simp [accepts, hsize]
        have hfill : (s.fill e).items.size = (s.fill e).commas + true.toNat := by
          simp [fill, hsize]
        rw [outcome, if_pos haccepts, ih (s := s.fill e) true hcommas hfill]
        simp [crowded, slotsOf, fill]

/-- The first comma makes one slot of what stands in front of it: the first element, or a hole
when there is none. -/
theorem comma_spaced (es : List Expr) :
    comma .elements ⟨(es.map some).toArray, 0⟩ = some ⟨#[es.head?], 1⟩ := by
  rcases es with - | ⟨e, - | ⟨e', es⟩⟩
  · rfl
  · rfl
  · simp [comma, resize]

theorem outcome_elements_comma (es : List Expr) (more : List SlotEvent) :
    Slots.empty.outcome .elements (spaced es ++ .comma :: more) =
      if crowded false more then none else some (es.head? :: slotsOf false more) := by
  have hlead := outcome_spaced (s := .empty) .elements rfl es (.comma :: more)
  have hbehind := outcome_behind (s := ⟨#[es.head?], 1⟩) false (Nat.succ_ne_zero 0) rfl more
  simp only [empty, Array.empty_append] at hlead
  rw [empty, hlead, outcome, comma_spaced, Option.bind_some, hbehind]
  rfl

end Slots

/-- With at most one element in front of the first comma, that element or a hole comes first. -/
theorem slotsOf_take_one (es : List Expr) (more : List SlotEvent) :
    slotsOf false (spaced (es.take 1) ++ .comma :: more) = es.head? :: slotsOf false more := by
  cases es with
  | nil => rfl
  | cons e es => rfl

/-! ### The loop -/

namespace Dialect

variable {d : Dialect} {text : Array Char} {n : Nat} {s s' : State} {kind : ListKind}

open Reading (slots skipBlanks)

/-- The slots of a list are what the rules make of its events; where they refuse one, reading
fails. -/
theorem slots_of_listRun (hd : d.Plain) (hn : 2 * (text.size - s.index) + 4 ≤ n)
    (h : ListRun (d.context text n) kind s events s') :
    match Slots.empty.outcome kind events with
    | some items => slots kind (d.context text n) s = .ok items { s' with index := s'.index + 1 }
    | none => ∃ e t, slots kind (d.context text n) s = .fail e t := by
  have hanswers := Reading.slots_answers hd (context_sound hd text n) (context_ends hd text n)
    kind (s := s) hn
  exact Reading.slotsWithin_of_listRun h hanswers

/-- Where no closing character is reached, reading fails. -/
theorem slots_fails (hd : d.Plain) (hn : 2 * (text.size - s.index) + 4 ≤ n)
    (h : ∀ events s', ¬ ListRun (d.context text n) kind s events s') :
    ∃ e t, slots kind (d.context text n) s = .fail e t := by
  have hanswers := Reading.slots_answers hd (context_sound hd text n) (context_ends hd text n)
    kind (s := s) hn
  rcases hslots : slots kind (d.context text n) s with ⟨items, t⟩ | ⟨e, t⟩ | -
  · obtain ⟨events, s', hrun, -⟩ := Reading.listRun_of_slotsWithin hslots
    exact absurd hrun (h events s')
  · exact ⟨e, t, rfl⟩
  · exact absurd hslots hanswers

/-- **The arguments of a call.**  When the closing parenthesis is reached, the call is accepted
iff there is no comma, or exactly one between any two arguments.  Its arguments are then what was
read, in order and without a hole, and the cursor is behind the parenthesis.  Any other
arrangement fails, and so does a list whose parenthesis is not reached. -/
theorem arguments_decided (hd : d.HookFree) (hn : 2 * (text.size - s.index) + 4 ≤ n) :
    let c := d.context text n
    (∀ events mid, ListRun c .arguments s events mid →
      text[mid.index]? = some ')' ∧
      (∀ es, ArgumentEvents events es →
        slots .arguments c s = .ok (es.map some) { mid with index := mid.index + 1 }) ∧
      ((¬ ∃ es, ArgumentEvents events es) → ∃ e t, slots .arguments c s = .fail e t)) ∧
    ((∀ events mid, ¬ ListRun c .arguments s events mid) →
      ∃ e t, slots .arguments c s = .fail e t) := by
  refine ⟨fun events mid hrun => ⟨hrun.ends, fun es hes => ?_, fun hno => ?_⟩,
    slots_fails hd.plain hn⟩
  · have hslots := slots_of_listRun hd.plain hn hrun
    rw [hes.outcome] at hslots
    exact hslots
  · have hslots := slots_of_listRun hd.plain hn hrun
    rcases houtcome : Slots.empty.outcome .arguments events with - | items
    · rw [houtcome] at hslots
      exact hslots
    · exact absurd (exists_argumentEvents houtcome) hno

/-- Two arguments and a comma. -/
theorem arguments_decided_pair :
    let c := standard.context "f(a, b)".toList.toArray 20
    let events : List SlotEvent := [.filled (.identifier "a"), .comma, .filled (.identifier "b")]
    standard.HookFree ∧ ListRun c .arguments ⟨2, 2, #[]⟩ events ⟨6, 2, #[]⟩ ∧
      ArgumentEvents events [.identifier "a", .identifier "b"] ∧
      slots .arguments c ⟨2, 2, #[]⟩
        = .ok [some (.identifier "a"), some (.identifier "b")] ⟨7, 2, #[]⟩ := by
  intro c events
  have hd : standard.HookFree := fun p => by cases p <;> rfl
  have ha : c.enter .expression ⟨2, 2, #[]⟩ = .ok (some (.identifier "a")) ⟨3, 2, #[]⟩ :=
    Reply.eq_of_answers (by decide +kernel) rfl
  have hblank : skipBlanks c ⟨4, 2, #[]⟩ = .ok () ⟨5, 2, #[]⟩ := rfl
  have hb : c.enter .expression ⟨5, 2, #[]⟩ = .ok (some (.identifier "b")) ⟨6, 2, #[]⟩ :=
    Reply.eq_of_answers (by decide +kernel) rfl
  have hlast : ListRun c .arguments ⟨4, 2, #[]⟩ [.filled (.identifier "b")] ⟨6, 2, #[]⟩ :=
    .filled hblank rfl (by decide) (by decide) hb (by decide) (.close rfl rfl)
  have hrun : ListRun c .arguments ⟨2, 2, #[]⟩ events ⟨6, 2, #[]⟩ :=
    .filled rfl rfl (by decide) (by decide) ha (by decide) (.comma rfl rfl hlast)
  have hargs : ArgumentEvents events [.identifier "a", .identifier "b"] := .separated _ _ []
  exact ⟨hd, hrun, hargs, ((arguments_decided hd (by decide)).1 _ _ hrun).2.1 _ hargs⟩

/-- **The elements of an array.**  When the closing bracket is reached, elements without a comma
are all taken.  With commas, the array is accepted iff no element stands right behind another one
after the first comma.  Each comma without an element since the last one is then a hole; the
elements are what was read, in order, except that of those in front of the first comma only the
first is kept.  Any other arrangement fails, and so does a list whose bracket is not reached. -/
theorem elements_decided (hd : d.HookFree) (hn : 2 * (text.size - s.index) + 4 ≤ n) :
    let c := d.context text n
    (∀ events mid, ListRun c .elements s events mid →
      text[mid.index]? = some ']' ∧
      (∀ es, events = spaced es →
        slots .elements c s = .ok (es.map some) { mid with index := mid.index + 1 }) ∧
      ∀ es more, events = spaced es ++ .comma :: more →
        (crowded false more = false → slots .elements c s
          = .ok (slotsOf false (spaced (es.take 1) ++ .comma :: more))
              { mid with index := mid.index + 1 }) ∧
        (crowded false more = true → ∃ e t, slots .elements c s = .fail e t)) ∧
    ((∀ events mid, ¬ ListRun c .elements s events mid) →
      ∃ e t, slots .elements c s = .fail e t) := by
  refine ⟨fun events mid hrun => ?_, slots_fails hd.plain hn⟩
  have hslots := slots_of_listRun hd.plain hn hrun
  refine ⟨hrun.ends, fun es hevents => ?_, fun es more hevents => ?_⟩
  · rw [hevents, Slots.outcome_empty_spaced] at hslots
    exact hslots
  · rw [hevents, Slots.outcome_elements_comma] at hslots
    cases hmore : crowded false more with
    | false =>
      rw [hmore, if_neg Bool.false_ne_true] at hslots
      rw [slotsOf_take_one]
      exact ⟨fun _ => hslots, fun h => by cases h⟩
    | true =>
      rw [hmore, if_pos rfl] at hslots
      exact ⟨fun h => (by cases h), fun _ => hslots⟩

/-- Behind the first comma, a second one makes a hole. -/
theorem elements_decided_hole :
    let c := standard.context "[a,, b]".toList.toArray 20
    let events : List SlotEvent :=
      [.filled (.identifier "a"), .comma, .comma, .filled (.identifier "b")]
    standard.HookFree ∧ ListRun c .elements ⟨1, 2, #[]⟩ events ⟨6, 2, #[]⟩ ∧
      slots .elements c ⟨1, 2, #[]⟩
        = .ok [some (.identifier "a"), none, some (.identifier "b")] ⟨7, 2, #[]⟩ := by
  intro c events
  have hd : standard.HookFree := fun p => by cases p <;> rfl
  have ha : c.enter .expression ⟨1, 2, #[]⟩ = .ok (some (.identifier "a")) ⟨2, 2, #[]⟩ :=
    Reply.eq_of_answers (by decide +kernel) rfl
  have hblank : skipBlanks c ⟨4, 2, #[]⟩ = .ok () ⟨5, 2, #[]⟩ := rfl
  have hb : c.enter .expression ⟨5, 2, #[]⟩ = .ok (some (.identifier "b")) ⟨6, 2, #[]⟩ :=
    Reply.eq_of_answers (by decide +kernel) rfl
  have hlast : ListRun c .elements ⟨4, 2, #[]⟩ [.filled (.identifier "b")] ⟨6, 2, #[]⟩ :=
    .filled hblank rfl (by decide) (by decide) hb (by decide) (.close rfl rfl)
  have hrun : ListRun c .elements ⟨1, 2, #[]⟩ events ⟨6, 2, #[]⟩ :=
    .filled rfl rfl (by decide) (by decide) ha (by decide) (.comma rfl rfl (.comma rfl rfl hlast))
  have hdecided := ((elements_decided hd (by decide)).1 _ _ hrun).2.2
  exact ⟨hd, hrun, hdecided [.identifier "a"] [.comma, .filled (.identifier "b")] rfl |>.1 rfl⟩

/-- An array that mixes both ways of separation is accepted, and an element is lost. -/
theorem elements_lost :
    let c := standard.context "[a b, c]".toList.toArray 20
    let events : List SlotEvent :=
      [.filled (.identifier "a"), .filled (.identifier "b"), .comma, .filled (.identifier "c")]
    standard.HookFree ∧ ListRun c .elements ⟨1, 2, #[]⟩ events ⟨7, 2, #[]⟩ ∧ Mixed events ∧
      slots .elements c ⟨1, 2, #[]⟩
        = .ok [some (.identifier "a"), some (.identifier "c")] ⟨8, 2, #[]⟩ ∧
      standard.parse "[a b, c]"
        = some (.ok (some (.array [some (.identifier "a"), some (.identifier "c")]))) := by
  intro c events
  have hd : standard.HookFree := fun p => by cases p <;> rfl
  have ha : c.enter .expression ⟨1, 2, #[]⟩ = .ok (some (.identifier "a")) ⟨3, 2, #[]⟩ :=
    Reply.eq_of_answers (by decide +kernel) rfl
  have hb : c.enter .expression ⟨3, 2, #[]⟩ = .ok (some (.identifier "b")) ⟨4, 2, #[]⟩ :=
    Reply.eq_of_answers (by decide +kernel) rfl
  have hblank : skipBlanks c ⟨5, 2, #[]⟩ = .ok () ⟨6, 2, #[]⟩ := rfl
  have hc : c.enter .expression ⟨6, 2, #[]⟩ = .ok (some (.identifier "c")) ⟨7, 2, #[]⟩ :=
    Reply.eq_of_answers (by decide +kernel) rfl
  have hlast : ListRun c .elements ⟨5, 2, #[]⟩ [.filled (.identifier "c")] ⟨7, 2, #[]⟩ :=
    .filled hblank rfl (by decide) (by decide) hc (by decide) (.close rfl rfl)
  have hrun : ListRun c .elements ⟨1, 2, #[]⟩ events ⟨7, 2, #[]⟩ :=
    .filled rfl rfl (by decide) (by decide) ha (by decide)
      (.filled rfl rfl (by decide) (by decide) hb (by decide) (.comma rfl rfl hlast))
  have hmixed : Mixed events := ⟨by simp [events], [], _, _, _, rfl⟩
  exact ⟨hd, hrun, hmixed, slots_of_listRun hd.plain (by decide) hrun,
    parse_of_parsesAs (by decide +kernel) rfl⟩

end Dialect

end OperatorGrammar
