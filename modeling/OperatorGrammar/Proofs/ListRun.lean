/-
OperatorGrammar/Proofs/ListRun.lean

What the loop of a list meets, apart from what its rules make of it.

Between the brackets of a list there come commas and elements, with white space
around them.  `ListRun` says which of them come, in order, up to the closing
character, and knows nothing of slots.  The rules are a machine on these events
(`Slots.outcome`) that knows nothing of the text.  The loop is the machine run on
the events that it meets (`Reading.slotsWithin_of_listRun`,
`Reading.listRun_of_slotsWithin`), so whatever decides whether a list is accepted
can be settled for lists of events alone.
-/
import OperatorGrammar.Proofs.Reads

namespace OperatorGrammar

/-! ### The rules as a machine -/

/-- What the rules make of the rest of a list: its slots, unless a comma, an element or the
closing character is refused. -/
def Slots.outcome (kind : ListKind) : Slots → List SlotEvent → Option (List (Option Expr))
  | s, [] => if s.closable kind then some s.items.toList else none
  | s, .comma :: events => (s.comma kind).bind fun next => next.outcome kind events
  | s, .filled e :: events => if s.accepts then (s.fill e).outcome kind events else none

/-! ### What the loop meets -/

/-- How a list goes on: the commas and elements that come up to the closing character.  The run
ends in front of that character. -/
inductive ListRun (c : Context) (kind : ListKind) : State → List SlotEvent → State → Prop
  | close {s s'} : Reading.skipBlanks c s = .ok () s' → c.text[s'.index]? = some kind.closer →
      ListRun c kind s [] s'
  | comma {events s s₁ s'} : Reading.skipBlanks c s = .ok () s₁ → c.text[s₁.index]? = some ',' →
      ListRun c kind { s₁ with index := min (s₁.index + 1) c.text.size } events s' →
      ListRun c kind s (.comma :: events) s'
  | filled {ch e events s s₁ s₂ s'} : Reading.skipBlanks c s = .ok () s₁ →
      c.text[s₁.index]? = some ch → ch ≠ kind.closer → ch ≠ ',' →
      c.enter .expression s₁ = .ok (some e) s₂ → ¬ e.isCompound →
      ListRun c kind s₂ events s' → ListRun c kind s (.filled e :: events) s'

theorem ListRun.ends {c : Context} {kind : ListKind} {events : List SlotEvent} {s s' : State}
    (h : ListRun c kind s events s') : c.text[s'.index]? = some kind.closer := by
  induction h with
  | close _ hcloser => exact hcloser
  | comma _ _ _ ih => exact ih
  | filled _ _ _ _ _ _ _ ih => exact ih

namespace Reading

variable {c : Context} {s s₁ s₂ s' : State} {kind : ListKind} {n : Nat} {before : Slots}
  {ch : Char} {e : Expr} {events : List SlotEvent} {items : List (Option Expr)}

/-! ### One round -/

theorem slotsWithin_close (hskip : skipBlanks c s = .ok () s₁)
    (hch : c.text[s₁.index]? = some kind.closer) :
    slotsWithin kind (n + 1) before c s =
      if before.closable kind then .ok before.items.toList { s₁ with index := s₁.index + 1 }
      else .fail ⟨.separator kind.closer, s₁.index + 1⟩ { s₁ with index := s₁.index + 1 } := by
  obtain ⟨hlt, -⟩ := Array.getElem?_eq_some_iff.mp hch
  have hindex : min (s₁.index + 1) c.text.size = s₁.index + 1 := Nat.min_eq_left hlt
  rw [slotsWithin, bind_of_ok hskip, bind_of_ok current_apply, hch]
  dsimp only
  rw [if_pos rfl, bind_of_ok (forward_apply 1), hindex]
  split
  · rfl
  · rfl

theorem slotsWithin_comma (hskip : skipBlanks c s = .ok () s₁)
    (hch : c.text[s₁.index]? = some ',') :
    slotsWithin kind (n + 1) before c s =
      match before.comma kind with
      | some next => slotsWithin kind n next c
          { s₁ with index := min (s₁.index + 1) c.text.size }
      | none => .fail ⟨.separator ',', min (s₁.index + 1) c.text.size⟩
          { s₁ with index := min (s₁.index + 1) c.text.size } := by
  rw [slotsWithin, bind_of_ok hskip, bind_of_ok current_apply, hch]
  dsimp only
  rw [if_neg kind.comma_ne_closer, if_pos rfl, bind_of_ok (forward_apply 1)]
  cases before.comma kind with
  | some next => rfl
  | none => rfl

theorem slotsWithin_filled (hskip : skipBlanks c s = .ok () s₁)
    (hch : c.text[s₁.index]? = some ch) (hcloser : ch ≠ kind.closer) (hcomma : ch ≠ ',')
    (henter : c.enter .expression s₁ = .ok (some e) s₂) (hcompound : ¬ e.isCompound) :
    slotsWithin kind (n + 1) before c s =
      if before.accepts then slotsWithin kind n (before.fill e) c s₂
      else .fail ⟨.comma, s₁.index⟩ s₁ := by
  rw [slotsWithin, bind_of_ok hskip, bind_of_ok current_apply, hch]
  dsimp only
  rw [if_neg hcloser, if_neg hcomma]
  split
  · rw [bind_of_ok henter]
    dsimp only
    rw [if_neg hcompound]
  · rfl

/-! ### The whole loop -/

/-- What the rules make of the events is what the loop makes of the text, as long as its rounds
last. -/
theorem slotsWithin_of_listRun (h : ListRun c kind s events s') :
    ∀ {n : Nat} {before : Slots}, slotsWithin kind n before c s ≠ .exhausted →
      match before.outcome kind events with
      | some items => slotsWithin kind n before c s = .ok items { s' with index := s'.index + 1 }
      | none => ∃ e t, slotsWithin kind n before c s = .fail e t := by
  induction h with
  | close hskip hch =>
    intro n before hn
    cases n with
    | zero => exact absurd rfl hn
    | succ n =>
      rw [slotsWithin_close hskip hch, Slots.outcome]
      by_cases hclosable : before.closable kind
      · rw [if_pos hclosable, if_pos hclosable]
      · rw [if_neg hclosable, if_neg hclosable]
        exact ⟨_, _, rfl⟩
  | comma hskip hch _ ih =>
    intro n before hn
    cases n with
    | zero => exact absurd rfl hn
    | succ n =>
      rw [slotsWithin_comma hskip hch] at hn ⊢
      rw [Slots.outcome]
      cases hnext : before.comma kind with
      | none => exact ⟨_, _, rfl⟩
      | some next =>
        rw [hnext] at hn
        exact ih hn
  | filled hskip hch hcloser hcomma henter hcompound _ ih =>
    intro n before hn
    cases n with
    | zero => exact absurd rfl hn
    | succ n =>
      rw [slotsWithin_filled hskip hch hcloser hcomma henter hcompound] at hn ⊢
      rw [Slots.outcome]
      by_cases haccepts : before.accepts
      · rw [if_pos haccepts] at hn ⊢
        rw [if_pos haccepts]
        exact ih hn
      · rw [if_neg haccepts, if_neg haccepts]
        exact ⟨_, _, rfl⟩

/-- A list that is read meets events that the rules allow. -/
theorem listRun_of_slotsWithin (h : slotsWithin kind n before c s = .ok items s') :
    ∃ events s₁, ListRun c kind s events s₁ ∧ before.outcome kind events = some items ∧
      s' = { s₁ with index := s₁.index + 1 } := by
  induction n generalizing before s with
  | zero => cases h
  | succ n ih =>
    obtain ⟨_, s₁, hskip, hround⟩ := bind_eq_ok.mp h
    rw [bind_of_ok current_apply] at hround
    rcases hch : c.text[s₁.index]? with - | ch
    · rw [hch] at hround
      cases hround
    rw [hch] at hround
    dsimp only at hround
    by_cases hcloser : ch = kind.closer
    · rw [hcloser] at hch
      rw [slotsWithin_close hskip hch] at h
      by_cases hclosable : before.closable kind
      · rw [if_pos hclosable] at h
        cases h
        exact ⟨[], s₁, .close hskip hch, if_pos hclosable, rfl⟩
      · rw [if_neg hclosable] at h
        cases h
    rw [if_neg hcloser] at hround
    by_cases hcomma : ch = ','
    · rw [hcomma] at hch
      rw [slotsWithin_comma hskip hch] at h
      cases hnext : before.comma kind with
      | none =>
        rw [hnext] at h
        cases h
      | some next =>
        rw [hnext] at h
        obtain ⟨events, s₂, hrun, houtcome, hs'⟩ := ih h
        refine ⟨.comma :: events, s₂, .comma hskip hch hrun, ?_, hs'⟩
        rw [Slots.outcome, hnext]
        exact houtcome
    rw [if_neg hcomma] at hround
    -- neither the closing character nor a comma: an element, when a slot is open
    by_cases haccepts : before.accepts
    · rw [if_pos haccepts] at hround
      obtain ⟨found, s₂, henter, hround⟩ := bind_eq_ok.mp hround
      cases found with
      | none => cases hround
      | some e =>
        dsimp only at hround
        by_cases hcompound : e.isCompound
        · rw [if_pos hcompound] at hround
          cases hround
        · rw [if_neg hcompound] at hround
          obtain ⟨events, s₃, hrun, houtcome, hs'⟩ := ih hround
          refine ⟨.filled e :: events, s₃,
            .filled hskip hch hcloser hcomma henter hcompound hrun, ?_, hs'⟩
          rw [Slots.outcome, if_pos haccepts]
          exact houtcome
    · rw [if_neg haccepts] at hround
      cases hround

end Reading

end OperatorGrammar
