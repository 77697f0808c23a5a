/-
OperatorGrammar/Proofs/Reading.lean

Taking a successful reading apart.

A reading is a function from a context and a state to a reply, and `do` blocks
are binds.  The lemmas here say when a bind, and when each primitive step,
answers `ok`; every later proof about a production goes through them and never
through the definition of the monad.

The loop that reads the expressions of a program or group is taken apart here
too, into what its rounds do (`ItemsRun`).
-/
import OperatorGrammar.Parser.Run

namespace OperatorGrammar

namespace Reading

variable {α β : Type} {c : Context} {s s' : State}

/-! ### Values and sequences -/

@[simp] theorem pure_apply (a : α) : (pure a : Reading α) c s = .ok a s := rfl

theorem bind_apply (x : Reading α) (f : α → Reading β) :
    (x >>= f) c s = match x c s with
      | .ok a s => f a c s
      | .fail e s => .fail e s
      | .exhausted => .exhausted := rfl

/-- A sequence succeeds iff its first part does and its second part does from there. -/
theorem bind_eq_ok {x : Reading α} {f : α → Reading β} {b : β} :
    (x >>= f) c s = .ok b s' ↔ ∃ a s₁, x c s = .ok a s₁ ∧ f a c s₁ = .ok b s' := by
  rw [bind_apply]
  cases x c s with
  | ok a s₁ =>
    constructor
    · intro h
      exact ⟨a, s₁, rfl, h⟩
    · rintro ⟨a', s₁', h, hf⟩
      cases h
      exact hf
  | fail e s₁ => simp
  | exhausted => simp

/-- A sequence whose first part is known to succeed goes on from there. -/
theorem bind_of_ok {x : Reading α} {f : α → Reading β} {a : α} {s₁ : State}
    (h : x c s = .ok a s₁) : (x >>= f) c s = f a c s₁ := by
  rw [bind_apply, h]

/-! ### Primitive steps -/

@[simp] theorem exhausted_apply : (exhausted : Reading α) c s = .exhausted := rfl

@[simp] theorem raise_apply (e : Failure) : (raise e : Reading α) c s = .fail e s := rfl

@[simp] theorem failHere_apply (e : Cause) :
    (failHere e : Reading α) c s = .fail ⟨e, s.index⟩ s := rfl

@[simp] theorem grammar_apply : grammar c s = .ok c.dialect.grammar s := rfl

@[simp] theorem cursor_apply : cursor c s = .ok ⟨c.text, s.index⟩ s := rfl

@[simp] theorem current_apply : current c s = .ok c.text[s.index]? s := rfl

@[simp] theorem budget_apply : budget c s = .ok c.budget s := rfl

@[simp] theorem moveTo_apply (i : Nat) : moveTo i c s = .ok () { s with index := i } := rfl

@[simp] theorem forward_apply (n : Nat) :
    forward n c s = .ok () { s with index := min (s.index + n) c.text.size } := rfl

@[simp] theorem rewind_apply (n : Nat) :
    rewind n c s = .ok () { s with index := s.index - n } := rfl

@[simp] theorem reenter_apply (entry : Entry) : reenter entry c s = c.enter entry s := rfl

/-- A scanner that finds something leaves the cursor where it stopped. -/
theorem scan_of_ok {scanner : Grammar → Cursor → Scan α} {a : α} {j : Nat}
    (h : scanner c.dialect.grammar ⟨c.text, s.index⟩ = ⟨j, .ok a⟩) :
    scan scanner c s = .ok a { s with index := j } := by
  rw [scan, bind_of_ok grammar_apply, bind_of_ok cursor_apply, h, bind_of_ok (moveTo_apply _)]
  rfl

/-- A scanner that finds nothing fails where it stopped. -/
theorem scan_of_error {scanner : Grammar → Cursor → Scan α} {cause : Cause} {j : Nat}
    (h : scanner c.dialect.grammar ⟨c.text, s.index⟩ = ⟨j, .error cause⟩) :
    scan scanner c s = .fail ⟨cause, j⟩ { s with index := j } := by
  rw [scan, bind_of_ok grammar_apply, bind_of_ok cursor_apply, h, bind_of_ok (moveTo_apply _)]
  rfl

theorem scan_eq_ok {scanner : Grammar → Cursor → Scan α} {a : α} :
    scan scanner c s = .ok a s' ↔
      scanner c.dialect.grammar ⟨c.text, s.index⟩ = ⟨s'.index, .ok a⟩ ∧
        s' = { s with index := s'.index } := by
  rcases hscan : scanner c.dialect.grammar ⟨c.text, s.index⟩ with ⟨stop, cause | value⟩
  · simp [scan_of_error hscan]
  · rw [scan_of_ok hscan]
    constructor
    · intro h
      cases h
      exact ⟨rfl, rfl⟩
    · rintro ⟨h, hs⟩
      simp only [Scan.mk.injEq, Except.ok.injEq] at h
      obtain ⟨rfl, rfl⟩ := h
      rw [hs]

theorem scan_ok_or_fail (scanner : Grammar → Cursor → Scan α) (c : Context) (s : State) :
    (∃ a t, scan scanner c s = .ok a t) ∨ ∃ e t, scan scanner c s = .fail e t := by
  rcases hscan : scanner c.dialect.grammar ⟨c.text, s.index⟩ with ⟨stop, cause | a⟩
  · exact .inr ⟨_, _, scan_of_error hscan⟩
  · exact .inl ⟨_, _, scan_of_ok hscan⟩

end Reading

/-! ### The loop of a program or group -/

/-- How the expressions of a program or group are read, in at most so many rounds.  The loop
ends at the end of the text, or where no expression comes and the text ends or is closed. -/
inductive ItemsRun (c : Context) (closer : Option Char) : Nat → State → List Expr → State → Prop
  | atEnd {n s s'} :
      Reading.skipBlanks c s = .ok () s' → c.text[s'.index]? = none →
      ItemsRun c closer (n + 1) s [] s'
  | separator {n ch nodes s s₁ s'} :
      Reading.skipBlanks c s = .ok () s₁ → c.text[s₁.index]? = some ch → ch = ';' ∨ ch = ',' →
      ItemsRun c closer n { s₁ with index := min (s₁.index + 1) c.text.size } nodes s' →
      ItemsRun c closer (n + 1) s nodes s'
  | item {n ch e nodes s s₁ s₂ s'} :
      Reading.skipBlanks c s = .ok () s₁ → c.text[s₁.index]? = some ch →
      ¬ (ch = ';' ∨ ch = ',') → c.enter .expression s₁ = .ok (some e) s₂ →
      ItemsRun c closer n s₂ nodes s' → ItemsRun c closer (n + 1) s (e :: nodes) s'
  | stop {n ch s s₁ s'} :
      Reading.skipBlanks c s = .ok () s₁ → c.text[s₁.index]? = some ch →
      ¬ (ch = ';' ∨ ch = ',') → c.enter .expression s₁ = .ok none s' →
      (∀ last, c.text[s'.index]? = some last → closer = some last) →
      ItemsRun c closer (n + 1) s [] s'

/-- The loop of a whole text ends at the end of the text. -/
theorem ItemsRun.ends {c : Context} {n : Nat} {nodes : List Expr} {s s' : State}
    (h : ItemsRun c none n s nodes s') : c.text[s'.index]? = none := by
  induction h with
  | atEnd _ hend => exact hend
  | separator _ _ _ _ ih => exact ih
  | item _ _ _ _ _ ih => exact ih
  | @stop _ _ _ _ s' _ _ _ _ hlast =>
    rcases hnext : c.text[s'.index]? with - | last
    · rfl
    · cases hlast last hnext

namespace Reading

variable {c : Context} {s s₁ s₂ s' : State} {closer : Option Char} {n : Nat} {found : Array Expr}
  {ch : Char} {e : Expr}

theorem expressionsWithin_separator (hskip : skipBlanks c s = .ok () s₁)
    (hch : c.text[s₁.index]? = some ch) (hsep : ch = ';' ∨ ch = ',') :
    expressionsWithin closer (n + 1) found c s = expressionsWithin closer n found c
      { s₁ with index := min (s₁.index + 1) c.text.size } := by
  rw [expressionsWithin, bind_of_ok hskip, bind_of_ok current_apply, hch]
  dsimp only
  rw [if_pos hsep, bind_of_ok (forward_apply 1)]

theorem expressionsWithin_item (hskip : skipBlanks c s = .ok () s₁)
    (hch : c.text[s₁.index]? = some ch) (hsep : ¬ (ch = ';' ∨ ch = ','))
    (henter : c.enter .expression s₁ = .ok (some e) s₂) :
    expressionsWithin closer (n + 1) found c s
      = expressionsWithin closer n (found.push e) c s₂ := by
  rw [expressionsWithin, bind_of_ok hskip, bind_of_ok current_apply, hch]
  dsimp only
  rw [if_neg hsep, bind_of_ok henter]

theorem itemsRun_of_expressionsWithin {nodes : List Expr}
    (h : expressionsWithin closer n found c s = .ok nodes s') :
    ∃ more, nodes = found.toList ++ more ∧ ItemsRun c closer n s more s' := by
  induction n generalizing found s with
  | zero => cases h
  | succ n ih =>
    obtain ⟨_, s₁, hskip, h⟩ := bind_eq_ok.mp h
    rw [bind_of_ok current_apply] at h
    rcases hch : c.text[s₁.index]? with - | ch
    · rw [hch] at h
      cases h
      exact ⟨[], by simp, .atEnd hskip hch⟩
    rw [hch] at h
    dsimp only at h
    by_cases hsep : ch = ';' ∨ ch = ','
    · rw [if_pos hsep, bind_of_ok (forward_apply 1)] at h
      obtain ⟨more, hmore, hrun⟩ := ih h
      exact ⟨more, hmore, .separator hskip hch hsep hrun⟩
    rw [if_neg hsep] at h
    obtain ⟨next, s₂, henter, h⟩ := bind_eq_ok.mp h
    cases next with
    | some e =>
      obtain ⟨more, hmore, hrun⟩ := ih h
      exact ⟨e :: more, by simp [hmore], .item hskip hch hsep henter hrun⟩
    | none =>
      dsimp only at h
      rw [bind_of_ok current_apply] at h
      rcases hlast : c.text[s₂.index]? with - | last
      · rw [hlast] at h
        cases h
        exact ⟨[], by simp, .stop hskip hch hsep henter (by simp [hlast])⟩
      · rw [hlast] at h
        dsimp only at h
        by_cases hcloser : closer = some last
        · rw [if_pos hcloser] at h
          cases h
          exact ⟨[], by simp, .stop hskip hch hsep henter (by simp [hlast, hcloser])⟩
        · rw [if_neg hcloser] at h
          cases h

end Reading

end OperatorGrammar
