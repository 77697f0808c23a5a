/-
OperatorGrammar/Proofs/Scans.lean

Where the scanners stop, and what they do not look at.

A scanner that starts inside the text stops inside it, at the cursor or further
on (`Cursor.Reaches`).  Every part of the text that it cuts out starts at the
cursor, too, so `Lexeme.Cut` lists the offsets at which such a part can end, for
all scanners and all candidates for an operator; none lies outside the text, so
no part comes out shorter than asked for (`Cursor.Reaches.length_slice`).

No scanner asks for the nesting limit, and none fails because of it.
-/
import OperatorGrammar.Proofs.LongestMatch
import OperatorGrammar.Proofs.ReadsComplete

namespace OperatorGrammar

/-- An offset that lies in the text, at the cursor or further on. -/
structure Cursor.Reaches (c : Cursor) (stop : Nat) : Prop where
  onward : c.index ≤ stop
  within : stop ≤ c.text.size

variable {g : Grammar} {text : Array Char} {i j x : Nat}

theorem lt_size_of_getElem? {ch : Char} (h : text[i]? = some ch) : i < text.size := by
  obtain ⟨hlt, -⟩ := Array.getElem?_eq_some_iff.mp h
  exact hlt

theorem le_skipWhile (p : Char → Bool) : i ≤ Cursor.skipWhile ⟨text, x⟩ p i := by
  rw [skipWhile_eq]
  exact Nat.le_add_right _ _

theorem skipWhile_le (p : Char → Bool) (h : i ≤ text.size) :
    Cursor.skipWhile ⟨text, x⟩ p i ≤ text.size := by
  have hlength := List.IsPrefix.length_le ( List.takeWhile_prefix (l := restAt text i) p)
  rw [length_restAt] at hlength
  rw [skipWhile_eq]
  omega

namespace Cursor.Reaches

theorem refl (h : i ≤ text.size) : Reaches ⟨text, i⟩ i :=
  ⟨Nat.le_refl i, h⟩

theorem skipWhile (h : Reaches ⟨text, i⟩ j) (p : Char → Bool) :
    Reaches ⟨text, i⟩ (Cursor.skipWhile ⟨text, x⟩ p j) :=
  ⟨Nat.le_trans h.onward (le_skipWhile p), skipWhile_le p h.within⟩

/-- Past a character of the text. -/
theorem next (h : Reaches ⟨text, i⟩ j) {ch : Char} (hch : text[j]? = some ch) :
    Reaches ⟨text, i⟩ (j + 1) :=
  ⟨Nat.le_succ_of_le h.onward, lt_size_of_getElem? hch⟩

/-- A part inside the text comes out in full. -/
theorem length_slice {c : Cursor} (h : c.Reaches j) :
    (c.slice c.index j).length = j - c.index := by
  obtain ⟨text, i⟩ := c
  rw [slice_eq, String.length_ofList, List.length_take, length_restAt]
  have hle := h.within
  dsimp only at hle ⊢
  omega

end Cursor.Reaches

namespace Lexeme

/-! ### Numbers -/

theorem significandEnd_reaches (h : i ≤ text.size) :
    Cursor.Reaches ⟨text, i⟩ (significandEnd ⟨text, i⟩) := by
  have hwhole := (Cursor.Reaches.refl h).skipWhile (x := i) Grammar.isDigit
  rw [significandEnd]
  dsimp only
  split
  · rename_i hpoint
    exact (hwhole.next hpoint).skipWhile _
  · exact hwhole

theorem exponentStart_reaches {digits : Nat} (h : Cursor.Reaches ⟨text, i⟩ j)
    (hdigits : exponentStart ⟨text, x⟩ j = some digits) : Cursor.Reaches ⟨text, i⟩ digits := by
  unfold exponentStart at hdigits
  split at hdigits
  · rename_i mark hmark
    have hafter := h.next hmark
    split at hdigits
    · split at hdigits
      · rename_i sign hsign
        cases hdigits
        split
        · exact hafter.next hsign
        · exact hafter
      · cases hdigits
        exact hafter
    · cases hdigits
  · cases hdigits

theorem number_reaches (h : i ≤ text.size) :
    Cursor.Reaches ⟨text, i⟩ (number g ⟨text, i⟩).index := by
  have hstop := significandEnd_reaches h
  unfold number
  dsimp only
  split
  · exact hstop
  · rename_i digits hdigits
    have hend := (exponentStart_reaches hstop hdigits).skipWhile (x := i) Grammar.isDigit
    split
    · exact hend
    · exact hend

/-! ### Strings -/

theorem stringBody_reaches {quote : Char} {n : Nat} {value : List Char}
    (h : Cursor.Reaches ⟨text, i⟩ j) :
    Cursor.Reaches ⟨text, i⟩ (stringBody text quote n j value).index := by
  induction n generalizing j value with
  | zero => exact h
  | succ n ih =>
    rw [stringBody]
    split
    · exact h
    · rename_i ch hch
      have hafter := h.next hch
      split
      · exact hafter
      · split
        · split
          · exact hafter
          · rename_i escaped hescaped
            exact ih (hafter.next hescaped)
        · exact ih hafter

theorem string_reaches (h : i ≤ text.size) :
    Cursor.Reaches ⟨text, i⟩ (string ⟨text, i⟩).index := by
  rw [string]
  split
  · exact .refl h
  · rename_i quote hquote
    exact stringBody_reaches ((Cursor.Reaches.refl h).next hquote)

/-! ### Names -/

theorem name_reaches (h : i ≤ text.size) :
    Cursor.Reaches ⟨text, i⟩ (name g ⟨text, i⟩).index := by
  rw [name]
  split
  · exact .refl h
  · rename_i first hfirst
    split
    · exact ((Cursor.Reaches.refl h).next hfirst).skipWhile _
    · exact .refl h

/-! ### Operators -/

theorem operatorUpTo_fits {known : String → Bool} {bound : Nat} {op : String}
    (h : operatorUpTo g known ⟨text, i⟩ (min bound (⟨text, i⟩ : Cursor).remaining) = some op) :
    Fits g ⟨text, i⟩ op := by
  obtain ⟨m, hm, hop, -⟩ := operatorUpTo_eq_some h
  exact (fits_of_operatorOfLength (by omega) hop).2.2

/-- An operator that fits ends inside the text, further on. -/
theorem Fits.reaches {op : String} (h : Fits g ⟨text, i⟩ op) :
    i < i + op.length ∧ Cursor.Reaches ⟨text, i⟩ (i + op.length) := by
  have hpos := h.length_pos
  have hle : op.length ≤ text.size - i := h.length_le
  exact ⟨by omega, by dsimp only; omega, by dsimp only; omega⟩

/-! ### The parts that are cut out -/

/-- The offsets at which a part of the text that a scanner cuts out, from the cursor on,
can end. -/
inductive Cut (g : Grammar) (c : Cursor) : Nat → Prop
  | number : Cut g c (number g c).index
  | string : Cut g c (string c).index
  | name : Cut g c (name g c).index
  | unaryCandidate {length : Nat} : length ≤ min g.longestUnary c.remaining →
      Cut g c (c.index + length)
  | binaryCandidate {length : Nat} : length ≤ min g.longestBinary c.remaining →
      Cut g c (c.index + length)

theorem Cut.reaches {c : Cursor} (hc : c.index ≤ c.text.size) (h : Cut g c j) : c.Reaches j := by
  have hcandidate {bound length : Nat} (hle : length ≤ min bound c.remaining) :
      c.Reaches (c.index + length) := by
    have hremaining : length ≤ c.text.size - c.index := Nat.le_trans hle (Nat.min_le_right _ _)
    exact ⟨Nat.le_add_right _ _, by omega⟩
  cases h with
  | number => exact number_reaches hc
  | string => exact string_reaches hc
  | name => exact name_reaches hc
  | unaryCandidate hle => exact hcandidate hle
  | binaryCandidate hle => exact hcandidate hle

/-! ### What is not looked at -/

section Limit

variable (limit : Option Nat) (c : Cursor)

theorem unaryOperator_setNestingLimit :
    unaryOperator (g.setNestingLimit limit) c = unaryOperator g c :=
  operatorUpTo_setNestingLimit limit _

theorem binaryOperator_setNestingLimit :
    binaryOperator (g.setNestingLimit limit) c = binaryOperator g c :=
  operatorUpTo_setNestingLimit limit _

end Limit

section Causes

variable {c : Cursor} {cause : Cause}

theorem numberAt_ne_nestingLimit {stop : Nat} (h : (numberAt g c stop).result = .error cause) :
    cause ≠ .nestingLimit := by
  have hvalue (raw : String) (h : numberAt.value raw = .error cause) : cause ≠ .nestingLimit := by
    unfold numberAt.value at h
    split at h
    · cases h
    · cases h
      simp
  unfold numberAt at h
  dsimp only at h
  split at h
  · split at h
    · cases h
      simp
    · split at h
      · cases h
        simp
      · exact hvalue _ h
  · split at h
    · cases h
      simp
    · exact hvalue _ h

theorem number_ne_nestingLimit (h : (number g c).result = .error cause) :
    cause ≠ .nestingLimit := by
  unfold number at h
  dsimp only at h
  split at h
  · exact numberAt_ne_nestingLimit h
  · split at h
    · cases h
      simp
    · exact numberAt_ne_nestingLimit h

theorem stringBody_ne_nestingLimit {quote : Char} {n : Nat} {value : List Char}
    (h : (stringBody text quote n i value).result = .error cause) : cause ≠ .nestingLimit := by
  induction n generalizing i value with
  | zero =>
    cases h
    simp
  | succ n ih =>
    rw [stringBody] at h
    split at h
    · cases h
      simp
    · split at h
      · cases h
      · split at h
        · split at h
          · cases h
            simp
          · exact ih h
        · exact ih h

theorem string_ne_nestingLimit (h : (string c).result = .error cause) :
    cause ≠ .nestingLimit := by
  rw [string] at h
  split at h
  · cases h
    simp
  · dsimp only at h
    generalize hbody : stringBody c.text _ _ _ _ = body at h
    rcases hresult : body.result with cause' | value
    · rw [hresult] at h
      cases h
      exact stringBody_ne_nestingLimit (hbody ▸ hresult)
    · rw [hresult] at h
      cases h

theorem name_ne_nestingLimit (h : (name g c).result = .error cause) : cause ≠ .nestingLimit := by
  rw [name] at h
  split at h
  · cases h
    simp
  · split at h
    · cases h
    · cases h
      simp

end Causes

end Lexeme

end OperatorGrammar
