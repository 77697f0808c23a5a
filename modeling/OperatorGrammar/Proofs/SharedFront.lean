/-
OperatorGrammar/Proofs/SharedFront.lean

Scanners on two texts that have their first characters in common.

A scanner reads on to the character behind the one it stops at, and no further.
So where it stops in front of the last common character, it finds the same in
both texts, and stops at the same offset.  An operator is looked up in a window
as long as the longest one of its table.

No scanner goes back, also where it starts behind the end of the text.
-/
import OperatorGrammar.Proofs.Scans

namespace OperatorGrammar

/-- A run of a class of characters is decided by its members and the character behind it. -/
theorem takeWhile_eq_of_getElem? {p : Char → Bool} {l l' : List Char}
    (h : ∀ k ≤ (l.takeWhile p).length, l'[k]? = l[k]?) : l'.takeWhile p = l.takeWhile p := by
  induction l generalizing l' with
  | nil =>
    have hnil : l'[0]? = none := h 0 (Nat.zero_le _)
    rw [← List.head?_eq_getElem?, List.head?_eq_none_iff] at hnil
    rw [hnil]
  | cons ch l ih =>
    have hhead : l'[0]? = some ch := h 0 (Nat.zero_le _)
    rw [← List.head?_eq_getElem?, List.head?_eq_some_iff] at hhead
    obtain ⟨l', rfl⟩ := hhead
    by_cases hp : p ch
    · rw [List.takeWhile_cons_of_pos hp] at h ⊢
      rw [List.takeWhile_cons_of_pos hp, ih fun k hk => h (k + 1) (Nat.succ_le_succ hk)]
    · rw [List.takeWhile_cons_of_neg hp, List.takeWhile_cons_of_neg hp]

/-- Two texts with the same characters up to an offset, where neither has ended. -/
structure SharedFront (text text' : Array Char) (last : Nat) : Prop where
  same : ∀ j ≤ last, text'[j]? = text[j]?
  inside : last < text.size
  inside' : last < text'.size

/-! ### Scanners go on -/

namespace Lexeme

variable {g : Grammar} {text : Array Char} {i j x : Nat}

theorem le_significandEnd : i ≤ significandEnd ⟨text, i⟩ := by
  have hwhole : i ≤ Cursor.skipWhile ⟨text, i⟩ Grammar.isDigit i := le_skipWhile _
  rw [significandEnd]
  dsimp only
  split
  · exact Nat.le_trans (Nat.le_succ_of_le hwhole) (le_skipWhile _)
  · exact hwhole

theorem lt_exponentStart {digits : Nat} (h : exponentStart ⟨text, x⟩ j = some digits) :
    j < digits := by
  unfold exponentStart at h
  split at h
  · split at h
    · split at h
      · cases h
        split <;> omega
      · cases h
        omega
    · cases h
  · cases h

theorem significandEnd_le_number : significandEnd ⟨text, i⟩ ≤ (number g ⟨text, i⟩).index := by
  unfold number
  dsimp only
  split
  · exact Nat.le_refl _
  · rename_i digits hdigits
    have hle : significandEnd ⟨text, i⟩ ≤ Cursor.skipWhile ⟨text, i⟩ Grammar.isDigit digits :=
      Nat.le_trans (Nat.le_of_lt (lt_exponentStart hdigits)) (le_skipWhile _)
    split
    · exact hle
    · exact hle

theorem le_number : i ≤ (number g ⟨text, i⟩).index :=
  Nat.le_trans le_significandEnd significandEnd_le_number

theorem le_stringBody {q : Char} {n : Nat} {value : List Char} :
    i ≤ (stringBody text q n i value).index := by
  induction n generalizing i value with
  | zero => exact Nat.le_refl _
  | succ n ih =>
    rw [stringBody]
    split
    · exact Nat.le_refl _
    · split
      · exact Nat.le_succ _
      · split
        · split
          · exact Nat.le_succ _
          · exact Nat.le_trans (Nat.le_add_right _ _) ih
        · exact Nat.le_trans (Nat.le_succ _) ih

theorem le_string : i ≤ (string ⟨text, i⟩).index := by
  rw [string]
  split
  · exact Nat.le_refl _
  · exact Nat.le_trans (Nat.le_succ _) le_stringBody

theorem le_name : i ≤ (name g ⟨text, i⟩).index := by
  rw [name]
  split
  · exact Nat.le_refl _
  · split
    · exact Nat.le_trans (Nat.le_succ _) (le_skipWhile _)
    · exact Nat.le_refl _

end Lexeme

/-! ### Scanners in front of the limit -/

namespace SharedFront

variable {g : Grammar} {text text' : Array Char} {last i j x : Nat}
  (h : SharedFront text text' last)
include h

theorem charAt (hj : j ≤ last) : Cursor.charAt ⟨text', x⟩ j = Cursor.charAt ⟨text, x⟩ j :=
  h.same j hj

theorem getElem?_restAt {k : Nat} (hk : i + k ≤ last) :
    (restAt text' i)[k]? = (restAt text i)[k]? := by
  rw [← getElem?_add, ← getElem?_add, h.same _ hk]

theorem slice (hj : j ≤ last) : Cursor.slice ⟨text', x⟩ i j = Cursor.slice ⟨text, x⟩ i j := by
  rw [slice_eq, slice_eq]
  congr 1
  apply List.ext_getElem?
  intro k
  rw [List.getElem?_take, List.getElem?_take]
  split
  · exact h.getElem?_restAt (by omega)
  · rfl

theorem skipWhile {p : Char → Bool} (hstop : Cursor.skipWhile ⟨text, x⟩ p i ≤ last) :
    Cursor.skipWhile ⟨text', x⟩ p i = Cursor.skipWhile ⟨text, x⟩ p i := by
  rw [skipWhile_eq] at hstop
  rw [skipWhile_eq, skipWhile_eq,
    takeWhile_eq_of_getElem? fun k hk => h.getElem?_restAt (by omega)]

/-! ### Numbers -/

theorem significandEnd (hstop : Lexeme.significandEnd ⟨text, i⟩ ≤ last) :
    Lexeme.significandEnd ⟨text', i⟩ = Lexeme.significandEnd ⟨text, i⟩ := by
  unfold Lexeme.significandEnd at hstop ⊢
  dsimp only at hstop ⊢
  have hwhole : Cursor.skipWhile ⟨text, i⟩ Grammar.isDigit i ≤ last := by
    split at hstop
    · exact Nat.le_trans (Nat.le_trans (Nat.le_succ _) (le_skipWhile _)) hstop
    · exact hstop
  rw [h.skipWhile hwhole, h.charAt hwhole]
  split at hstop
  · rename_i hpoint
    rw [if_pos hpoint, if_pos hpoint, h.skipWhile hstop]
  · rename_i hpoint
    rw [if_neg hpoint, if_neg hpoint]

theorem exponentStart (hj : j < last) :
    Lexeme.exponentStart ⟨text', x⟩ j = Lexeme.exponentStart ⟨text, x⟩ j := by
  rw [Lexeme.exponentStart, Lexeme.exponentStart, h.charAt (Nat.le_of_lt hj), h.charAt hj]

theorem numberAt (hj : j ≤ last) :
    Lexeme.numberAt g ⟨text', i⟩ j = Lexeme.numberAt g ⟨text, i⟩ j := by
  rw [Lexeme.numberAt, Lexeme.numberAt, h.slice hj, h.charAt hj]

theorem number (hstop : (Lexeme.number g ⟨text, i⟩).index < last) :
    Lexeme.number g ⟨text', i⟩ = Lexeme.number g ⟨text, i⟩ := by
  have hsignificand := Nat.lt_of_le_of_lt Lexeme.significandEnd_le_number hstop
  unfold Lexeme.number at hstop ⊢
  dsimp only at hstop ⊢
  rw [h.significandEnd (Nat.le_of_lt hsignificand), h.exponentStart hsignificand]
  split
  · exact h.numberAt (Nat.le_of_lt hsignificand)
  · rename_i digits hdigits
    rw [hdigits] at hstop
    have hdigitsEnd : Cursor.skipWhile ⟨text, i⟩ Grammar.isDigit digits ≤ last := by
      dsimp only at hstop
      split at hstop
      · exact Nat.le_of_lt hstop
      · exact Nat.le_of_lt hstop
    rw [h.skipWhile hdigitsEnd, h.slice hdigitsEnd, h.charAt hdigitsEnd, h.numberAt hdigitsEnd]

/-! ### Strings -/

theorem stringBody {q : Char} {n n' : Nat} {value : List Char} (hn : text.size - i ≤ n)
    (hn' : text'.size - i ≤ n') (hstop : (Lexeme.stringBody text q n i value).index ≤ last) :
    Lexeme.stringBody text' q n' i value = Lexeme.stringBody text q n i value := by
  have hinside := h.inside
  have hinside' := h.inside'
  induction n generalizing i n' value with
  | zero =>
    rw [Lexeme.stringBody] at hstop
    dsimp only at hstop
    omega
  | succ n ih =>
    have hi : i ≤ last := Nat.le_trans Lexeme.le_stringBody hstop
    obtain ⟨n', rfl⟩ : ∃ k, n' = k + 1 := ⟨n' - 1, by omega⟩
    rw [Lexeme.stringBody] at hstop
    rw [Lexeme.stringBody, Lexeme.stringBody, h.same i hi]
    rcases hcur : text[i]? with - | ch
    · rfl
    · rw [hcur] at hstop
      dsimp only at hstop ⊢
      by_cases hquote : ch = q
      · rw [if_pos hquote, if_pos hquote]
      rw [if_neg hquote] at hstop ⊢
      rw [if_neg hquote]
      by_cases hescape : ch = '\\'
      · rw [if_pos hescape] at hstop ⊢
        rw [if_pos hescape]
        -- the escaped character lies in front of the limit, or its absence does
        have hnext : i + 1 ≤ last := by
          split at hstop
          · exact hstop
          · exact Nat.le_trans (Nat.le_succ _) (Nat.le_trans Lexeme.le_stringBody hstop)
        rw [h.same _ hnext]
        rcases hescaped : text[i + 1]? with - | escaped
        · rfl
        · rw [hescaped] at hstop
          exact ih (by omega) (by omega) hstop
      · rw [if_neg hescape] at hstop ⊢
        rw [if_neg hescape]
        exact ih (by omega) (by omega) hstop

theorem string (hstop : (Lexeme.string ⟨text, i⟩).index ≤ last) :
    Lexeme.string ⟨text', i⟩ = Lexeme.string ⟨text, i⟩ := by
  have hcurrent : (⟨text', i⟩ : Cursor).current = (⟨text, i⟩ : Cursor).current :=
    h.same i (Nat.le_trans Lexeme.le_string hstop)
  rw [Lexeme.string] at hstop
  rw [Lexeme.string, Lexeme.string, hcurrent]
  rcases hcur : (⟨text, i⟩ : Cursor).current with - | quote
  · rfl
  · rw [hcur] at hstop
    dsimp only at hstop ⊢
    rw [h.stringBody (by omega) (by omega) hstop, h.slice hstop]

/-! ### Names -/

theorem name (hstop : (Lexeme.name g ⟨text, i⟩).index ≤ last) :
    Lexeme.name g ⟨text', i⟩ = Lexeme.name g ⟨text, i⟩ := by
  have hcurrent : (⟨text', i⟩ : Cursor).current = (⟨text, i⟩ : Cursor).current :=
    h.same i (Nat.le_trans Lexeme.le_name hstop)
  rw [Lexeme.name] at hstop
  rw [Lexeme.name, Lexeme.name, hcurrent]
  rcases hcur : (⟨text, i⟩ : Cursor).current with - | first
  · rfl
  · rw [hcur] at hstop
    dsimp only at hstop ⊢
    by_cases hfirst : g.isIdentifierStart first
    · rw [if_pos hfirst] at hstop
      rw [if_pos hfirst, if_pos hfirst, h.skipWhile hstop, h.slice hstop]
    · rw [if_neg hfirst, if_neg hfirst]

/-! ### Operators -/

theorem operatorUpTo {known : String → Bool} {n : Nat} (hn : i + n ≤ last) :
    Lexeme.operatorUpTo g known ⟨text', i⟩ n = Lexeme.operatorUpTo g known ⟨text, i⟩ n := by
  induction n with
  | zero => rfl
  | succ n ih =>
    have hcurrent : (⟨text', i⟩ : Cursor).current = (⟨text, i⟩ : Cursor).current :=
      h.same i (by omega)
    rw [Lexeme.operatorUpTo, Lexeme.operatorUpTo, ih (by omega), Lexeme.operatorOfLength,
      Lexeme.operatorOfLength, h.slice hn, h.charAt hn, hcurrent]

theorem remaining_min {bound : Nat} (hbound : i + bound ≤ last) :
    min bound (⟨text', i⟩ : Cursor).remaining = bound ∧
      min bound (⟨text, i⟩ : Cursor).remaining = bound := by
  have hinside := h.inside
  have hinside' := h.inside'
  refine ⟨Nat.min_eq_left ?_, Nat.min_eq_left ?_⟩
  · show bound ≤ text'.size - i
    omega
  · show bound ≤ text.size - i
    omega

theorem unaryOperator (hlongest : i + g.longestUnary ≤ last) :
    Lexeme.unaryOperator g ⟨text', i⟩ = Lexeme.unaryOperator g ⟨text, i⟩ := by
  obtain ⟨hmin', hmin⟩ := h.remaining_min hlongest
  rw [Lexeme.unaryOperator, Lexeme.unaryOperator, hmin', hmin, h.operatorUpTo hlongest]

theorem binaryOperator (hlongest : i + g.longestBinary ≤ last) :
    Lexeme.binaryOperator g ⟨text', i⟩ = Lexeme.binaryOperator g ⟨text, i⟩ := by
  obtain ⟨hmin', hmin⟩ := h.remaining_min hlongest
  rw [Lexeme.binaryOperator, Lexeme.binaryOperator, hmin', hmin, h.operatorUpTo hlongest]

end SharedFront

end OperatorGrammar
