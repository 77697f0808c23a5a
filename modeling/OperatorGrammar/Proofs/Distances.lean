/-
OperatorGrammar/Proofs/Distances.lean

Distances from a place, which are summed as words.

A callback hands over distances as 64-bit words.  As long as the sum of the place
and the distance is a word, everything is as in the integers: a step stops at the
end of the text, and a look ahead finds the character there, or none.  A sum that is
no word wraps, and since the place lies in a text of fewer than `2 ^ 63` characters,
it wraps to a place strictly in front of where the step began.  So a step forward can
go back (`Cursor.advance_not_clamped`).

Slices and comparisons take their offsets from the text and do not wrap.

Main result: `Cursor.distances_decided`.
-/
import OperatorGrammar.Proofs.Blanks
import OperatorGrammar.Proofs.InStep

namespace OperatorGrammar

namespace Cursor

variable {c : Cursor} {n : UInt64}

/-! ### The sum of a place and a distance -/

/-- A sum that fits into a word is that of the integers. -/
theorem plusWord_of_fits (h : c.index + n.toNat < UInt64.size) :
    c.plusWord n = c.index + n.toNat := by
  rw [plusWord, Nat.mod_eq_of_lt h, ite_self]

/-- A sum that does not fit loses one size of a word. -/
theorem plusWord_of_overflow (hplace : c.index < UInt64.size / 2)
    (h : UInt64.size ≤ c.index + n.toNat) : c.plusWord n + UInt64.size = c.index + n.toNat := by
  have hword : n.toNat < UInt64.size := n.toNat_lt_size
  -- a short distance would have left room for the place
  have hfar : ¬ n.toNat < UInt64.size / 2 := by
    intro hnear
    have hsize : UInt64.size / 2 + UInt64.size / 2 = UInt64.size := by decide
    omega
  have hrest : c.index + n.toNat - UInt64.size < UInt64.size := by omega
  rw [plusWord, if_neg hfar, Nat.mod_eq_sub_mod h, Nat.mod_eq_of_lt hrest]
  omega

/-! ### Steps and looks ahead -/

/-- Where the sum fits, a step stops at the end of the text. -/
theorem advance_of_fits (h : c.index + n.toNat < UInt64.size) :
    c.advance n = { c with index := min (c.index + n.toNat) c.text.size } := by
  rw [advance, plusWord_of_fits h]

theorem peek_of_fits (h : c.index + n.toNat < UInt64.size) :
    c.peek n = c.text[c.index + n.toNat]? := by
  rw [peek, plusWord_of_fits h]
  rfl

/-- Where the sum wraps, it lies in front of the place, and the end of the text stops
nothing. -/
theorem plusWord_lt_of_overflow (hplace : c.index < UInt64.size / 2)
    (h : UInt64.size ≤ c.index + n.toNat) : c.plusWord n < c.index := by
  have hsum := plusWord_of_overflow hplace h
  have hword : n.toNat < UInt64.size := n.toNat_lt_size
  omega

theorem advance_of_overflow (hplace : c.index ≤ c.text.size)
    (hsize : c.text.size < UInt64.size / 2) (h : UInt64.size ≤ c.index + n.toNat) :
    c.advance n = { c with index := c.plusWord n } := by
  have hlt := plusWord_lt_of_overflow (Nat.lt_of_le_of_lt hplace hsize) h
  rw [advance, Nat.min_eq_left (by omega)]

/-! ### Slices -/

/-- A slice is the text between its offsets, cut off where the text ends. -/
theorem toList_slice (c : Cursor) (start stop : Nat) :
    (c.slice start stop).toList = (c.text.toList.take stop).drop start := by
  obtain ⟨text, i⟩ := c
  rw [slice_eq, String.toList_ofList, restAt, List.drop_take]

/-- **Distances are summed as words.**  From a place in a text, a distance whose sum with
the place is a word leads to that sum, or to the end of the text; the character there is
what a look ahead finds, and none past the end.  A distance whose sum is too large leads
back: the step ends at the sum less `2 ^ 64`, strictly in front of where it began, and that
is where a look ahead looks.  A callback that makes the step goes on from there.  Slices and
comparisons never wrap: a slice is the text between its two offsets as far as there is
text, empty when they are the wrong way round, and a comparison is with what is left of the
text. -/
theorem distances_decided (c : Cursor) (hplace : c.index ≤ c.text.size) :
    (∀ n : UInt64, c.index + n.toNat < UInt64.size →
      c.advance n = { c with index := min (c.index + n.toNat) c.text.size } ∧
        c.peek n = c.text[c.index + n.toNat]?) ∧
      (∀ n : UInt64, UInt64.size ≤ c.index + n.toNat → c.text.size < UInt64.size / 2 →
        ∃ i < c.index, i + UInt64.size = c.index + n.toNat ∧
          c.advance n = { c with index := i } ∧ c.peek n = c.text[i]?) ∧
      (∀ (n : UInt64) (next : Script) (node : Option Expr) (context : Context) (s : State),
        context.text = c.text → s.index = c.index →
          (Script.advance n next).run node context s
            = next.run node context { s with index := (c.advance n).index }) ∧
      (∀ start stop, (c.slice start stop).toList = (c.text.toList.take stop).drop start ∧
        (stop ≤ start → c.slice start stop = "")) ∧
      ∀ other, c.startsWith other ↔ other.toList <+: c.text.toList.drop c.index := by
  refine ⟨fun n h => ⟨advance_of_fits h, peek_of_fits h⟩, ?_, ?_, ?_, ?_⟩
  · intro n h hsize
    have hindex : c.index < UInt64.size / 2 := Nat.lt_of_le_of_lt hplace hsize
    exact ⟨c.plusWord n, plusWord_lt_of_overflow hindex h, plusWord_of_overflow hindex h,
      advance_of_overflow hplace hsize h, rfl⟩
  · intro n next node context s htext hs
    rw [Script.run_advance_word, htext, hs]
  · intro start stop
    have hslice := c.toList_slice start stop
    refine ⟨hslice, fun hle => ?_⟩
    have hnil : (c.text.toList.take stop).drop start = [] := by
      rw [List.drop_eq_nil_iff, List.length_take]
      omega
    rw [← String.toList_inj, hslice, hnil]
    rfl
  · intro other
    exact startsWith_iff

/-- From the second of two characters: a long step that fits, and one that is longer by one
than what fits. -/
theorem distances_decided_last :
    let c : Cursor := ⟨#['a', 'b'], 1⟩
    c.index ≤ c.text.size ∧ c.text.size < UInt64.size / 2 ∧
      c.index + (18446744073709551614 : UInt64).toNat < UInt64.size ∧
      c.advance 18446744073709551614 = { c with index := 2 } ∧
      UInt64.size ≤ c.index + (18446744073709551615 : UInt64).toNat ∧
      (c.advance 18446744073709551615).index < c.index := by
  intro c
  have hplace : c.index ≤ c.text.size := by decide
  have hsize : c.text.size < UInt64.size / 2 := by decide
  have hfits : c.index + (18446744073709551614 : UInt64).toNat < UInt64.size := by decide
  have hwraps : UInt64.size ≤ c.index + (18446744073709551615 : UInt64).toNat := by decide
  obtain ⟨hstep, hback, -⟩ := distances_decided c hplace
  obtain ⟨i, hlt, -, hadvance, -⟩ := hback _ hwraps hsize
  refine ⟨hplace, hsize, hfits, (hstep _ hfits).1, hwraps, ?_⟩
  rw [hadvance]
  exact hlt

/-- A step of `2 ^ 64 - 1` from the second character leads back to the first, not to the end
of the text. -/
theorem advance_not_clamped :
    (advance ⟨#['a', 'b'], 1⟩ 18446744073709551615).index = 0 ∧
      ¬ ∀ (c : Cursor) (n : UInt64), c.index ≤ c.text.size →
        (c.advance n).index = min (c.index + n.toNat) c.text.size := by
  have hback : (advance ⟨#['a', 'b'], 1⟩ 18446744073709551615).index = 0 := by decide
  refine ⟨hback, fun h => ?_⟩
  have hend := h ⟨#['a', 'b'], 1⟩ 18446744073709551615 (by decide)
  rw [hback] at hend
  exact absurd hend (by decide)

end Cursor

end OperatorGrammar
