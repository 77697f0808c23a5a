/-
OperatorGrammar/Proofs/FailurePlace.lean

Where a failure points to.

A failure carries an offset that counts characters.  Without callbacks but the
bundled ones it never lies past the end of the text: each failure is raised at
the cursor, or where a comment was opened (`Dialect.Plain.parse_of_observed`,
with no observers at all).

A report marks bytes.  The bytes in front of a character are those of the
characters in front of it, so the range that is marked starts and ends between
characters, whatever the offset is (`charSpan_onBoundaries`), and translated back
it is the character at the offset (`charsBefore_charSpan`).

Main result: `failure_pointsIntoSource`.
-/
import OperatorGrammar.Proofs.Observers
import OperatorGrammar.Report.Excerpt

namespace OperatorGrammar

namespace Report

/-- A range of bytes of a text that starts and ends between characters. -/
structure ByteRange.OnBoundaries (r : ByteRange) (text : String) : Prop where
  ordered : r.start ≤ r.stop
  within : r.stop ≤ text.utf8ByteSize
  start : String.Pos.Raw.IsValid text ⟨r.start⟩
  stop : String.Pos.Raw.IsValid text ⟨r.stop⟩

/-- The bytes of a range. -/
def ByteRange.bytes (r : ByteRange) (text : String) : ByteArray :=
  text.toByteArray.extract r.start r.stop

/-! ### The bytes in front of a character -/

/-- How many bytes the first characters of a text have. -/
def bytesUpTo (text : String) (n : Nat) : Nat :=
  (String.ofList (text.toList.take n)).utf8ByteSize

section

variable {text : String} {n : Nat} {ch : Char}

theorem bytesUpTo_of_length_le (h : text.length ≤ n) : bytesUpTo text n = text.utf8ByteSize := by
  rw [bytesUpTo, List.take_of_length_le (by rwa [String.length_toList]), String.ofList_toList]

theorem bytesUpTo_succ (h : text.toList[n]? = some ch) :
    bytesUpTo text (n + 1) = bytesUpTo text n + ch.utf8Size := by
  rw [bytesUpTo, List.take_add_one, h, String.ofList_append, String.utf8ByteSize_append]
  simp [bytesUpTo]

/-- A character starts behind the bytes of those in front of it. -/
theorem getElem?_charIndices (chars : List Char) (start n : Nat) :
    (charIndices start chars)[n]? =
      chars[n]?.map fun ch => (start + (String.ofList (chars.take n)).utf8ByteSize, ch) := by
  induction chars generalizing start n with
  | nil => rfl
  | cons ch chars ih =>
    cases n with
    | zero => rfl
    | succ n =>
      rw [charIndices, List.getElem?_cons_succ, List.getElem?_cons_succ, ih, List.take_succ_cons,
        String.ofList_cons, String.utf8ByteSize_append, String.utf8ByteSize_singleton]
      simp only [Nat.add_assoc]

/-- The marked range is between the characters in front of an offset and those up to it, also
past the end of the text. -/
theorem charSpan_eq (text : String) (n : Nat) :
    charSpan text n = ⟨bytesUpTo text n, bytesUpTo text (n + 1)⟩ := by
  rw [charSpan, getElem?_charIndices]
  rcases hch : text.toList[n]? with - | ch
  · rw [List.getElem?_eq_none_iff, String.length_toList] at hch
    rw [bytesUpTo_of_length_le hch, bytesUpTo_of_length_le (Nat.le_succ_of_le hch)]
    rfl
  · rw [bytesUpTo_succ hch]
    simp [bytesUpTo]

theorem charSpan_onBoundaries (text : String) (n : Nat) : (charSpan text n).OnBoundaries text := by
  have hvalid (n : Nat) : String.Pos.Raw.IsValid text ⟨bytesUpTo text n⟩ := by
    have h : String.Pos.Raw.IsValid (String.ofList text.toList) ⟨bytesUpTo text n⟩ :=
      String.Pos.Raw.isValid_ofList.mpr ⟨n, rfl⟩
    rwa [String.ofList_toList] at h
  have hordered : bytesUpTo text n ≤ bytesUpTo text (n + 1) := by
    rw [bytesUpTo, bytesUpTo, List.take_add_one, String.ofList_append,
      String.utf8ByteSize_append]
    exact Nat.le_add_right _ _
  rw [charSpan_eq]
  exact ⟨hordered, (hvalid (n + 1)).le_rawEndPos, hvalid n, hvalid (n + 1)⟩

/-- The bytes of a character are marked, and no others. -/
theorem bytes_charSpan (h : text.toList[n]? = some ch) :
    (charSpan text n).bytes text = (String.singleton ch).toByteArray := by
  have htext : text = String.ofList (text.toList.take n) ++ String.singleton ch ++
      String.ofList (text.toList.drop (n + 1)) := by
    obtain ⟨hlt, hch⟩ := List.getElem?_eq_some_iff.mp h
    apply String.toList_injective
    simp only [String.toList_append, String.toList_ofList, String.toList_singleton, ← hch,
      List.take_append_getElem, List.take_append_drop]
  have hbytes : text.toByteArray = (String.ofList (text.toList.take n)).toByteArray ++
      (String.singleton ch).toByteArray ++
        (String.ofList (text.toList.drop (n + 1))).toByteArray := by
    rw [← String.toByteArray_append, ← String.toByteArray_append, ← htext]
  have hstop : bytesUpTo text n + ch.utf8Size =
      ((String.ofList (text.toList.take n)).toByteArray ++
        (String.singleton ch).toByteArray).size := by
    rw [ByteArray.size_append, ← String.utf8ByteSize_singleton]
    rfl
  rw [charSpan_eq, bytesUpTo_succ h, ByteRange.bytes, hstop, hbytes,
    ByteArray.extract_append_size_left]
  exact ByteArray.extract_append_eq_right rfl ByteArray.size_append

/-! ### Back to characters -/

theorem charsBefore_take (chars : List Char) (n : Nat) :
    charsBefore chars (String.ofList (chars.take n)).utf8ByteSize = min n chars.length := by
  induction chars generalizing n with
  | nil => simp [charsBefore]
  | cons ch chars ih =>
    cases n with
    | zero => simp [charsBefore]
    | succ n =>
      have hpos := ch.utf8Size_pos
      rw [List.take_succ_cons, String.ofList_cons, String.utf8ByteSize_append,
        String.utf8ByteSize_singleton, charsBefore, if_neg (by omega), Nat.add_sub_cancel_left, ih,
        List.length_cons]
      omega

/-- Counted in characters, the marked range is that of the character at the offset. -/
theorem charsBefore_charSpan (text : String) (n : Nat) :
    charsBefore text.toList (charSpan text n).start = min n text.length ∧
      charsBefore text.toList (charSpan text n).stop = min (n + 1) text.length := by
  rw [charSpan_eq, ← String.length_toList]
  exact ⟨charsBefore_take _ _, charsBefore_take _ _⟩

end

end Report

open Report

/-- **Every failure points into its source.**  Without callbacks but the bundled ones, no
failure has an offset past the end of the text.  And whatever the offset, the range of bytes
that a report marks lies in the text, between characters: it has the bytes of the character at
the offset, behind those of the characters in front of it, and past the last character it is
empty, at the end of the text. -/
theorem failure_pointsIntoSource :
    (∀ d : Dialect, d.Plain → ∀ text e, d.parse text = some (.error e) →
      e.index ≤ text.length) ∧
      ∀ text index,
        (charSpan text index).OnBoundaries text ∧
          (∀ ch, text.toList[index]? = some ch →
            (charSpan text index).start = bytesUpTo text index ∧
              (charSpan text index).bytes text = (String.singleton ch).toByteArray) ∧
          (text.length ≤ index → charSpan text index = ⟨text.utf8ByteSize, text.utf8ByteSize⟩) := by
  refine ⟨fun d hd text e he => ?_, fun text index => ⟨?_, fun ch hch => ⟨?_, ?_⟩, fun hle => ?_⟩⟩
  · obtain ⟨o, ho, -, hwithin⟩ := hd.parse_of_observed (.refl d text.toList.toArray)
    rw [he] at ho
    exact hwithin e (Option.some.inj ho).symm
  · exact charSpan_onBoundaries text index
  · rw [charSpan_eq]
  · exact bytes_charSpan hch
  · rw [charSpan_eq, bytesUpTo_of_length_le hle, bytesUpTo_of_length_le (Nat.le_succ_of_le hle)]

/-- A name behind a number, with characters of two and of three bytes. -/
theorem failure_pointsIntoSource_euro :
    let d := Dialect.standard.registering [.comments, .ternary]
    let text := "é+1€"
    d.Plain ∧ d.parse text = some (.error ⟨.nameAfterNumber "1" '€', 3⟩) ∧ 3 ≤ text.length ∧
      charSpan text 3 = ⟨4, 7⟩ ∧ (charSpan text 3).bytes text = (String.singleton '€').toByteArray ∧
      charSpan text 9 = ⟨7, 7⟩ := by
  intro d text
  have hd : d.Plain := Dialect.standard_registering_plain
  have hparse : d.parse text = some (.error ⟨.nameAfterNumber "1" '€', 3⟩) :=
    Dialect.parse_of_failsAs (by decide +kernel)
  have hlast : text.toList[3]? = some '€' := by decide +kernel
  obtain ⟨hbound, hspan⟩ := failure_pointsIntoSource
  have hat := (hspan text 3).2.1 '€' hlast
  refine ⟨hd, hparse, hbound d hd text _ hparse, by decide +kernel, hat.2, ?_⟩
  exact (hspan text 9).2.2 (by decide +kernel)

end OperatorGrammar
