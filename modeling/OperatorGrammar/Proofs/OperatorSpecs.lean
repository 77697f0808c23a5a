/-
OperatorGrammar/Proofs/OperatorSpecs.lean

What a text says of a binary operator, and the way back.

An operator may contain colons and may end in `:right`, and still each text has one
reading.  One ending `:right` is taken off (`Trimmed`), then the last colon divides
what is left, and what follows it must be a precedence (`Denotes`).  Both cuts are
unique, so the four ways in which a text can be judged (`Verdict`) exclude each
other.

The other way round, the digits of a precedence contain no colon, and a text that
ends in a digit does not end in `:right`; so a written operator is cut where it was
put together.

Main result: `OperatorSpec.ofString?_decided`.
-/
import OperatorGrammar.CommandLine.OperatorSpec
import Mathlib.Data.List.Infix

namespace OperatorGrammar

namespace OperatorSpec

/-! ### How a text is divided -/

/-- The text without one ending `:right`, and whether it had one. -/
inductive Trimmed (text : List Char) : List Char → Bool → Prop
  | right {rest} : text = rest ++ rightSuffix → Trimmed text rest true
  | plain : ¬ rightSuffix <:+ text → Trimmed text text false

/-- The text is a number below `2 ^ 32`: decimal digits, perhaps behind a plus sign. -/
def Denotes (text : List Char) (n : Nat) : Prop :=
  n < UInt32.size ∧ ∃ digits, (text = digits ∨ text = '+' :: digits) ∧ digits ≠ [] ∧
    (∀ ch ∈ digits, ch.isDigit) ∧ Nat.ofDigitChars 10 digits 0 = n

/-- How a text is judged: by what is left of it without one ending `:right`, divided at its
last colon. -/
inductive Verdict (spec : String) : Except SpecFailure OperatorSpec → Prop
  | missingPrecedence {rest right} : Trimmed spec.toList rest right → ':' ∉ rest →
      Verdict spec (.error (.missingPrecedence spec))
  | emptyOperator {number right} : Trimmed spec.toList (':' :: number) right → ':' ∉ number →
      Verdict spec (.error .emptyOperator)
  | invalidPrecedence {op number right} : Trimmed spec.toList (op ++ ':' :: number) right →
      ':' ∉ number → op ≠ [] → (∀ n, ¬ Denotes number n) →
      Verdict spec (.error (.invalidPrecedence (String.ofList number)))
  | accepted {op number n right} : Trimmed spec.toList (op ++ ':' :: number) right →
      ':' ∉ number → op ≠ [] → Denotes number n → Verdict spec (.ok ⟨String.ofList op, n, right⟩)

theorem trimmed_iff {text rest : List Char} {right : Bool} :
    Trimmed text rest right ↔ dropRight text = (rest, right) := by
  unfold dropRight
  by_cases hsuffix : rightSuffix <:+ text
  · rw [if_pos (List.isSuffixOf_iff_suffix.mpr hsuffix)]
    obtain ⟨front, rfl⟩ := hsuffix
    rw [List.length_append, Nat.add_sub_cancel_right, List.take_left]
    constructor
    · rintro (htext | hno)
      · rw [List.append_cancel_right htext]
      · exact absurd (List.suffix_append _ _) hno
    · rintro ⟨⟩
      exact .right rfl
  · rw [if_neg (mt List.isSuffixOf_iff_suffix.mp hsuffix)]
    constructor
    · rintro (rfl | hno)
      · exact absurd (List.suffix_append _ _) hsuffix
      · rfl
    · rintro ⟨⟩
      exact .plain hsuffix

theorem splitLast_eq_none_iff {text : List Char} : splitLast text = none ↔ ':' ∉ text := by
  induction text with
  | nil => simp [splitLast]
  | cons ch text ih =>
    rw [splitLast]
    rcases hsplit : splitLast text with - | ⟨before, after⟩
    · have hnone := ih.mp hsplit
      by_cases hch : ch = ':'
      · simp [hch]
      · have hne : ¬ ':' = ch := fun h => hch h.symm
        simp [hch, hne, hnone]
    · have hcolon : ':' ∈ text := by
        by_contra hno
        rw [ih.mpr hno] at hsplit
        cases hsplit
      simp [hcolon]

/-- Behind the last colon, nothing is divided. -/
theorem splitLast_append {after : List Char} (before : List Char) (h : ':' ∉ after) :
    splitLast (before ++ ':' :: after) = some (before, after) := by
  induction before with
  | nil =>
    rw [List.nil_append, splitLast, splitLast_eq_none_iff.mpr h]
    rfl
  | cons ch before ih => rw [List.cons_append, splitLast, ih]

theorem splitLast_eq_some_iff {text before after : List Char} :
    splitLast text = some (before, after) ↔ text = before ++ ':' :: after ∧ ':' ∉ after := by
  constructor
  · intro h
    induction text generalizing before with
    | nil => cases h
    | cons ch text ih =>
      rw [splitLast] at h
      rcases hsplit : splitLast text with - | ⟨front, number⟩
      · -- without a colon behind it, only the first character can be one
        rw [hsplit] at h
        by_cases hch : ch = ':'
        · obtain ⟨⟩ := (if_pos hch).symm.trans h
          exact ⟨by rw [hch, List.nil_append], splitLast_eq_none_iff.mp hsplit⟩
        · cases (if_neg hch).symm.trans h
      · rw [hsplit] at h
        cases h
        obtain ⟨rfl, hafter⟩ := ih hsplit
        exact ⟨rfl, hafter⟩
  · rintro ⟨rfl, hafter⟩
    exact splitLast_append before hafter

/-! ### Precedences -/

/-- Digits alone are read as their value, when there is one digit and the value is small
enough. -/
theorem precedence?_eq_some_iff_digits {text digits : List Char} {n : Nat}
    (htext : (text = digits ∧ text.head? ≠ some '+') ∨ text = '+' :: digits) :
    precedence? text = some n ↔ n < UInt32.size ∧ digits ≠ [] ∧ (∀ ch ∈ digits, ch.isDigit) ∧
      Nat.ofDigitChars 10 digits 0 = n := by
  have hread : precedence? text =
      if digits ≠ [] ∧ digits.all Char.isDigit then
        if Nat.ofDigitChars 10 digits 0 < UInt32.size then some (Nat.ofDigitChars 10 digits 0)
        else none
      else none := by
    rcases htext with ⟨rfl, hhead⟩ | rfl
    · unfold precedence?
      split
      · exact absurd rfl hhead
      · rfl
    · rfl
  rw [hread]
  constructor
  · intro h
    obtain ⟨⟨hne, hdigits⟩, h⟩ := Option.ite_none_right_eq_some.mp h
    obtain ⟨hsmall, hvalue⟩ := Option.ite_none_right_eq_some.mp h
    cases hvalue
    exact ⟨hsmall, hne, List.all_eq_true.mp hdigits, rfl⟩
  · rintro ⟨hsmall, hne, hdigits, rfl⟩
    rw [if_pos ⟨hne, List.all_eq_true.mpr hdigits⟩, if_pos hsmall]

theorem precedence?_eq_some_iff {text : List Char} {n : Nat} :
    precedence? text = some n ↔ Denotes text n := by
  have hsign : ¬ '+'.isDigit := by decide
  constructor
  · intro h
    by_cases hhead : text.head? = some '+'
    · obtain ⟨digits, rfl⟩ := List.head?_eq_some_iff.mp hhead
      obtain ⟨hsmall, hne, hdigits, hvalue⟩ := (precedence?_eq_some_iff_digits (.inr rfl)).mp h
      exact ⟨hsmall, digits, .inr rfl, hne, hdigits, hvalue⟩
    · obtain ⟨hsmall, hne, hdigits, hvalue⟩ :=
        (precedence?_eq_some_iff_digits (.inl ⟨rfl, hhead⟩)).mp h
      exact ⟨hsmall, text, .inl rfl, hne, hdigits, hvalue⟩
  · rintro ⟨hsmall, digits, rfl | rfl, hne, hdigits, hvalue⟩
    · -- digits do not start with a plus sign
      have hhead : text.head? ≠ some '+' := fun hhead =>
        hsign (hdigits '+' (List.mem_of_mem_head? hhead))
      exact (precedence?_eq_some_iff_digits (.inl ⟨rfl, hhead⟩)).mpr ⟨hsmall, hne, hdigits, hvalue⟩
    · exact (precedence?_eq_some_iff_digits (.inr rfl)).mpr ⟨hsmall, hne, hdigits, hvalue⟩

theorem isDigit_of_mem_toDigits {n : Nat} {ch : Char} (h : ch ∈ Nat.toDigits 10 n) : ch.isDigit :=
  Nat.isDigit_of_mem_toDigits (by decide) (by decide) h

/-- The decimal digits of a number denote it. -/
theorem denotes_toDigits {n : Nat} (h : n < UInt32.size) : Denotes (Nat.toDigits 10 n) n :=
  ⟨h, _, .inl rfl, Nat.toDigits_ne_nil, fun _ => isDigit_of_mem_toDigits,
    Nat.ofDigitChars_toDigits (by decide) (by decide)⟩

/-! ### The verdict -/

/-- Every text is judged as it is read. -/
theorem verdict_ofString? (spec : String) : Verdict spec (ofString? spec) := by
  obtain ⟨⟨rest, right⟩, hrest⟩ : ∃ p, dropRight spec.toList = p := ⟨_, rfl⟩
  have htrimmed : Trimmed spec.toList rest right := trimmed_iff.mpr hrest
  rw [ofString?, hrest]
  rcases hsplit : splitLast rest with - | ⟨op, number⟩
  · simp only [hsplit]
    exact .missingPrecedence htrimmed (splitLast_eq_none_iff.mp hsplit)
  obtain ⟨rfl, hnumber⟩ := splitLast_eq_some_iff.mp hsplit
  simp only [hsplit]
  by_cases hop : op = []
  · rw [if_pos hop]
    subst hop
    exact .emptyOperator htrimmed hnumber
  rw [if_neg hop]
  rcases hprecedence : precedence? number with - | n
  · refine .invalidPrecedence htrimmed hnumber hop fun n hn => ?_
    rw [precedence?_eq_some_iff.mpr hn] at hprecedence
    cases hprecedence
  · exact .accepted htrimmed hnumber hop (precedence?_eq_some_iff.mp hprecedence)

/-- No text is judged in two ways. -/
theorem ofString?_of_verdict {spec : String} {result : Except SpecFailure OperatorSpec}
    (h : Verdict spec result) : ofString? spec = result := by
  cases h with
  | missingPrecedence htrimmed hno =>
    rw [ofString?, trimmed_iff.mp htrimmed]
    simp only [splitLast_eq_none_iff.mpr hno]
  | @emptyOperator number _ htrimmed hnumber =>
    have hsplit : splitLast (':' :: number) = some ([], number) := splitLast_append [] hnumber
    rw [ofString?, trimmed_iff.mp htrimmed]
    simp only [hsplit, if_true]
  | @invalidPrecedence _ number _ htrimmed hnumber hop hno =>
    have hnone : precedence? number = none :=
      Option.eq_none_iff_forall_ne_some.mpr fun n hn => hno n (precedence?_eq_some_iff.mp hn)
    rw [ofString?, trimmed_iff.mp htrimmed]
    simp only [splitLast_append _ hnumber, hop, hnone, if_false]
  | accepted htrimmed hnumber hop hn =>
    rw [ofString?, trimmed_iff.mp htrimmed]
    simp only [splitLast_append _ hnumber, hop, precedence?_eq_some_iff.mpr hn, if_false]

theorem ofString?_eq_iff {spec : String} {result : Except SpecFailure OperatorSpec} :
    ofString? spec = result ↔ Verdict spec result :=
  ⟨fun h => h ▸ verdict_ofString? spec, ofString?_of_verdict⟩

/-! ### Written operators -/

theorem toList_toText (s : OperatorSpec) :
    s.toText.toList = (s.op.toList ++ ':' :: Nat.toDigits 10 s.precedence)
      ++ if s.right then rightSuffix else [] := by
  have hdigits : (toString s.precedence).toList = Nat.toDigits 10 s.precedence := by
    rw [Nat.toString_eq_repr, Nat.toList_repr]
  have hcolon : (":" : String).toList = [':'] := rfl
  rw [toText, String.toList_append, String.toList_append, String.toList_append, hdigits, hcolon,
    List.append_assoc s.op.toList]
  cases s.right <;> rfl

/-- A text that ends in digits does not end in `:right`. -/
theorem not_rightSuffix_suffix (front : List Char) (n : Nat) :
    ¬ rightSuffix <:+ front ++ Nat.toDigits 10 n := by
  intro hsuffix
  have hne : Nat.toDigits 10 n ≠ [] := Nat.toDigits_ne_nil
  have hlast : (front ++ Nat.toDigits 10 n).getLast? = some 't' := by
    obtain ⟨rest, hrest⟩ := hsuffix
    rw [← hrest, List.getLast?_append_of_ne_nil _ (by decide)]
    rfl
  -- the same character is the last of the digits
  rw [List.getLast?_append_of_ne_nil _ hne] at hlast
  have hdigit : 't'.isDigit := isDigit_of_mem_toDigits (List.mem_of_getLast? hlast)
  exact absurd hdigit (by decide)

theorem trimmed_toText (s : OperatorSpec) :
    Trimmed s.toText.toList (s.op.toList ++ ':' :: Nat.toDigits 10 s.precedence) s.right := by
  rw [toList_toText]
  cases s.right with
  | true => exact .right rfl
  | false =>
    rw [if_neg Bool.false_ne_true, List.append_nil]
    refine .plain ?_
    -- the operator and the colon are in front of the digits
    rw [List.append_cons]
    exact not_rightSuffix_suffix _ _

/-- A written operator is read again, whatever the operator consists of. -/
theorem ofString?_toText {s : OperatorSpec} (hop : s.op ≠ "")
    (hsmall : s.precedence < UInt32.size) : ofString? s.toText = .ok s := by
  have hcolon : ':' ∉ Nat.toDigits 10 s.precedence := fun h =>
    absurd (isDigit_of_mem_toDigits h) (by decide)
  have hverdict : Verdict s.toText (.ok ⟨String.ofList s.op.toList, s.precedence, s.right⟩) :=
    .accepted (trimmed_toText s) hcolon (mt String.toList_eq_nil_iff.mp hop)
      (denotes_toDigits hsmall)
  rw [ofString?_of_verdict hverdict, String.ofList_toList]

/-- Every text has one verdict, the one that it is read with, and a written operator is
accepted as what it was. -/
theorem ofString?_decided :
    (∀ s : OperatorSpec, s.op ≠ "" → s.precedence < UInt32.size → ofString? s.toText = .ok s) ∧
      ∀ (spec : String) (result : Except SpecFailure OperatorSpec),
        ofString? spec = result ↔ Verdict spec result :=
  ⟨fun _ => ofString?_toText, fun _ _ => ofString?_eq_iff⟩

/-- An operator that ends in `:right` itself. -/
theorem ofString?_decided_colons :
    ("a::right" ≠ "" ∧ 4294967295 < UInt32.size) ∧
      ofString? "a::right:4294967295:right" = .ok ⟨"a::right", 4294967295, true⟩ ∧
      Verdict "a::right" (.error (.invalidPrecedence "")) :=
  ⟨⟨by decide, by decide⟩,
    ofString?_decided.1 ⟨"a::right", 4294967295, true⟩ (by decide) (by decide),
    (ofString?_decided.2 _ _).mp (by decide)⟩

end OperatorSpec

end OperatorGrammar
