/-
OperatorGrammar/Proofs/Number.lean

The grammar of numerals, and the number scanner as its reader.

A numeral is `D+`, `D+ . D*` or `. D+`, followed by an optional exponent.  The
scanner cuts it into its three parts from left to right; each part ends where
the next character cannot belong to it.  The reader of decimal numerals cuts the
same three parts out of the finished text (`numeralOf_parts`) and accepts nothing
else (`read_isSome_iff`), so that what passes it and the checks at the end of a
number is a numeral that nothing runs into.

Main result: `Reading.number_decided`.
-/
import OperatorGrammar.Proofs.Lexeme
import OperatorGrammar.Proofs.Reading

namespace OperatorGrammar

/-! ### The grammar of numerals -/

/-- Only decimal digits. -/
def AllDigits (l : List Char) : Prop := ∀ ch ∈ l, ch.isDigit

/-- Nothing, or a point with digits behind it. -/
def IsFraction (l : List Char) : Prop :=
  l = [] ∨ ∃ digits, l = '.' :: digits ∧ AllDigits digits

/-- Nothing, or a mark, perhaps a sign, and at least one digit. -/
def IsExponent (l : List Char) : Prop :=
  l = [] ∨ ∃ mark sign digits, l = mark :: (sign ++ digits) ∧ (mark = 'e' ∨ mark = 'E') ∧
    (sign = [] ∨ sign = ['+'] ∨ sign = ['-']) ∧ digits ≠ [] ∧ AllDigits digits

/-- A numeral: digits, a fraction and an exponent, with a digit before the exponent. -/
def IsNumeral (l : List Char) : Prop :=
  ∃ whole fraction exponent, l = whole ++ fraction ++ exponent ∧ AllDigits whole ∧
    IsFraction fraction ∧ IsExponent exponent ∧ (whole = [] → 2 ≤ fraction.length)

/-- A number that the input starts with and that nothing runs into. -/
structure NumberToken (g : Grammar) (input : List Char) (raw : String) (value : Float)
    (rest : List Char) : Prop where
  isNumeral : IsNumeral raw.toList
  value : Decimal.read raw.toList = some value
  split : input = raw.toList ++ rest
  stops : ∀ ch ∈ rest.head?, ¬ g.isIdentifierStart ch ∧ ¬ ch.isDigit ∧ ch ≠ '.'

/-- An input cut into a numeral and a rest that does not run into it. -/
structure NumeralSplit (g : Grammar) (input w u : List Char) : Prop where
  split : input = w ++ u
  isNumeral : IsNumeral w
  stops : ∀ ch ∈ u.head?, ¬ g.isIdentifierStart ch ∧ ¬ ch.isDigit ∧ ch ≠ '.'

theorem NumberToken.numeralSplit {g : Grammar} {input rest : List Char} {raw : String}
    {value : Float} (h : NumberToken g input raw value rest) :
    NumeralSplit g input raw.toList rest :=
  ⟨h.split, h.isNumeral, h.stops⟩

theorem not_isDigit_mark {mark : Char} (h : mark = 'e' ∨ mark = 'E') : ¬ mark.isDigit := by
  rcases h with rfl | rfl <;> decide

theorem isIdentifierStart_mark {g : Grammar} {mark : Char} (h : mark = 'e' ∨ mark = 'E') :
    g.isIdentifierStart mark := by
  have halpha : mark.isAlpha := by rcases h with rfl | rfl <;> decide
  simp [Grammar.isIdentifierStart, halpha]

theorem IsExponent.head_not_digit {l : List Char} (h : IsExponent l) :
    ∀ ch ∈ l.head?, ¬ ch.isDigit ∧ ch ≠ '.' := by
  rcases h with rfl | ⟨mark, sign, digits, rfl, hmark, -⟩
  · simp
  · intro ch hch
    obtain rfl : mark = ch := by simpa using hch
    refine ⟨not_isDigit_mark hmark, ?_⟩
    rcases hmark with rfl | rfl <;> decide

theorem IsFraction.head_not_digit {l : List Char} (h : IsFraction l) :
    ∀ ch ∈ l.head?, ¬ ch.isDigit := by
  rcases h with rfl | ⟨digits, rfl, -⟩
  · simp
  · intro ch hch
    obtain rfl : '.' = ch := by simpa using hch
    decide

/-- A numeral starts with a digit or a point. -/
theorem IsNumeral.exists_cons {l : List Char} (h : IsNumeral l) :
    ∃ ch more, l = ch :: more ∧ (ch.isDigit ∨ ch = '.') := by
  obtain ⟨whole, fraction, exponent, rfl, hwhole, hfraction, -, hdigit⟩ := h
  rcases whole with - | ⟨ch, whole⟩
  · rcases hfraction with rfl | ⟨digits, rfl, -⟩
    · exact absurd (hdigit rfl) (by simp)
    · exact ⟨'.', _, rfl, .inr rfl⟩
  · exact ⟨ch, _, rfl, .inl (hwhole ch List.mem_cons_self)⟩

/-! ### The reader of numerals -/

namespace Decimal

theorem exponentOf_isSome {l : List Char} (h : IsExponent l) : (exponentOf l).isSome := by
  rcases h with rfl | ⟨mark, sign, digits, rfl, hmark, hsign, hne, hdigits⟩
  · rfl
  have hall : digits.all Char.isDigit := List.all_eq_true.mpr hdigits
  unfold exponentOf
  simp only [hmark, if_true]
  rcases hsign with rfl | rfl | rfl
  · -- no sign: the first digit is neither of the two signs
    split
    · rename_i more heq
      rw [List.nil_append] at heq
      exact absurd (hdigits '-' (by simp [heq])) (by decide)
    · rename_i more heq
      rw [List.nil_append] at heq
      exact absurd (hdigits '+' (by simp [heq])) (by decide)
    · simp [hne, hall]
  · simp [hne, hall]
  · simp [hne, hall]

theorem isExponent_of_exponentOf {l : List Char} {n : Int} (h : exponentOf l = some n) :
    IsExponent l := by
  rcases l with - | ⟨mark, rest⟩
  · exact .inl rfl
  rw [exponentOf.eq_def] at h
  by_cases hmark : mark = 'e' ∨ mark = 'E'
  · simp only [hmark, if_true] at h
    split at h
    all_goals obtain ⟨⟨hne, hdigits⟩, -⟩ := Option.ite_none_right_eq_some.mp h
    · exact .inr ⟨mark, ['-'], _, rfl, hmark, .inr (.inr rfl), hne, List.all_eq_true.mp hdigits⟩
    · exact .inr ⟨mark, ['+'], _, rfl, hmark, .inr (.inl rfl), hne, List.all_eq_true.mp hdigits⟩
    · exact .inr ⟨mark, [], _, rfl, hmark, .inl rfl, hne, List.all_eq_true.mp hdigits⟩
  · simp [hmark] at h

/-- The reader cuts a text into the same parts. -/
theorem numeralOf_parts {whole fraction exponent : List Char} (hwhole : AllDigits whole)
    (hfraction : IsFraction fraction) (hexponent : IsExponent exponent) :
    (numeralOf (whole ++ fraction ++ exponent)).isSome ↔ (whole = [] → 2 ≤ fraction.length) := by
  have hsome := exponentOf_isSome hexponent
  have hhead : ∀ ch ∈ (fraction ++ exponent).head?, ¬ ch.isDigit := by
    cases fraction with
    | nil => exact fun ch hch => (hexponent.head_not_digit ch hch).1
    | cons ch more => exact hfraction.head_not_digit
  have htake : (whole ++ fraction ++ exponent).takeWhile Char.isDigit = whole := by
    rw [List.append_assoc, takeWhile_append_run hwhole hhead]
  have hdrop : (whole ++ fraction ++ exponent).dropWhile Char.isDigit = fraction ++ exponent := by
    rw [List.append_assoc, dropWhile_append_run hwhole hhead]
  rw [numeralOf]
  simp only [htake, hdrop]
  rcases hfraction with rfl | ⟨digits, rfl, hdigits⟩
  · -- no point: the rest is the exponent, which starts with none
    have hpoint : ∀ more, [] ++ exponent = '.' :: more → False := by
      intro more h
      exact (hexponent.head_not_digit '.' (by rw [← List.nil_append exponent, h]; rfl)).2 rfl
    split
    · rename_i more heq
      exact (hpoint more heq).elim
    · by_cases hw : whole = []
      · simp [hw]
      · simp [hw, hsome]
  · have hhead' : ∀ ch ∈ exponent.head?, ¬ ch.isDigit :=
      fun ch hch => (hexponent.head_not_digit ch hch).1
    have htake' := takeWhile_append_run hdigits hhead'
    have hdrop' := dropWhile_append_run hdigits hhead'
    have htake'' : (digits ++ exponent).takeWhile Char.isDigit = digits := htake'
    have hdrop'' : (digits ++ exponent).dropWhile Char.isDigit = exponent := hdrop'
    simp only [List.cons_append, htake'', hdrop'']
    by_cases hw : whole = []
    · by_cases hd : digits = []
      · simp [hw, hd]
      · have hlen : 0 < digits.length := List.length_pos_iff.mpr hd
        simp only [hw, hd, and_false, if_false, Option.isSome_map, hsome, List.length_cons,
          forall_const, true_iff]
        omega
    · simp [hw, hsome]

/-- What the reader takes apart goes on behind its first digits with a fraction and an
exponent. -/
theorem exists_fraction {l : List Char} {n : Numeral} (h : numeralOf l = some n) :
    ∃ fraction exponent, l.dropWhile Char.isDigit = fraction ++ exponent ∧
      IsFraction fraction ∧ IsExponent exponent := by
  rw [numeralOf] at h
  dsimp only at h
  rw [Option.ite_none_left_eq_some, Option.map_eq_some_iff] at h
  obtain ⟨-, e, hexponent, -⟩ := h
  split at hexponent
  · rename_i more hmore
    refine ⟨'.' :: more.takeWhile Char.isDigit, more.dropWhile Char.isDigit, ?_,
      .inr ⟨_, rfl, mem_takeWhile_run⟩, isExponent_of_exponentOf hexponent⟩
    rw [hmore, List.cons_append, List.takeWhile_append_dropWhile]
  · exact ⟨[], _, rfl, .inl rfl, isExponent_of_exponentOf hexponent⟩

/-- The reader accepts the numerals and nothing else. -/
theorem read_isSome_iff {l : List Char} : (read l).isSome ↔ IsNumeral l := by
  rw [read, Option.isSome_map]
  constructor
  · intro h
    obtain ⟨n, hn⟩ := Option.isSome_iff_exists.mp h
    obtain ⟨fraction, exponent, hrest, hfraction, hexponent⟩ := exists_fraction hn
    have hwhole : AllDigits (l.takeWhile Char.isDigit) := mem_takeWhile_run
    have hparts : l = l.takeWhile Char.isDigit ++ fraction ++ exponent := by
      rw [List.append_assoc, ← hrest, List.takeWhile_append_dropWhile]
    rw [hparts] at h
    exact ⟨_, _, _, hparts, hwhole, hfraction, hexponent,
      (numeralOf_parts hwhole hfraction hexponent).mp h⟩
  · rintro ⟨whole, fraction, exponent, rfl, hwhole, hfraction, hexponent, hdigit⟩
    exact (numeralOf_parts hwhole hfraction hexponent).mpr hdigit
end Decimal

instance : DecidablePred IsNumeral := fun _ => decidable_of_iff _ Decimal.read_isSome_iff

example : IsNumeral "1.e5".toList ∧ ¬ IsNumeral ".e5".toList := by decide +kernel

theorem NumeralSplit.numberToken {g : Grammar} {input w u : List Char}
    (h : NumeralSplit g input w u) :
    ∃ value, Decimal.read w = some value ∧ NumberToken g input (String.ofList w) value u := by
  obtain ⟨value, hvalue⟩ := Option.isSome_iff_exists.mp (Decimal.read_isSome_iff.mpr h.isNumeral)
  exact ⟨value, hvalue, by simpa using h.isNumeral, by simpa using hvalue,
    by simpa using h.split, h.stops⟩

/-! ### The scanner -/

namespace Lexeme

variable {g : Grammar} {text : Array Char} {i : Nat} {rest : List Char}

theorem isDigit_eq : Grammar.isDigit = Char.isDigit := rfl

/-- One round of digits: where it ends and what is left there. -/
theorem digits_sound (text : Array Char) (x i : Nat) :
    ∃ digits : List Char,
      Cursor.skipWhile ⟨text, x⟩ Grammar.isDigit i = i + digits.length ∧
      restAt text i = digits ++ restAt text (i + digits.length) ∧
      ∀ ch ∈ (restAt text (i + digits.length)).head?, ¬ ch.isDigit := by
  have hrest : restAt text (Cursor.skipWhile ⟨text, x⟩ Char.isDigit i) = _ :=
    restAt_skipWhile x Char.isDigit
  rw [skipWhile_eq] at hrest
  refine ⟨_, skipWhile_eq x Char.isDigit, ?_, ?_⟩
  · rw [hrest, List.takeWhile_append_dropWhile]
  · rw [hrest]
    exact head?_dropWhile_run _

theorem digits_complete {x : Nat} {digits : List Char} (hdigits : AllDigits digits)
    (hsplit : restAt text i = digits ++ rest) (hrest : ∀ ch ∈ rest.head?, ¬ ch.isDigit) :
    Cursor.skipWhile ⟨text, x⟩ Grammar.isDigit i = i + digits.length := by
  rw [skipWhile_eq, isDigit_eq, hsplit, takeWhile_append_run hdigits hrest]

/-- The significand that the scanner takes, and what it leaves behind it. -/
theorem significandEnd_sound (text : Array Char) (i : Nat) :
    ∃ part : List Char, significandEnd ⟨text, i⟩ = i + part.length ∧
      restAt text i = part ++ restAt text (i + part.length) ∧
      ∀ ch ∈ (restAt text (i + part.length)).head?, ¬ ch.isDigit := by
  obtain ⟨whole, hstop, hsplit, hhead⟩ := digits_sound text i i
  rw [significandEnd]
  rw [hstop]
  by_cases hpoint : (⟨text, i⟩ : Cursor).charAt (i + whole.length) = some '.'
  · obtain ⟨digits, hstop', hsplit', hhead'⟩ := digits_sound text i (i + whole.length + 1)
    have hlen : i + (whole ++ '.' :: digits).length = i + whole.length + 1 + digits.length := by
      simp only [List.length_append, List.length_cons]
      omega
    refine ⟨whole ++ '.' :: digits, ?_, ?_, ?_⟩
    · rw [if_pos hpoint, hstop', hlen]
    · rw [hlen, hsplit, restAt_eq_cons hpoint, hsplit']
      simp
    · rwa [hlen]
  · exact ⟨whole, by rw [if_neg hpoint], hsplit, hhead⟩

theorem significandEnd_complete {whole fraction : List Char} (hwhole : AllDigits whole)
    (hfraction : IsFraction fraction) (hsplit : restAt text i = whole ++ fraction ++ rest)
    (hrest : ∀ ch ∈ rest.head?, ¬ ch.isDigit ∧ ch ≠ '.') :
    significandEnd ⟨text, i⟩ = i + (whole ++ fraction).length := by
  have hhead : ∀ ch ∈ (fraction ++ rest).head?, ¬ ch.isDigit := by
    cases fraction with
    | nil => exact fun ch hch => (hrest ch hch).1
    | cons ch more => exact hfraction.head_not_digit
  rw [List.append_assoc] at hsplit
  have hnext : restAt text (i + whole.length) = fraction ++ rest := by
    rw [restAt_add, hsplit, List.drop_left]
  have hchar : (⟨text, i⟩ : Cursor).charAt (i + whole.length) = (fraction ++ rest).head? := by
    show text[i + whole.length]? = _
    rw [getElem?_eq_head?, hnext]
  rw [significandEnd]
  rw [digits_complete hwhole hsplit hhead]
  -- a point is taken also when no digit follows it
  rcases hfraction with rfl | ⟨digits, rfl, hdigits⟩
  · have hpoint : (⟨text, i⟩ : Cursor).charAt (i + whole.length) ≠ some '.' := by
      rw [hchar]
      exact fun h => (hrest '.' h).2 rfl
    rw [if_neg hpoint, List.append_nil]
  · have hpoint : (⟨text, i⟩ : Cursor).charAt (i + whole.length) = some '.' := hchar
    have hmore : restAt text (i + whole.length + 1) = digits ++ rest := by
      rw [restAt_add, hnext]
      rfl
    rw [if_pos hpoint, digits_complete hdigits hmore fun ch hch => (hrest ch hch).1,
      List.length_append, List.length_cons]
    omega

/-- Where the digits of an exponent start: behind a mark and perhaps a sign. -/
theorem exponentStart_sound {x k digits : Nat} (h : exponentStart ⟨text, x⟩ k = some digits) :
    ∃ part : List Char, digits = k + part.length ∧ restAt text k = part ++ restAt text digits := by
  rw [exponentStart] at h
  simp only [Cursor.charAt] at h
  rcases hmark : text[k]? with - | mark
  · simp [hmark] at h
  by_cases he : mark = 'e' ∨ mark = 'E'
  · simp only [hmark, he, if_true] at h
    rcases hsign : text[k + 1]? with - | sign
    · simp only [hsign, Option.some.injEq] at h
      exact ⟨[mark], h.symm, by rw [← h, restAt_eq_cons hmark]; rfl⟩
    by_cases hs : sign = '+' ∨ sign = '-'
    · simp only [hsign, hs, if_true, Option.some.injEq] at h
      exact ⟨[mark, sign], h.symm, by rw [← h, restAt_eq_cons hmark, restAt_eq_cons hsign]; rfl⟩
    · simp only [hsign, hs, if_false, Option.some.injEq] at h
      exact ⟨[mark], h.symm, by rw [← h, restAt_eq_cons hmark]; rfl⟩
  · simp [hmark, he] at h

theorem exponentStart_complete {x k : Nat} {mark : Char} {sign digits : List Char}
    (hmark : mark = 'e' ∨ mark = 'E') (hsign : sign = [] ∨ sign = ['+'] ∨ sign = ['-'])
    (hne : digits ≠ []) (hdigits : AllDigits digits)
    (hsplit : restAt text k = mark :: (sign ++ digits ++ rest)) :
    exponentStart ⟨text, x⟩ k = some (k + (mark :: sign).length) := by
  have hk : text[k]? = some mark := by rw [getElem?_eq_head?, hsplit]; rfl
  have hnext : text[k + 1]? = (sign ++ digits ++ rest).head? := by
    rw [getElem?_add, hsplit, List.head?_eq_getElem?]
    rfl
  rw [exponentStart]
  simp only [Cursor.charAt, hk, hmark, if_true, hnext]
  rcases hsign with rfl | rfl | rfl
  · -- a digit is no sign
    obtain ⟨d, more, rfl⟩ := List.exists_cons_of_ne_nil hne
    have hd : ¬ (d = '+' ∨ d = '-') := by
      have hdigit := hdigits d (by simp)
      rintro (rfl | rfl) <;> exact absurd hdigit (by decide)
    simp [hd]
  · simp
  · simp

theorem exponentStart_eq_none {x k : Nat}
    (h : ∀ ch ∈ (restAt text k).head?, ¬ (ch = 'e' ∨ ch = 'E')) :
    exponentStart ⟨text, x⟩ k = none := by
  rw [exponentStart]
  simp only [Cursor.charAt]
  rcases hmark : text[k]? with - | mark
  · rfl
  · have hno := h mark (by rw [← getElem?_eq_head?, hmark]; rfl)
    simp [hno]

/-- What passes the checks at the end of a number is a numeral, and nothing runs into it. -/
theorem numberAt_sound {part : List Char} {e : Expr} {k j : Nat}
    (hk : k = i + part.length) (hsplit : restAt text i = part ++ restAt text k)
    (hhead : ∀ ch ∈ (restAt text k).head?, ¬ ch.isDigit)
    (h : numberAt g ⟨text, i⟩ k = ⟨j, .ok e⟩) :
    ∃ raw value, e = .literal (.number value) raw ∧
      NumberToken g (restAt text i) raw value (restAt text j) := by
  have hraw : Cursor.slice ⟨text, i⟩ i k = String.ofList part := by
    rw [hk, slice_add, hsplit, List.take_left]
  have hvalue {e : Expr} (h : numberAt.value (String.ofList part) = .ok e)
      (hrest : ∀ ch ∈ (restAt text k).head?, ¬ g.isIdentifierStart ch ∧ ch ≠ '.') :
      ∃ raw value, e = .literal (.number value) raw ∧
        NumberToken g (restAt text i) raw value (restAt text k) := by
    rw [numberAt.value] at h
    rw [String.toList_ofList] at h
    rcases hread : Decimal.read part with - | value
    · simp [hread] at h
    · simp only [hread, Except.ok.injEq] at h
      have hnumeral : IsNumeral part := Decimal.read_isSome_iff.mp (by rw [hread]; rfl)
      refine ⟨_, value, h.symm, ⟨by rwa [String.toList_ofList], by rwa [String.toList_ofList],
        by rwa [String.toList_ofList], ?_⟩⟩
      exact fun ch hch => ⟨(hrest ch hch).1, hhead ch hch, (hrest ch hch).2⟩
  rw [numberAt] at h
  simp only [hraw, Scan.mk.injEq, Cursor.charAt] at h
  obtain ⟨rfl, h⟩ := h
  rcases hnext : text[k]? with - | next
  · simp only [hnext] at h
    split at h
    · cases h
    · exact hvalue h (by simp [restAt_eq_nil_of_none hnext])
  · simp only [hnext] at h
    split at h
    · cases h
    split at h
    · cases h
    rename_i hstart hpoint
    refine hvalue h ?_
    intro ch hch
    rw [restAt_eq_cons hnext, List.head?_cons, Option.mem_some_iff] at hch
    subst hch
    exact ⟨hstart, fun h => hpoint (.inl h)⟩

theorem numberAt_complete {part : List Char} {value : Float} {k : Nat}
    (hk : k = i + part.length) (hsplit : restAt text i = part ++ rest)
    (hread : Decimal.read part = some value)
    (hrest : ∀ ch ∈ rest.head?, ¬ g.isIdentifierStart ch ∧ ch ≠ '.') :
    numberAt g ⟨text, i⟩ k = ⟨k, .ok (.literal (.number value) (String.ofList part))⟩ := by
  have hraw : Cursor.slice ⟨text, i⟩ i k = String.ofList part := by
    rw [hk, slice_add, hsplit, List.take_left]
  have hnext : text[k]? = rest.head? := by
    rw [getElem?_eq_head?, hk, restAt_add, hsplit, List.drop_left]
  -- a lone point has no value
  have hpoint : String.ofList part ≠ "." := by
    intro h
    obtain rfl : part = ['.'] := by rw [← String.toList_ofList (l := part), h]; rfl
    simp [Decimal.read, Decimal.numeralOf] at hread
  have hvalue : numberAt.value (String.ofList part)
      = .ok (.literal (.number value) (String.ofList part)) := by
    rw [numberAt.value]
    rw [String.toList_ofList, hread]
  rw [numberAt]
  simp only [hraw, Cursor.charAt, hnext]
  cases rest with
  | nil => simp [hpoint, hvalue]
  | cons next rest =>
    obtain ⟨hstart, hdot⟩ := hrest next rfl
    simp [hstart, hdot, hpoint, hvalue]

theorem token_of_number {e : Expr} {j : Nat} (h : number g ⟨text, i⟩ = ⟨j, .ok e⟩) :
    ∃ raw value, e = .literal (.number value) raw ∧
      NumberToken g (restAt text i) raw value (restAt text j) := by
  obtain ⟨significand, hstop, hsplit, hhead⟩ := significandEnd_sound text i
  rw [number] at h
  rw [hstop] at h
  -- the significand is the same whether an exponent follows or not
  generalize hk : i + significand.length = k at h hsplit hhead
  rcases hexp : exponentStart ⟨text, i⟩ k with - | digits
  · simp only [hexp] at h
    exact numberAt_sound hk.symm hsplit hhead h
  · simp only [hexp] at h
    obtain ⟨mark, hstart, hsplit'⟩ := exponentStart_sound hexp
    obtain ⟨ds, hend, hsplit'', hhead'⟩ := digits_sound text i digits
    rw [hend] at h
    split at h
    · cases h
    have hpart : restAt text i
        = (significand ++ mark ++ ds) ++ restAt text (digits + ds.length) := by
      rw [hsplit, hsplit', hsplit'']
      simp
    have hlen : digits + ds.length = i + (significand ++ mark ++ ds).length := by
      rw [hstart, ← hk]
      simp only [List.length_append]
      omega
    exact numberAt_sound hlen hpart hhead' h

theorem number_of_token {raw : String} {value : Float}
    (h : NumberToken g (restAt text i) raw value rest) :
    number g ⟨text, i⟩ = ⟨i + raw.length, .ok (.literal (.number value) raw)⟩ := by
  obtain ⟨⟨whole, fraction, exponent, hraw, hwhole, hfraction, hexponent, -⟩, hread, hsplit, hstops⟩
    := h
  have hlen : i + raw.length = i + raw.toList.length := by rw [String.length_toList]
  have hrest : ∀ ch ∈ rest.head?, ¬ g.isIdentifierStart ch ∧ ch ≠ '.' :=
    fun ch hch => ⟨(hstops ch hch).1, (hstops ch hch).2.2⟩
  have hat := numberAt_complete hlen hsplit hread hrest
  rw [String.ofList_toList] at hat
  rw [hraw, List.append_assoc] at hsplit
  have hhead : ∀ ch ∈ (exponent ++ rest).head?, ¬ ch.isDigit ∧ ch ≠ '.' := by
    cases exponent with
    | nil => exact fun ch hch => (hstops ch hch).2
    | cons ch more => exact hexponent.head_not_digit
  have hstop := significandEnd_complete hwhole hfraction hsplit hhead
  have hnext : restAt text (i + (whole ++ fraction).length) = exponent ++ rest := by
    rw [restAt_add, hsplit, List.drop_left]
  rw [number]
  rw [hstop]
  rcases hexponent with rfl | ⟨mark, sign, digits, rfl, hmark, hsign, hne, hdigits⟩
  -- no mark behind the digits: it would start a name, and none follows a token
  · have hnone : exponentStart ⟨text, i⟩ (i + (whole ++ fraction).length) = none := by
      refine exponentStart_eq_none ?_
      rw [hnext]
      exact fun ch hch hmark => (hstops ch hch).1 (isIdentifierStart_mark hmark)
    have hend : i + (whole ++ fraction).length = i + raw.length := by
      rw [hlen, hraw, List.append_nil]
    simp only [hnone]
    rwa [hend]
  · have hnext' : restAt text (i + (whole ++ fraction).length)
        = mark :: (sign ++ digits ++ rest) := by
      rw [hnext]
      simp
    have hstart := exponentStart_complete (x := i) hmark hsign hne hdigits hnext'
    have hdigits' : restAt text (i + (whole ++ fraction).length + (mark :: sign).length)
        = digits ++ rest := by
      rw [restAt_add, hnext', List.append_assoc, ← List.cons_append, List.drop_left]
    have hend := digits_complete (x := i) hdigits hdigits' fun ch hch => (hstops ch hch).2.1
    have hlen' : i + (whole ++ fraction).length + (mark :: sign).length + digits.length
        = i + raw.length := by
      rw [hlen, hraw]
      simp only [List.length_append, List.length_cons]
      omega
    have hpos : digits.length ≠ 0 := fun h => hne (List.length_eq_zero_iff.mp h)
    simp only [hstart, hend]
    rw [if_neg (by omega), hlen', hat]

end Lexeme

/-! ### Readings -/

namespace Reading

variable {c : Context} {s : State}

theorem scanNumber_of_split {w u : List Char}
    (h : NumeralSplit c.dialect.grammar (restAt c.text s.index) w u) :
    ∃ value, Decimal.read w = some value ∧
      scan Lexeme.number c s = .ok (.literal (.number value) (String.ofList w))
        { s with index := s.index + w.length } := by
  obtain ⟨value, hvalue, htoken⟩ := h.numberToken
  have hnumber := Lexeme.number_of_token htoken
  rw [String.length_ofList] at hnumber
  exact ⟨value, hvalue, scan_of_ok hnumber⟩

theorem token_of_scanNumber {e : Expr} {t : State} (h : scan Lexeme.number c s = .ok e t) :
    ∃ raw value, e = .literal (.number value) raw ∧ NumberToken c.dialect.grammar
      (restAt c.text s.index) raw value (restAt c.text t.index) :=
  Lexeme.token_of_number (scan_eq_ok.mp h).1

/-- The numeral at the start of an input cannot be cut in two ways. -/
theorem numeralSplit_unique {w w' u u' : List Char}
    (h : NumeralSplit c.dialect.grammar (restAt c.text s.index) w u)
    (h' : NumeralSplit c.dialect.grammar (restAt c.text s.index) w' u') : w' = w ∧ u' = u := by
  obtain ⟨_, -, hread⟩ := scanNumber_of_split h
  obtain ⟨_, -, hread'⟩ := scanNumber_of_split h'
  rw [hread] at hread'
  injection hread' with hliteral
  injection hliteral with _ hraw
  have hw : w' = w := String.ofList_injective hraw.symm
  subst hw
  exact ⟨rfl, List.append_cancel_left (h'.split.symm.trans h.split)⟩

/-- **A number is a numeral that nothing runs into.**  From any cursor a number is read iff the
input splits into a numeral and a rest that starts with no digit, no point and no character
that starts names.  There is one such split at most; the raw text is its numeral, and the
cursor ends right behind it.  In every other case the reading fails.  The reader of finished
numerals accepts exactly the numerals, and everything that is read. -/
theorem number_decided (c : Context) (s : State) :
    let split := NumeralSplit c.dialect.grammar (restAt c.text s.index)
    let reply := scan Lexeme.number c s
    ((∃ e t, reply = .ok e t) ↔ ∃ w u, split w u) ∧
    (∀ w u, split w u →
      (∃ value, Decimal.read w = some value ∧
        reply = .ok (.literal (.number value) (String.ofList w))
          { s with index := s.index + w.length }) ∧
      ∀ w' u', split w' u' → w' = w ∧ u' = u) ∧
    ((¬ ∃ w u, split w u) → ∃ e t, reply = .fail e t) ∧
    (∀ e t, reply = .ok e t → ∃ raw value, e = .literal (.number value) raw ∧
      Decimal.read raw.toList = some value) ∧
    ∀ l, (Decimal.read l).isSome ↔ IsNumeral l := by
  intro split reply
  refine ⟨⟨?_, ?_⟩, ?_, ?_, ?_, fun _ => Decimal.read_isSome_iff⟩
  · rintro ⟨e, t, h⟩
    obtain ⟨raw, value, -, htoken⟩ := token_of_scanNumber h
    exact ⟨_, _, htoken.numeralSplit⟩
  · rintro ⟨w, u, h⟩
    obtain ⟨value, -, hread⟩ := scanNumber_of_split h
    exact ⟨_, _, hread⟩
  · intro w u h
    exact ⟨scanNumber_of_split h, fun _ _ => numeralSplit_unique h⟩
  · intro hnone
    rcases scan_ok_or_fail Lexeme.number c s with ⟨e, t, h⟩ | hfail
    · obtain ⟨raw, value, -, htoken⟩ := token_of_scanNumber h
      exact absurd ⟨_, _, htoken.numeralSplit⟩ hnone
    · exact hfail
  · intro e t h
    obtain ⟨raw, value, he, htoken⟩ := token_of_scanNumber h
    exact ⟨raw, value, he, htoken.value⟩

end Reading

end OperatorGrammar
