/-
OperatorGrammar/Proofs/Lexeme.lean

Names, strings and operators, described by the text that they take.

Each scanner is compared with a relation `Token input found rest`: the piece of
text that stands in front of `rest` in `input`, and what it means.  The relation
does not mention offsets.  A scanner finds exactly what its relation describes
(`name_eq_iff`, `string_eq_iff`); an operator is a table entry that the input
starts with and that no longer candidate beats.
-/
import OperatorGrammar.Proofs.Rest
import OperatorGrammar.Parser.Lexeme

namespace OperatorGrammar

variable {g : Grammar} {text : Array Char} {i : Nat} {input rest : List Char}

/-! ### Names -/

/-- A lexically valid name: one character that starts names, then characters that
names go on with. -/
def Grammar.IsName (g : Grammar) (w : String) : Prop :=
  ∃ first more, w.toList = first :: more ∧ g.isIdentifierStart first ∧
    ∀ ch ∈ more, g.isIdentifierPart ch

/-- A name that the input starts with and that cannot be longer. -/
structure NameToken (g : Grammar) (input : List Char) (w : String) (rest : List Char) :
    Prop where
  isName : g.IsName w
  split : input = w.toList ++ rest
  maximal : ∀ ch ∈ rest.head?, ¬ g.isIdentifierPart ch

namespace Lexeme

theorem name_of_token {w : String} (h : NameToken g (restAt text i) w rest) :
    name g ⟨text, i⟩ = ⟨i + w.length, .ok w⟩ := by
  obtain ⟨⟨first, more, hw, hfirst, hmore⟩, hsplit, hmax⟩ := h
  have hcur : (⟨text, i⟩ : Cursor).current = some first := by
    show text[i]? = _
    rw [getElem?_eq_head?, hsplit, hw]
    rfl
  have hnext : restAt text (i + 1) = more ++ rest := by
    rw [restAt_add, hsplit, hw]
    rfl
  have hstop : Cursor.skipWhile ⟨text, i⟩ g.isIdentifierPart (i + 1) = i + w.length := by
    rw [skipWhile_eq, hnext, takeWhile_append_run hmore hmax, ← String.length_toList, hw]
    simp only [List.length_cons]
    omega
  have hslice : Cursor.slice ⟨text, i⟩ i (i + w.length) = w := by
    rw [slice_add, hsplit, List.take_left' (String.length_toList), String.ofList_toList]
  rw [name]
  simp only [hcur, hfirst, if_true, hstop, hslice]

theorem token_of_name {w : String} {j : Nat} (h : name g ⟨text, i⟩ = ⟨j, .ok w⟩) :
    NameToken g (restAt text i) w (restAt text j) := by
  rw [name] at h
  rcases hcur : (⟨text, i⟩ : Cursor).current with - | first
  · simp [hcur] at h
  by_cases hfirst : g.isIdentifierStart first
  · simp only [hcur, hfirst, if_true, Scan.mk.injEq, Except.ok.injEq] at h
    obtain ⟨rfl, rfl⟩ := h
    have hrest : restAt text i = first :: restAt text (i + 1) := restAt_eq_cons hcur
    -- the slice is the first character and the longest run behind it
    have hw : Cursor.slice ⟨text, i⟩ i (Cursor.skipWhile ⟨text, i⟩ g.isIdentifierPart (i + 1))
        = String.ofList (first :: (restAt text (i + 1)).takeWhile g.isIdentifierPart) := by
      rw [skipWhile_eq, Nat.add_assoc, slice_add, hrest, Nat.add_comm 1, List.take_succ_cons]
      congr 2
      exact (List.prefix_iff_eq_take.mp (List.takeWhile_prefix _)).symm
    refine ⟨⟨first, _, by rw [hw, String.toList_ofList], hfirst, mem_takeWhile_run⟩, ?_, ?_⟩
    · rw [hw, String.toList_ofList, restAt_skipWhile, List.cons_append,
        List.takeWhile_append_dropWhile, hrest]
    · rw [restAt_skipWhile]
      exact head?_dropWhile_run _
  · simp [hcur, hfirst] at h

end Lexeme

/-! ### Strings -/

/-- The body of a string between two quotes `q`, and what it stands for: a backslash
and the character behind it stand for one character, any other character for itself. -/
inductive Escaped (q : Char) : List Char → List Char → Prop
  | nil : Escaped q [] []
  | plain {ch body value} : ch ≠ q → ch ≠ '\\' → Escaped q body value →
      Escaped q (ch :: body) (ch :: value)
  | pair {ch body value} : Escaped q body value →
      Escaped q ('\\' :: ch :: body) (Lexeme.unescape ch :: value)

/-- The two characters that strings stand between. -/
def IsQuote (ch : Char) : Prop := ch = '\'' ∨ ch = '"'

theorem IsQuote.ne_backslash {ch : Char} (h : IsQuote ch) : ch ≠ '\\' := by
  rcases h with rfl | rfl <;> decide

theorem IsQuote.not_isBlank {ch : Char} (h : IsQuote ch) : ¬ Grammar.isBlank ch := by
  rcases h with rfl | rfl <;> decide

/-- A text with a backslash before each quote and each backslash. -/
def escape (q : Char) (text : List Char) : List Char :=
  text.flatMap fun ch => if ch = q ∨ ch = '\\' then ['\\', ch] else [ch]

theorem Escaped.escape {q : Char} (hq : IsQuote q) (text : List Char) :
    Escaped q (escape q text) text := by
  have hsame : Lexeme.unescape q = q := by rcases hq with rfl | rfl <;> rfl
  induction text with
  | nil => exact .nil
  | cons ch text ih =>
    rw [OperatorGrammar.escape, List.flatMap_cons]
    by_cases hch : ch = q
    · subst hch
      rw [if_pos (.inl rfl)]
      have hpair : Escaped ch ('\\' :: ch :: OperatorGrammar.escape ch text)
          (Lexeme.unescape ch :: text) := .pair ih
      rwa [hsame] at hpair
    · by_cases hback : ch = '\\'
      · subst hback
        rw [if_pos (.inr rfl)]
        exact .pair ih
      · rw [if_neg (by simp [hch, hback])]
        exact .plain hch hback ih

/-- A string that the input starts with. -/
structure StringToken (input : List Char) (raw value : String) (rest : List Char) : Prop where
  shape : ∃ q body, IsQuote q ∧ raw.toList = q :: (body ++ [q]) ∧ Escaped q body value.toList
  split : input = raw.toList ++ rest

/-- A quoted body is a string. -/
theorem Escaped.stringToken {q : Char} {body value : List Char} (h : Escaped q body value)
    (hq : IsQuote q) (rest : List Char) : StringToken (q :: (body ++ q :: rest))
      (String.ofList (q :: (body ++ [q]))) (String.ofList value) rest := by
  refine ⟨⟨q, body, hq, String.toList_ofList, ?_⟩, ?_⟩
  · rwa [String.toList_ofList]
  · rw [String.toList_ofList, List.cons_append, List.append_assoc]
    rfl

namespace StringToken

variable {raw value : String}

theorem restAt (h : StringToken (restAt text i) raw value rest) :
    OperatorGrammar.restAt text (i + raw.length) = rest := by
  rw [restAt_add, h.split, List.drop_left' String.length_toList]

theorem within (h : StringToken (OperatorGrammar.restAt text i) raw value rest)
    (hi : i ≤ text.size) : i + raw.length ≤ text.size := by
  have hlength := congrArg List.length h.split
  rw [length_restAt, List.length_append, String.length_toList] at hlength
  omega

end StringToken

namespace Lexeme

theorem stringBody_of_escaped {q : Char} (hq : q ≠ '\\') {body value : List Char}
    (h : Escaped q body value) {n i : Nat} (hn : body.length < n) (acc : List Char)
    (hsplit : restAt text i = body ++ q :: rest) :
    stringBody text q n i acc
      = ⟨i + body.length + 1, .ok (String.ofList (acc.reverse ++ value))⟩ := by
  induction h generalizing n i acc with
  | nil =>
    obtain ⟨n, rfl⟩ := Nat.exists_eq_add_of_lt (Nat.zero_lt_of_lt hn)
    have hch : text[i]? = some q := by rw [getElem?_eq_head?, hsplit]; rfl
    simp [stringBody, hch]
  | @plain ch body value hne hback _ ih =>
    obtain ⟨n, rfl⟩ := Nat.exists_eq_add_of_lt (Nat.zero_lt_of_lt hn)
    have hch : text[i]? = some ch := by rw [getElem?_eq_head?, hsplit]; rfl
    have hnext : restAt text (i + 1) = body ++ q :: rest := by rw [restAt_add, hsplit]; rfl
    simp only [stringBody, hch, hne, hback, if_false]
    rw [ih (by simpa using hn) (ch :: acc) hnext]
    have hstop : i + 1 + body.length + 1 = i + (ch :: body).length + 1 := by
      simp only [List.length_cons]
      omega
    simp [hstop]
  | @pair ch body value _ ih =>
    obtain ⟨n, rfl⟩ := Nat.exists_eq_add_of_lt (Nat.zero_lt_of_lt hn)
    have hback : text[i]? = some '\\' := by rw [getElem?_eq_head?, hsplit]; rfl
    have hch : text[i + 1]? = some ch := by rw [getElem?_add, hsplit]; rfl
    have hnext : restAt text (i + 2) = body ++ q :: rest := by rw [restAt_add, hsplit]; rfl
    -- a pair is two characters but one round of the loop
    simp only [stringBody, hback, Ne.symm hq, hch, if_false, if_true]
    rw [ih (by simp only [List.length_cons] at hn; omega) (unescape ch :: acc) hnext]
    have hstop : i + 2 + body.length + 1 = i + ('\\' :: ch :: body).length + 1 := by
      simp only [List.length_cons]
      omega
    simp [hstop]

theorem escaped_of_stringBody {q : Char} {n i j : Nat} {acc : List Char} {s : String}
    (h : stringBody text q n i acc = ⟨j, .ok s⟩) :
    ∃ body value, restAt text i = body ++ q :: restAt text j ∧ Escaped q body value ∧
      s = String.ofList (acc.reverse ++ value) ∧ j = i + body.length + 1 := by
  induction n generalizing i acc with
  | zero => simp [stringBody] at h
  | succ n ih =>
    rw [stringBody] at h
    rcases hch : text[i]? with - | ch
    · simp [hch] at h
    by_cases hq : ch = q
    · subst hq
      simp only [hch, if_true, Scan.mk.injEq, Except.ok.injEq] at h
      obtain ⟨rfl, rfl⟩ := h
      exact ⟨[], [], restAt_eq_cons hch, .nil, by simp, rfl⟩
    by_cases hback : ch = '\\'
    · subst hback
      simp only [hch, hq, if_false, if_true] at h
      rcases hnext : text[i + 1]? with - | escaped
      · simp [hnext] at h
      simp only [hnext] at h
      obtain ⟨body, value, hsplit, hbody, rfl, rfl⟩ := ih h
      refine ⟨'\\' :: escaped :: body, unescape escaped :: value, ?_, .pair hbody, ?_, ?_⟩
      · rw [restAt_eq_cons hch, restAt_eq_cons hnext, hsplit]
        rfl
      · simp
      · simp only [List.length_cons]
        omega
    · simp only [hch, hq, hback, if_false] at h
      obtain ⟨body, value, hsplit, hbody, rfl, rfl⟩ := ih h
      refine ⟨ch :: body, ch :: value, ?_, .plain hq hback hbody, ?_, ?_⟩
      · rw [restAt_eq_cons hch, hsplit]
        rfl
      · simp
      · simp only [List.length_cons]
        omega

theorem string_of_token {raw value : String} (h : StringToken (restAt text i) raw value rest) :
    string ⟨text, i⟩ = ⟨i + raw.length, .ok (.literal (.string value) raw)⟩ := by
  obtain ⟨⟨q, body, hq, hraw, hbody⟩, hsplit⟩ := h
  have hlen : raw.length = body.length + 2 := by
    rw [← String.length_toList, hraw]
    simp
  have hcur : (⟨text, i⟩ : Cursor).current = some q := by
    show text[i]? = _
    rw [getElem?_eq_head?, hsplit, hraw]
    rfl
  have hnext : restAt text (i + 1) = body ++ q :: rest := by
    rw [restAt_add, hsplit, hraw]
    simp
  have hn : body.length < text.size - i := by
    have hl := congrArg List.length hsplit
    rw [length_restAt, List.length_append, String.length_toList, hlen] at hl
    omega
  have hscan := stringBody_of_escaped hq.ne_backslash hbody hn [] hnext
  have hstop : i + 1 + body.length + 1 = i + raw.length := by omega
  have hslice : Cursor.slice ⟨text, i⟩ i (i + raw.length) = raw := by
    rw [slice_add, hsplit, List.take_left' String.length_toList, String.ofList_toList]
  rw [string]
  simp only [hcur, hscan, hstop, hslice, List.reverse_nil, List.nil_append, String.ofList_toList]
  rfl

theorem token_of_string {e : Expr} {j : Nat} (hquote : ∀ q ∈ text[i]?, IsQuote q)
    (h : string ⟨text, i⟩ = ⟨j, .ok e⟩) :
    ∃ raw value, e = .literal (.string value) raw ∧
      StringToken (restAt text i) raw value (restAt text j) := by
  rw [string] at h
  rcases hcur : (⟨text, i⟩ : Cursor).current with - | q
  · simp [hcur] at h
  simp only [hcur] at h
  rcases hscan : stringBody text q (text.size - i) (i + 1) [] with ⟨stop, result⟩
  cases result with
  | error cause => simp [hscan, Except.map] at h
  | ok s =>
    simp only [hscan, Except.map, Scan.mk.injEq, Except.ok.injEq] at h
    obtain ⟨rfl, rfl⟩ := h
    obtain ⟨body, value, hsplit, hbody, rfl, rfl⟩ := escaped_of_stringBody hscan
    have hrest : restAt text i
        = (q :: (body ++ [q])) ++ restAt text (i + 1 + body.length + 1) := by
      rw [restAt_eq_cons hcur, hsplit]
      simp
    have hraw : Cursor.slice ⟨text, i⟩ i (i + 1 + body.length + 1)
        = String.ofList (q :: (body ++ [q])) := by
      have hstop : i + 1 + body.length + 1 = i + (q :: (body ++ [q])).length := by
        simp only [List.length_cons, List.length_append, List.length_nil]
        omega
      rw [hstop, slice_add, hrest, List.take_left]
    refine ⟨_, _, rfl, ⟨q, body, hquote q hcur, by rw [hraw, String.toList_ofList], ?_⟩, ?_⟩
    · simpa using hbody
    · rw [hraw, String.toList_ofList, hrest]

end Lexeme

/-! ### Operators -/

namespace Lexeme

variable {known : String → Bool}

/-- Whether an operator may end in front of `next`, when it starts with `first`: one
that starts like a name must not run into one. -/
def Ends (g : Grammar) (first next : Option Char) : Prop :=
  first.any g.isIdentifierStart → ¬ next.any g.isIdentifierPart

theorem operatorOfLength_eq_some {n : Nat} {op : String} :
    operatorOfLength g known ⟨text, i⟩ n = some op ↔
      op = String.ofList ((restAt text i).take n) ∧ known op ∧
        Ends g (restAt text i).head? (restAt text i)[n]? := by
  unfold operatorOfLength Ends
  have hcur : (⟨text, i⟩ : Cursor).current = (restAt text i).head? := getElem?_eq_head?
  have hnext : (⟨text, i⟩ : Cursor).charAt (i + n) = (restAt text i)[n]? := getElem?_add n
  simp only [slice_add, hcur, hnext]
  constructor
  · intro h
    split at h
    · rename_i hcond
      cases h
      simp only [Bool.and_eq_true, Bool.not_eq_true', Bool.and_eq_false_iff] at hcond
      refine ⟨rfl, hcond.1, ?_⟩
      intro hfirst
      simpa [hfirst] using hcond.2
    · cases h
  · rintro ⟨rfl, hknown, hends⟩
    rw [if_pos]
    simp only [Bool.and_eq_true, hknown, Bool.not_eq_true', Bool.and_eq_false_iff, true_and]
    by_cases hfirst : (restAt text i).head?.any g.isIdentifierStart
    · exact .inr (by simpa using hends hfirst)
    · exact .inl (by simpa using hfirst)

/-- The scanner looks only at what is left of the text. -/
theorem operatorUpTo_congr {text' : Array Char} {i' : Nat} (h : restAt text i = restAt text' i')
    (n : Nat) : operatorUpTo g known ⟨text, i⟩ n = operatorUpTo g known ⟨text', i'⟩ n := by
  induction n with
  | zero => rfl
  | succ n ih =>
    have hlength : operatorOfLength g known ⟨text, i⟩ (n + 1)
        = operatorOfLength g known ⟨text', i'⟩ (n + 1) := by
      ext op
      rw [operatorOfLength_eq_some, operatorOfLength_eq_some, h]
    rw [operatorUpTo, operatorUpTo, ih, hlength]

/-- What is found is the candidate of the greatest length that has one. -/
theorem operatorUpTo_eq_some {n : Nat} {op : String}
    (h : operatorUpTo g known ⟨text, i⟩ n = some op) :
    ∃ k, k < n ∧ operatorOfLength g known ⟨text, i⟩ (k + 1) = some op ∧
      ∀ m, k < m → m < n → operatorOfLength g known ⟨text, i⟩ (m + 1) = none := by
  induction n with
  | zero => simp [operatorUpTo] at h
  | succ n ih =>
    rw [operatorUpTo, Option.or_eq_some_iff] at h
    rcases h with h | ⟨hnone, h⟩
    · exact ⟨n, Nat.lt_succ_self n, h, fun m hm hm' => by omega⟩
    · obtain ⟨k, hk, hop, hlonger⟩ := ih h
      refine ⟨k, Nat.lt_succ_of_lt hk, hop, ?_⟩
      intro m hm hm'
      rcases Nat.lt_succ_iff_lt_or_eq.mp hm' with hlt | rfl
      · exact hlonger m hm hlt
      · exact hnone

theorem operatorUpTo_eq_none {n : Nat} :
    operatorUpTo g known ⟨text, i⟩ n = none ↔
      ∀ k, k < n → operatorOfLength g known ⟨text, i⟩ (k + 1) = none := by
  induction n with
  | zero => simp [operatorUpTo]
  | succ n ih =>
    rw [operatorUpTo, Option.or_eq_none_iff, ih]
    constructor
    · rintro ⟨h, hsmaller⟩ k hk
      rcases Nat.lt_succ_iff_lt_or_eq.mp hk with hlt | rfl
      · exact hsmaller k hlt
      · exact h
    · intro h
      exact ⟨h n (Nat.lt_succ_self n), fun k hk => h k (Nat.lt_succ_of_lt hk)⟩

/-- The longest candidate that is an operator is found. -/
theorem operatorUpTo_of_longest {n k : Nat} {op : String} (hk : k < n)
    (hop : operatorOfLength g known ⟨text, i⟩ (k + 1) = some op)
    (hlonger : ∀ m, k < m → m < n → operatorOfLength g known ⟨text, i⟩ (m + 1) = none) :
    operatorUpTo g known ⟨text, i⟩ n = some op := by
  induction n with
  | zero => exact absurd hk (Nat.not_lt_zero k)
  | succ n ih =>
    rw [operatorUpTo]
    rcases Nat.lt_succ_iff_lt_or_eq.mp hk with hlt | rfl
    · rw [hlonger n hlt (Nat.lt_succ_self n), Option.none_or]
      exact ih hlt fun m hm hmn => hlonger m hm (Nat.lt_succ_of_lt hmn)
    · rw [hop, Option.some_or]

end Lexeme

/-- The unary operator that an input starts with. -/
def Grammar.unaryOpIn (g : Grammar) (input : List Char) : Option String :=
  Lexeme.unaryOperator g ⟨input.toArray, 0⟩

/-- The binary operator that an input starts with. -/
def Grammar.binaryOpIn (g : Grammar) (input : List Char) : Option String :=
  Lexeme.binaryOperator g ⟨input.toArray, 0⟩

namespace Lexeme

theorem restAt_toArray (input : List Char) : restAt input.toArray 0 = input := rfl

theorem unaryOperator_eq : unaryOperator g ⟨text, i⟩ = g.unaryOpIn (restAt text i) := by
  unfold Grammar.unaryOpIn unaryOperator
  rw [operatorUpTo_congr (restAt_toArray (restAt text i)).symm]
  simp [Cursor.remaining]

theorem binaryOperator_eq : binaryOperator g ⟨text, i⟩ = g.binaryOpIn (restAt text i) := by
  unfold Grammar.binaryOpIn binaryOperator
  rw [operatorUpTo_congr (restAt_toArray (restAt text i)).symm]
  simp [Cursor.remaining]

/-- An operator that is found is in the table, is not empty, and starts the input. -/
theorem operatorUpTo_sound {op : String} {bound : Nat}
    (h : operatorUpTo g known ⟨input.toArray, 0⟩ (min bound input.length) = some op) :
    known op ∧ op.toList ≠ [] ∧ ∃ rest, input = op.toList ++ rest := by
  obtain ⟨k, hk, hop, -⟩ := operatorUpTo_eq_some h
  rw [operatorOfLength_eq_some, restAt_toArray] at hop
  obtain ⟨rfl, hknown, -⟩ := hop
  refine ⟨hknown, ?_, input.drop (k + 1), ?_⟩
  · rw [String.toList_ofList, Ne, List.take_eq_nil_iff]
    rintro (h | h)
    · exact absurd h (Nat.succ_ne_zero k)
    · simp [h] at hk
  · rw [String.toList_ofList, List.take_append_drop]

/-- Where no operator is found, none of the table that may end there starts the
input, as long as the bound is no shorter than it. -/
theorem operatorUpTo_complete {op : String} {bound : Nat}
    (h : operatorUpTo g known ⟨input.toArray, 0⟩ (min bound input.length) = none)
    (hknown : known op) (hne : op.toList ≠ []) (hbound : op.length ≤ bound)
    (hsplit : input = op.toList ++ rest) : ¬ Ends g input.head? rest.head? := by
  intro hends
  obtain ⟨k, hk⟩ : ∃ k, op.length = k + 1 := by
    rw [← String.length_toList]
    exact ⟨op.toList.length - 1, by have := List.length_pos_iff.mpr hne; omega⟩
  have hlen : k < min bound input.length := by
    have hin : input.length = op.length + rest.length := by
      rw [hsplit, List.length_append, String.length_toList]
    omega
  -- the candidate of its own length would have been found
  have hnone := operatorUpTo_eq_none.mp h k hlen
  have hsome : operatorOfLength g known ⟨input.toArray, 0⟩ (k + 1) = some op := by
    rw [operatorOfLength_eq_some, restAt_toArray]
    refine ⟨?_, hknown, ?_⟩
    · rw [hsplit, ← hk, List.take_left' String.length_toList, String.ofList_toList]
    · have hnext : input[k + 1]? = rest.head? := by
        rw [hsplit, ← hk, List.getElem?_append_right (Nat.le_of_eq String.length_toList),
          String.length_toList, Nat.sub_self, List.head?_eq_getElem?]
      rwa [hnext]
  rw [hsome] at hnone
  cases hnone

end Lexeme

namespace Grammar

theorem unaryOpIn_sound {op : String} (h : g.unaryOpIn input = some op) :
    g.isUnaryOp op ∧ op.toList ≠ [] ∧ ∃ rest, input = op.toList ++ rest :=
  Lexeme.operatorUpTo_sound (by simpa [unaryOpIn, Lexeme.unaryOperator, Cursor.remaining] using h)

theorem unaryOpIn_complete {op : String} (h : g.unaryOpIn input = none) (hknown : g.isUnaryOp op)
    (hne : op.toList ≠ []) (hbound : op.length ≤ g.longestUnary)
    (hsplit : input = op.toList ++ rest) : ¬ Lexeme.Ends g input.head? rest.head? :=
  Lexeme.operatorUpTo_complete
    (by simpa [unaryOpIn, Lexeme.unaryOperator, Cursor.remaining] using h) hknown hne hbound hsplit

theorem binaryOpIn_sound {op : String} (h : g.binaryOpIn input = some op) :
    g.isBinaryOp op ∧ op.toList ≠ [] ∧ ∃ rest, input = op.toList ++ rest :=
  Lexeme.operatorUpTo_sound
    (by simpa [binaryOpIn, Lexeme.binaryOperator, Cursor.remaining] using h)

theorem binaryOpIn_nil : g.binaryOpIn [] = none := by
  simp [binaryOpIn, Lexeme.binaryOperator, Cursor.remaining, Lexeme.operatorUpTo]

theorem head_ne_of_split {op : String} {ch : Char} (hne : op.toList ≠ [])
    (h : op.toList.head? ≠ some ch) : ch :: input ≠ op.toList ++ rest := by
  obtain ⟨first, more, hcons⟩ := List.exists_cons_of_ne_nil hne
  rw [hcons] at h ⊢
  rintro ⟨rfl, -⟩
  exact h rfl

/-- An operator is not found where none starts with the next character. -/
theorem unaryOpIn_eq_none_of_head {ch : Char}
    (h : ∀ op, g.isUnaryOp op → op.toList.head? ≠ some ch) : g.unaryOpIn (ch :: input) = none := by
  rcases hop : g.unaryOpIn (ch :: input) with - | op
  · rfl
  · obtain ⟨hknown, hne, rest, hsplit⟩ := unaryOpIn_sound hop
    exact absurd hsplit (head_ne_of_split hne (h op hknown))

/-- Where no binary operator starts with the next character, none is found. -/
theorem binaryOpIn_eq_none_of_head {ch : Char}
    (h : ∀ op, g.isBinaryOp op → op.toList.head? ≠ some ch) :
    g.binaryOpIn (ch :: input) = none := by
  rcases hop : g.binaryOpIn (ch :: input) with - | op
  · rfl
  · obtain ⟨hknown, hne, rest, hsplit⟩ := binaryOpIn_sound hop
    exact absurd hsplit (head_ne_of_split hne (h op hknown))

end Grammar

end OperatorGrammar
