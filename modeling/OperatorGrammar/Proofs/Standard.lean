/-
OperatorGrammar/Proofs/Standard.lean

What the standard tables say about single characters.

The standard operators are made of a dozen punctuation marks.  So a character
outside this dozen starts no operator, and an operator that is followed by one
is found whole, because every longer candidate would contain it
(`Lexeme.operatorUpTo_of_break`).  Names, digits, quotes, brackets, separators
and white space are told apart by their characters in the same way.
-/
import OperatorGrammar.Proofs.Reads
import OperatorGrammar.Proofs.Tables

namespace OperatorGrammar

/-! ### An operator in front of a character that no operator contains -/

namespace Lexeme

variable {g : Grammar} {known : String → Bool}

/-- An operator in front of a character that is in no operator is found whole. -/
theorem operatorUpTo_of_break {op : String} {bound : Nat} {stop : Char} {rest : List Char}
    (hknown : known op) (hne : op.toList ≠ []) (hbound : op.length ≤ bound)
    (hbreak : ∀ op', known op' → stop ∉ op'.toList) (hpart : ¬ g.isIdentifierPart stop) :
    operatorUpTo g known ⟨(op.toList ++ stop :: rest).toArray, 0⟩
      (min bound (op.toList ++ stop :: rest).length) = some op := by
  obtain ⟨k, hk⟩ : ∃ k, op.length = k + 1 := by
    rw [← String.length_toList]
    exact ⟨op.toList.length - 1, by have := List.length_pos_iff.mpr hne; omega⟩
  have hlen : op.toList.length = k + 1 := String.length_toList.trans hk
  refine operatorUpTo_of_longest (k := k) ?_ ?_ ?_
  · rw [List.length_append]
    omega
  · rw [operatorOfLength_eq_some, restAt_toArray]
    refine ⟨?_, hknown, ?_⟩
    · rw [List.take_left' hlen, String.ofList_toList]
    · intro _
      rw [List.getElem?_append_right (Nat.le_of_eq hlen), hlen, Nat.sub_self]
      simpa using hpart
  · -- a longer candidate contains the character behind the operator
    intro m hm _
    rcases hfound : operatorOfLength g known ⟨(op.toList ++ stop :: rest).toArray, 0⟩ (m + 1)
      with - | op'
    · rfl
    · rw [operatorOfLength_eq_some, restAt_toArray] at hfound
      obtain ⟨rfl, hknown', -⟩ := hfound
      refine absurd ?_ (hbreak _ hknown')
      rw [String.toList_ofList, List.take_append, List.mem_append]
      right
      obtain ⟨j, hj⟩ : ∃ j, m + 1 - op.toList.length = j + 1 :=
        ⟨m - op.toList.length, by omega⟩
      rw [hj, List.take_succ_cons]
      exact List.mem_cons_self

end Lexeme

namespace Grammar

variable {g : Grammar} {op : String} {stop : Char} {rest : List Char}

theorem unaryOpIn_of_break (hcounted : g.Counted) (hknown : g.isUnaryOp op) (hne : op.toList ≠ [])
    (hbreak : ∀ op', g.isUnaryOp op' → stop ∉ op'.toList) (hpart : ¬ g.isIdentifierPart stop) :
    g.unaryOpIn (op.toList ++ stop :: rest) = some op := by
  have hbound := hcounted.length_le_unary (OrderedSet.contains_iff.mp hknown)
  have hfound : Lexeme.operatorUpTo g g.isUnaryOp ⟨(op.toList ++ stop :: rest).toArray, 0⟩
      (min g.longestUnary (op.toList ++ stop :: rest).length) = some op :=
    Lexeme.operatorUpTo_of_break hknown hne hbound hbreak hpart
  simpa [unaryOpIn, Lexeme.unaryOperator, Cursor.remaining] using hfound

theorem binaryOpIn_of_break (hcounted : g.Counted) (hknown : g.isBinaryOp op) (hne : op.toList ≠ [])
    (hbreak : ∀ op', g.isBinaryOp op' → stop ∉ op'.toList) (hpart : ¬ g.isIdentifierPart stop) :
    g.binaryOpIn (op.toList ++ stop :: rest) = some op := by
  have hbound := hcounted.length_le_binary (OrderedMap.contains_iff.mp hknown)
  have hfound : Lexeme.operatorUpTo g g.isBinaryOp ⟨(op.toList ++ stop :: rest).toArray, 0⟩
      (min g.longestBinary (op.toList ++ stop :: rest).length) = some op :=
    Lexeme.operatorUpTo_of_break hknown hne hbound hbreak hpart
  simpa [binaryOpIn, Lexeme.binaryOperator, Cursor.remaining] using hfound

/-! ### The standard tables -/

/-- The standard tables, for texts nested to any depth. -/
def unbounded : Grammar := standard.setNestingLimit none

/-- The characters of the standard operators. -/
def marks : List Char := ['|', '&', '^', '=', '!', '<', '>', '+', '-', '*', '/', '%', '~']

theorem unbounded_counted : unbounded.Counted := ⟨counted_standard.unary, counted_standard.binary⟩

theorem unaryOp_marks (h : unbounded.isUnaryOp op) :
    op.toList ≠ [] ∧ ∀ ch ∈ op.toList, ch ∈ marks := by
  have hall : ∀ op ∈ unbounded.unaryOps.members,
      op.toList ≠ [] ∧ op.toList.all fun ch => ch ∈ marks := by decide
  obtain ⟨hne, hmarks⟩ := hall op (OrderedSet.contains_iff.mp h)
  exact ⟨hne, forall_mem_of_all hmarks⟩

theorem binaryOp_marks (h : unbounded.isBinaryOp op) :
    op.toList ≠ [] ∧ ∀ ch ∈ op.toList, ch ∈ marks := by
  have hall : ∀ op ∈ unbounded.binaryOps.keys,
      op.toList ≠ [] ∧ op.toList.all fun ch => ch ∈ marks := by decide
  obtain ⟨hne, hmarks⟩ := hall op (OrderedMap.contains_iff.mp h)
  exact ⟨hne, forall_mem_of_all hmarks⟩

theorem unaryOpIn_eq_none {input : List Char} (h : ∀ ch ∈ input.head?, ch ∉ marks) :
    unbounded.unaryOpIn input = none := by
  rcases hop : unbounded.unaryOpIn input with - | op
  · rfl
  · obtain ⟨hknown, hne, rest, hsplit⟩ := unaryOpIn_sound hop
    obtain ⟨ch, more, hcons⟩ := List.exists_cons_of_ne_nil hne
    refine absurd ((unaryOp_marks hknown).2 ch (by simp [hcons])) (h ch ?_)
    simp [hsplit, hcons]

theorem binaryOpIn_eq_none {input : List Char} (h : ∀ ch ∈ input.head?, ch ∉ marks) :
    unbounded.binaryOpIn input = none := by
  rcases hop : unbounded.binaryOpIn input with - | op
  · rfl
  · obtain ⟨hknown, hne, rest, hsplit⟩ := binaryOpIn_sound hop
    obtain ⟨ch, more, hcons⟩ := List.exists_cons_of_ne_nil hne
    refine absurd ((binaryOp_marks hknown).2 ch (by simp [hcons])) (h ch ?_)
    simp [hsplit, hcons]

/-- What a text that begins with a binary operator starts with. -/
theorem binaryOp_head (h : unbounded.isBinaryOp op) :
    ∀ ch ∈ (op.toList ++ rest).head?, ch ∈ marks := by
  obtain ⟨hne, hmarks⟩ := binaryOp_marks h
  obtain ⟨first, more, hcons⟩ := List.exists_cons_of_ne_nil hne
  intro ch hch
  rw [hcons] at hch
  cases hch
  exact hmarks first (by simp [hcons])

theorem unaryOpIn_parenthesis (h : unbounded.isUnaryOp op) :
    unbounded.unaryOpIn (op.toList ++ '(' :: rest) = some op :=
  unaryOpIn_of_break unbounded_counted h (unaryOp_marks h).1
    (fun _ h' hmem => absurd ((unaryOp_marks h').2 _ hmem) (by decide)) (by decide)

theorem binaryOpIn_space (h : unbounded.isBinaryOp op) :
    unbounded.binaryOpIn (op.toList ++ ' ' :: rest) = some op :=
  binaryOpIn_of_break unbounded_counted h (binaryOp_marks h).1
    (fun _ h' hmem => absurd ((binaryOp_marks h').2 _ hmem) (by decide)) (by decide)

/-! ### Classes of characters -/

/-- White space. -/
def blanks : List Char := [' ', '\t', '\n', '\r']

/-- Punctuation and white space. -/
def punctuation : List Char :=
  marks ++ ['(', ')', '[', ']', '.', ',', ';', ':', '?', '\'', '"'] ++ blanks

theorem not_isIdentifierPart {ch : Char} (h : ch ∈ punctuation) :
    ¬ unbounded.isIdentifierPart ch := by
  have hall : ∀ ch ∈ punctuation, ¬ unbounded.isIdentifierPart ch := forall_mem_of_all (by decide)
  exact hall ch h

theorem not_isIdentifierStart {ch : Char} (h : ch ∈ punctuation) :
    ¬ unbounded.isIdentifierStart ch := by
  intro hstart
  exact not_isIdentifierPart h (by simp [isIdentifierPart, hstart])

theorem isBlank_iff {ch : Char} : isBlank ch ↔ ch ∈ blanks := by
  simp [isBlank, blanks, or_assoc]

theorem mem_punctuation_of_isBlank {ch : Char} (h : isBlank ch) : ch ∈ punctuation := by
  have hall : ∀ ch ∈ blanks, ch ∈ punctuation := forall_mem_of_all (by decide)
  exact hall ch (isBlank_iff.mp h)

/-- A digit starts no name. -/
theorem not_isIdentifierStart_digit {ch : Char} (h : ch.isDigit) :
    ¬ unbounded.isIdentifierStart ch := by
  have hrange : 48 ≤ ch.toNat ∧ ch.toNat ≤ 57 := by
    simp only [Char.isDigit, Bool.and_eq_true, decide_eq_true_eq] at h
    exact h
  have hall : ∀ n, n < 58 → 48 ≤ n → ¬ unbounded.isIdentifierStart (Char.ofNat n) := by decide
  have hch := hall ch.toNat (by omega) hrange.1
  rwa [Char.ofNat_toNat] at hch

/-- A name starts with a character that is no punctuation. -/
theorem IsName.exists_cons {w : String} (h : unbounded.IsName w) :
    ∃ first more, w.toList = first :: more ∧ first ∉ punctuation := by
  obtain ⟨first, more, hw, hfirst, -⟩ := h
  exact ⟨first, more, hw, fun hmem => not_isIdentifierStart hmem hfirst⟩

/-! ### Names in front of other text -/

namespace IsName

variable {w : String} {k : List Char} (h : unbounded.IsName w)
include h

/-- A name is a token in front of what is in no name. -/
theorem token (hk : ∀ ch ∈ k.head?, ¬ unbounded.isIdentifierPart ch) :
    NameToken unbounded (w.toList ++ k) w k :=
  ⟨h, rfl, hk⟩

theorem head_ne {ch : Char} (hch : ch ∈ punctuation) : (w.toList ++ k).head? ≠ some ch := by
  obtain ⟨first, more, hw, hfirst⟩ := h.exists_cons
  rw [hw]
  rintro ⟨⟩
  exact hfirst hch

theorem skips {comments : Prop} (hc : ¬ comments) :
    Skips comments (w.toList ++ k) (w.toList ++ k) :=
  skips_nothing hc fun _ hch hblank => h.head_ne (mem_punctuation_of_isBlank hblank) hch

end IsName

/-! ### Words with a meaning -/

/-- The named literals, and what stands for the receiver. -/
def keywords : List String := ["true", "false", "null", "this"]

theorem isName_keyword {w : String} (h : w ∈ keywords) : unbounded.IsName w := by
  have hall : ∀ w ∈ keywords, ∃ first more, w.toList = first :: more ∧
      unbounded.isIdentifierStart first ∧ more.all unbounded.isIdentifierPart := by
    simp only [keywords, List.forall_mem_cons]
    exact ⟨⟨'t', ['r', 'u', 'e'], by decide⟩, ⟨'f', ['a', 'l', 's', 'e'], by decide⟩,
      ⟨'n', ['u', 'l', 'l'], by decide⟩, ⟨'t', ['h', 'i', 's'], by decide⟩, by simp⟩
  obtain ⟨first, more, hw, hfirst, hmore⟩ := hall w h
  exact ⟨first, more, hw, hfirst, List.all_eq_true.mp hmore⟩

theorem mem_keywords_of_literal {w : String} {value : Value}
    (h : unbounded.literal? w = some value) : w ∈ keywords := by
  have hcontains : unbounded.literals.contains w := by
    show (unbounded.literal? w).isSome
    rw [h]
    rfl
  have hall : ∀ w ∈ unbounded.literals.keys, w ∈ keywords := by decide
  exact hall w (OrderedMap.contains_iff.mp hcontains)

/-- A name without a meaning stands for itself. -/
theorem meaning_identifier {w : String} (h : w ∉ keywords) :
    Lexeme.meaning unbounded w = .identifier w := by
  have hthis : w ≠ unbounded.receiverKeyword := by
    rintro rfl
    exact h (by decide)
  rw [Lexeme.meaning]
  rcases hliteral : unbounded.literal? w with - | value
  · exact if_neg hthis
  · exact absurd (mem_keywords_of_literal hliteral) h

/-! ### What operands start with -/

theorem lead_name {w : String} (h : unbounded.IsName w) :
    unbounded.lead (w.toList ++ rest) = .name := by
  obtain ⟨first, more, hw, hfirst, -⟩ := h
  have hdigit : ¬ isDigit first := fun hd => not_isIdentifierStart_digit hd hfirst
  have hunary : ∀ op, unbounded.isUnaryOp op → op.toList.head? ≠ some first := by
    intro op hop hhead
    have hmark := (unaryOp_marks hop).2 first (List.mem_of_mem_head? hhead)
    exact not_isIdentifierStart (List.mem_append_left _ (List.mem_append_left _ hmark)) hfirst
  have hother : first ∉ ['.', '\'', '"', '['] := by
    have hall : ∀ ch ∈ ['.', '\'', '"', '['], ch ∈ punctuation := forall_mem_of_all (by decide)
    exact fun hmem => not_isIdentifierStart (hall first hmem) hfirst
  rw [hw, List.cons_append]
  exact lead_eq_name hfirst hdigit hunary hother

theorem lead_string {g : Grammar} {q : Char} (h : IsQuote q) : g.lead (q :: rest) = .string := by
  rw [lead]
  rcases h with rfl | rfl
  · rfl
  · rfl

theorem lead_number {g : Grammar} {raw : List Char} (h : IsNumeral raw) :
    g.lead (raw ++ rest) = .number := by
  obtain ⟨ch, more, rfl, hch⟩ := h.exists_cons
  rw [List.cons_append, lead]
  exact if_pos hch

theorem lead_unary (h : unbounded.isUnaryOp op) :
    unbounded.lead (op.toList ++ '(' :: rest) = .unary op := by
  obtain ⟨hne, hmarks⟩ := unaryOp_marks h
  have hfound : unbounded.unaryOpIn (op.toList ++ '(' :: rest) = some op := unaryOpIn_parenthesis h
  obtain ⟨ch, more, hop⟩ := List.exists_cons_of_ne_nil hne
  have hall : ∀ ch ∈ marks, ¬ isDigit ch ∧ ch ≠ '.' ∧ ch ≠ '\'' ∧ ch ≠ '"' ∧ ch ≠ '[' :=
    forall_mem_of_all (by decide)
  obtain ⟨hdigit, hpoint, hsingle, hdouble, hbracket⟩ := hall ch (hmarks ch (by simp [hop]))
  rw [hop, List.cons_append] at hfound ⊢
  rw [lead, hfound]
  simp [hdigit, hpoint, hsingle, hdouble, hbracket]

theorem lead_group : unbounded.lead ('(' :: rest) = .group := by
  have hnone : unbounded.unaryOpIn ('(' :: rest) = none :=
    unaryOpIn_eq_none (by simp [marks])
  rw [lead, hnone]
  rfl

end Grammar

end OperatorGrammar
