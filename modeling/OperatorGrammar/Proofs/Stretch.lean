/-
OperatorGrammar/Proofs/Stretch.lean

What the scanners find depends only on the text up to the next break.

A character breaks a grammar when no name, number or operator goes on with it
(`Grammar.Breaks`).  Two texts show the same stretch from two offsets on when
they have the same characters there, and then either ends or goes on with a
character that breaks (`SameStretch`).  A scanner does not find out which of the
two texts it is in: it stops at the same distance and finds the same.  Only the
wording of a failure may name the character behind the stretch (`Scan.Alike`).

Strings go on through any character, so they are compared on the whole rest of
the text (`Lexeme.string_alike`).

Two runs that are compared by an `Accord` use a stretch as it is described by
`Stretched`, which says in addition what is known at the offsets in it.
-/
import OperatorGrammar.Proofs.Follows
import OperatorGrammar.Proofs.Number
import OperatorGrammar.Proofs.Tables

namespace OperatorGrammar

variable {α : Type} {g : Grammar} {text text' : Array Char} {i i' x x' n k : Nat}

/-- Behind a character that is not in the class, no more of it is taken. -/
theorem takeWhile_append_of_head {p : Char → Bool} {input rest : List Char}
    (h : ∀ ch ∈ rest.head?, ¬ p ch) : (input ++ rest).takeWhile p = input.takeWhile p := by
  have hnil : rest.takeWhile p = [] := by
    cases rest with
    | nil => rfl
    | cons ch rest => exact List.takeWhile_cons_of_neg (h ch rfl)
  rw [List.takeWhile_append, hnil, List.append_nil]
  split
  · rename_i hlength
    exact ( List.IsPrefix.eq_of_length ( List.takeWhile_prefix p) hlength).symm
  · rfl

/-- No name, number or operator goes on with the character. -/
structure Grammar.Breaks (g : Grammar) (ch : Char) : Prop where
  part : ¬ g.isIdentifierPart ch
  point : ch ≠ '.'
  sign : ¬ (ch = '+' ∨ ch = '-')
  unary : ∀ op, g.isUnaryOp op → ch ∉ op.toList.tail
  binary : ∀ op, g.isBinaryOp op → ch ∉ op.toList.tail

theorem Grammar.breaks_iff {ch : Char} : g.Breaks ch ↔
    ¬ g.isIdentifierPart ch ∧ ch ≠ '.' ∧ ¬ (ch = '+' ∨ ch = '-') ∧
      (∀ op ∈ g.unaryOps.members, ch ∉ op.toList.tail) ∧
      ∀ op ∈ g.binaryOps.keys, ch ∉ op.toList.tail := by
  constructor
  · intro h
    exact ⟨h.part, h.point, h.sign, fun op hop => h.unary op (OrderedSet.contains_iff.mpr hop),
      fun op hop => h.binary op (OrderedMap.contains_iff.mpr hop)⟩
  · rintro ⟨hpart, hpoint, hsign, hunary, hbinary⟩
    exact ⟨hpart, hpoint, hsign, fun op hop => hunary op (OrderedSet.contains_iff.mp hop),
      fun op hop => hbinary op (OrderedMap.contains_iff.mp hop)⟩

instance (ch : Char) : Decidable (g.Breaks ch) :=
  decidable_of_iff _ g.breaks_iff.symm

namespace Grammar.Breaks

variable {ch : Char}

theorem start (h : g.Breaks ch) : ¬ g.isIdentifierStart ch := by
  intro hstart
  exact h.part (by simp [isIdentifierPart, hstart])

theorem digit (h : g.Breaks ch) : ¬ isDigit ch := by
  intro hdigit
  exact h.part (by simp [isIdentifierPart, hdigit])

theorem exponentMark (h : g.Breaks ch) : ¬ (ch = 'e' ∨ ch = 'E') :=
  fun hmark => h.start (isIdentifierStart_mark hmark)

end Grammar.Breaks

/-- A character that is in no operator and in no name. -/
structure Grammar.Spares (g : Grammar) (ch : Char) : Prop where
  unary : ∀ op, g.isUnaryOp op → ch ∉ op.toList
  binary : ∀ op, g.isBinaryOp op → ch ∉ op.toList
  name : ¬ g.isIdentifierPart ch

theorem Grammar.spares_iff {g : Grammar} {ch : Char} : g.Spares ch ↔
    (∀ op ∈ g.unaryOps.members, ch ∉ op.toList) ∧ (∀ op ∈ g.binaryOps.keys, ch ∉ op.toList) ∧
      ¬ g.isIdentifierPart ch := by
  constructor
  · intro h
    exact ⟨fun op hop => h.unary op (OrderedSet.contains_iff.mpr hop),
      fun op hop => h.binary op (OrderedMap.contains_iff.mpr hop), h.name⟩
  · rintro ⟨hunary, hbinary, hname⟩
    exact ⟨fun op hop => hunary op (OrderedSet.contains_iff.mp hop),
      fun op hop => hbinary op (OrderedMap.contains_iff.mp hop), hname⟩

instance (g : Grammar) (ch : Char) : Decidable (g.Spares ch) :=
  decidable_of_iff _ g.spares_iff.symm

namespace Grammar.Spares

variable {g : Grammar} {ch : Char}

theorem breaks (h : g.Spares ch) (hpoint : ch ≠ '.') (hsign : ¬ (ch = '+' ∨ ch = '-')) :
    g.Breaks ch where
  part := h.name
  point := hpoint
  sign := hsign
  unary op hop hmem := h.unary op hop (List.mem_of_mem_tail hmem)
  binary op hop hmem := h.binary op hop (List.mem_of_mem_tail hmem)

theorem unary_head (h : g.Spares ch) (op : String) (hop : g.isUnaryOp op) :
    op.toList.head? ≠ some ch :=
  fun hhead => h.unary op hop (List.mem_of_head? hhead)

theorem binary_head (h : g.Spares ch) (op : String) (hop : g.isBinaryOp op) :
    op.toList.head? ≠ some ch :=
  fun hhead => h.binary op hop (List.mem_of_head? hhead)

end Grammar.Spares

/-- From two offsets on, the texts have the same `n` characters, behind which they break. -/
structure SameStretch (g : Grammar) (text text' : Array Char) (i i' n : Nat) : Prop where
  same : ∀ k, k < n → text'[i' + k]? = text[i + k]?
  within : i + n ≤ text.size
  within' : i' + n ≤ text'.size
  ends : ∀ ch ∈ text[i + n]?, g.Breaks ch
  ends' : ∀ ch ∈ text'[i' + n]?, g.Breaks ch

namespace SameStretch

variable (h : SameStretch g text text' i i' n)
include h

theorem tail (hk : k ≤ n) : SameStretch g text text' (i + k) (i' + k) (n - k) where
  same j hj := by
    rw [Nat.add_assoc, Nat.add_assoc]
    exact h.same _ (by omega)
  within := by
    have hle := h.within
    omega
  within' := by
    have hle := h.within'
    omega
  ends := by
    rw [Nat.add_assoc, Nat.add_sub_of_le hk]
    exact h.ends
  ends' := by
    rw [Nat.add_assoc, Nat.add_sub_of_le hk]
    exact h.ends'

theorem symm : SameStretch g text' text i' i n where
  same k hk := (h.same k hk).symm
  within := h.within'
  within' := h.within
  ends := h.ends'
  ends' := h.ends

/-- A character that does not break lies inside the stretch. -/
theorem inside {ch : Char} (hch : text[i + k]? = some ch) (hbreaks : ¬ g.Breaks ch) (hk : k ≤ n) :
    k < n ∧ text'[i' + k]? = some ch := by
  have hlt : k < n := by
    refine Nat.lt_of_le_of_ne hk ?_
    rintro rfl
    exact hbreaks (h.ends ch hch)
  exact ⟨hlt, (h.same k hlt).trans hch⟩

theorem take_eq (hk : k ≤ n) : (restAt text' i').take k = (restAt text i).take k := by
  refine List.ext_getElem? fun j => ?_
  rw [List.getElem?_take, List.getElem?_take]
  by_cases hj : j < k
  · rw [if_pos hj, if_pos hj, ← getElem?_add, ← getElem?_add, h.same j (by omega)]
  · rw [if_neg hj, if_neg hj]

theorem slice_eq (x x' : Nat) (hk : k ≤ n) :
    Cursor.slice ⟨text', x'⟩ i' (i' + k) = Cursor.slice ⟨text, x⟩ i (i + k) := by
  rw [slice_add, slice_add, h.take_eq hk]

/-- A class of characters without breaks ends at the same distance. -/
theorem skipWhile (x x' : Nat) {p : Char → Bool} (hp : ∀ ch, g.Breaks ch → ¬ p ch) :
    ∃ k, k ≤ n ∧ Cursor.skipWhile ⟨text, x⟩ p i = i + k ∧
      Cursor.skipWhile ⟨text', x'⟩ p i' = i' + k := by
  have hrun {text : Array Char} {i : Nat} (hends : ∀ ch ∈ text[i + n]?, g.Breaks ch) :
      (restAt text i).takeWhile p = ((restAt text i).take n).takeWhile p := by
    have hstop : ∀ ch ∈ (restAt text (i + n)).head?, ¬ p ch := by
      rw [← getElem?_eq_head?]
      exact fun ch hch => hp ch (hends ch hch)
    have hsplit : restAt text i = (restAt text i).take n ++ restAt text (i + n) := by
      rw [restAt_add, List.take_append_drop]
    exact (congrArg _ hsplit).trans (takeWhile_append_of_head hstop)
  refine ⟨(((restAt text i).take n).takeWhile p).length, ?_, ?_, ?_⟩
  · exact Nat.le_trans ( List.takeWhile_prefix p).length_le (List.length_take_le _ _)
  · rw [skipWhile_eq, hrun h.ends]
  · rw [skipWhile_eq, hrun h.ends', h.take_eq (Nat.le_refl n)]

end SameStretch

/-! ### Scanners -/

/-- Both scans stop at the same distance, at most `n`, and find the same; or they fail, for the
same cause when `exact` holds. -/
inductive Scan.Alike (i i' n : Nat) (exact : Prop) : Scan α → Scan α → Prop
  | ok {k a} : k ≤ n → Alike i i' n exact ⟨i + k, .ok a⟩ ⟨i' + k, .ok a⟩
  | error {k cause cause'} : k ≤ n → (exact → cause' = cause) →
      Alike i i' n exact ⟨i + k, .error cause⟩ ⟨i' + k, .error cause'⟩

theorem Scan.Alike.of_eq {exact : Prop} {result : Except Cause α} (hk : k ≤ n) :
    Alike i i' n exact ⟨i + k, result⟩ ⟨i' + k, result⟩ := by
  cases result with
  | ok a => exact .ok hk
  | error cause => exact .error hk fun _ => rfl

theorem Scan.Alike.later {exact : Prop} {found found' : Scan α} {d m : Nat}
    (h : Alike (i + d) (i' + d) n exact found found') (hle : d + n ≤ m) :
    Alike i i' m exact found found' := by
  cases h with
  | @ok k a hk =>
    rw [Nat.add_assoc, Nat.add_assoc]
    exact .ok (by omega)
  | @error k cause cause' hk hcause =>
    rw [Nat.add_assoc, Nat.add_assoc]
    exact .error (by omega) hcause

/-- Alike scans follow each other, where their failures may be shared. -/
theorem Scan.Alike.follows {t : Accord} {R : Nat → Nat → Prop} {exact : Prop}
    {found found' : Scan α} (h : Alike i i' n exact found found')
    (hR : ∀ k, k ≤ n → R (i + k) (i' + k))
    (hshares : ∀ k cause cause', k ≤ n → (exact → cause' = cause) →
      t.shares ⟨cause, i + k⟩ ⟨cause', i' + k⟩) : found.Follows t R found' := by
  cases h with
  | ok hk => exact .ok (hR _ hk)
  | error hk hcause => exact .fail (hshares _ _ _ hk hcause)

namespace Lexeme

section Stretch

variable (h : SameStretch g text text' i i' n)
include h

/-! ### Names -/

omit h in
theorem name_eq_error (h : ∀ ch ∈ text[i]?, ¬ g.isIdentifierStart ch) :
    name g ⟨text, i⟩ = ⟨i, .error (text[i]?.elim .endOfInput .identifier)⟩ := by
  rw [name]
  have hcur : (⟨text, i⟩ : Cursor).current = text[i]? := rfl
  rw [hcur]
  cases hnext : text[i]? with
  | none => rfl
  | some first => simp [h first hnext]

theorem name_alike :
    (name g ⟨text, i⟩).Alike i i' n (text'[i' + n]? = text[i + n]?) (name g ⟨text', i'⟩) := by
  rcases Nat.eq_zero_or_pos n with rfl | hn
  · have hno : ∀ ch ∈ text[i]?, ¬ g.isIdentifierStart ch := fun ch hch => (h.ends ch hch).start
    have hno' : ∀ ch ∈ text'[i']?, ¬ g.isIdentifierStart ch := fun ch hch => (h.ends' ch hch).start
    rw [name_eq_error hno, name_eq_error hno']
    refine .error (k := 0) (Nat.le_refl 0) fun hexact => ?_
    have hexact : text'[i']? = text[i]? := hexact
    rw [hexact]
  have hsame : text'[i']? = text[i]? := h.same 0 hn
  by_cases hfirst : ∃ first ∈ text[i]?, g.isIdentifierStart first
  · obtain ⟨first, hfirst, hp⟩ := hfirst
    obtain ⟨k, hk, hstop, hstop'⟩ := (h.tail hn).skipWhile i i' (p := g.isIdentifierPart)
      fun _ hbreaks => hbreaks.part
    have hcur : (⟨text, i⟩ : Cursor).current = some first := hfirst
    have hcur' : (⟨text', i'⟩ : Cursor).current = some first := hsame.trans hfirst
    have hle : 1 + k ≤ n := by omega
    have hslice : Cursor.slice ⟨text', i'⟩ i' (i' + 1 + k)
        = Cursor.slice ⟨text, i⟩ i (i + 1 + k) := by
      rw [Nat.add_assoc, Nat.add_assoc, h.slice_eq i i' hle]
    rw [name, name]
    simp only [hcur, hcur', hp, if_true, hstop, hstop', hslice]
    rw [Nat.add_assoc, Nat.add_assoc]
    exact .of_eq hle
  · have hno : ∀ ch ∈ text[i]?, ¬ g.isIdentifierStart ch := fun ch hch hp => hfirst ⟨ch, hch, hp⟩
    rw [name_eq_error hno, name_eq_error (hsame ▸ hno), hsame]
    exact .of_eq (k := 0) (Nat.zero_le n)

/-! ### Numbers -/

theorem significandEnd_alike :
    ∃ k, k ≤ n ∧ significandEnd ⟨text, i⟩ = i + k ∧ significandEnd ⟨text', i'⟩ = i' + k := by
  have hdigit : ∀ ch, g.Breaks ch → ¬ Grammar.isDigit ch := fun _ hbreaks => hbreaks.digit
  have hpoint : ¬ g.Breaks '.' := fun hbreaks => hbreaks.point rfl
  obtain ⟨k, hk, hwhole, hwhole'⟩ := h.skipWhile i i' hdigit
  rw [significandEnd, significandEnd]
  rw [hwhole, hwhole']
  by_cases hdot : (⟨text, i⟩ : Cursor).charAt (i + k) = some '.'
  · obtain ⟨hlt, hdot'⟩ := h.inside hdot hpoint hk
    have hdot' : (⟨text', i'⟩ : Cursor).charAt (i' + k) = some '.' := hdot'
    obtain ⟨j, hj, hstop, hstop'⟩ := (h.tail hlt).skipWhile i i' hdigit
    refine ⟨k + 1 + j, by omega, ?_, ?_⟩
    · rw [if_pos hdot, Nat.add_assoc i k 1, hstop, Nat.add_assoc]
    · rw [if_pos hdot', Nat.add_assoc i' k 1, hstop', Nat.add_assoc]
  · have hdot' : ¬ (⟨text', i'⟩ : Cursor).charAt (i' + k) = some '.' := fun hdot' =>
      hdot (h.symm.inside hdot' hpoint hk).2
    exact ⟨k, hk, if_neg hdot, if_neg hdot'⟩

omit h in
theorem exponentStart_of_sign {mark sign : Char} (hmark : mark = 'e' ∨ mark = 'E')
    (hsign : sign = '+' ∨ sign = '-') (hch : text[k]? = some mark)
    (hnext : text[k + 1]? = some sign) : exponentStart ⟨text, x⟩ k = some (k + 2) := by
  simp only [exponentStart, Cursor.charAt, hch, hmark, if_true, hnext, hsign]

omit h in
theorem exponentStart_of_no_sign {mark : Char} (hmark : mark = 'e' ∨ mark = 'E')
    (hch : text[k]? = some mark) (hnext : ∀ sign ∈ text[k + 1]?, ¬ (sign = '+' ∨ sign = '-')) :
    exponentStart ⟨text, x⟩ k = some (k + 1) := by
  simp only [exponentStart, Cursor.charAt, hch, hmark, if_true]
  cases hsign : text[k + 1]? with
  | none => rfl
  | some sign => simp [hnext sign hsign]

theorem exponentStart_alike (x x' : Nat) (hk : k ≤ n) :
    (exponentStart ⟨text, x⟩ (i + k) = none ∧ exponentStart ⟨text', x'⟩ (i' + k) = none) ∨
      ∃ j, j ≤ n ∧ exponentStart ⟨text, x⟩ (i + k) = some (i + j) ∧
        exponentStart ⟨text', x'⟩ (i' + k) = some (i' + j) := by
  by_cases hfound : ∃ mark ∈ text[i + k]?, mark = 'e' ∨ mark = 'E'
  · right
    obtain ⟨mark, hch, hmark⟩ := hfound
    obtain ⟨hlt, hch'⟩ := h.inside hch (fun hbreaks => hbreaks.exponentMark hmark) hk
    by_cases hsigned : ∃ sign ∈ text[i + (k + 1)]?, sign = '+' ∨ sign = '-'
    · obtain ⟨sign, hnext, hsign⟩ := hsigned
      obtain ⟨hlt', hnext'⟩ := h.inside hnext (fun hbreaks => hbreaks.sign hsign) hlt
      exact ⟨k + 2, hlt', exponentStart_of_sign hmark hsign hch hnext,
        exponentStart_of_sign hmark hsign hch' hnext'⟩
    · refine ⟨k + 1, hlt, exponentStart_of_no_sign hmark hch fun sign hnext hsign =>
        hsigned ⟨sign, hnext, hsign⟩, exponentStart_of_no_sign hmark hch' ?_⟩
      intro sign hnext hsign
      have hnext' := (h.symm.inside hnext (fun hbreaks => hbreaks.sign hsign) hlt).2
      exact hsigned ⟨sign, hnext', hsign⟩
  · left
    refine ⟨exponentStart_eq_none ?_, exponentStart_eq_none ?_⟩
    · rw [← getElem?_eq_head?]
      exact fun mark hch hmark => hfound ⟨mark, hch, hmark⟩
    · rw [← getElem?_eq_head?]
      intro mark hch hmark
      have hch' := (h.symm.inside hch (fun hbreaks => hbreaks.exponentMark hmark) hk).2
      exact hfound ⟨mark, hch', hmark⟩

omit h in
/-- No break makes a difference behind a number. -/
theorem numberAt_of_breaks (h : ∀ ch ∈ text[k]?, g.Breaks ch) :
    numberAt g ⟨text, i⟩ k = ⟨k, if Cursor.slice ⟨text, i⟩ i k = "." then .error .period
      else numberAt.value (Cursor.slice ⟨text, i⟩ i k)⟩ := by
  simp only [numberAt, Cursor.charAt]
  cases hch : text[k]? with
  | none => rfl
  | some ch => simp [(h ch hch).start, (h ch hch).point]

theorem numberAt_alike (hk : k ≤ n) :
    (numberAt g ⟨text, i⟩ (i + k)).Alike i i' n (text'[i' + n]? = text[i + n]?)
      (numberAt g ⟨text', i'⟩ (i' + k)) := by
  have hslice := h.slice_eq i i' hk
  rcases Nat.lt_or_eq_of_le hk with hlt | rfl
  · simp only [numberAt, hslice, Cursor.charAt, h.same k hlt]
    exact .of_eq hk
  · rw [numberAt_of_breaks h.ends, numberAt_of_breaks h.ends', hslice]
    exact .of_eq hk

theorem number_alike :
    (number g ⟨text, i⟩).Alike i i' n (text'[i' + n]? = text[i + n]?) (number g ⟨text', i'⟩) := by
  obtain ⟨k, hk, hstop, hstop'⟩ := significandEnd_alike h
  rw [number, number]
  rw [hstop, hstop']
  rcases exponentStart_alike h i i' hk with ⟨hnone, hnone'⟩ | ⟨j, hj, hsome, hsome'⟩
  · simp only [hnone, hnone']
    exact numberAt_alike h hk
  · obtain ⟨l, hl, hend, hend'⟩ := (h.tail hj).skipWhile i i' (p := Grammar.isDigit)
      fun _ hbreaks => hbreaks.digit
    have hle : j + l ≤ n := by omega
    simp only [hsome, hsome', hend, hend', Nat.add_assoc]
    rcases Nat.eq_zero_or_pos l with rfl | hpos
    · -- no digits: the wording of the failure names what comes instead
      simp only [Nat.add_zero, if_true]
      refine .error hj fun hexact => ?_
      rw [h.slice_eq i i' hj]
      have hnext : text'[i' + j]? = text[i + j]? := by
        rcases Nat.lt_or_eq_of_le hj with hlt | rfl
        · exact h.same j hlt
        · exact hexact
      show Cause.exponent _ text'[i' + j]? = Cause.exponent _ text[i + j]?
      rw [hnext]
    · have hmoved : ¬ i + (j + l) = i + j := by omega
      have hmoved' : ¬ i' + (j + l) = i' + j := by omega
      rw [if_neg hmoved, if_neg hmoved']
      exact numberAt_alike h hle

/-! ### Operators -/

section Operators

variable {known : String → Bool}

omit h in
theorem operatorUpTo_of_le {m : Nat} (hnm : n ≤ m) (hlonger : ∀ k, n ≤ k → k < m →
      operatorOfLength g known ⟨text, i⟩ (k + 1) = none) :
    operatorUpTo g known ⟨text, i⟩ m = operatorUpTo g known ⟨text, i⟩ n := by
  induction m with
  | zero => rw [Nat.le_zero.mp hnm]
  | succ m ih =>
    rcases Nat.lt_or_eq_of_le hnm with hlt | rfl
    · rw [operatorUpTo, hlonger m (Nat.le_of_lt_succ hlt) (Nat.lt_succ_self m), Option.none_or]
      exact ih (Nat.le_of_lt_succ hlt) fun k hk hk' => hlonger k hk (Nat.lt_succ_of_lt hk')
    · rfl

/-- No operator is longer than the stretch, when it has a character in it. -/
theorem operatorUpTo_stretch (hn : 0 < n)
    (hknown : ∀ op, known op → ∀ ch, g.Breaks ch → ch ∉ op.toList.tail) (bound : Nat) :
    operatorUpTo g known ⟨text, i⟩ (min bound (text.size - i))
      = operatorUpTo g known ⟨text, i⟩ (min bound n) := by
  have hwithin := h.within
  refine operatorUpTo_of_le (by omega) fun k hk hk' => ?_
  rcases hop : operatorOfLength g known ⟨text, i⟩ (k + 1) with - | op
  · rfl
  -- a longer candidate has the break behind its first character
  obtain ⟨rfl, hop, -⟩ := operatorOfLength_eq_some.mp hop
  have hlt : i + n < text.size := by omega
  have hbreak : text[i + n]? = some text[i + n] := Array.getElem?_eq_getElem hlt
  refine absurd ?_ (hknown _ hop _ (h.ends _ hbreak))
  rw [String.toList_ofList, ← List.drop_one, List.mem_iff_getElem?]
  refine ⟨n - 1, ?_⟩
  rw [List.getElem?_drop, Nat.add_sub_of_le hn, List.getElem?_take_of_lt (by omega),
    ← getElem?_add, hbreak]

omit h in
/-- Every operator may end in front of a break. -/
theorem ends_of_breaks {first next : Option Char} (h : ∀ ch ∈ next, g.Breaks ch) :
    Ends g first next := by
  intro _
  cases next with
  | none => simp
  | some ch => simpa using (h ch rfl).part

theorem operatorUpTo_alike {m : Nat} (hm : m ≤ n) :
    operatorUpTo g known ⟨text', i'⟩ m = operatorUpTo g known ⟨text, i⟩ m := by
  induction m with
  | zero => rfl
  | succ m ih =>
    have hlength : operatorOfLength g known ⟨text', i'⟩ (m + 1)
        = operatorOfLength g known ⟨text, i⟩ (m + 1) := by
      have hhead : (restAt text' i').head? = (restAt text i).head? := by
        rw [← getElem?_eq_head?, ← getElem?_eq_head?]
        exact h.same 0 (Nat.zero_lt_of_lt hm)
      have hends : Ends g (restAt text i).head? text'[i' + (m + 1)]? ↔
          Ends g (restAt text i).head? text[i + (m + 1)]? := by
        rcases Nat.lt_or_eq_of_le hm with hlt | rfl
        · rw [h.same _ hlt]
        · exact iff_of_true (ends_of_breaks h.ends') (ends_of_breaks h.ends)
      ext op
      rw [operatorOfLength_eq_some, operatorOfLength_eq_some, h.take_eq hm, hhead,
        ← getElem?_add, ← getElem?_add, hends]
    rw [operatorUpTo, operatorUpTo, hlength, ih (Nat.le_of_succ_le hm)]

omit h in
/-- No operator is found where none starts with what comes next. -/
theorem operatorUpTo_eq_none_of_next
    (hnext : ∀ ch, text[i]? = some ch → ∀ op, known op → op.toList.head? ≠ some ch) (bound : Nat) :
    operatorUpTo g known ⟨text, i⟩ (min bound (text.size - i)) = none := by
  rw [operatorUpTo_eq_none]
  intro k hk
  rcases hop : operatorOfLength g known ⟨text, i⟩ (k + 1) with - | op
  · rfl
  obtain ⟨rfl, hknown, -⟩ := operatorOfLength_eq_some.mp hop
  have hch : text[i]? = some text[i] := Array.getElem?_eq_getElem (by omega)
  refine absurd ?_ (hnext _ hch _ hknown)
  rw [String.toList_ofList, restAt_eq_cons hch]
  rfl

/-- The operator at the start of a stretch, and its length; an empty stretch is in front of
characters that start none. -/
theorem operator_alike
    (hempty : n = 0 → ∀ ch, text[i]? = some ch ∨ text'[i']? = some ch →
      ∀ op, known op → op.toList.head? ≠ some ch)
    (hknown : ∀ op, known op → ∀ ch, g.Breaks ch → ch ∉ op.toList.tail) (bound : Nat) :
    operatorUpTo g known ⟨text', i'⟩ (min bound (text'.size - i'))
        = operatorUpTo g known ⟨text, i⟩ (min bound (text.size - i)) ∧
      ∀ op ∈ operatorUpTo g known ⟨text, i⟩ (min bound (text.size - i)), op.length ≤ n := by
  rcases Nat.eq_zero_or_pos n with hn | hn
  · rw [operatorUpTo_eq_none_of_next fun ch hch => hempty hn ch (.inl hch),
      operatorUpTo_eq_none_of_next fun ch hch => hempty hn ch (.inr hch)]
    exact ⟨rfl, fun op hop => by cases hop⟩
  rw [operatorUpTo_stretch h hn hknown, operatorUpTo_stretch h.symm hn hknown]
  refine ⟨operatorUpTo_alike h (Nat.min_le_right _ _), fun op hop => ?_⟩
  obtain ⟨k, hk, hop, -⟩ := operatorUpTo_eq_some hop
  obtain ⟨rfl, -, -⟩ := operatorOfLength_eq_some.mp hop
  rw [String.length_ofList]
  exact Nat.le_trans (List.length_take_le _ _) (by omega)

end Operators

section Operator

variable (hempty : n = 0 → ∀ ch, text[i]? = some ch ∨ text'[i']? = some ch → g.Spares ch)
include hempty

theorem unaryOperator_alike :
    unaryOperator g ⟨text', i'⟩ = unaryOperator g ⟨text, i⟩ ∧
      ∀ op ∈ unaryOperator g ⟨text, i⟩, op.length ≤ n :=
  operator_alike h (fun hn ch hch => (hempty hn ch hch).unary_head)
    (fun op hop _ hbreaks => hbreaks.unary op hop) g.longestUnary

theorem binaryOperator_alike :
    binaryOperator g ⟨text', i'⟩ = binaryOperator g ⟨text, i⟩ ∧
      ∀ op ∈ binaryOperator g ⟨text, i⟩, op.length ≤ n :=
  operator_alike h (fun hn ch hch => (hempty hn ch hch).binary_head)
    (fun op hop _ hbreaks => hbreaks.binary op hop) g.longestBinary

end Operator

end Stretch

/-! ### Strings -/

/-- On the same rest of two texts, a string is scanned alike. -/
theorem stringBody_alike (quote : Char) (m : Nat) (value : List Char)
    (h : restAt text' i' = restAt text i) :
    (stringBody text quote m i value).Alike i i' (restAt text i).length True
      (stringBody text' quote m i' value) := by
  induction m generalizing i i' value with
  | zero => exact .of_eq (k := 0) (Nat.zero_le _)
  | succ m ih =>
    have hat (k : Nat) : text'[i' + k]? = text[i + k]? := by
      rw [getElem?_add, getElem?_add, h]
    have hfrom (k : Nat) : restAt text' (i' + k) = restAt text (i + k) := by
      rw [restAt_add, restAt_add, h]
    have hnow : text'[i']? = text[i]? := hat 0
    rw [stringBody, stringBody]
    rw [hnow, hat 1]
    rcases hch : text[i]? with - | ch
    · exact .of_eq (k := 0) (Nat.zero_le _)
    have hlen : (restAt text i).length = (restAt text (i + 1)).length + 1 := by
      rw [restAt_eq_cons hch, List.length_cons]
    dsimp only
    split
    · exact .of_eq (k := 1) (by omega)
    · split
      · rcases hnext : text[i + 1]? with - | escaped
        · exact .of_eq (k := 1) (by omega)
        · have hlen' : (restAt text (i + 1)).length = (restAt text (i + 2)).length + 1 := by
            rw [restAt_eq_cons hnext, List.length_cons]
          exact (ih _ (hfrom 2)).later (by omega)
      · exact (ih _ (hfrom 1)).later (by omega)

theorem string_alike (h : restAt text' i' = restAt text i) :
    (string ⟨text, i⟩).Alike i i' (restAt text i).length True (string ⟨text', i'⟩) := by
  have hnow : (⟨text', i'⟩ : Cursor).current = (⟨text, i⟩ : Cursor).current := by
    show text'[i']? = text[i]?
    rw [getElem?_eq_head?, getElem?_eq_head?, h]
  have hsize : text'.size - i' = text.size - i := by
    rw [← length_restAt, ← length_restAt, h]
  have hslice (k : Nat) : Cursor.slice ⟨text', i'⟩ i' (i' + (1 + k))
      = Cursor.slice ⟨text, i⟩ i (i + (1 + k)) := by
    rw [slice_add, slice_add, h]
  rw [string, string]
  rw [hnow, hsize]
  rcases hch : (⟨text, i⟩ : Cursor).current with - | quote
  · exact .of_eq (k := 0) (Nat.zero_le _)
  have hch : text[i]? = some quote := hch
  have hlen : (restAt text i).length = (restAt text (i + 1)).length + 1 := by
    rw [restAt_eq_cons hch, List.length_cons]
  have hbody := stringBody_alike quote (text.size - i) []
    (show restAt text' (i' + 1) = restAt text (i + 1) by rw [restAt_add, restAt_add, h])
  dsimp only
  generalize stringBody text quote (text.size - i) (i + 1) [] = body at hbody ⊢
  generalize stringBody text' quote (text.size - i) (i' + 1) [] = body' at hbody ⊢
  cases hbody with
  | @ok k a hk =>
    simp only [Nat.add_assoc, hslice]
    exact .of_eq (by omega)
  | @error k cause cause' hk hcause =>
    simp only [Nat.add_assoc, hslice, hcause trivial]
    exact .of_eq (by omega)

end Lexeme

/-! ### Following along a stretch -/

/-- A stretch whose offsets are related and where failures may be shared.  If it is empty, what
comes next is in no operator and in no name. -/
structure Stretched (g : Grammar) (text text' : Array Char) (t : Accord) (R : Nat → Nat → Prop)
    (i i' n : Nat) : Prop extends SameStretch g text text' i i' n where
  places : ∀ k, k ≤ n → R (i + k) (i' + k)
  shares : ∀ k cause cause', k ≤ n → (text'[i' + n]? = text[i + n]? → cause' = cause) →
    t.shares ⟨cause, i + k⟩ ⟨cause', i' + k⟩
  spares : n = 0 → ∀ ch, text[i]? = some ch ∨ text'[i']? = some ch → g.Spares ch

namespace Stretched

variable {t : Accord} {R : Nat → Nat → Prop} (h : Stretched g text text' t R i i' n)
include h

theorem name : (Lexeme.name g ⟨text, i⟩).Follows t R (Lexeme.name g ⟨text', i'⟩) :=
  (Lexeme.name_alike h.toSameStretch).follows h.places h.shares

theorem number : (Lexeme.number g ⟨text, i⟩).Follows t R (Lexeme.number g ⟨text', i'⟩) :=
  (Lexeme.number_alike h.toSameStretch).follows h.places h.shares

theorem unary : Lexeme.unaryOperator g ⟨text', i'⟩ = Lexeme.unaryOperator g ⟨text, i⟩ ∧
    ∀ op ∈ Lexeme.unaryOperator g ⟨text, i⟩, R (i + op.length) (i' + op.length) := by
  obtain ⟨hsame, hlength⟩ := Lexeme.unaryOperator_alike h.toSameStretch h.spares
  exact ⟨hsame, fun op hop => h.places _ (hlength op hop)⟩

theorem binary : Lexeme.binaryOperator g ⟨text', i'⟩ = Lexeme.binaryOperator g ⟨text, i⟩ ∧
    ∀ op ∈ Lexeme.binaryOperator g ⟨text, i⟩, R (i + op.length) (i' + op.length) := by
  obtain ⟨hsame, hlength⟩ := Lexeme.binaryOperator_alike h.toSameStretch h.spares
  exact ⟨hsame, fun op hop => h.places _ (hlength op hop)⟩

end Stretched

end OperatorGrammar
