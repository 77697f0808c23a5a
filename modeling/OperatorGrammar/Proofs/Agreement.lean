/-
OperatorGrammar/Proofs/Agreement.lean

Grammars that agree on a text.

A text can show only some of a grammar: the table entries that stand somewhere
in it, the classes of its characters, and which of its operators binds tighter.
`Grammar.AgreesOn` says that two grammars show the same there.  Where they do,
every scanner finds the same, and a chain of operators of the text becomes the
same tree.

The carried lengths and the order of the tables are no part of it.  That the
operator scanner does not show them is what `Lexeme.IsLongestFit` says: what it
finds is the longest entry that fits, and an entry that fits stands in the text.
-/
import OperatorGrammar.Proofs.LongestMatch
import OperatorGrammar.Proofs.Reads
import OperatorGrammar.Proofs.Layout
import Mathlib.Data.List.Forall2
import Mathlib.Data.List.Infix

namespace OperatorGrammar

/-! ### Parts of a text -/

/-- The parts of a text, one by one. -/
def parts (text : List Char) : List String :=
  (text.tails.flatMap List.inits).map String.ofList

/-- A string that stands somewhere in a text, and is not empty. -/
structure Occurs (text : List Char) (s : String) : Prop where
  ne_empty : s ≠ ""
  part : s.toList <:+: text

namespace Occurs

variable {text : List Char}

theorem singleton {ch : Char} (h : ch ∈ text) : Occurs text (String.singleton ch) where
  ne_empty := by
    intro heq
    have hlist := congrArg String.toList heq
    rw [String.toList_singleton] at hlist
    cases hlist
  part := by
    obtain ⟨before, after, rfl⟩ := List.append_of_mem h
    rw [String.toList_singleton]
    exact ⟨before, after, by simp⟩

theorem mem_parts {s : String} (h : Occurs text s) : s ∈ parts text := by
  obtain ⟨before, after, hsplit⟩ := h.part
  have htail : s.toList ++ after ∈ text.tails := by
    rw [List.mem_tails]
    exact ⟨before, by rw [← hsplit, List.append_assoc]⟩
  have hinit : s.toList ∈ (s.toList ++ after).inits := by
    rw [List.mem_inits]
    exact List.prefix_append _ _
  exact List.mem_map.mpr ⟨s.toList, List.mem_flatMap.mpr ⟨_, htail, hinit⟩, String.ofList_toList⟩

end Occurs

theorem Lexeme.Fits.occurs {g : Grammar} {text : Array Char} {i : Nat} {op : String}
    (h : Fits g ⟨text, i⟩ op) : Occurs text.toList op where
  ne_empty := h.ne_empty
  part := (startsWith_iff.mp h.starts).isInfix.trans (List.drop_suffix _ _).isInfix

theorem NameToken.occurs {g : Grammar} {text : Array Char} {i : Nat} {w : String}
    {rest : List Char} (h : NameToken g (restAt text i) w rest) : Occurs text.toList w where
  ne_empty := by
    obtain ⟨first, more, hw, -⟩ := h.isName
    rintro rfl
    cases hw
  part := (List.prefix_append w.toList rest).isInfix.trans
    (h.split ▸ (List.drop_suffix i text.toList).isInfix)

/-! ### Agreement -/

/-- Two grammars show a text the same: the same of its parts are operators, literals and
the receiver, the precedences of its operators come in the same order and vanish
together, and the same of its characters are added to identifiers. -/
structure Grammar.AgreesOn (text : List Char) (g g' : Grammar) : Prop where
  unary : ∀ s, Occurs text s → (g.isUnaryOp s ↔ g'.isUnaryOp s)
  binary : ∀ s, Occurs text s → (g.isBinaryOp s ↔ g'.isBinaryOp s)
  right : ∀ s, Occurs text s → g.isBinaryOp s →
    (g.isRightAssociative s ↔ g'.isRightAssociative s)
  literal : ∀ s, Occurs text s → g.literal? s = g'.literal? s
  receiver : ∀ s, Occurs text s → (s = g.receiverKeyword ↔ s = g'.receiverKeyword)
  order : ∀ a b, Occurs text a → Occurs text b → g.isBinaryOp a → g.isBinaryOp b →
    (g.precedence a ≤ g.precedence b ↔ g'.precedence a ≤ g'.precedence b)
  vanishing : ∀ s, Occurs text s → g.isBinaryOp s → (g.precedence s = 0 ↔ g'.precedence s = 0)
  identifierChars : ∀ ch ∈ text, ch ∈ g.identifierChars.members ↔ ch ∈ g'.identifierChars.members

namespace Grammar.AgreesOn

variable {text : List Char} {g g' : Grammar}

theorem refl (text : List Char) (g : Grammar) : g.AgreesOn text g where
  unary _ _ := Iff.rfl
  binary _ _ := Iff.rfl
  right _ _ _ := Iff.rfl
  literal _ _ := rfl
  receiver _ _ := Iff.rfl
  order _ _ _ _ _ _ := Iff.rfl
  vanishing _ _ _ := Iff.rfl
  identifierChars _ _ := Iff.rfl

theorem symm (h : AgreesOn text g g') : AgreesOn text g' g where
  unary s hs := (h.unary s hs).symm
  binary s hs := (h.binary s hs).symm
  right s hs hop := (h.right s hs ((h.binary s hs).mpr hop)).symm
  literal s hs := (h.literal s hs).symm
  receiver s hs := (h.receiver s hs).symm
  order a b ha hb hop hop' :=
    (h.order a b ha hb ((h.binary a ha).mpr hop) ((h.binary b hb).mpr hop')).symm
  vanishing s hs hop := (h.vanishing s hs ((h.binary s hs).mpr hop)).symm
  identifierChars ch hch := (h.identifierChars ch hch).symm

/-! ### Classes of characters -/

theorem isIdentifierStart (h : AgreesOn text g g') {ch : Char} (hch : ch ∈ text) :
    g.isIdentifierStart ch = g'.isIdentifierStart ch := by
  have hextra : g.identifierChars.contains ch = g'.identifierChars.contains ch := by
    rw [Bool.eq_iff_iff, OrderedSet.contains_iff, OrderedSet.contains_iff]
    exact h.identifierChars ch hch
  have hop : g.isBinaryOp (String.singleton ch) = g'.isBinaryOp (String.singleton ch) :=
    Bool.eq_iff_iff.mpr (h.binary _ (.singleton hch))
  rw [Grammar.isIdentifierStart, Grammar.isIdentifierStart, hextra, hop]

theorem isIdentifierPart (h : AgreesOn text g g') {ch : Char} (hch : ch ∈ text) :
    g.isIdentifierPart ch = g'.isIdentifierPart ch := by
  rw [Grammar.isIdentifierPart, Grammar.isIdentifierPart, h.isIdentifierStart hch]

end Grammar.AgreesOn

/-! ### Scanners -/

/-- Skipping looks only at characters of the text. -/
theorem skipFrom_congr {text : Array Char} {p q : Char → Bool}
    (h : ∀ ch ∈ text.toList, p ch = q ch) (n i : Nat) :
    Cursor.skipFrom text p n i = Cursor.skipFrom text q n i := by
  induction n generalizing i with
  | zero => rfl
  | succ n ih =>
    rw [Cursor.skipFrom, Cursor.skipFrom]
    rcases hch : text[i]? with - | ch
    · rfl
    · simp only [h ch (mem_text_of_getElem? hch), ih]

namespace Grammar.AgreesOn

variable {text : Array Char} {i : Nat} {g g' : Grammar}

theorem name (h : AgreesOn text.toList g g') :
    Lexeme.name g ⟨text, i⟩ = Lexeme.name g' ⟨text, i⟩ := by
  rw [Lexeme.name, Lexeme.name]
  rcases hch : (⟨text, i⟩ : Cursor).current with - | first
  · rfl
  · have hfirst : first ∈ text.toList := mem_text_of_getElem? hch
    have hskip (j : Nat) : Cursor.skipWhile ⟨text, i⟩ g.isIdentifierPart j
        = Cursor.skipWhile ⟨text, i⟩ g'.isIdentifierPart j :=
      skipFrom_congr (fun ch hch => h.isIdentifierPart hch) _ _
    simp only [h.isIdentifierStart hfirst, hskip]

theorem numberAt (h : AgreesOn text.toList g g') (stop : Nat) :
    Lexeme.numberAt g ⟨text, i⟩ stop = Lexeme.numberAt g' ⟨text, i⟩ stop := by
  unfold Lexeme.numberAt
  rcases hch : (⟨text, i⟩ : Cursor).charAt stop with - | next
  · rfl
  · simp only [h.isIdentifierStart (mem_text_of_getElem? hch)]

theorem number (h : AgreesOn text.toList g g') :
    Lexeme.number g ⟨text, i⟩ = Lexeme.number g' ⟨text, i⟩ := by
  unfold Lexeme.number
  simp only [h.numberAt]

theorem meaning (h : AgreesOn text.toList g g') {w : String} (hw : Occurs text.toList w) :
    Lexeme.meaning g w = Lexeme.meaning g' w := by
  rw [Lexeme.meaning, Lexeme.meaning, h.literal w hw]
  simp only [h.receiver w hw]

theorem fits (h : AgreesOn text.toList g g') {op : String} (hfits : Lexeme.Fits g ⟨text, i⟩ op) :
    Lexeme.Fits g' ⟨text, i⟩ op where
  ne_empty := hfits.ne_empty
  starts := hfits.starts
  ends := by
    have hany {p q : Char → Bool} (hpq : ∀ ch ∈ text.toList, p ch = q ch) (j : Nat) :
        text[j]?.any p = text[j]?.any q := by
      rcases hch : text[j]? with - | ch
      · rfl
      · exact hpq ch (mem_text_of_getElem? hch)
    have hends := hfits.ends
    rwa [show (⟨text, i⟩ : Cursor).current = text[i]? from rfl,
      show (⟨text, i⟩ : Cursor).charAt (i + op.length) = text[i + op.length]? from rfl,
      hany (fun ch hch => h.isIdentifierStart hch), hany (fun ch hch => h.isIdentifierPart hch)]
      at hends

/-- Tables that agree on the parts of the text have the same longest fit. -/
theorem isLongestFit_iff (h : AgreesOn text.toList g g') {table table' : List String}
    (htable : ∀ op, Occurs text.toList op → (op ∈ table ↔ op ∈ table')) {op : String} :
    Lexeme.IsLongestFit g table ⟨text, i⟩ op ↔ Lexeme.IsLongestFit g' table' ⟨text, i⟩ op := by
  constructor
  · rintro ⟨hmem, hfits, hlongest⟩
    refine ⟨(htable op hfits.occurs).mp hmem, h.fits hfits, fun other hother hfits' => ?_⟩
    exact hlongest other ((htable other hfits'.occurs).mpr hother) (h.symm.fits hfits')
  · rintro ⟨hmem, hfits, hlongest⟩
    refine ⟨(htable op hfits.occurs).mpr hmem, h.symm.fits hfits, fun other hother hfits' => ?_⟩
    exact hlongest other ((htable other hfits'.occurs).mp hother) (h.fits hfits')

theorem unaryOperator (h : AgreesOn text.toList g g') (hg : g.Counted) (hg' : g'.Counted) :
    Lexeme.unaryOperator g ⟨text, i⟩ = Lexeme.unaryOperator g' ⟨text, i⟩ := by
  ext op
  rw [Lexeme.unaryOperator_eq_some_iff hg, Lexeme.unaryOperator_eq_some_iff hg']
  refine h.isLongestFit_iff fun op hop => ?_
  rw [← OrderedSet.contains_iff, ← OrderedSet.contains_iff]
  exact h.unary op hop

theorem binaryOperator (h : AgreesOn text.toList g g') (hg : g.Counted) (hg' : g'.Counted) :
    Lexeme.binaryOperator g ⟨text, i⟩ = Lexeme.binaryOperator g' ⟨text, i⟩ := by
  ext op
  rw [Lexeme.binaryOperator_eq_some_iff hg, Lexeme.binaryOperator_eq_some_iff hg']
  refine h.isLongestFit_iff fun op hop => ?_
  rw [← OrderedMap.contains_iff, ← OrderedMap.contains_iff]
  exact h.binary op hop

end Grammar.AgreesOn

/-! ### Chains -/

namespace Chain

variable {α : Type} {K : BinaryOp → BinaryOp → Prop} {join : BinaryOp → α → α → α}

/-- Waiting operators that correspond, with the same left operand. -/
structure Waiting.Alike (K : BinaryOp → BinaryOp → Prop) (w w' : Waiting α) : Prop where
  left : w.left = w'.left
  op : K w.op w'.op

/-- Steps of a chain that correspond, with the same operand. -/
structure StepAlike (K : BinaryOp → BinaryOp → Prop) (p p' : BinaryOp × α) : Prop where
  op : K p.1 p'.1
  operand : p.2 = p'.2

/-- Operators that correspond close each other alike. -/
def Congruent (K : BinaryOp → BinaryOp → Prop) : Prop :=
  ∀ {later later' earlier earlier'}, K later later' → K earlier earlier' →
    later.closes earlier = later'.closes earlier'

section Congruence

variable (hK : Congruent K) (hjoin : ∀ op op', K op op' → join op = join op')
include hK hjoin

theorem reduce_congr {op op' : BinaryOp} (hop : K op op') {S S' : List (Waiting α)}
    (hS : List.Forall₂ (Waiting.Alike K) S S') (a : α) :
    List.Forall₂ (Waiting.Alike K) (reduce join op S a).1 (reduce join op' S' a).1 ∧
      (reduce join op S a).2 = (reduce join op' S' a).2 := by
  induction hS generalizing a with
  | nil => exact ⟨.nil, rfl⟩
  | cons hw hS ih =>
    rw [reduce, reduce, hK hop hw.op, hjoin _ _ hw.op, hw.left]
    split
    · exact ih _
    · exact ⟨.cons hw hS, rfl⟩

omit hK in
theorem finish_congr {S S' : List (Waiting α)} (hS : List.Forall₂ (Waiting.Alike K) S S') (a : α) :
    finish join S a = finish join S' a := by
  induction hS generalizing a with
  | nil => rfl
  | @cons w w' S S' hw _ ih =>
    show finish join S (join w.op w.left a) = finish join S' (join w'.op w'.left a)
    rw [hjoin _ _ hw.op, hw.left]
    exact ih _

theorem climb_congr {rest rest' : List (BinaryOp × α)}
    (hrest : List.Forall₂ (StepAlike K) rest rest') {S S' : List (Waiting α)}
    (hS : List.Forall₂ (Waiting.Alike K) S S') (a : α) :
    climb join S a rest = climb join S' a rest' := by
  induction hrest generalizing S S' a with
  | nil => exact finish_congr hjoin hS a
  | @cons p p' rest rest' hp _ ih =>
    obtain ⟨op, next⟩ := p
    obtain ⟨op', next'⟩ := p'
    obtain ⟨hop, rfl⟩ : K op op' ∧ next = next' := ⟨hp.op, hp.operand⟩
    obtain ⟨hstack, hleft⟩ := reduce_congr hK hjoin hop hS a
    rw [climb, climb]
    exact ih (.cons ⟨hleft, hop⟩ hstack) next

end Congruence

/-- Chains that correspond step by step become the same tree. -/
theorem tree_congr (hK : Congruent K) (hsymbol : ∀ {op op'}, K op op' → op.symbol = op'.symbol)
    (first : Expr) {rest rest' : List (BinaryOp × Expr)}
    (hrest : List.Forall₂ (StepAlike K) rest rest') : tree first rest = tree first rest' := by
  refine climb_congr hK ?_ hrest .nil first
  intro op op' hop
  rw [hsymbol hop]

end Chain

/-- One operator of the text as two grammars have it. -/
inductive Grammar.SameOp (text : List Char) (g g' : Grammar) : BinaryOp → BinaryOp → Prop
  | intro {symbol} : Occurs text symbol → g.isBinaryOp symbol →
      SameOp text g g' (g.binaryOp symbol) (g'.binaryOp symbol)

theorem Grammar.SameOp.symbol {text : List Char} {g g' : Grammar} {op op' : BinaryOp}
    (h : SameOp text g g' op op') : op.symbol = op'.symbol := by
  cases h
  rfl

/-- Operators of a text on which two grammars agree close each other alike. -/
theorem Grammar.AgreesOn.congruent {text : List Char} {g g' : Grammar} (h : g.AgreesOn text g') :
    Chain.Congruent (SameOp text g g') := by
  rintro _ _ _ _ ⟨ha, hopa⟩ ⟨hb, hopb⟩
  rename_i a b
  have hright (s : String) (hs : Occurs text s) (hop : g.isBinaryOp s) :
      g.isRightAssociative s = g'.isRightAssociative s := Bool.eq_iff_iff.mpr (h.right s hs hop)
  have hle := h.order a b ha hb hopa hopb
  have hge := h.order b a hb ha hopb hopa
  rw [Bool.eq_iff_iff, BinaryOp.closes_iff, BinaryOp.closes_iff, BinaryOp.Reduces,
    BinaryOp.Reduces]
  have hlt : g.precedence a < g.precedence b ↔ g'.precedence a < g'.precedence b := by omega
  have heq : g.precedence a = g.precedence b ↔ g'.precedence a = g'.precedence b := by omega
  simp only [Grammar.binaryOp, hright a ha hopa, hright b hb hopb, hlt, heq]

end OperatorGrammar
