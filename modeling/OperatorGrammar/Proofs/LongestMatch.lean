/-
OperatorGrammar/Proofs/LongestMatch.lean

The operator that is found is the longest one of its table that fits.

The scanner never goes through a table.  It asks of each length, from the carried
greatest length down, whether the text of that length is an operator, and near
the end of the text it starts from what is left.  Here this is compared with a
look at every key: `Lexeme.Fits` says when an operator may stand at a place, and
`Lexeme.IsLongestFit` that no longer operator of its table may.

No operator that fits is out of reach of the scanner: it is no longer than the
rest of the text, and no longer than the carried length, because every sequence
of changes keeps that length right (`Grammar.Counted`).  A longer candidate that
runs into a name is refused, and the search goes on below it.

Main result: `Lexeme.operator_isLongestFit`.
-/
import OperatorGrammar.Proofs.Blanks
import OperatorGrammar.Proofs.Lexeme
import OperatorGrammar.Proofs.ConfigurationHistory

namespace OperatorGrammar

namespace Lexeme

/-- An operator may stand at a place: it is not empty, the text goes on with it, and one
that starts like a name does not run into one. -/
structure Fits (g : Grammar) (c : Cursor) (op : String) : Prop where
  ne_empty : op ≠ ""
  starts : c.startsWith op
  ends : c.current.any g.isIdentifierStart →
    ¬ (c.charAt (c.index + op.length)).any g.isIdentifierPart

/-- An operator of a table fits, and no longer one does. -/
structure IsLongestFit (g : Grammar) (table : List String) (c : Cursor) (op : String) : Prop where
  mem : op ∈ table
  fits : Fits g c op
  longest : ∀ other ∈ table, Fits g c other → other.length ≤ op.length

/-! ### Candidates of one length -/

variable {g : Grammar} {known : String → Bool} {text : Array Char} {i : Nat} {op : String}

namespace Fits

theorem length_pos (h : Fits g ⟨text, i⟩ op) : 0 < op.length := by
  have hne := h.ne_empty
  rw [← String.length_toList, List.length_pos_iff]
  simpa using hne

theorem length_le (h : Fits g ⟨text, i⟩ op) : op.length ≤ (⟨text, i⟩ : Cursor).remaining := by
  have hlen := (startsWith_iff.mp h.starts).length_le
  rw [length_restAt, String.length_toList] at hlen
  exact hlen

theorem eq_slice (h : Fits g ⟨text, i⟩ op) :
    op = String.ofList ((restAt text i).take op.length) := by
  have htake := List.prefix_iff_eq_take.mp (startsWith_iff.mp h.starts)
  rw [String.length_toList] at htake
  rw [← htake, String.ofList_toList]

/-- Of its own length, an operator that fits is the candidate. -/
theorem operatorOfLength (h : Fits g ⟨text, i⟩ op) (hknown : known op) :
    operatorOfLength g known ⟨text, i⟩ op.length = some op := by
  rw [operatorOfLength_eq_some]
  refine ⟨h.eq_slice, hknown, ?_⟩
  intro hfirst
  rw [← getElem?_add]
  exact h.ends (by rwa [← getElem?_eq_head?] at hfirst)

end Fits

/-- A candidate that is accepted has the length that was asked for, and fits. -/
theorem fits_of_operatorOfLength {k : Nat} (hk : k < (⟨text, i⟩ : Cursor).remaining)
    (h : operatorOfLength g known ⟨text, i⟩ (k + 1) = some op) :
    known op ∧ op.length = k + 1 ∧ Fits g ⟨text, i⟩ op := by
  rw [operatorOfLength_eq_some] at h
  obtain ⟨hop, hknown, hends⟩ := h
  have hlist : op.toList = (restAt text i).take (k + 1) := by rw [hop, String.toList_ofList]
  have hremaining : k + 1 ≤ (restAt text i).length := by
    rw [length_restAt]
    exact hk
  have hlen : op.length = k + 1 := by
    rw [← String.length_toList, hlist, List.length_take, Nat.min_eq_left hremaining]
  refine ⟨hknown, hlen, ?_, startsWith_iff.mpr ?_, ?_⟩
  · rintro rfl
    cases hlen
  · rw [hlist]
    exact List.take_prefix _ _
  · intro hfirst
    rw [hlen]
    show ¬ (text[i + (k + 1)]?).any g.isIdentifierPart
    rw [getElem?_add]
    exact hends (by rwa [← getElem?_eq_head?])

/-! ### The search from the greatest length down -/

section Search

variable {table : List String} {bound : Nat}

/-- Below a bound that no key exceeds, the search finds the longest key that fits. -/
theorem operatorUpTo_eq_some_iff (hknown : ∀ op, known op ↔ op ∈ table)
    (hbound : ∀ op ∈ table, op.length ≤ bound) :
    operatorUpTo g known ⟨text, i⟩ (min bound (⟨text, i⟩ : Cursor).remaining) = some op ↔
      IsLongestFit g table ⟨text, i⟩ op := by
  constructor
  · intro h
    obtain ⟨k, hk, hop, hlonger⟩ := operatorUpTo_eq_some h
    obtain ⟨hop, hlen, hfits⟩ := fits_of_operatorOfLength (by omega) hop
    refine ⟨(hknown op).mp hop, hfits, ?_⟩
    -- a longer operator that fits would have been found at its own length
    intro other hother hfits'
    by_contra hlt
    obtain ⟨m, hm⟩ : ∃ m, other.length = m + 1 := ⟨other.length - 1, by omega⟩
    have hle := hfits'.length_le
    have hle' := hbound other hother
    have hfound : operatorOfLength g known ⟨text, i⟩ other.length = some other :=
      hfits'.operatorOfLength ((hknown other).mpr hother)
    rw [hm, hlonger m (by omega) (by omega)] at hfound
    cases hfound
  · rintro ⟨hop, hfits, hlongest⟩
    obtain ⟨k, hk⟩ : ∃ k, op.length = k + 1 := ⟨op.length - 1, by have := hfits.length_pos; omega⟩
    have hfound : operatorOfLength g known ⟨text, i⟩ op.length = some op :=
      hfits.operatorOfLength ((hknown op).mpr hop)
    have hle := hfits.length_le
    have hle' := hbound op hop
    rw [hk] at hfound
    refine operatorUpTo_of_longest (by omega) hfound ?_
    intro m hm hm'
    rw [Option.eq_none_iff_forall_ne_some]
    intro other hother
    obtain ⟨hother, hlen, hfits'⟩ := fits_of_operatorOfLength (by omega) hother
    have hlonger := hlongest other ((hknown other).mp hother) hfits'
    omega

theorem operatorUpTo_eq_none_iff (hknown : ∀ op, known op ↔ op ∈ table)
    (hbound : ∀ op ∈ table, op.length ≤ bound) :
    operatorUpTo g known ⟨text, i⟩ (min bound (⟨text, i⟩ : Cursor).remaining) = none ↔
      ∀ op ∈ table, ¬ Fits g ⟨text, i⟩ op := by
  rw [operatorUpTo_eq_none]
  constructor
  · intro hnone op hop hfits
    obtain ⟨k, hk⟩ : ∃ k, op.length = k + 1 := ⟨op.length - 1, by have := hfits.length_pos; omega⟩
    have hfound : operatorOfLength g known ⟨text, i⟩ op.length = some op :=
      hfits.operatorOfLength ((hknown op).mpr hop)
    have hle := hfits.length_le
    have hle' := hbound op hop
    rw [hk, hnone k (by omega)] at hfound
    cases hfound
  · intro hnone k hk
    rw [Option.eq_none_iff_forall_ne_some]
    intro op hop
    obtain ⟨hop, -, hfits⟩ := fits_of_operatorOfLength (by omega) hop
    exact hnone op ((hknown op).mp hop) hfits

end Search

/-! ### The two tables -/

section Tables

variable {c : Cursor}

theorem unaryOperator_eq_some_iff (hg : g.Counted) :
    unaryOperator g c = some op ↔ IsLongestFit g g.unaryOps.members c op :=
  operatorUpTo_eq_some_iff (fun _ => OrderedSet.contains_iff) fun _ => hg.length_le_unary

theorem unaryOperator_eq_none_iff (hg : g.Counted) :
    unaryOperator g c = none ↔ ∀ op ∈ g.unaryOps.members, ¬ Fits g c op :=
  operatorUpTo_eq_none_iff (fun _ => OrderedSet.contains_iff) fun _ => hg.length_le_unary

theorem binaryOperator_eq_some_iff (hg : g.Counted) :
    binaryOperator g c = some op ↔ IsLongestFit g g.binaryOps.keys c op :=
  operatorUpTo_eq_some_iff (fun _ => OrderedMap.contains_iff) fun _ => hg.length_le_binary

theorem binaryOperator_eq_none_iff (hg : g.Counted) :
    binaryOperator g c = none ↔ ∀ op ∈ g.binaryOps.keys, ¬ Fits g c op :=
  operatorUpTo_eq_none_iff (fun _ => OrderedMap.contains_iff) fun _ => hg.length_le_binary

end Tables

/-- **After any changes of the standard tables, the operator that is found is the longest
one of its table that fits**, and none is found exactly where none fits. -/
theorem operator_isLongestFit (edits : List Edit) (c : Cursor) :
    let g := Grammar.standard.edited edits
    (∀ op, unaryOperator g c = some op ↔ IsLongestFit g g.unaryOps.members c op) ∧
      (unaryOperator g c = none ↔ ∀ op ∈ g.unaryOps.members, ¬ Fits g c op) ∧
      (∀ op, binaryOperator g c = some op ↔ IsLongestFit g g.binaryOps.keys c op) ∧
      (binaryOperator g c = none ↔ ∀ op ∈ g.binaryOps.keys, ¬ Fits g c op) := by
  intro g
  have hg : g.Counted := Grammar.counted_standard.edited edits
  exact ⟨fun _ => unaryOperator_eq_some_iff hg, unaryOperator_eq_none_iff hg,
    fun _ => binaryOperator_eq_some_iff hg, binaryOperator_eq_none_iff hg⟩

/-- In front of a name that goes on, the shorter of two word operators is no match, and
the longer one is found as soon as the text goes far enough. -/
example :
    let g := Grammar.standard.edited [.addBinaryOp "and" 3 false, .addBinaryOp "and_not" 3 false]
    binaryOperator g ⟨"android".toList.toArray, 0⟩ = none ∧
      binaryOperator g ⟨"and_not".toList.toArray, 0⟩ = some "and_not" := by
  decide +kernel

end Lexeme

end OperatorGrammar
