/-
OperatorGrammar/Proofs/Sameness.lean

Sameness and equality of trees.

A NaN is not the same as itself, and the two zeros are the same without being
equal, so for trees with numbers sameness and equality differ.  Without numbers
they agree (`Expr.eq_of_same`).  Sameness can be computed, and this is how the
answer of a concrete run is found out.
-/
import OperatorGrammar.Parser.Run

namespace OperatorGrammar

namespace Value

/-- Whether the value is no number. -/
def numberless : Value → Bool
  | .number _ => false
  | _ => true

theorem eq_of_same {v w : Value} (h : v.same w) (hv : v.numberless) : v = w := by
  cases v with
  | null => cases w <;> simp_all [same]
  | bool _ => cases w <;> simp_all [same]
  | number _ => cases hv
  | string _ => cases w <;> simp_all [same]

end Value

namespace Expr

mutual

/-- Whether no number occurs in the tree. -/
def numberless : Expr → Bool
  | .identifier _ => true
  | .literal value _ => value.numberless
  | .receiver => true
  | .member _ object property _ => object.numberless && property.numberless
  | .call callee arguments _ => callee.numberless && numberlessAll arguments
  | .unary _ argument _ => argument.numberless
  | .binary _ left right => left.numberless && right.numberless
  | .conditional test consequent alternate =>
    test.numberless && consequent.numberless && alternate.numberless
  | .array elements => numberlessSlots elements
  | .sequence expressions => numberlessAll expressions
  | .compound body => numberlessAll body

/-- Whether no number occurs in a list of trees. -/
def numberlessAll : List Expr → Bool
  | [] => true
  | e :: es => e.numberless && numberlessAll es

/-- Whether no number occurs in a list of trees with holes. -/
def numberlessSlots : List (Option Expr) → Bool
  | [] => true
  | none :: slots => numberlessSlots slots
  | some e :: slots => e.numberless && numberlessSlots slots

end

mutual

/-- **Without numbers, the same trees are equal.** -/
theorem eq_of_same : ∀ {a b : Expr}, a.same b → a.numberless → a = b
  | .identifier _, b, h, _ => by
    cases b <;> simp_all [same]
  | .literal v r, b, h, hn => by
    cases b <;> simp only [same, Bool.and_eq_true, beq_iff_eq, Bool.false_eq_true] at h
    rw [Value.eq_of_same h.1 (by simpa [numberless] using hn), h.2]
  | .receiver, b, h, _ => by
    cases b <;> simp_all [same]
  | .member c o p q, b, h, hn => by
    simp only [numberless, Bool.and_eq_true] at hn
    cases b <;> simp only [same, Bool.and_eq_true, beq_iff_eq, Bool.false_eq_true] at h
    obtain ⟨⟨⟨rfl, ho⟩, hp⟩, rfl⟩ := h
    rw [eq_of_same ho hn.1, eq_of_same hp hn.2]
  | .call f as q, b, h, hn => by
    simp only [numberless, Bool.and_eq_true] at hn
    cases b <;> simp only [same, Bool.and_eq_true, beq_iff_eq, Bool.false_eq_true] at h
    obtain ⟨⟨hf, has⟩, rfl⟩ := h
    rw [eq_of_same hf hn.1, eq_of_sameList has hn.2]
  | .unary o x l, b, h, hn => by
    simp only [numberless] at hn
    cases b <;> simp only [same, Bool.and_eq_true, beq_iff_eq, Bool.false_eq_true] at h
    obtain ⟨⟨rfl, hx⟩, rfl⟩ := h
    rw [eq_of_same hx hn]
  | .binary o x y, b, h, hn => by
    simp only [numberless, Bool.and_eq_true] at hn
    cases b <;> simp only [same, Bool.and_eq_true, beq_iff_eq, Bool.false_eq_true] at h
    obtain ⟨⟨rfl, hx⟩, hy⟩ := h
    rw [eq_of_same hx hn.1, eq_of_same hy hn.2]
  | .conditional t c a, b, h, hn => by
    simp only [numberless, Bool.and_eq_true] at hn
    cases b <;> simp only [same, Bool.and_eq_true, Bool.false_eq_true] at h
    rw [eq_of_same h.1.1 hn.1.1, eq_of_same h.1.2 hn.1.2, eq_of_same h.2 hn.2]
  | .array es, b, h, hn => by
    simp only [numberless] at hn
    cases b <;> simp only [same, Bool.false_eq_true] at h
    rw [eq_of_sameSlots h hn]
  | .sequence es, b, h, hn => by
    simp only [numberless] at hn
    cases b <;> simp only [same, Bool.false_eq_true] at h
    rw [eq_of_sameList h hn]
  | .compound es, b, h, hn => by
    simp only [numberless] at hn
    cases b <;> simp only [same, Bool.false_eq_true] at h
    rw [eq_of_sameList h hn]

theorem eq_of_sameList : ∀ {as bs : List Expr}, sameList as bs → numberlessAll as → as = bs
  | [], bs, h, _ => by
    cases bs <;> simp_all [sameList]
  | a :: as, bs, h, hn => by
    simp only [numberlessAll, Bool.and_eq_true] at hn
    cases bs <;> simp only [sameList, Bool.and_eq_true, Bool.false_eq_true] at h
    rw [eq_of_same h.1 hn.1, eq_of_sameList h.2 hn.2]

theorem eq_of_sameSlots : ∀ {as bs : List (Option Expr)},
    sameSlots as bs → numberlessSlots as → as = bs
  | [], bs, h, _ => by
    cases bs <;> simp_all [sameSlots]
  | none :: as, bs, h, hn => by
    simp only [numberlessSlots] at hn
    rcases bs with - | ⟨- | b, bs⟩ <;> simp only [sameSlots, Bool.false_eq_true] at h
    rw [eq_of_sameSlots h hn]
  | some a :: as, bs, h, hn => by
    simp only [numberlessSlots, Bool.and_eq_true] at hn
    rcases bs with - | ⟨- | b, bs⟩ <;>
      simp only [sameSlots, Bool.and_eq_true, Bool.false_eq_true] at h
    rw [eq_of_same h.1 hn.1, eq_of_sameSlots h.2 hn.2]

end

end Expr

/-! ### Answers of concrete runs -/

/-- Whether a reading answers a node that is the same as a tree, at an offset and depth and
without notes. -/
def Reply.answers (r : Reply (Option Expr)) (e : Expr) (index depth : Nat) : Bool :=
  match r with
  | .ok (some node) s => e.same node && s.index = index && s.depth = depth && s.notes.isEmpty
  | _ => false

theorem Reply.eq_of_answers {r : Reply (Option Expr)} {e : Expr} {index depth : Nat}
    (h : r.answers e index depth) (he : e.numberless) : r = .ok (some e) ⟨index, depth, #[]⟩ := by
  rcases r with ⟨- | node, ⟨i, k, notes⟩⟩ | _ | _
  · cases h
  · simp only [answers, Bool.and_eq_true, decide_eq_true_eq, Array.isEmpty_iff] at h
    obtain ⟨⟨⟨hsame, rfl⟩, rfl⟩, rfl⟩ := h
    rw [Expr.eq_of_same hsame he]
  · cases h
  · cases h

theorem Reply.eq_ok_of_outcome {α : Type} {r : Reply α} {a : α} (h : r.outcome? = some (.ok a)) :
    ∃ s, r = .ok a s := by
  cases r with
  | ok a s =>
    cases h
    exact ⟨s, rfl⟩
  | fail e s => cases h
  | exhausted => cases h

/-- Whether a text is parsed as a tree, up to sameness. -/
def Dialect.parsesAs (d : Dialect) (text : String) (e : Expr) : Bool :=
  match d.parse text with
  | some (.ok (some node)) => e.same node
  | _ => false

theorem Dialect.parse_of_parsesAs {d : Dialect} {text : String} {e : Expr}
    (h : d.parsesAs text e) (he : e.numberless) : d.parse text = some (.ok (some e)) := by
  rw [parsesAs] at h
  split at h
  · next node hparse => rw [hparse, Expr.eq_of_same h he]
  · cases h

/-- Whether the parse of a text ends with a failure. -/
def Dialect.failsAs (d : Dialect) (text : String) (e : Failure) : Bool :=
  match d.parse text with
  | some (.error failure) => failure = e
  | _ => false

theorem Dialect.parse_of_failsAs {d : Dialect} {text : String} {e : Failure}
    (h : d.failsAs text e) : d.parse text = some (.error e) := by
  rw [failsAs] at h
  split at h
  · next failure hparse => rw [hparse, of_decide_eq_true h]
  · cases h

end OperatorGrammar
