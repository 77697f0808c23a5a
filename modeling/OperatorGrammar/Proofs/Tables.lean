/-
OperatorGrammar/Proofs/Tables.lean

Tables under change: what an insertion or a removal does to the members, keys
and values of an ordered table, to the callbacks of a point, and to the greatest
operator length that a grammar carries along.

The carried lengths are never recounted when an operator is added, and only
sometimes when one is removed.  `Grammar.Counted` says that they are right all
the same; every change of a grammar keeps it.
-/
import Mathlib.Algebra.GroupWithZero.Nat
import OperatorGrammar.Hook.Registry

namespace OperatorGrammar

/-! ### Ordered sets -/

namespace OrderedSet

variable {κ : Type} [DecidableEq κ] {s : OrderedSet κ} {k x : κ}

theorem contains_iff : s.contains k ↔ k ∈ s.members := by
  simp [contains]

theorem members_insert :
    (s.insert k).members = if k ∈ s.members then s.members else s.members ++ [k] := by
  rw [insert]
  split
  · rfl
  · rfl

theorem mem_insert : x ∈ (s.insert k).members ↔ x ∈ s.members ∨ x = k := by
  rw [members_insert]
  split
  · rename_i hk
    constructor
    · exact .inl
    · rintro (h | rfl)
      · exact h
      · exact hk
  · simp

theorem mem_erase : x ∈ (s.erase k).members ↔ x ∈ s.members ∧ x ≠ k := by
  simp [erase]

theorem erase_of_not_mem (h : k ∉ s.members) : s.erase k = s := by
  have hsame : s.members.filter (· ≠ k) = s.members := by
    rw [List.filter_eq_self]
    intro x hx
    simpa using ne_of_mem_of_not_mem hx h
  rw [erase, hsame]

/-- Erasing a key takes back its insertion. -/
theorem erase_insert : (s.insert k).erase k = s.erase k := by
  rw [insert]
  split
  · rfl
  · simp [erase]

theorem erase_erase : (s.erase k).erase k = s.erase k :=
  erase_of_not_mem fun h => (mem_erase.mp h).2 rfl

end OrderedSet

/-! ### Ordered maps -/

namespace OrderedMap

variable {κ α : Type} [DecidableEq κ] {m : OrderedMap κ α} {k x : κ} {a : α}

theorem contains_iff : m.contains k ↔ k ∈ m.keys := by
  unfold contains get? keys
  rw [Option.isSome_map, List.find?_isSome, List.mem_map]
  constructor
  · rintro ⟨e, he, hk⟩
    exact ⟨e, he, by simpa using hk⟩
  · rintro ⟨e, he, hk⟩
    exact ⟨e, he, by simpa using hk⟩

theorem keys_insert : (m.insert k a).keys = if k ∈ m.keys then m.keys else m.keys ++ [k] := by
  rw [insert]
  by_cases h : m.contains k
  · rw [if_pos h, if_pos (contains_iff.mp h)]
    rw [keys]
    rw [List.map_map]
    refine List.map_congr_left ?_
    intro e _
    by_cases he : e.1 = k
    · simp [he]
    · simp [he]
  · rw [if_neg h, if_neg fun hk => h (contains_iff.mpr hk)]
    simp [keys]

theorem mem_keys_insert : x ∈ (m.insert k a).keys ↔ x ∈ m.keys ∨ x = k := by
  rw [keys_insert]
  split
  · rename_i hk
    constructor
    · exact .inl
    · rintro (h | rfl)
      · exact h
      · exact hk
  · simp

theorem keys_erase : (m.erase k).keys = m.keys.filter (· ≠ k) := by
  unfold erase keys
  rw [List.filter_map]
  rfl

theorem erase_of_not_mem (h : k ∉ m.keys) : m.erase k = m := by
  have hsame : m.entries.filter (fun e => e.1 ≠ k) = m.entries := by
    rw [List.filter_eq_self]
    intro e he
    simpa using ne_of_mem_of_not_mem (List.mem_map_of_mem he) h
  rw [erase, hsame]

/-- Erasing a key takes back its insertion, in its place or at the end. -/
theorem erase_insert : (m.insert k a).erase k = m.erase k := by
  rw [insert]
  by_cases h : m.contains k
  · rw [if_pos h, erase, erase, List.filter_map]
    have hleft : (fun e : κ × α => decide (e.1 ≠ k)) ∘ (fun e => if e.1 = k then (k, a) else e)
        = fun e => decide (e.1 ≠ k) := by
      funext e
      by_cases he : e.1 = k
      · simp [he]
      · simp [he]
    -- only entries at `k` are replaced, and those are not left
    have hkept : ∀ e ∈ m.entries.filter (fun e => e.1 ≠ k),
        (if e.1 = k then (k, a) else e) = e := by
      intro e he
      have hne : e.1 ≠ k := by simpa using (List.mem_filter.mp he).2
      exact if_neg hne
    rw [hleft, List.map_congr_left hkept, List.map_id']
  · rw [if_neg h]
    simp [erase]

/-- An inserted value is found at its key, and every other key keeps its value. -/
theorem get?_insert : (m.insert k a).get? x = if x = k then some a else m.get? x := by
  rw [insert]
  by_cases h : m.contains k
  · rw [if_pos h]
    -- the entry is replaced in its place
    have hfind : ∀ l : List (κ × α), (∃ e ∈ l, e.1 = k) ∨ x ≠ k →
        ((l.map fun e => if e.1 = k then (k, a) else e).find? fun e => e.1 = x).map Prod.snd
          = if x = k then some a else (l.find? fun e => e.1 = x).map Prod.snd := by
      intro l hl
      induction l with
      | nil =>
        rcases hl with ⟨e, he, -⟩ | hx
        · cases he
        · simp [hx]
      | cons e l ih =>
        by_cases hek : e.1 = k
        · by_cases hx : x = k
          · simp [hek, hx]
          · have hkx : ¬ k = x := fun h => hx h.symm
            simpa [hek, hx, hkx] using ih (.inr hx)
        · by_cases hex : e.1 = x
          · have hx : x ≠ k := fun h => hek (hex.trans h)
            have hxk : ¬ x = k := hx
            simp [hex, hxk]
          · have hl' : (∃ e ∈ l, e.1 = k) ∨ x ≠ k := by
              rcases hl with ⟨e', he', hk⟩ | hx
              · rcases List.mem_cons.mp he' with rfl | he'
                · exact absurd hk hek
                · exact .inl ⟨e', he', hk⟩
              · exact .inr hx
            simpa [hek, hex] using ih hl'
    obtain ⟨e, he, hk⟩ := List.mem_map.mp (contains_iff.mp h)
    exact hfind m.entries (.inl ⟨e, he, hk⟩)
  · rw [if_neg h]
    have hnone : m.entries.find? (fun e => e.1 = k) = none := by
      rw [List.find?_eq_none]
      intro e he hk
      exact h (contains_iff.mpr (List.mem_map.mpr ⟨e, he, by simpa using hk⟩))
    unfold get?
    rw [List.find?_append]
    by_cases hx : x = k
    · subst hx
      simp [hnone]
    · have hkx : ¬ k = x := fun h => hx h.symm
      cases hfound : m.entries.find? (fun e => e.1 = x) with
      | none => simp [hx, hkx]
      | some e => simp [hx]

/-- An insertion keeps each key to one entry. -/
theorem nodup_keys_insert (h : m.keys.Nodup) : (m.insert k a).keys.Nodup := by
  rw [keys_insert]
  split
  · exact h
  · rename_i hk
    refine List.nodup_append.mpr ⟨h, by simp, ?_⟩
    intro x hx y hy
    rw [List.mem_singleton.mp hy]
    exact ne_of_mem_of_not_mem hx hk

/-- A value replaced in its place no longer counts, and the new one does. -/
theorem sum_replace (count : α → Nat) {l : List (κ × α)} (hl : (l.map Prod.fst).Nodup)
    (hk : k ∈ l.map Prod.fst) :
    ((l.map fun e => if e.1 = k then (k, a) else e).map fun e => count e.2).sum
        + (((l.find? fun e => e.1 = k).map Prod.snd).map count).getD 0
      = (l.map fun e => count e.2).sum + count a := by
  induction l with
  | nil => cases hk
  | cons e l ih =>
    obtain ⟨hnew, hl⟩ := List.nodup_cons.mp hl
    by_cases he : e.1 = k
    · -- the key does not come again
      have hkept : (l.map fun e => if e.1 = k then (k, a) else e) = l := by
        refine (List.map_congr_left ?_).trans (List.map_id' l)
        intro e' he'
        refine if_neg ?_
        rintro rfl
        exact hnew (he ▸ List.mem_map_of_mem he')
      rw [List.map_cons, hkept, List.find?_cons_of_pos (by simpa using he)]
      simp only [he, if_true, List.map_cons, List.sum_cons, Option.map_some, Option.getD_some]
      omega
    · have hk : k ∈ l.map Prod.fst := (List.mem_cons.mp hk).resolve_left fun hk => he hk.symm
      have hrest := ih hl hk
      rw [List.find?_cons_of_neg (by simpa using he)]
      simp only [he, if_false, List.map_cons, List.sum_cons]
      omega

/-- Over all entries, an insertion takes away what the old value counted and adds what the
new one counts. -/
theorem sum_insert (count : α → Nat) (h : m.keys.Nodup) :
    ((m.insert k a).entries.map fun e => count e.2).sum + ((m.get? k).map count).getD 0
      = (m.entries.map fun e => count e.2).sum + count a := by
  by_cases hk : m.contains k
  · rw [insert, if_pos hk]
    exact sum_replace count h (contains_iff.mp hk)
  · have hnone : m.get? k = none := by
      simpa [contains] using hk
    rw [insert, if_neg hk, hnone]
    simp

/-- An erased key has no value, and every other key keeps its own. -/
theorem get?_erase : (m.erase k).get? x = if x = k then none else m.get? x := by
  unfold erase get?
  rw [List.find?_filter]
  by_cases hx : x = k
  · rw [if_pos hx, Option.map_eq_none_iff, List.find?_eq_none]
    intro e _
    simp [hx]
  · rw [if_neg hx]
    congr 2
    funext e
    by_cases he : e.1 = x
    · simp [he, hx]
    · simp [he]

end OrderedMap

/-! ### Callbacks by point -/

theorem Hooks.get_add (hs : Hooks) (p q : HookPoint) (h : Hook) :
    (hs.add p h).get q = if q = p then hs.get p ++ [h] else hs.get q := by
  unfold add get
  rw [OrderedMap.get?_insert]
  split
  · rfl
  · rfl

theorem Hooks.get_addFirst (hs : Hooks) (p q : HookPoint) (h : Hook) :
    (hs.addFirst p h).get q = if q = p then h :: hs.get p else hs.get q := by
  unfold addFirst get
  rw [OrderedMap.get?_insert]
  split
  · rfl
  · rfl

/-! ### The greatest length -/

namespace Grammar

theorem foldl_max_le {l : List Nat} {a n : Nat} :
    l.foldl max a ≤ n ↔ a ≤ n ∧ ∀ x ∈ l, x ≤ n := by
  induction l generalizing a with
  | nil => simp
  | cons x l ih =>
    rw [List.foldl_cons, ih, List.forall_mem_cons, Nat.max_le, and_assoc]

theorem longest_le_iff {ops : List String} {n : Nat} :
    longest ops ≤ n ↔ ∀ op ∈ ops, op.length ≤ n := by
  rw [longest]
  rw [foldl_max_le]
  simp

theorem le_longest {ops : List String} {op : String} (h : op ∈ ops) : op.length ≤ longest ops :=
  longest_le_iff.mp (Nat.le_refl _) op h

theorem longest_append (ops : List String) (op : String) :
    longest (ops ++ [op]) = max (longest ops) op.length := by
  simp [longest]

/-- Adding a member that is present changes nothing. -/
theorem longest_insert (ops : List String) (op : String) :
    longest (if op ∈ ops then ops else ops ++ [op]) = max (longest ops) op.length := by
  split
  · rename_i h
    rw [Nat.max_eq_left (le_longest h)]
  · exact longest_append ops op

/-- Removing an operator that is not as long as the longest leaves the longest. -/
theorem longest_filter {ops : List String} {op : String} (h : op.length ≠ longest ops) :
    longest (ops.filter (· ≠ op)) = longest ops := by
  refine Nat.le_antisymm ?_ ?_
  · rw [longest_le_iff]
    intro op' hop'
    exact le_longest (List.mem_filter.mp hop').1
  · -- a member too long for what is left would have to be the removed one
    by_cases hlt : longest ops ≤ longest (ops.filter (· ≠ op))
    · exact hlt
    · exfalso
      have hall : longest ops ≤ max op.length (longest (ops.filter (· ≠ op))) := by
        rw [longest_le_iff]
        intro op' hop'
        by_cases heq : op' = op
        · rw [heq]
          exact Nat.le_max_left _ _
        · have hmem : op' ∈ ops.filter (· ≠ op) := by simp [hop', heq]
          exact Nat.le_trans (le_longest hmem) (Nat.le_max_right _ _)
      have hop : op ∈ ops := by
        by_cases hop : op ∈ ops
        · exact hop
        · have hsame : ops.filter (· ≠ op) = ops := by
            rw [List.filter_eq_self]
            intro op' hop'
            have hne : op' ≠ op := fun h => hop (h ▸ hop')
            simpa using hne
          rw [hsame] at hlt
          exact absurd (Nat.le_refl _) hlt
      have hle := le_longest hop
      omega

/-! ### Lengths that are carried along -/

/-- The carried lengths are those of the longest operators. -/
structure Counted (g : Grammar) : Prop where
  unary : g.longestUnary = longest g.unaryOps.members
  binary : g.longestBinary = longest g.binaryOps.keys

theorem counted_standard : standard.Counted where
  unary := by decide
  binary := by decide

namespace Counted

variable {g : Grammar}

theorem length_le_unary (h : g.Counted) {op : String} (hop : op ∈ g.unaryOps.members) :
    op.length ≤ g.longestUnary := by
  rw [h.unary]
  exact le_longest hop

theorem length_le_binary (h : g.Counted) {op : String} (hop : op ∈ g.binaryOps.keys) :
    op.length ≤ g.longestBinary := by
  rw [h.binary]
  exact le_longest hop

theorem addUnaryOp (h : g.Counted) (op : String) : (g.addUnaryOp op).Counted where
  unary := by
    show max g.longestUnary op.length = longest (g.unaryOps.insert op).members
    rw [OrderedSet.members_insert, longest_insert, h.unary]
  binary := h.binary

theorem removeUnaryOp (h : g.Counted) (op : String) : (g.removeUnaryOp op).Counted where
  unary := by
    show (if op.length = g.longestUnary then longest (g.unaryOps.erase op).members
      else g.longestUnary) = longest (g.unaryOps.erase op).members
    split
    · rfl
    · rename_i hne
      rw [h.unary] at hne ⊢
      exact (longest_filter hne).symm
  binary := h.binary

theorem clearUnaryOps (h : g.Counted) : g.clearUnaryOps.Counted where
  unary := rfl
  binary := h.binary

theorem addBinaryOp (h : g.Counted) (op : String) (precedence : Nat) (right : Bool) :
    (g.addBinaryOp op precedence right).Counted where
  unary := h.unary
  binary := by
    show max g.longestBinary op.length = longest (g.binaryOps.insert op precedence).keys
    rw [OrderedMap.keys_insert, longest_insert, h.binary]

theorem removeBinaryOp (h : g.Counted) (op : String) : (g.removeBinaryOp op).Counted where
  unary := h.unary
  binary := by
    show (if op.length = g.longestBinary then longest (g.binaryOps.erase op).keys
      else g.longestBinary) = longest (g.binaryOps.erase op).keys
    split
    · rfl
    · rename_i hne
      rw [h.binary] at hne ⊢
      rw [OrderedMap.keys_erase]
      exact (longest_filter hne).symm

theorem clearBinaryOps (h : g.Counted) : g.clearBinaryOps.Counted where
  unary := h.unary
  binary := rfl

end Counted

end Grammar

end OperatorGrammar
