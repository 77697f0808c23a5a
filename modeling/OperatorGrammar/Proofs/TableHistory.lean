/-
OperatorGrammar/Proofs/TableHistory.lean

An ordered table seen through its history.

A table changes by putting a value at a key, by erasing a key, and by clearing.
What it holds in the end is a question about the history alone.  Nothing that
happened to a key before it was last removed counts any more; a key is present
iff it was put since then, its value is the one put last, and its place is that
of the first such change.

`Tracks history keys` says that some keys are what a history leaves, in order, and
`TracksEntries` says the same of a map with its values.  One more change keeps
this, whatever the changes before were.

Main results: `Tracks.concat`, `TracksEntries.concat`.
-/
import OperatorGrammar.Proofs.Tables
import Mathlib.Data.List.DropRight

namespace OperatorGrammar

/-- A change of a table. -/
inductive Change (κ α : Type) where
  | put (k : κ) (a : α)
  | erase (k : κ)
  | clear

namespace Change

variable {κ α : Type} [DecidableEq κ]

/-- Whether a key is not present after a change, whatever was before. -/
def removes (k : κ) : Change κ α → Bool
  | put _ _ => false
  | erase k' => k' = k
  | clear => true

/-- The value that a change puts at a key. -/
def value? (k : κ) : Change κ α → Option α
  | put k' a => if k' = k then some a else none
  | _ => none

/-- What a change makes of the keys of a table. -/
def onKeys : Change κ α → List κ → List κ
  | put k _, keys => if k ∈ keys then keys else keys ++ [k]
  | erase k, keys => keys.filter (· ≠ k)
  | clear, _ => []

/-- What a change makes of a set. -/
def onSet : Change κ Unit → OrderedSet κ → OrderedSet κ
  | put k _, s => s.insert k
  | erase k, s => s.erase k
  | clear, _ => .empty

/-- What a change makes of a map that keeps a part of each value. -/
def onMap {β : Type} (part : α → β) : Change κ α → OrderedMap κ β → OrderedMap κ β
  | put k a, m => m.insert k (part a)
  | erase k, m => m.erase k
  | clear, _ => .empty

theorem members_onSet (c : Change κ Unit) (s : OrderedSet κ) :
    (c.onSet s).members = c.onKeys s.members := by
  cases c with
  | put k _ => exact OrderedSet.members_insert
  | erase _ => rfl
  | clear => rfl

theorem keys_onMap {β : Type} (part : α → β) (c : Change κ α) (m : OrderedMap κ β) :
    (c.onMap part m).keys = c.onKeys m.keys := by
  cases c with
  | put k a => exact OrderedMap.keys_insert
  | erase k => exact OrderedMap.keys_erase
  | clear => rfl

end Change

/-! ### Questions about a history -/

section History

variable {κ α : Type} [DecidableEq κ]

/-- The changes since a key was last removed. -/
def since (k : κ) (history : List (Change κ α)) : List (Change κ α) :=
  history.rtakeWhile fun e => !e.removes k

/-- The value last put at a key since its last removal. -/
def latest (k : κ) (history : List (Change κ α)) : Option α :=
  ((since k history).filterMap (Change.value? k)).getLast?

/-- The place in a history at which a key was first put since its last removal. -/
def firstPut (k : κ) (history : List (Change κ α)) : Nat :=
  history.length - (since k history).length
    + (since k history).findIdx fun e => (e.value? k).isSome

/-- Some keys are what a history leaves: each of them once, in the order in which they
were first put since their last removal. -/
structure Tracks (history : List (Change κ α)) (keys : List κ) : Prop where
  nodup : keys.Nodup
  mem_iff : ∀ k, k ∈ keys ↔ (latest k history).isSome
  ordered : keys.Pairwise fun k k' => firstPut k history < firstPut k' history

/-- A map is what a history leaves, where it keeps a part of each value: the keys in
their order, and at each of them the value that was put last. -/
structure TracksEntries {β : Type} (part : α → β) (history : List (Change κ α))
    (m : OrderedMap κ β) : Prop where
  keys : Tracks history m.keys
  value : ∀ k, m.get? k = (latest k history).map part

/-! ### One more change -/

variable {history : List (Change κ α)} {e : Change κ α} {k : κ}

theorem since_concat_kept (h : ¬ e.removes k) : since k (history ++ [e]) = since k history ++ [e] :=
  List.rtakeWhile_concat_pos _ _ _ (by simpa using h)

theorem since_concat_removed (h : e.removes k) : since k (history ++ [e]) = [] :=
  List.rtakeWhile_concat_neg _ _ _ (by simpa using h)

theorem length_since_le : (since k history).length ≤ history.length :=
  (List.rtakeWhile_suffix _ _).length_le

theorem latest_concat_removed (h : e.removes k) : latest k (history ++ [e]) = none := by
  rw [latest, since_concat_removed h]
  rfl

/-- A change that does not remove a key sets its value or leaves it. -/
theorem latest_concat_kept (h : ¬ e.removes k) :
    latest k (history ++ [e]) = (e.value? k).or (latest k history) := by
  rw [latest, since_concat_kept h, List.filterMap_append, latest]
  cases hvalue : e.value? k with
  | none => simp [hvalue]
  | some a => simp [hvalue]

theorem latest_concat_put (k' : κ) (a : α) :
    latest k (history ++ [.put k' a]) = if k' = k then some a else latest k history := by
  rw [latest_concat_kept (by simp [Change.removes]), Change.value?]
  split
  · rfl
  · rfl

theorem latest_concat_erase (k' : κ) :
    latest k (history ++ [.erase k']) = if k' = k then none else latest k history := by
  by_cases hk : k' = k
  · rw [if_pos hk]
    exact latest_concat_removed (by simpa [Change.removes] using hk)
  · rw [if_neg hk, latest_concat_kept (by simpa [Change.removes] using hk)]
    rfl

theorem latest_concat_clear : latest k (history ++ [.clear]) = none :=
  latest_concat_removed rfl

theorem latest_isSome_iff :
    (latest k history).isSome ↔ ∃ e ∈ since k history, (e.value? k).isSome := by
  rw [latest, List.getLast?_isSome, Ne, List.filterMap_eq_nil_iff]
  simp [Option.isSome_iff_ne_none]

theorem firstPut_lt (h : (latest k history).isSome) : firstPut k history < history.length := by
  have hidx := List.findIdx_lt_length.mpr (latest_isSome_iff.mp h)
  have hle : (since k history).length ≤ history.length := length_since_le
  rw [firstPut]
  omega

/-- A key that is present keeps its place unless it is removed. -/
theorem firstPut_concat_kept (hkept : ¬ e.removes k) (h : (latest k history).isSome) :
    firstPut k (history ++ [e]) = firstPut k history := by
  have hidx := List.findIdx_lt_length.mpr (latest_isSome_iff.mp h)
  have hle : (since k history).length ≤ history.length := length_since_le
  rw [firstPut, firstPut, since_concat_kept hkept, List.findIdx_append, if_pos hidx]
  simp only [List.length_append, List.length_singleton]
  omega

/-- A key that was not present is put behind all that happened before. -/
theorem firstPut_concat_put {a : α} (h : latest k history = none) :
    firstPut k (history ++ [.put k a]) = history.length := by
  have hidx : ¬ (since k history).findIdx (fun e => (e.value? k).isSome)
      < (since k history).length := by
    rw [List.findIdx_lt_length, ← latest_isSome_iff, h]
    simp
  have hle : (since k history).length ≤ history.length := length_since_le
  have hkept : ¬ (Change.put k a).removes k := by simp [Change.removes]
  rw [firstPut, since_concat_kept hkept, List.findIdx_append, if_neg hidx]
  simp only [List.length_append, List.length_singleton, List.findIdx_singleton, Change.value?,
    if_true, Option.isSome_some]
  omega

namespace Tracks

variable {keys : List κ}

theorem nil : Tracks ([] : List (Change κ α)) [] where
  nodup := .nil
  mem_iff _ := by simp [latest, since]
  ordered := .nil

theorem firstPut_lt_of_mem (h : Tracks history keys) (hk : k ∈ keys) :
    firstPut k history < history.length :=
  firstPut_lt ((h.mem_iff k).mp hk)

/-- The order is kept among keys that a change does not remove. -/
theorem ordered_concat (h : Tracks history keys) (hkept : ∀ k ∈ keys, ¬ e.removes k) :
    keys.Pairwise fun k k' => firstPut k (history ++ [e]) < firstPut k' (history ++ [e]) := by
  refine h.ordered.imp_of_mem ?_
  intro k k' hk hk' hlt
  rw [firstPut_concat_kept (hkept k hk) ((h.mem_iff k).mp hk),
    firstPut_concat_kept (hkept k' hk') ((h.mem_iff k').mp hk')]
  exact hlt

theorem concat_put (h : Tracks history keys) (k : κ) (a : α) :
    Tracks (history ++ [.put k a]) (Change.onKeys (.put k a) keys) := by
  have hordered := h.ordered_concat (e := .put k a) fun _ _ => by simp [Change.removes]
  have hmem : ∀ k', (latest k' (history ++ [.put k a])).isSome ↔ k' ∈ keys ∨ k' = k := by
    intro k'
    rw [latest_concat_put, h.mem_iff]
    by_cases hk : k = k'
    · simp [hk]
    · simp [hk, Ne.symm hk]
  rw [Change.onKeys]
  by_cases hk : k ∈ keys
  · rw [if_pos hk]
    refine ⟨h.nodup, ?_, hordered⟩
    intro k'
    rw [hmem]
    constructor
    · exact .inl
    · rintro (hk' | rfl)
      · exact hk'
      · exact hk
  · -- a new key comes last, because all others were put earlier
    rw [if_neg hk]
    have hnone : latest k history = none := by simpa [h.mem_iff] using hk
    refine ⟨?_, ?_, ?_⟩
    · rw [List.nodup_append]
      refine ⟨h.nodup, by simp, ?_⟩
      rintro k' hk' k'' hk'' rfl
      rw [List.mem_singleton] at hk''
      exact hk (hk'' ▸ hk')
    · intro k'
      rw [hmem, List.mem_append, List.mem_singleton]
    · rw [List.pairwise_append]
      refine ⟨hordered, by simp, ?_⟩
      intro k' hk' k'' hk''
      rw [List.mem_singleton] at hk''
      rw [hk'', firstPut_concat_put hnone,
        firstPut_concat_kept (by simp [Change.removes]) ((h.mem_iff k').mp hk')]
      exact h.firstPut_lt_of_mem hk'

theorem concat_erase (h : Tracks history keys) (k : κ) :
    Tracks (history ++ [.erase k]) (Change.onKeys (.erase k : Change κ α) keys) := by
  rw [Change.onKeys]
  refine ⟨h.nodup.filter _, ?_, ?_⟩
  · intro k'
    rw [latest_concat_erase, List.mem_filter, h.mem_iff]
    by_cases hk : k = k'
    · simp [hk]
    · simp [hk, Ne.symm hk]
  · -- the keys that are left are tracked by the old history, too
    refine (h.ordered.filter _).imp_of_mem ?_
    intro k' k'' hk' hk'' hlt
    simp only [List.mem_filter, decide_eq_true_eq] at hk' hk''
    have hkept {x : κ} (hx : x ≠ k) : ¬ (Change.erase k : Change κ α).removes x := by
      simpa [Change.removes] using Ne.symm hx
    rw [firstPut_concat_kept (hkept hk'.2) ((h.mem_iff k').mp hk'.1),
      firstPut_concat_kept (hkept hk''.2) ((h.mem_iff k'').mp hk''.1)]
    exact hlt

theorem concat_clear (history : List (Change κ α)) (keys : List κ) :
    Tracks (history ++ [.clear]) (Change.onKeys (.clear : Change κ α) keys) where
  nodup := .nil
  mem_iff _ := by simp [Change.onKeys, latest_concat_clear]
  ordered := .nil

/-- One more change leaves what it makes of the keys. -/
theorem concat (h : Tracks history keys) (e : Change κ α) :
    Tracks (history ++ [e]) (e.onKeys keys) := by
  cases e with
  | put k a => exact h.concat_put k a
  | erase k => exact h.concat_erase k
  | clear => exact concat_clear history keys

end Tracks

namespace TracksEntries

variable {β : Type} {part : α → β} {m : OrderedMap κ β}

theorem nil : TracksEntries part [] (.empty : OrderedMap κ β) where
  keys := .nil
  value _ := rfl

theorem concat (h : TracksEntries part history m) (c : Change κ α) :
    TracksEntries part (history ++ [c]) (c.onMap part m) where
  keys := by
    rw [Change.keys_onMap]
    exact h.keys.concat c
  value k := by
    cases c with
    | put k' a =>
      rw [Change.onMap, OrderedMap.get?_insert, latest_concat_put, h.value]
      by_cases hk : k' = k
      · simp [hk]
      · simp [hk, Ne.symm hk]
    | erase k' =>
      rw [Change.onMap, OrderedMap.get?_erase, latest_concat_erase, h.value]
      by_cases hk : k' = k
      · simp [hk]
      · simp [hk, Ne.symm hk]
    | clear =>
      rw [latest_concat_clear]
      rfl

end TracksEntries

end History

end OperatorGrammar
