/-
OperatorGrammar/Proofs/CallOrder.lean

The order in which callbacks are called, and which of them are.

A table of callbacks grows at both ends of each point: a change puts callbacks
in front of those of their point, or behind them (`Hooks.change`).  So after any
changes the callbacks of a point are the ones put in front, the latest first,
and then the ones put behind, the earliest first (`Hooks.get_changed`).

Both ways of running over the callbacks of a point call them in turn, each on
the node slot and in the state that the one before it left (`InTurn`), and stop
behind the first whose ending does not let them go on (`CalledUpTo`).  A
notification goes on after every ending without a failure, a search only when
the slot is still empty, too.

Main result: `Hooks.calls_changed`.
-/
import OperatorGrammar.Proofs.Reading
import OperatorGrammar.Proofs.Tables

namespace OperatorGrammar

/-! ### Changing a table of callbacks -/

namespace Hooks

/-- A call that registers callbacks. -/
inductive Change where
  | add (p : HookPoint) (h : Hook)
  | addFirst (p : HookPoint) (h : Hook)
  | extend (additions : List (HookPoint × Hook))

/-- The table after a change. -/
def change (hs : Hooks) : Change → Hooks
  | .add p h => hs.add p h
  | .addFirst p h => hs.addFirst p h
  | .extend additions => hs.extend additions

/-- The table after changes of the empty one. -/
def changed (changes : List Change) : Hooks :=
  changes.foldl change empty

namespace Change

/-- What a change puts in front of the callbacks of a point. -/
def front (p : HookPoint) : Change → List Hook
  | .addFirst q h => if q = p then [h] else []
  | _ => []

/-- What a change puts behind the callbacks of a point. -/
def back (p : HookPoint) : Change → List Hook
  | .add q h => if q = p then [h] else []
  | .addFirst _ _ => []
  | .extend additions => (additions.filter fun a => a.1 = p).map Prod.snd

/-- How many callbacks a change registers. -/
def count : Change → Nat
  | .add _ _ => 1
  | .addFirst _ _ => 1
  | .extend additions => additions.length

/-- The points at which a change registers callbacks. -/
def points : Change → List HookPoint
  | .add p _ => [p]
  | .addFirst p _ => [p]
  | .extend additions => additions.map Prod.fst

end Change

/-! ### The callbacks of a point -/

variable {hs : Hooks} {p : HookPoint}

theorem get_extend (additions : List (HookPoint × Hook)) :
    (hs.extend additions).get p
      = hs.get p ++ (additions.filter fun a => a.1 = p).map Prod.snd := by
  induction additions generalizing hs with
  | nil => simp [extend]
  | cons a additions ih =>
    show ((hs.add a.1 a.2).extend additions).get p = _
    rw [ih, get_add]
    by_cases ha : p = a.1
    · subst ha
      simp
    · rw [if_neg ha, List.filter_cons_of_neg (by simpa using fun h => ha h.symm)]

theorem get_change (r : Change) : (hs.change r).get p = r.front p ++ hs.get p ++ r.back p := by
  cases r with
  | add q h =>
    show (hs.add q h).get p = [] ++ hs.get p ++ (if q = p then [h] else [])
    rw [get_add]
    by_cases hq : q = p
    · simp [hq]
    · simp [hq, Ne.symm hq]
  | addFirst q h =>
    show (hs.addFirst q h).get p = (if q = p then [h] else []) ++ hs.get p ++ []
    rw [get_addFirst]
    by_cases hq : q = p
    · simp [hq]
    · simp [hq, Ne.symm hq]
  | extend additions => exact get_extend additions

/-- A change puts at most one callback in front. -/
theorem Change.reverse_front (r : Change) : (r.front p).reverse = r.front p := by
  cases r with
  | add q h => rfl
  | addFirst q h =>
    rw [front]
    split
    · rfl
    · rfl
  | extend additions => rfl

/-- Each change is put around what the changes before it left. -/
theorem get_foldl_change (changes : List Change) :
    (changes.foldl change hs).get p
      = (changes.flatMap (Change.front p)).reverse ++ hs.get p
          ++ changes.flatMap (Change.back p) := by
  induction changes generalizing hs with
  | nil => simp
  | cons r changes ih =>
    rw [List.foldl_cons, ih, get_change, List.flatMap_cons, List.flatMap_cons,
      List.reverse_append, r.reverse_front]
    simp only [List.append_assoc]

/-- The callbacks of a point: those put in front, the latest first, and then those put
behind, the earliest first. -/
theorem get_changed (changes : List Change) :
    (changed changes).get p
      = (changes.flatMap (Change.front p)).reverse ++ changes.flatMap (Change.back p) := by
  have hempty : empty.get p = [] := rfl
  rw [changed, get_foldl_change, hempty, List.append_nil]

/-- A change leaves the callbacks of the other points as they are. -/
theorem get_change_of_not_mem {r : Change} (h : p ∉ r.points) :
    (hs.change r).get p = hs.get p := by
  cases r with
  | add q k => exact (get_add hs q p k).trans (if_neg fun hp => h (by simp [Change.points, hp]))
  | addFirst q k =>
    exact (get_addFirst hs q p k).trans (if_neg fun hp => h (by simp [Change.points, hp]))
  | extend additions =>
    have hnone : additions.filter (fun a => a.1 = p) = [] := by
      rw [List.filter_eq_nil_iff]
      intro a ha hap
      exact h (List.mem_map.mpr ⟨a, ha, by simpa using hap⟩)
    show (hs.extend additions).get p = _
    rw [get_extend, hnone]
    simp

/-! ### The number of registrations -/

/-- The table has one entry for each of its points, and so many callbacks. -/
structure Holds (hs : Hooks) (n : Nat) : Prop where
  nodup : hs.points.keys.Nodup
  size : hs.size = n

theorem holds_empty : Holds empty 0 := ⟨List.nodup_nil, rfl⟩

/-- Putting one callback more at a point, anywhere among those that are there. -/
theorem Holds.insert {n : Nat} (h : hs.Holds n) {l : List Hook}
    (hl : l.length = (hs.get p).length + 1) : Holds ⟨hs.points.insert p l⟩ (n + 1) where
  nodup := OrderedMap.nodup_keys_insert h.nodup
  size := by
    have hsum : Hooks.size ⟨hs.points.insert p l⟩ + ((hs.points.get? p).map List.length).getD 0
        = hs.size + l.length :=
      OrderedMap.sum_insert List.length h.nodup
    have hold : ((hs.points.get? p).map List.length).getD 0 = (hs.get p).length := by
      rw [get]
      cases hs.points.get? p with
      | none => rfl
      | some old => rfl
    have hsize := h.size
    omega

theorem Holds.add {n : Nat} (h : hs.Holds n) (p : HookPoint) (k : Hook) :
    (hs.add p k).Holds (n + 1) :=
  h.insert (by simp)

theorem Holds.addFirst {n : Nat} (h : hs.Holds n) (p : HookPoint) (k : Hook) :
    (hs.addFirst p k).Holds (n + 1) :=
  h.insert (by simp)

theorem Holds.extend {n : Nat} (h : hs.Holds n) (additions : List (HookPoint × Hook)) :
    (hs.extend additions).Holds (n + additions.length) := by
  induction additions generalizing hs n with
  | nil => exact h
  | cons a additions ih =>
    have hrest := ih (h.add a.1 a.2)
    rw [List.length_cons, show n + (additions.length + 1) = n + 1 + additions.length by omega]
    exact hrest

theorem Holds.change {n : Nat} (h : hs.Holds n) (r : Change) :
    (hs.change r).Holds (n + r.count) := by
  cases r with
  | add p k => exact h.add p k
  | addFirst p k => exact h.addFirst p k
  | extend additions => exact h.extend additions

theorem Holds.foldl_change {n : Nat} (h : hs.Holds n) (changes : List Change) :
    (changes.foldl Hooks.change hs).Holds (n + (changes.map Change.count).sum) := by
  induction changes generalizing hs n with
  | nil => exact h
  | cons r changes ih =>
    rw [List.foldl_cons, List.map_cons, List.sum_cons, ← Nat.add_assoc]
    exact ih (h.change r)

theorem size_changed (changes : List Change) :
    (changed changes).size = (changes.map Change.count).sum := by
  have hholds := holds_empty.foldl_change changes
  rw [Nat.zero_add] at hholds
  exact hholds.size

end Hooks

/-! ### Calling callbacks in turn -/

/-- A callback ended without a failure. -/
def Ending.Completes (ending : Ending) : Prop := ending.failure = none

/-- A callback ended without a failure and left the slot empty. -/
def Ending.FindsNothing (ending : Ending) : Prop := ending.failure = none ∧ ending.node = none

/-- Callbacks are called one after the other, each on the node slot and in the state that
the one before it left, and each ends in a way that lets the run go on. -/
inductive InTurn (c : Context) (goesOn : Ending → Prop) :
    List Hook → Option Expr → State → Option Expr → State → Prop
  | nil {node s} : InTurn c goesOn [] node s node s
  | cons {h hs node s ending s₁ left s'} : h.script.run node c s = .ok ending s₁ →
      goesOn ending → InTurn c goesOn hs ending.node s₁ left s' →
      InTurn c goesOn (h :: hs) node s left s'

/-- Callbacks are called in turn up to one whose call answers as given; those behind it are
not called. -/
def CalledUpTo (c : Context) (goesOn : Ending → Prop) (hs : List Hook) (node : Option Expr)
    (s : State) (reply : Reply Ending) : Prop :=
  ∃ before h after left s', hs = before ++ h :: after ∧
    InTurn c goesOn before node s left s' ∧ h.script.run left c s' = reply

/-- The answer of a notification: the slot that the last callback left, or the first
failure.  A callback that does not come to rest is the last one called, too. -/
inductive Notified (c : Context) (hs : List Hook) (node : Option Expr) (s : State) :
    Reply (Option Expr) → Prop
  | all {left s'} : InTurn c Ending.Completes hs node s left s' →
      Notified c hs node s (.ok left s')
  | failed {left e s'} : CalledUpTo c Ending.Completes hs node s (.ok ⟨left, some e⟩ s') →
      Notified c hs node s (.fail e s')
  | lost : CalledUpTo c Ending.Completes hs node s .exhausted → Notified c hs node s .exhausted

/-- The answer of a search: nothing after all callbacks, the first node, or the failure of a
callback called before any node was left. -/
inductive Searched (c : Context) (hs : List Hook) (s : State) : Reply (Option Expr) → Prop
  | nothing {s'} : InTurn c Ending.FindsNothing hs none s none s' →
      Searched c hs s (.ok none s')
  | found {e s'} : CalledUpTo c Ending.FindsNothing hs none s (.ok ⟨some e, none⟩ s') →
      Searched c hs s (.ok (some e) s')
  | failed {left e s'} :
      CalledUpTo c Ending.FindsNothing hs none s (.ok ⟨left, some e⟩ s') →
      Searched c hs s (.fail e s')
  | lost : CalledUpTo c Ending.FindsNothing hs none s .exhausted → Searched c hs s .exhausted

section Calls

variable {c : Context} {goesOn : Ending → Prop} {h : Hook} {hs : List Hook}
  {node : Option Expr} {s s₁ : State} {ending : Ending} {reply : Reply Ending}

/-- The first callback is the one. -/
theorem CalledUpTo.head (hrun : h.script.run node c s = reply) :
    CalledUpTo c goesOn (h :: hs) node s reply :=
  ⟨[], h, hs, node, s, rfl, .nil, hrun⟩

/-- The first callback lets the run go on. -/
theorem CalledUpTo.tail (hrun : h.script.run node c s = .ok ending s₁) (hgo : goesOn ending)
    (hrest : CalledUpTo c goesOn hs ending.node s₁ reply) :
    CalledUpTo c goesOn (h :: hs) node s reply := by
  obtain ⟨before, k, after, left, s', rfl, hturn, hreply⟩ := hrest
  exact ⟨h :: before, k, after, left, s', rfl, .cons hrun hgo hturn, hreply⟩

/-- A script hands every failure to its ending. -/
theorem Script.run_ne_fail (script : Script) {e : Failure} {s' : State} :
    script.run node c s ≠ .fail e s' := by
  induction script generalizing node s with
  | done => exact nofun
  | fail e => exact nofun
  | abandon => exact nofun
  | look next ih => exact ih _
  | advance count next ih => exact ih
  | setNode node' next ih => exact ih
  | note left next ih => exact ih
  | enter entry next ih =>
    rw [run]
    cases hentry : c.enter entry s with
    | ok result s₁ => simpa only [hentry] using ih (.ok result)
    | fail e' s₁ => simpa only [hentry] using ih (.error e')
    | exhausted => simp [hentry]

/-! ### The two ways of calling them -/

/-- After a callback that does not fail, the others are notified of what it left. -/
theorem Notified.tail {left : Option Expr} {reply : Reply (Option Expr)}
    (hrun : h.script.run node c s = .ok ⟨left, none⟩ s₁) (hrest : Notified c hs left s₁ reply) :
    Notified c (h :: hs) node s reply := by
  cases hrest with
  | all hturn => exact .all (.cons hrun rfl hturn)
  | failed hup => exact .failed (hup.tail hrun rfl)
  | lost hup => exact .lost (hup.tail hrun rfl)

/-- After a callback that neither fails nor leaves a node, the others are asked. -/
theorem Searched.tail {reply : Reply (Option Expr)}
    (hrun : h.script.run none c s = .ok ⟨none, none⟩ s₁) (hrest : Searched c hs s₁ reply) :
    Searched c (h :: hs) s reply := by
  cases hrest with
  | nothing hturn => exact .nothing (.cons hrun ⟨rfl, rfl⟩ hturn)
  | found hup => exact .found (hup.tail hrun ⟨rfl, rfl⟩)
  | failed hup => exact .failed (hup.tail hrun ⟨rfl, rfl⟩)
  | lost hup => exact .lost (hup.tail hrun ⟨rfl, rfl⟩)

theorem notified_notifyAll (hs : List Hook) (node : Option Expr) (s : State) :
    Notified c hs node s ((Hook.notifyAll hs node >>= Reading.settle) c s) := by
  induction hs generalizing node s with
  | nil => exact .all .nil
  | cons h hs ih =>
    rw [Hook.notifyAll, Reading.bind_apply, Reading.bind_apply]
    cases hrun : h.script.run node c s with
    | fail e s' => exact absurd hrun h.script.run_ne_fail
    | exhausted => exact .lost (.head hrun)
    | ok ending s₁ =>
      obtain ⟨left, _ | e⟩ := ending
      · exact (ih left s₁).tail hrun
      · exact .failed (.head hrun)

theorem searched_searchAll (hs : List Hook) (s : State) :
    Searched c hs s ((Hook.searchAll hs none >>= Reading.settle) c s) := by
  induction hs generalizing s with
  | nil => exact .nothing .nil
  | cons h hs ih =>
    rw [Hook.searchAll, Reading.bind_apply, Reading.bind_apply]
    cases hrun : h.script.run none c s with
    | fail e s' => exact absurd hrun h.script.run_ne_fail
    | exhausted => exact .lost (.head hrun)
    | ok ending s₁ =>
      obtain ⟨left, _ | e⟩ := ending
      · cases left with
        | some found => exact .found (.head hrun)
        | none => exact (ih s₁).tail hrun
      · cases left with
        | none => exact .failed (.head hrun)
        | some found => exact .failed (.head hrun)

end Calls

/-- **Which callbacks are called, and in which order.**  After any registrations, the
callbacks of a point are those registered in front, the latest first, and then those
registered behind, the earliest first.  A registration leaves the other points as they are,
and each one counts.  From every state, a notification calls the callbacks of a point in turn
up to and including the first that fails, and a search up to and including the first that
fails or leaves a node, and answers with that node. -/
theorem Hooks.calls_changed (changes : List Hooks.Change) :
    (∀ p, (changed changes).get p
      = (changes.flatMap (Change.front p)).reverse ++ changes.flatMap (Change.back p)) ∧
    (∀ (r : Change) (p : HookPoint), p ∈ r.points ∨
      (changed (changes ++ [r])).get p = (changed changes).get p) ∧
    (changed changes).size = (changes.map Change.count).sum ∧
    ∀ grammar plugins text budget enter p s,
      let c : Context := ⟨⟨grammar, changed changes, plugins⟩, text, budget, enter⟩
      (∀ node, Notified c ((changed changes).get p) node s (Reading.notify p node c s)) ∧
      Searched c ((changed changes).get p) s (Reading.search p c s) := by
  refine ⟨fun p => get_changed changes, ?_, size_changed changes, ?_⟩
  · intro r p
    by_cases hp : p ∈ r.points
    · exact .inl hp
    · refine .inr ?_
      rw [changed, List.foldl_append]
      exact get_change_of_not_mem hp
  · intro grammar plugins text budget enter p s c
    exact ⟨fun node => notified_notifyAll _ node s, searched_searchAll _ s⟩

end OperatorGrammar
