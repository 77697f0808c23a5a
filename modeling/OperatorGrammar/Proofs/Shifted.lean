/-
OperatorGrammar/Proofs/Shifted.lean

Reading a text behind another one.

Without callbacks, a text that stands at the end of a longer one is read there as
it is read alone: with the same answer, or the same failure at an offset moved by
the part in front (`expressionsWithin_shifted`).  With nothing in front this says
that a budget that is enough is as good as any larger one
(`Dialect.HookFree.parseWithin_of_le`), for any tables.
-/
import OperatorGrammar.Proofs.Lockstep
import OperatorGrammar.Proofs.NestingLimit
import OperatorGrammar.Proofs.Stretch

namespace OperatorGrammar

open Reading

/-- The same failure, moved by some offset. -/
def Failure.moved (offset : Nat) (e : Failure) : Failure :=
  { e with index := e.index + offset }

/-- Both runs fail alike, the second one further on. -/
def Accord.shifted (offset : Nat) : Accord where
  shares e e' := e' = e.moved offset
  stops _ := False

/-- The same place, as seen from in front of the text and from further in front. -/
def Shifted (text : Array Char) (offset i i' : Nat) : Prop :=
  i' = i + offset ∧ i ≤ text.size

section Texts

variable {g : Grammar} {text text' : Array Char} {front : List Char} {i i' : Nat}
  (htext : text'.toList = front ++ text.toList)
include htext

theorem restAt_shifted (hi : Shifted text front.length i i') :
    restAt text' i' = restAt text i := by
  rw [restAt, restAt, htext, hi.1, Nat.add_comm, List.drop_append,
    List.drop_eq_nil_of_le (Nat.le_add_right _ _), Nat.add_sub_cancel_left, List.nil_append]

theorem size_shifted : text'.size = front.length + text.size := by
  have hlength := congrArg List.length htext
  rwa [List.length_append, Array.length_toList, Array.length_toList] at hlength

theorem sameStretch_shifted (hi : Shifted text front.length i i') :
    SameStretch g text text' i i' (text.size - i) := by
  have hrest := restAt_shifted htext hi
  have hsize := size_shifted htext
  obtain ⟨rfl, hle⟩ := hi
  have hends {text : Array Char} {j : Nat} (hj : text.size ≤ j) :
      ∀ ch ∈ text[j]?, g.Breaks ch := by
    rw [Array.getElem?_eq_none hj]
    exact nofun
  refine ⟨fun k _ => ?_, by omega, by omega, hends (by omega), hends (by omega)⟩
  rw [getElem?_add, getElem?_add, hrest]

theorem alignment_shifted {t : Accord} (hfails : ∀ i i' cause, Shifted text front.length i i' →
      t.shares ⟨cause, i⟩ ⟨cause, i'⟩) :
    Alignment g text text' t (fun _ => False) (Shifted text front.length)
      (Shifted text front.length) := by
  have hnext {i i' : Nat} (hi : Shifted text front.length i i') (k : Nat) :
      text'[i' + k]? = text[i + k]? := by
    rw [getElem?_add, getElem?_add, restAt_shifted htext hi]
  have hstep {i i' k : Nat} (hi : Shifted text front.length i i') (hk : i + k ≤ text.size) :
      Shifted text front.length (i + k) (i' + k) :=
    ⟨by have := hi.1; omega, hk⟩
  have hat {i : Nat} {ch : Char} (hch : text[i]? = some ch) : i + 1 ≤ text.size :=
    lt_size_of_getElem? hch
  have hsize {i i' : Nat} (hi : Shifted text front.length i i') :
      i + (text.size - i) ≤ text.size := by
    have hle := hi.2
    omega
  -- the two texts end together, so failures are the same to the word
  have hshares {i i' k n : Nat} {cause cause' : Cause} (hi : Shifted text front.length i i')
      (hk : i + k ≤ text.size) (hcause : text'[i' + n]? = text[i + n]? → cause' = cause) :
      t.shares ⟨cause, i + k⟩ ⟨cause', i' + k⟩ := by
    rw [hcause (hnext hi n)]
    exact hfails _ _ _ (hstep hi hk)
  have hstretched {i i' : Nat} (hi : Shifted text front.length i i') :
      Stretched g text text' t (Shifted text front.length) i i' (text.size - i) := by
    have hle := hsize hi
    refine ⟨sameStretch_shifted htext hi, fun k hk => hstep hi (by omega),
      fun k cause cause' hk hcause => hshares hi (by omega) hcause, fun hn ch hch => ?_⟩
    have hnone : text[i]? = none := Array.getElem?_eq_none (by omega)
    rw [show text'[i']? = text[i]? from hnext hi 0, hnone, or_self] at hch
    cases hch
  exact {
    weaken := fun _ _ hi => hi
    fails := hfails
    current := fun _ _ hi => hnext hi 0
    past := fun _ _ _ hi hch _ => hstep hi (hat hch)
    separator := fun _ _ _ hi hch _ => .inl (hstep hi (hat hch))
    mark := fun _ _ hi _ => ⟨by rw [hnext hi 1], fun hdot => hstep hi (hat hdot)⟩
    name := fun _ _ hi => (hstretched hi).name
    number := fun _ _ hi => (hstretched hi).number
    string := by
      intro i i' q hi _ _
      have hle := hsize hi
      refine (Lexeme.string_alike (restAt_shifted htext hi)).follows ?_ ?_ <;> rw [length_restAt]
      · exact fun k hk => hstep hi (by omega)
      · exact fun k _ _ hk hcause => hshares (n := 0) hi (by omega) fun _ => hcause trivial
    unary := fun _ _ hi => (hstretched hi).unary
    binary := fun _ _ hi => (hstretched hi).binary }

/-! ### Without callbacks -/

variable {d : Dialect} (hd : d.HookFree)
include hd

theorem lockstep_shifted {n m : Nat} (hnm : n ≤ m) :
    Lockstep (d.context text n) (d.context text' m) (.shifted front.length) (fun _ => False)
      (fun _ => False) (Shifted text front.length) (Shifted text front.length) := by
  have hfails (i i' : Nat) (cause : Cause) (hi : Shifted text front.length i i') :
      (Accord.shifted front.length).shares ⟨cause, i⟩ ⟨cause, i'⟩ := by
    rw [hi.1]
    rfl
  refine hd.lockstep (alignment_shifted htext hfails) (fun _ => .never (by simp)) ?_ hnm
  intro i i' hi
  have hle := skipWhile_le (x := i) Grammar.isBlank hi.2
  refine ⟨?_, hle⟩
  rw [skipWhile_eq, skipWhile_eq, restAt_shifted htext hi, hi.1]
  omega

/-- The loop of a program goes on behind a front as it does without. -/
theorem expressionsWithin_shifted {n m rounds rounds' : Nat} (hnm : n ≤ m)
    (hrounds : rounds ≤ rounds') :
    Follows (d.context text n) (d.context text' m) (.shifted front.length)
      (Shifted text front.length) (fun _ => Shifted text front.length)
      (expressionsWithin none rounds #[]) (expressionsWithin none rounds' #[]) :=
  ((lockstep_shifted htext hd hnm).expressionsWithin (by simp) hrounds #[]).follows
    fun _ _ _ _ hi => hi.elim id id

end Texts

/-! ### Budgets -/

theorem Reply.Follows.outcome_of_shifted {α : Type} {offset : Nat} {r r' : Reply α}
    {after : α → Nat → Nat → Prop} {o : Except Failure α}
    (h : r.Follows (.shifted offset) (fun _ => False) after r') (ho : r.outcome? = some o) :
    r'.outcome? = some (o.mapError (·.moved offset)) := by
  rcases h.outcomes (fun _ => id) ho with ⟨a, rfl, ho'⟩ | ⟨e, _, rfl, ho', rfl⟩
  · exact ho'
  · exact ho'

/-- A budget that is enough is as good as any larger one. -/
theorem Dialect.HookFree.parseWithin_of_le {d : Dialect} (hd : d.HookFree) {text : Array Char}
    {n m : Nat} (hnm : n ≤ m) {o : Except Failure (Option Expr)}
    (h : (d.parseWithin n text).outcome? = some o) : (d.parseWithin m text).outcome? = some o := by
  have htext : text.toList = [] ++ text.toList := rfl
  have hlock := lockstep_shifted htext hd hnm
  have hprogram : Follows (d.context text n) (d.context text m) (.shifted 0) (Shifted text 0)
      (fun _ _ _ => True) program program :=
    hlock.program_of_plain hd.plain hd.plain (by simp)
  refine ((hprogram .initial .initial ⟨rfl, Nat.zero_le _⟩ rfl).outcome_of_shifted h).trans ?_
  cases o <;> rfl

namespace Dialect

variable {d : Dialect} (hd : d.HookFree)
include hd

/-- The answer of a parse is there on every budget from the twofold length on. -/
theorem HookFree.parse_eq_some_iff {text : String} {n : Nat}
    (hn : 2 * text.length + 4 ≤ n) {o : Except Failure (Option Expr)} :
    d.parse text = some o ↔ (d.parseWithin n text.toList.toArray).outcome? = some o := by
  have hsize : text.toList.toArray.size = text.length := String.length_toList
  obtain ⟨o', ho'⟩ := parseWithin_answers hd.plain text.toList.toArray
  rw [hsize] at ho'
  have hparse : d.parse text = some o' :=
    hd.parseWithin_of_le (by unfold budgetFor; omega) ho'
  rw [hparse, hd.parseWithin_of_le hn ho']

theorem HookFree.parse_answers (text : String) : ∃ o, d.parse text = some o := by
  obtain ⟨o, ho⟩ := parseWithin_answers hd.plain text.toList.toArray
  have hsize : text.toList.toArray.size = text.length := String.length_toList
  rw [hsize] at ho
  exact ⟨o, (hd.parse_eq_some_iff (Nat.le_refl _)).mpr ho⟩

end Dialect

end OperatorGrammar
