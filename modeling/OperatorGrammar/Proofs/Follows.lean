/-
OperatorGrammar/Proofs/Follows.lean

A run of one reading that another run follows, perhaps at other offsets.

Two runs on different texts, or with different callbacks, can still give the same
answer.  What is compared is the value that a run answers and the depth that it
leaves; the offsets before and after are related by conditions that the user of
these lemmas chooses, and the notes are not compared.  How far failures have to
agree is said by an `Accord`: which pairs of failures both runs may end with, and
with which failures the first run may stop on its own.

Where success is all that matters, the first run may even go astray.  It answers
a value at an offset from which it can no longer come to a good end, while the
second run is somewhere else (`Reading.MayStray`).  Such a pair counts as long as
the first run is seen to fail further on (`MayStray.bind_astray`).
-/
import OperatorGrammar.Proofs.InStep

namespace OperatorGrammar

variable {α β : Type}

/-- What is asked of the failures of two runs: how both may fail, and how the first may stop
on its own. -/
structure Accord where
  shares : Failure → Failure → Prop
  stops : Failure → Prop

/-- Only success matters. -/
def Accord.lenient : Accord where
  shares _ _ := True
  stops _ := True

/-- The replies have the same value and depth, and offsets as expected; or both are failures
that may be shared; or the first ran out of budget, stopped with a failure of its own, or
went astray. -/
inductive Reply.Follows (t : Accord) (astray : Nat → Prop) (after : α → Nat → Nat → Prop) :
    Reply α → Reply α → Prop
  | ok {a s s'} : after a s.index s'.index → s'.depth = s.depth →
      Follows t astray after (.ok a s) (.ok a s')
  | fail {e e' s s'} : t.shares e e' → Follows t astray after (.fail e s) (.fail e' s')
  | exhausted {r} : Follows t astray after .exhausted r
  | stop {e s r} : t.stops e → Follows t astray after (.fail e s) r
  | astray {a s r} : astray s.index → Follows t astray after (.ok a s) r

/-- An answer of a run that never stops or strays is one of the other run, and a failure may be
shared. -/
theorem Reply.Follows.outcomes {t : Accord} {after : α → Nat → Nat → Prop} {r r' : Reply α}
    {o : Except Failure α} (h : r.Follows t (fun _ => False) after r')
    (hstops : ∀ e, ¬ t.stops e) (ho : r.outcome? = some o) :
    (∃ a, o = .ok a ∧ r'.outcome? = some (.ok a)) ∨
      ∃ e e', o = .error e ∧ r'.outcome? = some (.error e') ∧ t.shares e e' := by
  cases h with
  | ok _ _ =>
    cases ho
    exact .inl ⟨_, rfl, rfl⟩
  | fail he =>
    cases ho
    exact .inr ⟨_, _, rfl, rfl, he⟩
  | exhausted => cases ho
  | stop he => exact absurd he (hstops _)
  | astray hi => exact hi.elim

/-- The scans found the same, at offsets as expected; or both failed as may be shared; or the
first stopped with a failure of its own. -/
inductive Scan.Follows (t : Accord) (after : Nat → Nat → Prop) : Scan α → Scan α → Prop
  | ok {a i i'} : after i i' → Follows t after ⟨i, .ok a⟩ ⟨i', .ok a⟩
  | fail {cause cause' i i'} : t.shares ⟨cause, i⟩ ⟨cause', i'⟩ →
      Follows t after ⟨i, .error cause⟩ ⟨i', .error cause'⟩
  | stop {cause i scan} : t.stops ⟨cause, i⟩ → Follows t after ⟨i, .error cause⟩ scan

namespace Reading

/-- From related offsets and the same depth, the second run follows the first, unless the
first goes astray. -/
def MayStray (c c' : Context) (t : Accord) (astray : Nat → Prop) (before : Nat → Nat → Prop)
    (after : α → Nat → Nat → Prop) (x y : Reading α) : Prop :=
  ∀ s s', before s.index s'.index → s'.depth = s.depth →
    (x c s).Follows t astray after (y c' s')

/-- The second run follows the first, which never goes astray. -/
abbrev Follows (c c' : Context) (t : Accord) (before : Nat → Nat → Prop)
    (after : α → Nat → Nat → Prop) (x y : Reading α) : Prop :=
  MayStray c c' t (fun _ => False) before after x y

namespace MayStray

variable {c c' : Context} {t : Accord} {A B : Nat → Prop} {P P' : Nat → Nat → Prop}
  {Q Q' : α → Nat → Nat → Prop} {T : β → Nat → Nat → Prop} {x x' y y' : Reading α}
  {f g : α → Reading β}

/-! ### Sequences and branches -/

theorem mono (h : MayStray c c' t A P Q x y) (hA : ∀ i, A i → B i)
    (hP : ∀ i i', P' i i' → P i i') (hQ : ∀ a i i', Q a i i' → Q' a i i') :
    MayStray c c' t B P' Q' x y := by
  intro s s' hs hdepth
  have h := h s s' (hP _ _ hs) hdepth
  generalize x c s = r at h ⊢
  generalize y c' s' = r' at h ⊢
  cases h with
  | ok ha hdepth => exact .ok (hQ _ _ _ ha) hdepth
  | fail he => exact .fail he
  | exhausted => exact .exhausted
  | stop he => exact .stop he
  | astray hi => exact .astray (hA _ hi)

theorem strengthen (h : MayStray c c' t A P Q x y) (hP : ∀ i i', P' i i' → P i i') :
    MayStray c c' t A P' Q x y :=
  h.mono (fun _ hi => hi) hP fun _ _ _ hQ => hQ

theorem weaken (h : MayStray c c' t A P Q x y) (hQ : ∀ a i i', Q a i i' → Q' a i i') :
    MayStray c c' t A P Q' x y :=
  h.mono (fun _ hi => hi) (fun _ _ hP => hP) hQ

/-- A success that does not go astray is one of the second run as well. -/
theorem ok (h : MayStray c c' t A P Q x y) {s s' s₁ : State} {a : α}
    (hs : P s.index s'.index) (hdepth : s'.depth = s.depth) (hok : x c s = .ok a s₁)
    (hA : ¬ A s₁.index) :
    ∃ s₁', y c' s' = .ok a s₁' ∧ Q a s₁.index s₁'.index ∧ s₁'.depth = s₁.depth := by
  have h := h s s' hs hdepth
  rw [hok] at h
  generalize y c' s' = r' at h ⊢
  cases h with
  | ok ha hdepth => exact ⟨_, rfl, ha, hdepth⟩
  | astray hi => exact absurd hi hA

/-- Where nothing is astray behind a success, the second run follows. -/
theorem follows (h : MayStray c c' t A P Q x y)
    (hA : ∀ s a s₁, x c s = .ok a s₁ → ¬ A s₁.index) : Follows c c' t P Q x y := by
  intro s s' hs hdepth
  have h := h s s' hs hdepth
  generalize hx : x c s = r at h ⊢
  generalize y c' s' = r' at h ⊢
  cases h with
  | ok ha hdepth => exact .ok ha hdepth
  | fail he => exact .fail he
  | exhausted => exact .exhausted
  | stop he => exact .stop he
  | astray hi => exact absurd hi (hA s _ _ hx)

theorem pure {a : α} (h : ∀ i i', P i i' → Q a i i') :
    MayStray c c' t A P Q (Pure.pure a) (Pure.pure a) :=
  fun _ _ hs hdepth => .ok (h _ _ hs) hdepth

/-- Where the first run has gone astray, it must fail, or stay astray, in the rest of the
sequence. -/
theorem bind_astray (hx : MayStray c c' t A P Q x y)
    (hf : ∀ a, MayStray c c' t B (Q a) T (f a) (g a))
    (hstops : ∀ i, A i → ∀ e, t.stops e)
    (hstray : ∀ a s, A s.index → ∀ b s₁, f a c s = .ok b s₁ → B s₁.index) :
    MayStray c c' t B P T (x >>= f) (y >>= g) := by
  intro s s' hs hdepth
  have h := hx s s' hs hdepth
  rw [bind_apply, bind_apply]
  generalize x c s = r at h ⊢
  generalize y c' s' = r' at h ⊢
  cases h with
  | ok ha hdepth => exact hf _ _ _ ha hdepth
  | fail he => exact .fail he
  | exhausted => exact .exhausted
  | stop he => exact .stop he
  | @astray a s₁ _ hi =>
    show (f a c s₁).Follows t B T _
    cases hrest : f a c s₁ with
    | ok b s₂ => exact .astray (hstray a s₁ hi b s₂ hrest)
    | fail e s₂ => exact .stop (hstops _ hi e)
    | exhausted => exact .exhausted

theorem bind (hx : Follows c c' t P Q x y) (hf : ∀ a, MayStray c c' t B (Q a) T (f a) (g a)) :
    MayStray c c' t B P T (x >>= f) (y >>= g) :=
  bind_astray hx hf (fun _ => False.elim) fun _ _ => False.elim

theorem ite {p : Prop} [Decidable p] (h : p → MayStray c c' t A P Q x y)
    (h' : ¬ p → MayStray c c' t A P Q x' y') :
    MayStray c c' t A P Q (if p then x else x') (if p then y else y') := by
  by_cases hp : p
  · rw [if_pos hp, if_pos hp]
    exact h hp
  · rw [if_neg hp, if_neg hp]
    exact h' hp

/-! ### Primitive steps -/

theorem exhausted : MayStray c c' t A P Q Reading.exhausted y :=
  fun _ _ _ _ => .exhausted

theorem failHere {cause : Cause} (h : ∀ i i', P i i' → t.shares ⟨cause, i⟩ ⟨cause, i'⟩) :
    MayStray c c' t A P Q (Reading.failHere cause) (Reading.failHere cause) :=
  fun _ _ hs _ => .fail (h _ _ hs)

/-- A step over characters that are there. -/
theorem forward {n : Nat} {Q : Unit → Nat → Nat → Prop}
    (hin : ∀ i i', P i i' → i + n ≤ c.text.size ∧ i' + n ≤ c'.text.size)
    (h : ∀ i i', P i i' → Q () (i + n) (i' + n) ∨ A (i + n)) :
    MayStray c c' t A P Q (Reading.forward n) (Reading.forward n) := by
  intro s s' hs hdepth
  obtain ⟨hle, hle'⟩ := hin _ _ hs
  rw [forward_apply, forward_apply, Nat.min_eq_left hle, Nat.min_eq_left hle']
  rcases h _ _ hs with hafter | hi
  · exact .ok hafter hdepth
  · exact .astray hi

theorem rewind {n : Nat} {Q : Unit → Nat → Nat → Prop}
    (h : ∀ i i', P i i' → Q () (i - n) (i' - n)) :
    MayStray c c' t A P Q (Reading.rewind n) (Reading.rewind n) :=
  fun _ _ hs hdepth => .ok (h _ _ hs) hdepth

theorem grammar_bind {f g : Grammar → Reading β} (hgrammar : c'.dialect.grammar = c.dialect.grammar)
    (h : MayStray c c' t A P T (f c.dialect.grammar) (g c.dialect.grammar)) :
    MayStray c c' t A P T (Reading.grammar >>= f) (Reading.grammar >>= g) := by
  intro s s' hs hdepth
  rw [bind_of_ok grammar_apply, bind_of_ok grammar_apply, hgrammar]
  exact h s s' hs hdepth

/-- The rest of a sequence may name the offsets at which it starts. -/
theorem cursor_bind {f g : Cursor → Reading β} (h : ∀ i i', P i i' →
      MayStray c c' t A (fun j j' => j = i ∧ j' = i') T (f ⟨c.text, i⟩) (g ⟨c'.text, i'⟩)) :
    MayStray c c' t A P T (Reading.cursor >>= f) (Reading.cursor >>= g) :=
  fun s s' hs hdepth => h s.index s'.index hs s s' ⟨rfl, rfl⟩ hdepth

/-- Where the same character comes next. -/
theorem current_bind {f g : Option Char → Reading β}
    (hcurrent : ∀ i i', P i i' → c'.text[i']? = c.text[i]?)
    (h : ∀ next, MayStray c c' t A (fun i i' => P i i' ∧ c.text[i]? = next) T (f next) (g next)) :
    MayStray c c' t A P T (Reading.current >>= f) (Reading.current >>= g) := by
  intro s s' hs hdepth
  rw [bind_of_ok current_apply, bind_of_ok current_apply, hcurrent _ _ hs]
  exact h _ s s' ⟨hs, rfl⟩ hdepth

/-- The second run may have more rounds to spend. -/
theorem budget_bind {f g : Nat → Reading β} (hbudget : c.budget ≤ c'.budget)
    (h : ∀ n m, n ≤ m → MayStray c c' t A P T (f n) (g m)) :
    MayStray c c' t A P T (Reading.budget >>= f) (Reading.budget >>= g) :=
  fun s s' hs hdepth => h _ _ hbudget s s' hs hdepth

/-- A scanner leaves the cursor where it stopped. -/
theorem scan {scanner : Grammar → Cursor → Scan α} {R : Nat → Nat → Prop}
    (h : ∀ i i', P i i' → (scanner c.dialect.grammar ⟨c.text, i⟩).Follows t R
      (scanner c'.dialect.grammar ⟨c'.text, i'⟩)) :
    MayStray c c' t A P (fun _ => R) (Reading.scan scanner) (Reading.scan scanner) := by
  intro s s' hs hdepth
  have hscan := h _ _ hs
  rw [Reading.scan, bind_of_ok (c := c) grammar_apply, bind_of_ok (c := c) cursor_apply,
    bind_of_ok (c := c) (moveTo_apply _), bind_of_ok (c := c') grammar_apply,
    bind_of_ok (c := c') cursor_apply, bind_of_ok (c := c') (moveTo_apply _)]
  generalize scanner c.dialect.grammar ⟨c.text, s.index⟩ = found at hscan ⊢
  generalize scanner c'.dialect.grammar ⟨c'.text, s'.index⟩ = found' at hscan ⊢
  cases hscan with
  | ok ha => exact .ok ha hdepth
  | fail he => exact .fail he
  | stop he => exact .stop he

/-- Reading one level deeper, under the same limit. -/
theorem nested (hlimit : c'.dialect.grammar.nestingLimit = c.dialect.grammar.nestingLimit)
    (hfails : ∀ i i', P i i' → t.shares ⟨.nestingLimit, i⟩ ⟨.nestingLimit, i'⟩)
    (h : MayStray c c' t A P Q x y) :
    MayStray c c' t A P Q (Reading.nested x) (Reading.nested y) := by
  intro s s' hs hdepth
  have hat : c'.AtLimit s' ↔ c.AtLimit s := by
    rw [Context.AtLimit, Context.AtLimit, hlimit, hdepth]
  by_cases hlim : c.AtLimit s
  · rw [nested_of_atLimit hlim, nested_of_atLimit (hat.mpr hlim)]
    exact .fail (hfails _ _ hs)
  · rw [nested_of_not_atLimit hlim, nested_of_not_atLimit (mt hat.mp hlim)]
    have hbody := h { s with depth := s.depth + 1 } { s' with depth := s'.depth + 1 } hs
      (congrArg (· + 1) hdepth)
    generalize x c { s with depth := s.depth + 1 } = r at hbody ⊢
    generalize y c' { s' with depth := s'.depth + 1 } = r' at hbody ⊢
    cases hbody with
    | ok ha hdepth => exact .ok ha (congrArg (· - 1) hdepth)
    | fail he => exact .fail he
    | exhausted => exact .exhausted
    | stop he => exact .stop he
    | astray hi => exact .astray hi

/-! ### Points where nothing listens -/

section Points

variable {p : HookPoint} {Q : Option Expr → Nat → Nat → Prop}

theorem notify_of_nil (hp : c.dialect.hooks.get p = []) (hp' : c'.dialect.hooks.get p = [])
    {node : Option Expr} (h : ∀ i i', P i i' → Q node i i') :
    MayStray c c' t A P Q (notify p node) (notify p node) := by
  intro s s' hs hdepth
  rw [Reading.notify_of_nil hp, Reading.notify_of_nil hp']
  exact .ok (h _ _ hs) hdepth

theorem search_of_nil (hp : c.dialect.hooks.get p = []) (hp' : c'.dialect.hooks.get p = [])
    (h : ∀ i i', P i i' → Q none i i') : MayStray c c' t A P Q (search p) (search p) := by
  intro s s' hs hdepth
  rw [Reading.search_of_nil hp, Reading.search_of_nil hp']
  exact .ok (h _ _ hs) hdepth

end Points

end MayStray

end Reading

end OperatorGrammar
