/-
OperatorGrammar/Proofs/NestingLimit.lean

The nesting limit only ever cuts a reading short, and a limit of twice the length
of the text and two never does.

Two passes over the grammar compare a reading under a limit with one under a
higher limit, or under none.  In the first, the run under the lower limit may stop
with the failure of the limit wherever it likes, and nothing is known of the
places (`Reading.cutShort`).  In the second, neither run may stop in this way, and
the depth is bounded by the place of the cursor (`State.Span`): an expression at
`lo` is entered at a depth of at most `2 * lo`, an operand at most one deeper.
An expression enters an operand at the same place, and an operand enters others
behind a character only, so the bounds are those of the places of the entries.

Main result: `Dialect.nestingLimit_only_cuts`.
-/
import OperatorGrammar.Proofs.BundledCallbacks
import OperatorGrammar.Proofs.Termination

namespace OperatorGrammar

/-- The dialect with another limit, or without one. -/
def Dialect.limited (d : Dialect) (limit : Option Nat) : Dialect :=
  d.mapGrammar (·.setNestingLimit limit)

theorem Dialect.Plain.limited {d : Dialect} (hd : d.Plain) (limit : Option Nat) :
    (d.limited limit).Plain :=
  hd.congr rfl

/-- The depth is a given one, and the cursor lies between two places. -/
def State.Span (k lo hi : Nat) (s : State) : Prop :=
  s.depth = k ∧ lo ≤ s.index ∧ s.index ≤ hi

namespace Reading

variable {d : Dialect} {text : Array Char} {limit limit' : Option Nat}

theorem bothPlain_limited (hd : d.Plain) (n : Nat) :
    BothPlain ((d.limited limit).context text n) ((d.limited limit').context text n) :=
  ⟨hd.limited limit, rfl⟩

/-! ### A higher limit -/

/-- The first run may be cut short by its limit. -/
def cutShort : Terms :=
  ⟨fun e => e.cause = .nestingLimit, fun _ _ => True⟩

/-- The first run, under one limit, is that under another, or is cut short. -/
def CutsShort (d : Dialect) (text : Array Char) (limit limit' : Option Nat) (n : Nat)
    (x : Reading (Option Expr)) : Prop :=
  Keeps ((d.limited limit).context text n) ((d.limited limit').context text n) cutShort
    (fun _ => True) x

theorem persists_cutShort (d : Dialect) (text : Array Char) (limit limit' : Option Nat) (n : Nat) :
    Persists ((d.limited limit).context text n) ((d.limited limit').context text n) cutShort
      (fun _ => True) where
  text := rfl
  budget := rfl
  grammar := ⟨limit', rfl⟩
  onward _ _ _ _ := trivial
  fails _ _ _ _ := trivial

section Higher

variable (hle : ∀ k, limit'.any (· ≤ k) → limit.any (· ≤ k))
include hle

theorem CutsShort.nested {n : Nat} {x : Reading (Option Expr)}
    (h : CutsShort d text limit limit' n x) : CutsShort d text limit limit' n (nested x) :=
  InStep.nested (t := cutShort) h (fun _ _ _ => trivial) (fun _ _ _ => trivial)
    (fun _ _ _ => trivial) (fun _ he => he) (fun _ _ _ => .inl rfl) fun s _ => hle s.depth

theorem reenter_cutsShort (hd : d.Plain) (n : Nat) :
    CutsShort d text limit limit' n (reenter .operand) ∧
      CutsShort d text limit limit' n (reenter .expression) := by
  induction n with
  | zero => exact ⟨fun _ _ => .exhausted, fun _ _ => .exhausted⟩
  | succ n ih =>
    have h := persists_cutShort d text limit limit' n
    have hlevel := h.level (bothPlain_limited hd n) h (fun _ h => h)
      (fun _ _ _ _ _ => trivial) ih.1 ih.2
    constructor
    · exact CutsShort.nested hle hlevel.operandBody
    · exact CutsShort.nested hle (hlevel.expressionBody (bothPlain_limited hd n) ih.1)

end Higher

/-! ### A limit that is never met -/

/-- Neither run meets a limit. -/
def unlimited : Terms :=
  ⟨fun _ => False, fun e _ => e.cause ≠ .nestingLimit⟩

/-- From a depth, with the cursor behind a place, both runs go on as without a limit. -/
def Unlimited (d : Dialect) (text : Array Char) (limit : Option Nat) (n k lo : Nat)
    (x : Reading (Option Expr)) : Prop :=
  Keeps ((d.limited limit).context text n) ((d.limited none).context text n) unlimited
    (State.Span k lo text.size) x

theorem persists_span (n k lo : Nat) :
    Persists ((d.limited limit).context text n) ((d.limited none).context text n) unlimited
      (State.Span k lo text.size) where
  text := rfl
  budget := rfl
  grammar := ⟨none, rfl⟩
  onward _ _ hs hj :=
    have hreaches := hj hs.2.2
    ⟨hs.1, Nat.le_trans hs.2.1 hreaches.onward, hreaches.within⟩
  fails _ _ _ he := he

section Room

variable (hroom : ∀ most ∈ limit, 2 * (text.size + 1) ≤ most)
include hroom

/-- A level that is low enough for the place is opened, and closed again. -/
theorem Unlimited.nested {n k lo : Nat} {x : Reading (Option Expr)}
    (h : Unlimited d text limit n (k + 1) lo x) (hk : k ≤ 2 * lo + 1) :
    Unlimited d text limit n k lo (nested x) := by
  refine InStep.nested (t := unlimited) (P := State.Span k lo text.size) h ?_ ?_
    (fun _ _ he => he) (fun _ he => he) ?_ ?_
  · rintro s ⟨rfl, hs⟩ -
    exact ⟨rfl, hs⟩
  · rintro - s ⟨hdepth, hs⟩
    exact ⟨Nat.sub_eq_of_eq_add hdepth, hs⟩
  · rintro s ⟨rfl, hlo, hhi⟩ hat
    obtain ⟨most, hmost, hle⟩ := (Option.any_eq_true _ _).mp hat
    have hle := of_decide_eq_true hle
    have := hroom most hmost
    omega
  · intro s _ hat
    cases hat

/-- An operand may be entered one deeper than an expression at the same place. -/
theorem reenter_unlimited (hd : d.Plain) (n : Nat) :
    (∀ k lo, k ≤ 2 * lo + 1 → Unlimited d text limit n k lo (reenter .operand)) ∧
      ∀ k lo, k ≤ 2 * lo → Unlimited d text limit n k lo (reenter .expression) := by
  induction n with
  | zero => exact ⟨fun _ _ _ _ _ => .exhausted, fun _ _ _ _ _ => .exhausted⟩
  | succ n ih =>
    -- behind a character, twice the place has room for the level and one more
    have hlevel (k lo : Nat) (hk : k ≤ 2 * lo + 2) :
        Level ((d.limited limit).context text n) ((d.limited none).context text n) unlimited
          (State.Span k lo text.size) (State.Span k (lo + 1) text.size) := by
      refine (persists_span n k lo).level (bothPlain_limited hd n) (persists_span n k (lo + 1))
        ?_ ?_ (ih.1 k (lo + 1) (by omega)) (ih.2 k (lo + 1) (by omega))
      · rintro s ⟨hdepth, hlo, hhi⟩
        exact ⟨hdepth, by omega, hhi⟩
      · rintro s j ⟨hdepth, hlo, hhi⟩ hlt hle
        exact ⟨hdepth, by dsimp only; omega, hle⟩
    constructor
    · intro k lo hk
      exact Unlimited.nested hroom (hlevel (k + 1) lo (by omega)).operandBody hk
    · intro k lo hk
      have hbody := (hlevel (k + 1) lo (by omega)).expressionBody (bothPlain_limited hd n)
        (ih.1 (k + 1) lo (by omega))
      exact Unlimited.nested hroom hbody (by omega)

end Room

end Reading

/-! ### Whole texts -/

/-- What the first run answers is what the second one does, or that the limit was met. -/
theorem Reply.InStep.outcome_of_cutShort {r r' : Reply (Option Expr)}
    {after : Option Expr → State → Prop} (h : r.InStep Reading.cutShort after r')
    (hanswers : r ≠ .exhausted) :
    r.outcome? = r'.outcome? ∨
      ∃ failure, r.outcome? = some (.error failure) ∧ failure.cause = .nestingLimit := by
  cases h with
  | ok _ => exact .inl rfl
  | fail _ => exact .inl rfl
  | exhausted => exact absurd rfl hanswers
  | stop he => exact .inr ⟨_, rfl, he⟩

/-- Both runs answer alike, and not that the limit was met. -/
theorem Reply.InStep.outcome_of_unlimited {r r' : Reply (Option Expr)}
    {after : Option Expr → State → Prop} (h : r.InStep Reading.unlimited after r')
    (hanswers : r ≠ .exhausted) :
    ∃ o, r.outcome? = some o ∧ r'.outcome? = some o ∧
      ∀ failure, o = .error failure → failure.cause ≠ .nestingLimit := by
  cases h with
  | ok _ => exact ⟨_, rfl, rfl, nofun⟩
  | fail he =>
    refine ⟨_, rfl, rfl, ?_⟩
    rintro failure ⟨⟩
    exact he
  | exhausted => exact absurd rfl hanswers
  | stop he => exact he.elim

namespace Dialect

open Reading

variable {d : Dialect} {text : Array Char}

/-- Under any limit, every text is read to an end. -/
theorem program_limited_answers (hd : d.Plain) (limit : Option Nat) {n : Nat}
    (hn : 2 * text.size + 4 ≤ n) : (d.limited limit).parseWithin n text ≠ .exhausted :=
  program_answers (c := (d.limited limit).context text n) (s := .initial) (hd.limited limit)
    (context_sound (hd.limited limit) text n) (context_ends (hd.limited limit) text n) hn

theorem le_budgetFor (text : String) :
    2 * text.toList.toArray.size + 4 ≤ budgetFor text.length := by
  have hsize : text.toList.toArray.size = text.length := String.length_toList
  unfold budgetFor
  omega

theorem parseWithin_cutsShort (hd : d.Plain) {limit limit' : Option Nat}
    (hle : ∀ k, limit'.any (· ≤ k) → limit.any (· ≤ k)) (n : Nat) :
    ((d.limited limit).parseWithin n text).InStep cutShort (fun _ _ => True)
      ((d.limited limit').parseWithin n text) :=
  (persists_cutShort d text limit limit' n).program (bothPlain_limited hd n) (reenter_cutsShort hle hd n).2
    .initial trivial

theorem parseWithin_unlimited (hd : d.Plain) {limit : Option Nat}
    (hroom : ∀ most ∈ limit, 2 * (text.size + 1) ≤ most) (n : Nat) :
    ((d.limited limit).parseWithin n text).InStep unlimited
      (fun _ => State.Span 0 0 text.size) ((d.limited none).parseWithin n text) :=
  (persists_span n 0 0).program (bothPlain_limited hd n)
    ((reenter_unlimited hroom hd n).2 0 0 (Nat.le_refl _)) .initial
      ⟨rfl, Nat.le_refl _, Nat.zero_le _⟩

/-- A run under a limit is the one under a higher limit, or without one, or is cut short. -/
theorem parse_cutsShort (hd : d.Plain) (text : String) (limit limit' : Option Nat)
    (hle : ∀ k, limit'.any (· ≤ k) → limit.any (· ≤ k)) :
    (d.limited limit).parse text = (d.limited limit').parse text ∨
      ∃ failure, (d.limited limit).parse text = some (.error failure) ∧
        failure.cause = .nestingLimit :=
  (parseWithin_cutsShort hd hle (budgetFor text.length)).outcome_of_cutShort
    (program_limited_answers hd limit (le_budgetFor text))

theorem parse_unlimited (hd : d.Plain) (text : String) (limit : Option Nat)
    (hroom : ∀ most ∈ limit, 2 * (text.length + 1) ≤ most) :
    ∃ o, (d.limited limit).parse text = some o ∧ (d.limited none).parse text = some o ∧
      ∀ failure, o = .error failure → failure.cause ≠ .nestingLimit :=
  (parseWithin_unlimited hd hroom (budgetFor text.length)).outcome_of_unlimited
    (program_limited_answers hd limit (le_budgetFor text))

/-- **A nesting limit only ever cuts a reading short.**  Without a limit, a text is parsed
as a tree, or as nothing, or to a failure other than that of the limit.  Under a limit it is
parsed to the same, or fails at the limit; where it is parsed to the same, so it is under
every higher limit; and a limit of twice the length of the text and two, or more, is never
met. -/
theorem nestingLimit_only_cuts (hd : d.Plain) (text : String) :
    ∃ o, (d.limited none).parse text = some o ∧
      (∀ failure, o = .error failure → failure.cause ≠ .nestingLimit) ∧
      ∀ most,
        ((d.limited (some most)).parse text = some o ∨
          ∃ failure, (d.limited (some most)).parse text = some (.error failure) ∧
            failure.cause = .nestingLimit ∧
            failure.description = "Recursion limit exceeded") ∧
        ((d.limited (some most)).parse text = some o →
          ∀ more, most ≤ more → (d.limited (some more)).parse text = some o) ∧
        (2 * (text.length + 1) ≤ most → (d.limited (some most)).parse text = some o) := by
  obtain ⟨o, -, hfull, hcause⟩ := parse_unlimited hd text none nofun
  refine ⟨o, hfull, hcause, fun most => ⟨?_, ?_, ?_⟩⟩
  · rcases parse_cutsShort hd text (some most) none (fun _ h => nomatch h)
      with hsame | ⟨failure, hcut, hlimit⟩
    · exact .inl (hsame.trans hfull)
    · have hmessage : failure.description = "Recursion limit exceeded" := by
        rw [Failure.description, hlimit]
        rfl
      exact .inr ⟨failure, hcut, hlimit, hmessage⟩
  · intro hmost more hle
    have hany (k : Nat) (h : (some more).any (· ≤ k)) : (some most).any (· ≤ k) := by
      simp only [Option.any_some, decide_eq_true_eq] at h ⊢
      exact Nat.le_trans hle h
    rcases parse_cutsShort hd text (some most) (some more) hany with hsame | ⟨failure, hcut, hlimit⟩
    · exact hsame.symm.trans hmost
    · -- a text that fails at the limit was not parsed as without one
      rw [hmost] at hcut
      exact absurd hlimit (hcause failure (Option.some.inj hcut))
  · intro hroom
    obtain ⟨o', hlimited, hfull', -⟩ := parse_unlimited hd text (some most)
      (by rintro _ ⟨⟩; exact hroom)
    rw [hlimited, ← hfull', hfull]

/-- Four levels are open inside the group: three are too few, and four or more make no
difference.  Without looking, twenty-four are enough. -/
theorem nestingLimit_only_cuts_group :
    let steps : List Step := [.registerPlugins [.ternary, .comments]]
    let d := (Session.standard.configured steps).dialect
    let text := "(a)/**/?b:c"
    let e : Expr := .conditional (.identifier "a") (.identifier "b") (.identifier "c")
    d.Plain ∧ (d.limited none).parse text = some (.ok (some e)) ∧
      (∃ failure, (d.limited (some 3)).parse text = some (.error failure) ∧
        failure.description = "Recursion limit exceeded") ∧
      (∀ more, 4 ≤ more → (d.limited (some more)).parse text = some (.ok (some e))) ∧
      (d.limited (some 24)).parse text = some (.ok (some e)) := by
  intro steps d text e
  have hreachable : d.Reachable :=
    ⟨steps, ⟨⟨.inl rfl, .inr (.inl rfl), trivial⟩, trivial⟩, rfl⟩
  have hd : d.Plain := hreachable.bundled.plain
  obtain ⟨o, hfull, -, hlimits⟩ := nestingLimit_only_cuts hd text
  obtain rfl : o = .ok (some e) := by
    have hparse : (d.limited none).parse text = some (.ok (some e)) :=
      parse_of_parsesAs (by decide +kernel) rfl
    exact Option.some.inj (hfull.symm.trans hparse)
  refine ⟨hd, hfull, ?_, ?_, (hlimits 24).2.2 (by decide)⟩
  · rcases (hlimits 3).1 with hsame | ⟨failure, hcut, -, hmessage⟩
    · have hcut : ¬ (d.limited (some 3)).parsesAs text e := by decide +kernel
      rw [parsesAs, hsame] at hcut
      exact absurd (by decide +kernel) hcut
    · exact ⟨failure, hcut, hmessage⟩
  · exact (hlimits 4).2.1 (parse_of_parsesAs (by decide +kernel) rfl)

end Dialect

end OperatorGrammar
