/-
OperatorGrammar/Proofs/Conservative.lean

The conditional plugin changes nothing that is parsed without it.

Both dialects are run on the same text.  They part only where an expression is
followed by a question mark: there the plugin reads on, while the dialect without
callbacks answers the expression.  That answer comes to nothing, because no
operand starts with a question mark and none of the productions around an
expression goes on with one: not the top level, nor a group, an index, or a list
(`Reading.Strays`).  An optional link is not affected, since it is taken before
the expression ends.

Main result: `Dialect.parse_withConditionals`.
-/
import OperatorGrammar.Proofs.Lockstep
import OperatorGrammar.Proofs.ReadsSound
import OperatorGrammar.Proofs.Sameness

namespace OperatorGrammar

open Reading

/-! ### The same text twice -/

/-- The same offset on both sides. -/
def SamePlace (i i' : Nat) : Prop := i' = i

/-- A text is aligned with itself, where only success matters. -/
theorem alignment_self {g : Grammar} {text : Array Char} :
    Alignment g text text .lenient (fun _ => False) SamePlace SamePlace := by
  have hscan {α : Type} (found : Scan α) : found.Follows .lenient SamePlace found := by
    rcases found with ⟨i, cause | a⟩
    · exact .fail trivial
    · exact .ok rfl
  exact {
    weaken := fun _ _ hi => hi
    fails := fun _ _ _ _ => trivial
    current := by
      rintro i _ rfl
      rfl
    past := by
      rintro i _ _ rfl - -
      rfl
    separator := by
      rintro i _ _ rfl - -
      exact .inl rfl
    mark := by
      rintro i _ rfl -
      exact ⟨Iff.rfl, fun _ => rfl⟩
    name := by
      rintro i _ rfl
      exact hscan _
    number := by
      rintro i _ rfl
      exact hscan _
    string := by
      rintro i _ _ rfl - -
      exact hscan _
    unary := by
      rintro i _ rfl
      exact ⟨rfl, fun _ _ => rfl⟩
    binary := by
      rintro i _ rfl
      exact ⟨rfl, fun _ _ => rfl⟩ }

/-! ### With and without the plugin -/

/-- Where something is left, it tells the offset. -/
theorem index_eq_of_restAt {text : Array Char} {i j : Nat} (h : restAt text i = restAt text j)
    (hne : restAt text i ≠ []) : i = j := by
  have hlength := congrArg List.length h
  have hpos := List.length_pos_iff.mpr hne
  rw [length_restAt] at hpos
  rw [length_restAt, length_restAt] at hlength
  omega

namespace Dialect

theorem registering_ternary_grammar (d : Dialect) :
    (d.registering [.ternary]).grammar = d.grammar :=
  registering_addHook_grammar d (by decide) _ _

section Ternary

variable {d : Dialect} (hd : d.HookFree)
include hd

theorem HookFree.registering_ternary_blanks :
    (d.registering [.ternary]).hooks.get .blanks = [] :=
  (registering_addHook_get_of_ne d (by decide) _ (by decide)).trans (hd _)

theorem HookFree.registering_ternary_plain : (d.registering [.ternary]).Plain := by
  rw [Plugin.ternary, registering_addHook d (by decide)]
  split
  · exact hd.plain
  · refine ⟨?_, ?_, ?_, ?_, ?_, .inl ?_, .inr ⟨⟨0, Ternary.script⟩, ?_, rfl⟩⟩ <;>
      simp [Hooks.get_add, hd _]

variable (hunary : ∀ op, d.grammar.isUnaryOp op → op.toList.head? ≠ some '?')
  (hname : ¬ d.grammar.isIdentifierPart '?')
include hunary hname

/-- In front of a question mark, a dialect without callbacks is astray. -/
theorem strays_mark (text : Array Char) (n : Nat) :
    Strays (d.context text n) .lenient fun i => text[i]? = some '?' := by
  have hblank : ¬ Grammar.isBlank '?' := by decide
  refine ⟨fun _ _ _ => trivial, ?_, ?_, ?_⟩
  · rintro i hi ch hch
    exact Option.some.inj (hch.symm.trans hi)
  · rintro s s₁ hs hok
    refine congrArg State.index (skipBlanks_stays (hd _) ?_ hok)
    show ∀ ch ∈ text[s.index]?, ¬ Grammar.isBlank ch
    rw [hs]
    rintro _ ⟨⟩
    exact hblank
  · rintro s e s₁ hs - hok
    have hreads := (context_sound hd.plain text n).expression hok
    have hcons := restAt_eq_cons hs
    have hskips (start : List Char) (h : Skips d.HasComments (restAt text s.index) start) :
        start = restAt text s.index := by
      rw [h.eq_dropWhile hd.not_hasComments, hcons, List.dropWhile_cons_of_neg hblank]
    have hlead : d.grammar.lead (restAt text s.index) = .nothing := by
      rw [hcons]
      exact Grammar.lead_eq_nothing hname hunary (by decide)
    obtain ⟨he, hrest⟩ := hreads.expression_of_nothing hskips hlead
    refine ⟨he, (index_eq_of_restAt hrest.symm ?_).symm⟩
    show restAt text s.index ≠ []
    rw [hcons]
    exact List.cons_ne_nil _ _

/-- Every run without callbacks is followed by one with the plugin, unless it goes astray in
front of a question mark. -/
theorem lockstep_ternary (text : Array Char) {n m : Nat} (hnm : n ≤ m) :
    Lockstep (d.context text n) ((d.registering [.ternary]).context text m) .lenient
      (fun i => text[i]? = some '?') (fun _ => False) SamePlace SamePlace := by
  have hplain := hd.registering_ternary_plain
  have hstrays (n : Nat) := strays_mark hd hunary hname text n
  refine lockstep_of_entries (k := 0) (fun n m hnm hentries => ?_) hnm
  refine .of_plain hd.plain hplain (registering_ternary_grammar d) hnm alignment_self hentries
    (by simpa using hstrays n) ?_ fun node => ?_
  · refine .skipBlanks_of_nil (hd _) hd.registering_ternary_blanks hnm ?_
    rintro i _ rfl
    rfl
  · rintro s s' hs hdepth
    rw [notify_of_nil (c := d.context text n) (hd _)]
    by_cases hmark : text[s.index]? = some '?'
    · exact .astray hmark
    -- without a question mark the plugin leaves the expression alone
    have hdone : notify .expressionDone node ((d.registering [.ternary]).context text m) s'
        = .ok node s' := by
      cases node with
      | none => exact notify_conditional_none hplain
      | some test =>
        by_cases hc : (d.registering [.ternary]).HasConditionals
        · refine (notify_conditional_eq_ok hplain hc).mpr (.inl ⟨?_, rfl, rfl⟩)
          show text[s'.index]? ≠ some '?'
          rw [show s'.index = s.index from hs]
          exact hmark
        · exact notify_of_nil (Classical.not_not.mp hc)
    rw [hdone]
    exact .ok hs hdepth

end Ternary

/-- **The conditional plugin is a conservative extension.**  Whatever a dialect without
callbacks parses, it parses to the same result with the plugin, as long as no unary operator
and no name starts or goes on with a question mark. -/
theorem parse_withConditionals {d : Dialect} (hd : d.HookFree)
    (hunary : ∀ op, d.grammar.isUnaryOp op → op.toList.head? ≠ some '?')
    (hname : ¬ d.grammar.isIdentifierPart '?') {text : String} {r : Option Expr}
    (h : d.parse text = some (.ok r)) :
    (d.registering [.ternary]).parse text = some (.ok r) := by
  have hlock := lockstep_ternary hd hunary hname text.toList.toArray
    (Nat.le_refl (budgetFor text.length))
  have hplain := hd.registering_ternary_plain
  -- a question mark is not the end of the text, so the run of the whole text is not astray
  have hastray (i : Nat) (hi : text.toList.toArray[i]? = some '?' ∨ False) :
      text.toList.toArray[i]? ≠ none := by
    rw [hi.resolve_right id]
    exact nofun
  have hprogram := hlock.program hastray
    (.notify_of_nil (hd _) hplain.start fun _ _ hi => hi)
    fun _ => .notify_of_nil (hd _) hplain.finish fun _ _ _ => trivial
  obtain ⟨s₁, hrun⟩ := Reply.eq_ok_of_outcome h
  obtain ⟨s₁', hrun', -⟩ :=
    hprogram.ok (s := .initial) (P := SamePlace) rfl rfl hrun id
  exact congrArg Reply.outcome? hrun'

/-- Optional links, and an operator that starts with a question mark. -/
theorem parse_withConditionals_optional :
    let d := standard.mapGrammar (·.addBinaryOp "??" 1 false)
    let e : Expr := .binary "??" (.member false (.identifier "a") (.identifier "b") (some true))
      (.array [some (.call (.identifier "c") [.identifier "d"] (some true))])
    d.HookFree ∧ (∀ op, d.grammar.isUnaryOp op → op.toList.head? ≠ some '?') ∧
      ¬ d.grammar.isIdentifierPart '?' ∧ d.parse "a?.b ?? [c ?. (d)]" = some (.ok (some e)) ∧
      (d.registering [.ternary]).parse "a?.b ?? [c ?. (d)]" = some (.ok (some e)) := by
  intro d e
  have hd : d.HookFree := fun p => by cases p <;> rfl
  have hunary : ∀ op, d.grammar.isUnaryOp op → op.toList.head? ≠ some '?' := by
    have hall : ∀ op ∈ d.grammar.unaryOps.members, op.toList.head? ≠ some '?' := by decide
    exact fun op hop => hall op (OrderedSet.contains_iff.mp hop)
  have hname : ¬ d.grammar.isIdentifierPart '?' := by decide
  have hparse : d.parse "a?.b ?? [c ?. (d)]" = some (.ok (some e)) :=
    parse_of_parsesAs (by decide +kernel) rfl
  exact ⟨hd, hunary, hname, hparse, parse_withConditionals hd hunary hname hparse⟩

end Dialect

end OperatorGrammar
