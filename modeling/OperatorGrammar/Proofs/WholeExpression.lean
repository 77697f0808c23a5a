/-
OperatorGrammar/Proofs/WholeExpression.lean

Texts that are one expression from start to end.

A text is an expression for a node when reading an expression from its start
answers the node and stops at its end (`Dialect.IsExpression`).  Parsing then
answers the same node.  With the standard tables such a text can be used as a part
of a longer one: white space may stand around it, and what closes an expression
may stand behind it (`Dialect.IsExpression.inFront`).
-/
import OperatorGrammar.Proofs.InFront
import OperatorGrammar.Proofs.Parenthesised
import OperatorGrammar.Proofs.Sameness

namespace OperatorGrammar

variable {d : Dialect} {A : List SlotEvent → Prop} {e : Expr} {text : String}
  {input rest k : List Char}

/-- The text is an expression for the node: reading an expression from its start answers the node
and stops at its end. -/
def Dialect.IsExpression (d : Dialect) (text : String) (e : Expr) : Prop :=
  ∃ s, d.run text.toList.toArray (budgetFor text.length) .expression .initial = .ok (some e) s ∧
    s.index = text.length

namespace Dialect

theorem IsExpression.reads (hd : d.Plain) (h : d.IsExpression text e) :
    Reads d AnyArray (.expression (some e)) text.toList [] := by
  obtain ⟨s, hrun, hindex⟩ := h
  let c := d.context text.toList.toArray (budgetFor text.length)
  have henter : c.enter .expression .initial = .ok (some e) s := hrun
  have hend : restAt c.text s.index = [] := by
    rw [hindex, restAt, ← String.length_toList]
    exact List.drop_length
  have hreads : Reads d AnyArray (.expression (some e)) text.toList (restAt c.text s.index) :=
    (context_sound hd text.toList.toArray (budgetFor text.length)).expression henter
  rwa [hend] at hreads

theorem isExpression_of_reads (hd : d.Plain) (hlimit : d.grammar.nestingLimit = none)
    (h : Reads d A (.expression (some e)) text.toList []) : d.IsExpression text e := by
  have hlength : text.toList.length = text.length := String.length_toList
  obtain ⟨n, hn⟩ : ∃ n, budgetFor text.length = n + 1 := ⟨budgetFor text.length - 1, rfl⟩
  have hbudget : 2 * text.toList.length + 3 ≤ n := by
    rw [budgetFor] at hn
    omega
  have htakes : Reading.Takes (d.context text.toList.toArray n) Reading.expression text.toList
      (some e) [] := h.taken hd hlimit n hbudget
  obtain ⟨hrun, -⟩ := htakes.run_eq (s := .initial) (Nat.zero_le _)
  refine ⟨State.initial.placed text.toList.toArray [], ?_, ?_⟩
  · rw [hn]
    exact hrun
  · simpa [State.placed] using hlength

end Dialect

/-- A concrete text is an expression when reading it answers the same node. -/
theorem Dialect.isExpression_of_answers (depth : Nat) (he : e.numberless)
    (h : (d.run text.toList.toArray (budgetFor text.length) .expression .initial).answers e
      text.length depth) : d.IsExpression text e :=
  ⟨_, Reply.eq_of_answers h he, rfl⟩

/-! ### Pieces of a reading -/

/-- Nothing more can be skipped where skipping stops. -/
theorem Skips.again {comments : Prop} (h : Skips comments input rest) :
    Skips comments rest rest := by
  induction h with
  | stop hhead hno => exact .stop hhead hno
  | blank _ _ ih => exact ih
  | comment _ _ _ ih => exact ih

/-- An expression ends behind its white space. -/
theorem Reads.expression_again {e : Option Expr} (h : Reads d A (.expression e) input rest) :
    Skips d.HasComments rest rest := by
  generalize hp : Phrase.expression e = p at h
  induction h generalizing e with
  | expression _ hskips _ _ => exact hskips.again
  | conditional _ _ _ _ _ _ _ ih =>
    cases hp
    exact ih rfl
  | _ => cases hp

/-- Behind its white space an expression starts with an operand. -/
theorem Reads.expression_starts (h : Reads d A (.expression (some e)) input rest)
    (hc : ¬ d.HasComments) : ∃ ch more, input.dropWhile Grammar.isBlank = ch :: more ∧
      d.grammar.lead (ch :: more) ≠ .nothing ∧
      Reads d A (.expression (some e)) (ch :: more) rest := by
  have hstart {start : List Char}
      (h : Skips d.HasComments (input.dropWhile Grammar.isBlank) start) :
      start = input.dropWhile Grammar.isBlank :=
    (h.eq_dropWhile hc).trans (dropWhile_isBlank_of_head (head?_dropWhile_run input))
  have hread : Reads d A (.expression (some e)) (input.dropWhile Grammar.isBlank) rest := by
    refine h.expression_of_skips fun start hskips => ?_
    rw [hskips.eq_dropWhile hc]
    exact (skips_dropWhile hc input).again
  have hlead : d.grammar.lead (input.dropWhile Grammar.isBlank) ≠ .nothing := fun hlead => by
    cases (hread.expression_of_nothing (fun _ => hstart) hlead).1
  rcases hcons : input.dropWhile Grammar.isBlank with - | ⟨ch, more⟩
  · rw [hcons] at hlead
    exact absurd rfl hlead
  · rw [hcons] at hlead hread
    exact ⟨ch, more, rfl, hlead, hread⟩

/-- A text that is an expression is one in front of a text that halts it, too. -/
theorem Reads.expression_inFront (h : Reads d A (.expression (some e)) input [])
    (hc : ¬ d.HasComments) (hk : d.grammar.Halts k)
    (hmark : d.HasConditionals → (k.dropWhile Grammar.isBlank).head? ≠ some '?') :
    Reads d A (.expression (some e)) (input ++ k) (k.dropWhile Grammar.isBlank) := by
  obtain ⟨rest', hrest, hread⟩ := h.inFront hc hk (fun _ => hmark) (.behind input)
  cases hrest with
  | behind =>
    have hstop : k = k.dropWhile Grammar.isBlank := hread.expression_again.eq_dropWhile hc
    rw [← hstop]
    exact hread
  | skipped => exact hread

/-! ### With the standard tables -/

/-- White space and punctuation that is in no operator and no number ends every token. -/
theorem Grammar.breaks_of_mem {ch : Char} (hch : ch ∈ Grammar.blanks ++ '?' :: closers) :
    Grammar.unbounded.Breaks ch := by
  have hall : ∀ ch ∈ Grammar.blanks ++ '?' :: closers, ch ∈ Grammar.punctuation ∧
      ch ∉ Grammar.marks ∧ ch ≠ '.' ∧ ¬ (ch = '+' ∨ ch = '-') := forall_mem_of_all (by decide)
  obtain ⟨hpunctuation, hmarks, hpoint, hsign⟩ := hall ch hch
  refine ⟨Grammar.not_isIdentifierPart hpunctuation, hpoint, hsign, ?_, ?_⟩
  · exact fun op hop hmem => hmarks ((Grammar.unaryOp_marks hop).2 ch (List.mem_of_mem_tail hmem))
  · exact fun op hop hmem => hmarks ((Grammar.binaryOp_marks hop).2 ch (List.mem_of_mem_tail hmem))

/-- What closes a rendered tree halts whatever is read. -/
theorem Closes.halts (hk : Closes k) : Grammar.unbounded.Halts k where
  breaks := by
    intro ch hch
    refine Grammar.breaks_of_mem ?_
    rcases k with - | ⟨first, more⟩
    · cases hch
    cases hch
    by_cases hblank : Grammar.isBlank ch
    · exact List.mem_append_left _ (Grammar.isBlank_iff.mp hblank)
    · refine List.mem_append_right _ (List.mem_cons_of_mem _ (hk ch ?_))
      rw [List.dropWhile_cons_of_neg hblank]
      rfl
  lead := by
    rcases hcons : k.dropWhile Grammar.isBlank with - | ⟨ch, more⟩
    · rfl
    · exact Grammar.lead_of_mem (List.mem_cons_of_mem _ (hk ch (by rw [hcons]; rfl)))
  operator := hk.binaryOpIn
  links := hk.endsLinks

theorem Closes.blankRun {run : List Char} (hrun : BlankRun run) (hk : Closes k) :
    Closes (run ++ k) := by
  rw [Closes, hrun.dropWhile]
  exact hk

namespace Dialect.IsExpression

variable (hd : d.Plain) (hc : ¬ d.HasComments) (hg : d.grammar = Grammar.unbounded)
include hd hc hg

/-- The text is an expression in front of whatever closes it. -/
theorem inFront (h : d.IsExpression text e) (hk : Closes k) :
    Reads d AnyArray (.expression (some e)) (text.toList ++ k) (k.dropWhile Grammar.isBlank) :=
  (h.reads hd).expression_inFront hc (hg ▸ hk.halts) fun _ => hk.head_ne_question

/-- With white space around it, the text is an expression in front of a closing character. -/
theorem padded {before after : List Char} {ch : Char} (h : d.IsExpression text e)
    (hbefore : BlankRun before) (hafter : BlankRun after) (hch : ch ∈ closers) :
    Reads d AnyArray (.expression (some e)) (before ++ (text.toList ++ (after ++ ch :: k)))
      (ch :: k) := by
  have hall : ∀ ch ∈ closers, ¬ Grammar.isBlank ch := forall_mem_of_all (by decide)
  have hread := h.inFront hd hc hg (k := after ++ ch :: k) (.blankRun hafter (.cons hch))
  rw [hafter.dropWhile, List.dropWhile_cons_of_neg (hall ch hch)] at hread
  exact hread.expression_of_skips fun _ => hbefore.skips

/-- Parsing answers what the text is an expression for. -/
theorem parse (h : d.IsExpression text e) : d.parse text = some (.ok (some e)) := by
  obtain ⟨ch, more, hcons, hlead, hread⟩ := (h.reads hd).expression_starts hc
  have hskips : Skips d.HasComments text.toList (ch :: more) := hcons ▸ skips_dropWhile hc _
  have hseparator : ¬ (ch = ';' ∨ ch = ',') := by
    intro hch
    have hmem : ch ∈ '?' :: closers := by rcases hch with rfl | rfl <;> decide
    exact hlead (hg ▸ Grammar.lead_of_mem hmem)
  have hnil : Skips d.HasComments [] [] := skips_dropWhile hc []
  exact parse_of_reads hd (hg ▸ rfl) (.item hskips hseparator hread (.itemsEnd hnil))

end Dialect.IsExpression

end OperatorGrammar
