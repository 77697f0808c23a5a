/-
OperatorGrammar/Proofs/Grouping.lean

A text between parentheses is read as it is read alone.

The loop that reads a whole text to its end is the one that reads a group up to
its closing parenthesis.  White space ends there, no operand starts there, and no
operator, number or name goes on with it, so a reading that may end with the text
may as well end in front of the parenthesis (`Reads.inFront`).  Readings have no
nesting limit, so the two levels around the text cost nothing.

Main result: `Dialect.parse_grouped`.
-/
import OperatorGrammar.Proofs.InFront
import OperatorGrammar.Proofs.ReadsComplete
import OperatorGrammar.Proofs.Sameness
import OperatorGrammar.Proofs.TopLevel

namespace OperatorGrammar

variable {g : Grammar} {input more : List Char}

/-! ### Parentheses -/

theorem lead_open (hopen : g.Spares '(') : g.lead ('(' :: more) = .group := by
  have hstart := (hopen.breaks (by decide) (by decide)).start
  simp [Grammar.lead, Grammar.isDigit, Grammar.unaryOpIn_eq_none_of_head hopen.unary_head, hstart]

/-- Nothing that is read goes on with a closing parenthesis. -/
theorem Grammar.Spares.halts_close (hclose : g.Spares ')') : g.Halts (')' :: more) where
  breaks := by
    rintro _ ⟨⟩
    exact hclose.breaks (by decide) (by decide)
  lead := Grammar.lead_eq_nothing hclose.name hclose.unary_head (by decide)
  operator := Grammar.binaryOpIn_eq_none_of_head hclose.binary_head
  links := .of_head (by
    rintro _ ⟨⟩
    exact ⟨rfl, by decide⟩)

/-! ### The text as a group -/

/-- The nodes of a text are those of a group around it, which is at most one node. -/
theorem Reads.grouped {d : Dialect} {A : List SlotEvent → Prop} (hd : d.HookFree)
    (hclose : d.grammar.Spares ')') (hopen : d.grammar.Spares '(') {nodes : List Expr}
    (h : Reads d A (.items none nodes) input []) :
    Reads d A (.items none (Expr.bundle .sequence nodes).toList) ('(' :: (input ++ [')'])) [] := by
  have hc := hd.not_hasComments
  have hnil : Skips d.HasComments [] [] := skips_dropWhile hc []
  have hparen : Skips d.HasComments ('(' :: (input ++ [')'])) ('(' :: (input ++ [')'])) :=
    skips_nothing hc (by simp [Grammar.isBlank])
  have hinside : Reads d A (.items (some ')') nodes) (input ++ [')']) [')'] := by
    have hends : (Phrase.items none nodes).EndsAt d.HasConditionals [')'] := by
      refine ⟨fun h => absurd h hd.not_hasConditionals, ?_⟩
      rintro _ ⟨⟩
      decide
    obtain ⟨rest', hrest, hread⟩ := h.inFront hc hclose.halts_close (fun _ => hends)
      (.behind input)
    cases hrest with
    | behind => exact hread
    | skipped => exact hread
  cases hnodes : Expr.bundle .sequence nodes with
  | none =>
    obtain rfl : nodes = [] := by
      rcases nodes with - | ⟨e, - | ⟨e', nodes⟩⟩
      · rfl
      · cases hnodes
      · cases hnodes
    have hoperand := Reads.emptyGroup hparen (lead_open hopen) hinside
    exact .itemsStop hparen (by decide) (.expression (.noChain hoperand) hnil nofun) (.inl rfl)
  | some e =>
    have hends : EndsLinks [] := .of_head nofun
    have hoperand := Reads.group hparen (lead_open hopen) hinside hnodes (.linksEnd hnil hends)
    have hchain := hoperand.lone hnil Grammar.binaryOpIn_nil
    have hexpression : Reads d A (.expression (some e)) ('(' :: (input ++ [')'])) [] :=
      .expression hchain hnil fun _ h => absurd h hd.not_hasConditionals
    exact .item hparen (by decide) hexpression (.itemsEnd hnil)

/-! ### Parsing between parentheses -/

namespace Expr

/-- What a result becomes between parentheses: several top-level expressions are a sequence. -/
def grouped : Option Expr → Option Expr
  | some (.compound body) => some (.sequence body)
  | e => e

theorem grouped_some {e : Expr} (h : ¬ e.isCompound) : grouped (some e) = some e := by
  cases e with
  | compound body => exact absurd rfl h
  | _ => rfl

theorem grouped_bundle {nodes : List Expr} (h : ∀ e ∈ nodes, ¬ e.isCompound) :
    grouped (bundle .compound nodes) = bundle .sequence nodes := by
  rcases nodes with - | ⟨e, - | ⟨e', es⟩⟩
  · rfl
  · exact grouped_some (h e List.mem_cons_self)
  · rfl

/-- A group is one top-level expression, or none. -/
theorem bundle_toList_sequence {nodes : List Expr} :
    bundle .compound (bundle .sequence nodes).toList = bundle .sequence nodes := by
  cases bundle .sequence nodes <;> rfl

end Expr

namespace Dialect

/-- **Parentheses are transparent.**  Without callbacks and without a nesting limit, a text that
is parsed is parsed between parentheses, too: to nothing when it was nothing, to a sequence when
it was a list of several top-level expressions, and to the same node otherwise. -/
theorem parse_grouped {d : Dialect} (hd : d.HookFree) (hlimit : d.grammar.nestingLimit = none)
    (hopen : d.grammar.Spares '(') (hclose : d.grammar.Spares ')') {text : String}
    {r : Option Expr} (h : d.parse text = some (.ok r)) :
    d.parse ("(" ++ text ++ ")") = some (.ok (Expr.grouped r)) := by
  obtain ⟨nodes, rfl, hreads⟩ := parse_reads hd.plain h
  have hgroup := hreads.grouped hd hclose hopen
  have htext : ("(" ++ text ++ ")").toList = '(' :: (text.toList ++ [')']) := by simp
  rw [← htext] at hgroup
  rw [parse_of_reads hd.plain hlimit hgroup, Expr.bundle_toList_sequence,
    Expr.grouped_bundle hreads.notCompound]

/-- Two expressions, the first a string that holds a parenthesis, become a sequence. -/
theorem parse_grouped_sequence :
    let d := standard.mapGrammar (·.setNestingLimit none)
    let body : List Expr := [.quoted ")", .signed "-" (.identifier "a")]
    d.HookFree ∧ d.grammar.nestingLimit = none ∧ d.grammar.Spares '(' ∧ d.grammar.Spares ')' ∧
      d.parse "')', -a" = some (.ok (some (.compound body))) ∧
      d.parse ("(" ++ "')', -a" ++ ")") = some (.ok (some (.sequence body))) := by
  intro d body
  have hd : d.HookFree := fun p => by cases p <;> rfl
  have hopen : d.grammar.Spares '(' := by decide
  have hclose : d.grammar.Spares ')' := by decide
  have hparse : d.parse "')', -a" = some (.ok (some (.compound body))) :=
    parse_of_parsesAs (by decide +kernel) rfl
  exact ⟨hd, rfl, hopen, hclose, hparse, parse_grouped hd rfl hopen hclose hparse⟩

end Dialect

end OperatorGrammar
