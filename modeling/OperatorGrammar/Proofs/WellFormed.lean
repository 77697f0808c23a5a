/-
OperatorGrammar/Proofs/WellFormed.lean

Every tree that is read is well formed.

A well-formed tree uses only what the tables have: its operators are registered,
its names are names and nothing else, its constants are tokens of the text or
named literals.  A list of several top-level expressions stands at the root or
nowhere, and a conditional only where the conditional plugin was applied.

That a name is no unary operator takes the most: a name is read only where no
unary operator was found, and then the longest name that stands there is taken.
Were it an operator, the scan for operators would have tried its length, because
the carried length is right, and found it, because nothing runs into it.

Main result: `Dialect.parse_wellFormed`.
-/
import OperatorGrammar.Proofs.Built
import OperatorGrammar.Proofs.Reachable
import OperatorGrammar.Proofs.ReadsSound

namespace OperatorGrammar

/-! ### Well-formed trees -/

/-- A tree that can stand inside a tree read from a text. -/
inductive Expr.WellFormed (d : Dialect) (text : List Char) : Expr → Prop
  /-- A name that stands for itself. -/
  | identifier {w} : d.grammar.IsName w → d.grammar.literal? w = none →
      w ≠ d.grammar.receiverKeyword → ¬ d.grammar.isUnaryOp w → WellFormed d text (.identifier w)
  /-- A number of the text. -/
  | number {raw value start rest} : start <:+ text → NumberToken d.grammar start raw value rest →
      WellFormed d text (.literal (.number value) raw)
  /-- A string of the text. -/
  | string {raw value start rest} : start <:+ text → StringToken start raw value rest →
      WellFormed d text (.literal (.string value) raw)
  /-- A name that stands for a value. -/
  | named {w value} : d.grammar.literal? w = some value → WellFormed d text (.literal value w)
  | receiver : WellFormed d text .receiver
  /-- Behind a point any name may stand. -/
  | property {object w optional} : WellFormed d text object → d.grammar.IsName w →
      IsMark optional → WellFormed d text (.member false object (.identifier w) optional)
  | index {object key optional} : WellFormed d text object → WellFormed d text key →
      IsMark optional → WellFormed d text (.member true object key optional)
  | call {callee arguments optional} : WellFormed d text callee →
      (∀ e ∈ arguments, WellFormed d text e) → IsMark optional →
      WellFormed d text (.call callee arguments optional)
  | unary {operator argument} : d.grammar.isUnaryOp operator → WellFormed d text argument →
      WellFormed d text (.unary operator argument true)
  | binary {operator left right} : d.grammar.isBinaryOp operator → WellFormed d text left →
      WellFormed d text right → WellFormed d text (.binary operator left right)
  | conditional {test consequent alternate} : Ternary.name ∈ d.plugins.members →
      WellFormed d text test → WellFormed d text consequent → WellFormed d text alternate →
      WellFormed d text (.conditional test consequent alternate)
  | array {elements} : (∀ e, some e ∈ elements → WellFormed d text e) →
      WellFormed d text (.array elements)
  | sequence {expressions} : 2 ≤ expressions.length → (∀ e ∈ expressions, WellFormed d text e) →
      WellFormed d text (.sequence expressions)

/-- The tree of a whole text: one well-formed tree, or a list of at least two. -/
def Expr.WellFormedRoot (d : Dialect) (text : List Char) (e : Expr) : Prop :=
  e.WellFormed d text ∨ ∃ body, e = .compound body ∧ 2 ≤ body.length ∧
    ∀ e ∈ body, e.WellFormed d text

variable {d : Dialect} {text : List Char}

/-! ### Names -/

/-- The longest name at a place where no unary operator is found is none. -/
theorem NameToken.not_isUnaryOp {g : Grammar} (hg : g.Counted) {input rest : List Char}
    {w : String} (h : NameToken g input w rest) (hnone : g.unaryOpIn input = none) :
    ¬ g.isUnaryOp w := by
  intro hknown
  obtain ⟨first, more, hw, -, -⟩ := h.isName
  have hne : w.toList ≠ [] := by
    rw [hw]
    exact List.cons_ne_nil _ _
  have hbound := hg.length_le_unary (OrderedSet.contains_iff.mp hknown)
  refine Grammar.unaryOpIn_complete hnone hknown hne hbound h.split ?_
  -- nothing that goes on with a name follows
  intro _ hnext
  rcases hhead : rest.head? with - | ch
  · simp [hhead] at hnext
  · rw [hhead] at hnext
    exact h.maximal ch hhead hnext

namespace Expr

theorem wellFormed_meaning (hg : d.grammar.Counted) {input rest : List Char} {w : String}
    (htoken : NameToken d.grammar input w rest) (hnone : d.grammar.unaryOpIn input = none) :
    (Lexeme.meaning d.grammar w).WellFormed d text := by
  rw [Lexeme.meaning]
  rcases hliteral : d.grammar.literal? w with - | value
  · simp only []
    by_cases hkeyword : w = d.grammar.receiverKeyword
    · rw [if_pos hkeyword]
      exact .receiver
    · rw [if_neg hkeyword]
      exact .identifier htoken.isName hliteral hkeyword (htoken.not_isUnaryOp hg hnone)
  · exact .named hliteral

theorem wellFormedRoot_bundle {nodes : List Expr} {node : Expr}
    (hnodes : ∀ e ∈ nodes, e.WellFormed d text) (h : bundle .compound nodes = some node) :
    node.WellFormedRoot d text := by
  rcases nodes with - | ⟨e, - | ⟨e', es⟩⟩
  · cases h
  · cases h
    exact .inl (hnodes _ List.mem_cons_self)
  · cases h
    exact .inr ⟨_, rfl, by simp, hnodes⟩

end Expr

/-! ### Every reading is well formed -/

theorem Dialect.Bundled.buildsOnly_wellFormed (hd : d.Bundled) :
    d.BuildsOnly text (Expr.WellFormed d text) where
  number := .number
  string := .string
  name hlead htoken :=
    Expr.wellFormed_meaning hd.counted htoken (Grammar.unaryOpIn_of_lead_name hlead)
  property := .property
  index := .index
  call := .call
  unary := .unary
  binary := .binary
  conditional hcond := .conditional (hd.ternary hcond)
  array := .array
  sequence := .sequence

theorem Reads.wellFormed (hd : d.Bundled) {A : List SlotEvent → Prop} {p : Phrase}
    {input rest : List Char} (h : Reads d A p input rest) (hin : input <:+ text) :
    p.Built d (Expr.WellFormed d text) :=
  h.built hd.buildsOnly_wellFormed hin

/-- **Every tree that is parsed is well formed**, for every dialect that a configuration
without callbacks of its own can reach. -/
theorem Dialect.parse_wellFormed (hd : d.Reachable) {text : String} {ast : Expr}
    (h : d.parse text = some (.ok (some ast))) : ast.WellFormedRoot d text.toList := by
  obtain ⟨nodes, hast, hreads⟩ := parse_reads hd.bundled.plain h
  have hnodes := hreads.wellFormed hd.bundled List.suffix_rfl
  exact Expr.wellFormedRoot_bundle hnodes hast.symm

/-- With the conditional plugin applied, a property that is no operand: `-a.this`. -/
theorem Dialect.parse_wellFormed_keyword :
    let d := (Session.standard.configured [.registerPlugins [.ternary]]).dialect
    let ast : Expr := .signed "-" (.link (.identifier "a") (.identifier "this") false)
    d.Reachable ∧ d.parse "-a.this" = some (.ok (some ast)) ∧
      ast.WellFormedRoot d "-a.this".toList := by
  intro d ast
  have hd : d.Reachable :=
    ⟨[.registerPlugins [.ternary]], ⟨⟨.inl rfl, trivial⟩, trivial⟩, rfl⟩
  have hparse : d.parse "-a.this" = some (.ok (some ast)) :=
    parse_of_parsesAs (by decide +kernel) rfl
  exact ⟨hd, hparse, parse_wellFormed hd hparse⟩

end OperatorGrammar
