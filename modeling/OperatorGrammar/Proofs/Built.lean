/-
OperatorGrammar/Proofs/Built.lean

What holds of every tree that is read.

A tree is built from tokens by the productions, and a chain of operands becomes a
tree by joining two trees under one operator at a time.  So a property that the
tokens have, and that each way of joining trees keeps, holds of every tree that is
read (`Reads.built`).  The property may speak of the text, because the rest in
front of which a token stands is an end of it.
-/
import OperatorGrammar.Proofs.Reads
import OperatorGrammar.Proofs.Layout

namespace OperatorGrammar

/-- The tokens of the text have the property, and every production keeps it. -/
structure Dialect.BuildsOnly (d : Dialect) (text : List Char) (P : Expr → Prop) : Prop where
  number {start rest raw value} : start <:+ text → NumberToken d.grammar start raw value rest →
    P (.literal (.number value) raw)
  string {start rest raw value} : start <:+ text → StringToken start raw value rest →
    P (.literal (.string value) raw)
  name {start rest w} : d.grammar.lead start = .name → NameToken d.grammar start w rest →
    P (Lexeme.meaning d.grammar w)
  property {object w optional} : P object → d.grammar.IsName w → IsMark optional →
    P (.member false object (.identifier w) optional)
  index {object key optional} : P object → P key → IsMark optional →
    P (.member true object key optional)
  call {callee arguments optional} : P callee → (∀ e ∈ arguments, P e) → IsMark optional →
    P (.call callee arguments optional)
  unary {operator argument} : d.grammar.isUnaryOp operator → P argument →
    P (.unary operator argument true)
  binary {operator left right} : d.grammar.isBinaryOp operator → P left → P right →
    P (.binary operator left right)
  conditional {test consequent alternate} : d.HasConditionals → P test → P consequent →
    P alternate → P (.conditional test consequent alternate)
  array {elements} : (∀ e, some e ∈ elements → P e) → P (.array elements)
  sequence {expressions} : 2 ≤ expressions.length → (∀ e ∈ expressions, P e) →
    P (.sequence expressions)

variable {d : Dialect} {text : List Char} {P : Expr → Prop}

/-! ### Chains -/

/-- The operators of a chain are registered, and its later operands have the property. -/
def BuiltPairs (d : Dialect) (P : Expr → Prop) (pairs : List (BinaryOp × Expr)) : Prop :=
  ∀ p ∈ pairs, d.grammar.isBinaryOp p.1.symbol ∧ P p.2

/-- Whatever tree a chain becomes. -/
theorem Layout.built_expr (hP : d.BuildsOnly text P) {T : Layout} (hfirst : P T.first)
    (hrest : BuiltPairs d P T.rest) : P T.expr := by
  induction T with
  | operand e => exact hfirst
  | node op left right ihl ihr =>
    have hmem : ∀ p, p ∈ (Layout.node op left right).rest ↔
        p ∈ left.rest ∨ p = (op, right.first) ∨ p ∈ right.rest := by
      intro p
      simp [Layout.rest]
    have hroot := hrest (op, right.first) ((hmem _).mpr (.inr (.inl rfl)))
    refine hP.binary hroot.1 (ihl hfirst ?_) (ihr hroot.2 ?_)
    · exact fun p hp => hrest p ((hmem p).mpr (.inl hp))
    · exact fun p hp => hrest p ((hmem p).mpr (.inr (.inr hp)))

theorem Chain.built_tree (hP : d.BuildsOnly text P) {first : Expr}
    {pairs : List (BinaryOp × Expr)} (hfirst : P first) (hpairs : BuiltPairs d P pairs) :
    P (Chain.tree first pairs) := by
  rw [← Chain.layout_expr]
  refine Layout.built_expr hP ?_ ?_
  · rwa [Chain.layout_first]
  · rwa [Chain.layout_rest]

/-! ### Lists -/

theorem Expr.built_bundle (hP : d.BuildsOnly text P) {nodes : List Expr} {node : Expr}
    (hnodes : ∀ e ∈ nodes, P e) (h : bundle .sequence nodes = some node) : P node := by
  rcases nodes with - | ⟨e, - | ⟨e', es⟩⟩
  · cases h
  · cases h
    exact hnodes _ List.mem_cons_self
  · cases h
    exact hP.sequence (by simp) hnodes

/-- The filled slots hold trees with the property. -/
def Slots.Built (P : Expr → Prop) (s : Slots) : Prop :=
  ∀ e, some e ∈ s.items.toList → P e

namespace Slots

variable {s : Slots}

theorem built_comma {kind : ListKind} {next : Slots} (h : s.Built P)
    (hnext : s.comma kind = some next) : next.Built P := by
  unfold comma at hnext
  by_cases hfull : s.commas + 1 = s.items.size
  · simp only [hfull, if_true, Option.some.injEq] at hnext
    subst hnext
    exact h
  · simp only [hfull, if_false] at hnext
    cases kind with
    | arguments => cases hnext
    | elements =>
      simp only [Option.some.injEq] at hnext
      subst hnext
      intro e he
      -- a slot that was not there before is a hole
      have hmem : some e ∈ s.items.toList.take (s.commas + 1) := by
        simpa [resize] using he
      exact h e (List.mem_of_mem_take hmem)

theorem built_fill {e : Expr} (h : s.Built P) (he : P e) : (s.fill e).Built P := by
  intro e' he'
  have hmem : some e' ∈ s.items.toList ∨ e' = e := by simpa [fill] using he'
  rcases hmem with hmem | rfl
  · exact h e' hmem
  · exact he

end Slots

/-! ### Every reading -/

/-- What a phrase answers has the property, when what it goes on from has it. -/
def Phrase.Built (d : Dialect) (P : Expr → Prop) : Phrase → Prop
  | .expression e => ∀ x ∈ e, P x
  | .chain e => ∀ x ∈ e, P x
  | .tail _ pairs => BuiltPairs d P pairs
  | .operand e => ∀ x ∈ e, P x
  | .links node e => P node → P e
  | .list _ before _ after => before.Built P → after.Built P
  | .items _ nodes => ∀ x ∈ nodes, P x

/-- **A property of the tokens that every production keeps holds of all that is read.** -/
theorem Reads.built (hP : d.BuildsOnly text P) {A : List SlotEvent → Prop} {p : Phrase}
    {input rest : List Char} (h : Reads d A p input rest) (hin : input <:+ text) :
    p.Built d P := by
  -- `input` stays an end of the text, so a token of `input` is a token of the text
  induction h with
  | expression hchain hskips _ ih => exact ih hin
  | conditional hchain hcond hskips hcons _ ih ih' ih'' =>
    have hmark := (List.suffix_cons _ _).trans (hskips.suffix.trans (hchain.suffix.trans hin))
    have hcolon := (List.suffix_cons _ _).trans (hcons.suffix.trans hmark)
    rintro x ⟨⟩
    exact hP.conditional hcond (ih hin _ rfl) (ih' hmark _ rfl) (ih'' hcolon _ rfl)
  | noChain _ _ =>
    intro x hx
    cases hx
  | chain hfirst _ ih ih' =>
    rintro x ⟨⟩
    exact Chain.built_tree hP (ih hin _ rfl) (ih' (hfirst.suffix.trans hin))
  | tailEnd _ _ =>
    intro p hp
    cases hp
  | tailPutBack _ _ _ =>
    intro p hp
    cases hp
  | tailOperator hskips hop _ he _ ih ih' =>
    obtain ⟨hknown, -, -⟩ := Grammar.binaryOpIn_sound hop
    have hafter := (List.suffix_append _ _).trans (hskips.suffix.trans hin)
    intro p hp
    rcases List.mem_cons.mp hp with rfl | hp
    · exact ⟨hknown, ih hafter _ rfl⟩
    · exact ih' (he.suffix.trans hafter) p hp
  | noOperand _ _ =>
    intro x hx
    cases hx
  | number hskips _ htoken =>
    rintro x ⟨⟩
    exact hP.number (hskips.suffix.trans hin) htoken
  | string hskips _ htoken _ ih =>
    have hstart := hskips.suffix.trans hin
    rintro x ⟨⟩
    exact ih (htoken.suffix.trans hstart) (hP.string hstart htoken)
  | array hskips hlist _ _ ih ih' =>
    have hinside := (List.suffix_cons _ _).trans (hskips.suffix.trans hin)
    have hslots := ih hinside fun e he => by cases he
    rintro x ⟨⟩
    exact ih' (hlist.suffix.trans hinside) (hP.array hslots)
  | unary hskips hlead _ ih =>
    obtain ⟨hknown, -, -⟩ := Grammar.unaryOpIn_sound (Grammar.unaryOpIn_of_lead hlead)
    have hafter := (List.suffix_append _ _).trans (hskips.suffix.trans hin)
    rintro x ⟨⟩
    exact hP.unary hknown (ih hafter _ rfl)
  | name hskips hlead htoken _ ih =>
    rintro x ⟨⟩
    exact ih (htoken.suffix.trans (hskips.suffix.trans hin)) (hP.name hlead htoken)
  | group hskips _ hitems hnode _ ih ih' =>
    have hinside := (List.suffix_cons _ _).trans (hskips.suffix.trans hin)
    have hnodes := ih hinside
    rintro x ⟨⟩
    exact ih' ((List.suffix_cons _ _).trans (hitems.suffix.trans hinside))
      (Expr.built_bundle hP hnodes hnode)
  | emptyGroup _ _ _ _ =>
    intro x hx
    cases hx
  | linksEnd _ _ => exact id
  | property hskips hopens hskips' htoken _ ih =>
    intro hnode
    have hnamed := hskips'.suffix.trans (hopens.suffix.trans (hskips.suffix.trans hin))
    -- the name behind a point need not be an operand: any valid name will do
    refine ih (htoken.suffix.trans hnamed) ?_
    rw [Expr.marked_link]
    exact hP.property hnode htoken.isName (Expr.isMark_optional _)
  | index hskips hopens hkey hskips' _ ih ih' =>
    intro hnode
    have hopened := hopens.suffix.trans (hskips.suffix.trans hin)
    have hafter := (List.suffix_cons _ _).trans (hskips'.suffix.trans (hkey.suffix.trans hopened))
    refine ih' hafter ?_
    rw [Expr.marked_link]
    exact hP.index hnode (ih hopened _ rfl) (Expr.isMark_optional _)
  | call hskips hopens hlist _ ih ih' =>
    intro hnode
    have hopened := hopens.suffix.trans (hskips.suffix.trans hin)
    have hslots := ih hopened fun e he => by cases he
    refine ih' (hlist.suffix.trans hopened) ?_
    rw [Expr.marked_apply]
    refine hP.call hnode ?_ (Expr.isMark_optional _)
    intro e he
    rw [List.mem_filterMap] at he
    obtain ⟨slot, hslot, rfl⟩ := he
    exact hslots e hslot
  | listEnd _ _ => exact id
  | listComma hskips hnext _ ih =>
    intro hbefore
    exact ih ((List.suffix_cons _ _).trans (hskips.suffix.trans hin))
      (Slots.built_comma hbefore hnext)
  | listFill hskips _ _ _ he _ _ ih ih' =>
    intro hbefore
    have hstart := hskips.suffix.trans hin
    exact ih' (he.suffix.trans hstart) (Slots.built_fill hbefore (ih hstart _ rfl))
  | itemsEnd _ =>
    intro x hx
    cases hx
  | itemsSeparator hskips _ _ ih =>
    exact ih ((List.suffix_cons _ _).trans (hskips.suffix.trans hin))
  | item hskips _ he _ ih ih' =>
    have hstart := hskips.suffix.trans hin
    intro x hx
    rcases List.mem_cons.mp hx with rfl | hx
    · exact ih hstart _ rfl
    · exact ih' (he.suffix.trans hstart) x hx
  | itemsStop _ _ _ _ _ =>
    intro x hx
    cases hx

end OperatorGrammar
