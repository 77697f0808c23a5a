/-
OperatorGrammar/Proofs/Parenthesised.lean

Parsing undoes full parenthesisation.

A tree is written with every part of it in parentheses (`Expr.render`), and the
text is read with the standard tables and the conditional plugin.  The reading is
built along the tree.  A part `(e)` is always an operand, so the operators,
brackets and marks around it never meet those inside; what a rendered tree needs
from the text behind it is only that nothing there goes on with it (`Closes`).

Main result: `Expr.parse_render`.
-/
import OperatorGrammar.Proofs.ReadsComplete
import OperatorGrammar.Proofs.Standard
import OperatorGrammar.Proofs.Reachable

namespace OperatorGrammar

/-! ### Rendering -/

/-- A text in parentheses. -/
def inParens (text : List Char) : List Char := '(' :: (text ++ [')'])

/-- How a link is opened, before a bracket or a parenthesis. -/
def optionalMark (optional : Option Bool) : List Char :=
  if optional = some true then ['?', '.'] else []

mutual

/-- A tree with each of its parts in parentheses. -/
@[simp] def Expr.render : Expr → List Char
  | .identifier name => name.toList
  | .literal _ raw => raw.toList
  | .receiver => "this".toList
  | .member true object key optional =>
    inParens object.render ++ optionalMark optional ++ '[' :: (inParens key.render ++ [']'])
  | .member false object property optional =>
    inParens object.render ++ (if optional = some true then ['?', '.'] else ['.']) ++
      property.render
  | .call callee arguments optional =>
    inParens callee.render ++ optionalMark optional ++
      inParens (Expr.renderList ',' arguments)
  | .unary operator argument _ => operator.toList ++ inParens argument.render
  | .binary operator left right =>
    inParens left.render ++ ' ' :: (operator.toList ++ ' ' :: inParens right.render)
  | .conditional test consequent alternate =>
    inParens test.render ++ ' ' :: '?' :: ' ' :: (inParens consequent.render ++
      ' ' :: ':' :: ' ' :: inParens alternate.render)
  | .array elements => '[' :: (Expr.renderSlots elements ++ [']'])
  | .sequence expressions => inParens (Expr.renderList ',' expressions)
  | .compound body => Expr.renderList ';' body

/-- Several trees, each in parentheses, with a separator and a space between them. -/
@[simp] def Expr.renderList (separator : Char) : List Expr → List Char
  | [] => []
  | [e] => inParens e.render
  | e :: e' :: es =>
    inParens e.render ++ separator :: ' ' :: Expr.renderList separator (e' :: es)

/-- Elements and holes with commas between them, and one more behind a hole at the end. -/
@[simp] def Expr.renderSlots : List (Option Expr) → List Char
  | [] => []
  | [none] => [',']
  | [some e] => inParens e.render
  | none :: slot :: slots => ',' :: ' ' :: Expr.renderSlots (slot :: slots)
  | some e :: slot :: slots =>
    inParens e.render ++ ',' :: ' ' :: Expr.renderSlots (slot :: slots)

end

/-! ### Trees that can be rendered -/

/-- The standard dialect with the conditional plugin and no nesting limit. -/
def Dialect.conditional : Dialect :=
  (Session.standard.configured [.registerPlugins [.ternary], .setNestingLimit none]).dialect

/-- The trees of the standard tables below a root. -/
inductive Expr.Renderable : Expr → Prop
  | identifier {w} : Dialect.conditional.grammar.IsName w → w ∉ Grammar.keywords →
      Renderable (.identifier w)
  /-- Any value between two quotes. -/
  | string {q body raw value} : IsQuote q → raw.toList = q :: (body ++ [q]) →
      Escaped q body value.toList → Renderable (.literal (.string value) raw)
  | number {raw value} : IsNumeral raw.toList → Decimal.read raw.toList = some value →
      Renderable (.literal (.number value) raw)
  | named {w value} : Dialect.conditional.grammar.literal? w = some value →
      Renderable (.literal value w)
  | receiver : Renderable .receiver
  | unary {operator argument} : Dialect.conditional.grammar.isUnaryOp operator →
      Renderable argument → Renderable (.unary operator argument true)
  | binary {operator left right} : Dialect.conditional.grammar.isBinaryOp operator →
      Renderable left → Renderable right → Renderable (.binary operator left right)
  | index {object key optional} : Renderable object → Renderable key → IsMark optional →
      Renderable (.member true object key optional)
  /-- Behind a point any name may stand, also a keyword. -/
  | property {object w optional} : Renderable object → Dialect.conditional.grammar.IsName w →
      IsMark optional → Renderable (.member false object (.identifier w) optional)
  | call {callee arguments optional} : Renderable callee → (∀ e ∈ arguments, Renderable e) →
      IsMark optional → Renderable (.call callee arguments optional)
  | conditional {test consequent alternate} : Renderable test → Renderable consequent →
      Renderable alternate → Renderable (.conditional test consequent alternate)
  | array {elements} : (∀ e, some e ∈ elements → Renderable e) → Renderable (.array elements)
  | sequence {expressions} : 2 ≤ expressions.length → (∀ e ∈ expressions, Renderable e) →
      Renderable (.sequence expressions)

/-- Every string can be written as a literal between either kind of quote. -/
theorem Expr.Renderable.escaped {q : Char} (hq : IsQuote q) (value : String) :
    Renderable (.literal (.string value) (String.ofList (q :: (escape q value.toList ++ [q])))) :=
  .string hq String.toList_ofList (Escaped.escape hq value.toList)

/-- A tree that may stand at the root: also a list of at least two. -/
def Expr.RenderableRoot (e : Expr) : Prop :=
  e.Renderable ∨ ∃ body, e = .compound body ∧ 2 ≤ body.length ∧ ∀ e ∈ body, e.Renderable

namespace Dialect

theorem conditional_plain : conditional.Plain := by
  have hreachable : conditional.Reachable :=
    ⟨[.registerPlugins [.ternary], .setNestingLimit none], ⟨⟨.inl rfl, trivial⟩, trivial, trivial⟩,
      rfl⟩
  exact hreachable.bundled.plain

theorem conditional_hasConditionals : conditional.HasConditionals := by
  intro h
  cases h

theorem conditional_not_hasComments : ¬ conditional.HasComments :=
  fun h => h rfl

end Dialect

/-! ### What stands behind a rendered tree -/

/-- The characters that close a tree. -/
def closers : List Char := [')', ']', ',', ';', ':']

/-- No operand starts with a closing character or a question mark. -/
theorem Grammar.lead_of_mem {ch : Char} {more : List Char} (hch : ch ∈ '?' :: closers) :
    Grammar.unbounded.lead (ch :: more) = .nothing := by
  have hall : ∀ ch ∈ '?' :: closers, ch ∈ Grammar.punctuation ∧ ch ∉ Grammar.marks ∧
      ch ∉ ['.', '\'', '"', '[', '('] := forall_mem_of_all (by decide)
  obtain ⟨hpunctuation, hmarks, hother⟩ := hall ch hch
  refine Grammar.lead_eq_nothing (Grammar.not_isIdentifierPart hpunctuation) ?_ hother
  intro op hop hhead
  exact hmarks ((Grammar.unaryOp_marks hop).2 ch (List.mem_of_head? hhead))

/-- Behind white space comes the end, a closing character or a separator: nothing that an
expression goes on with. -/
def Closes (k : List Char) : Prop :=
  ∀ ch ∈ (k.dropWhile Grammar.isBlank).head?, ch ∈ closers

namespace Closes

variable {k : List Char}

theorem cons {ch : Char} (hch : ch ∈ closers) : Closes (ch :: k) := by
  have hall : ∀ ch ∈ closers, ¬ Grammar.isBlank ch := forall_mem_of_all (by decide)
  intro ch' hch'
  rw [List.dropWhile_cons_of_neg (hall ch hch)] at hch'
  cases hch'
  exact hch

/-- White space in front changes nothing. -/
theorem cons_blank {ch : Char} (hch : Grammar.isBlank ch) (h : Closes k) : Closes (ch :: k) := by
  rw [Closes, List.dropWhile_cons_of_pos hch]
  exact h

theorem nil : Closes [] := by
  intro ch hch
  cases hch

theorem binaryOpIn (h : Closes k) :
    Dialect.conditional.grammar.binaryOpIn (k.dropWhile Grammar.isBlank) = none := by
  have hall : ∀ ch ∈ closers, ch ∉ Grammar.marks := forall_mem_of_all (by decide)
  exact Grammar.binaryOpIn_eq_none fun ch hch => hall ch (h ch hch)

theorem endsLinks (h : Closes k) : EndsLinks (k.dropWhile Grammar.isBlank) := by
  have hall : ∀ ch ∈ closers, LinkForm.ofChar? ch = none ∧ ch ≠ '?' :=
    forall_mem_of_all (by decide)
  exact .of_head fun ch hch => hall ch (h ch hch)

theorem head_ne_question (h : Closes k) : (k.dropWhile Grammar.isBlank).head? ≠ some '?' := by
  intro hhead
  have hmem := h '?' hhead
  revert hmem
  decide

/-- Nothing behind a word runs into it. -/
theorem head_mem (h : Closes k) : ∀ ch ∈ k.head?, ch ∈ Grammar.punctuation ∧ ch ≠ '.' := by
  have hall : ∀ ch ∈ closers, ch ∈ Grammar.punctuation ∧ ch ≠ '.' :=
    forall_mem_of_all (by decide)
  have hblank : ¬ Grammar.isBlank '.' := by decide
  intro ch hch
  cases k with
  | nil => cases hch
  | cons first more =>
    cases hch
    by_cases hfirst : Grammar.isBlank ch
    · refine ⟨Grammar.mem_punctuation_of_isBlank hfirst, ?_⟩
      rintro rfl
      exact hblank hfirst
    · refine hall ch (h ch ?_)
      rw [List.dropWhile_cons_of_neg hfirst]
      rfl

end Closes

/-! ### Pieces of a reading -/

section Pieces

variable {input k : List Char}

theorem skips_drop (k : List Char) :
    Skips Dialect.conditional.HasComments k (k.dropWhile Grammar.isBlank) :=
  skips_dropWhile Dialect.conditional_not_hasComments k

theorem skips_none (h : ∀ ch ∈ k.head?, ¬ Grammar.isBlank ch) :
    Skips Dialect.conditional.HasComments k k :=
  skips_nothing Dialect.conditional_not_hasComments h

theorem skips_inParens (text k : List Char) :
    Skips Dialect.conditional.HasComments (inParens text ++ k) (inParens text ++ k) :=
  skips_none (by simp [inParens, Grammar.isBlank])

theorem skips_space (h : Skips Dialect.conditional.HasComments input k) :
    Skips Dialect.conditional.HasComments (' ' :: input) k :=
  .blank (by decide) h

theorem skips_dropped (k : List Char) :
    Skips Dialect.conditional.HasComments (k.dropWhile Grammar.isBlank)
      (k.dropWhile Grammar.isBlank) :=
  skips_none (head?_dropWhile_run k)

theorem reads_linksEnd {e : Expr} (hk : Closes k) :
    Reads Dialect.conditional AnyArray (.links e e) k (k.dropWhile Grammar.isBlank) :=
  .linksEnd (skips_drop k) hk.endsLinks

/-- A chain in front of a text that closes it is an expression. -/
theorem reads_expression {e : Expr} (hk : Closes k)
    (h : Reads Dialect.conditional AnyArray (.chain (some e)) input
      (k.dropWhile Grammar.isBlank)) :
    Reads Dialect.conditional AnyArray (.expression (some e)) input
      (k.dropWhile Grammar.isBlank) :=
  .expression h (skips_dropped k) fun _ _ => hk.head_ne_question

/-- An operand with its links, in front of a text that closes it. -/
theorem reads_loneOperand {e : Expr} (hk : Closes k)
    (h : Reads Dialect.conditional AnyArray (.operand (some e)) input
      (k.dropWhile Grammar.isBlank)) :
    Reads Dialect.conditional AnyArray (.expression (some e)) input
      (k.dropWhile Grammar.isBlank) :=
  reads_expression hk (.lone h (skips_dropped k) hk.binaryOpIn)

theorem skips_parenthesis (k : List Char) :
    Skips Dialect.conditional.HasComments (')' :: k) (')' :: k) :=
  skips_none (by simp [Grammar.isBlank])

/-- A closing parenthesis ends a group. -/
theorem reads_itemsStop (h : Skips Dialect.conditional.HasComments input (')' :: k)) :
    Reads Dialect.conditional AnyArray (.items (some ')') []) input (')' :: k) := by
  have hnothing : Reads Dialect.conditional AnyArray (.expression none) (')' :: k) (')' :: k) :=
    .expression (.noChain (.noOperand (skips_parenthesis k) (Grammar.lead_of_mem (by decide))))
      (skips_parenthesis k) (by simp)
  exact .itemsStop h (by decide) hnothing (.inr ⟨')', rfl, rfl⟩)

end Pieces

/-! ### Trees that are read back -/

/-- The rendered tree is read back in front of whatever closes it. -/
structure Expr.ReadsBack (e : Expr) : Prop where
  starts : ∃ ch more, e.render = ch :: more ∧ ch ∉ Grammar.blanks ++ [';', ',']
  reads : ∀ k, Closes k → Reads Dialect.conditional AnyArray (.expression (some e))
    (e.render ++ k) (k.dropWhile Grammar.isBlank)

namespace Expr.ReadsBack

variable {e e' : Expr} {input k rest : List Char}

theorem head_not_blank (h : e.ReadsBack) :
    ∀ ch ∈ (e.render ++ k).head?, ¬ Grammar.isBlank ch := by
  obtain ⟨first, more, hrender, hfirst⟩ := h.starts
  intro ch hch
  rw [hrender] at hch
  cases hch
  exact fun hblank =>
    hfirst (List.mem_append_left [';', ','] (Grammar.isBlank_iff.mp hblank))

/-- The tree is an item in front of other items. -/
theorem item {closer : Option Char} {nodes : List Expr} (h : e.ReadsBack) (hk : Closes k)
    (hnodes : Reads Dialect.conditional AnyArray (.items closer nodes)
      (k.dropWhile Grammar.isBlank) rest) :
    Reads Dialect.conditional AnyArray (.items closer (e :: nodes)) (e.render ++ k) rest := by
  obtain ⟨first, more, hrender, hfirst⟩ := h.starts
  have hskips : Skips Dialect.conditional.HasComments (e.render ++ k) (e.render ++ k) :=
    skips_none h.head_not_blank
  have hread := h.reads k hk
  rw [hrender, List.cons_append] at hskips hread ⊢
  refine .item hskips ?_ hread hnodes
  rintro (rfl | rfl)
  · exact hfirst (by decide)
  · exact hfirst (by decide)

/-- In parentheses the tree is an operand, and links may follow. -/
theorem operand (h : e.ReadsBack)
    (hskips : Skips Dialect.conditional.HasComments input (inParens e.render ++ k))
    (hlinks : Reads Dialect.conditional AnyArray (.links e e') k rest) :
    Reads Dialect.conditional AnyArray (.operand (some e')) input rest := by
  have hsplit : inParens e.render ++ k = '(' :: (e.render ++ ')' :: k) := by
    simp [inParens]
  -- inside there is the tree and then nothing
  have hitems : Reads Dialect.conditional AnyArray (.items (some ')') [e])
      (e.render ++ ')' :: k) (')' :: k) :=
    h.item (.cons (by decide)) (reads_itemsStop (skips_parenthesis k))
  rw [hsplit] at hskips
  exact .group hskips Grammar.lead_group hitems rfl hlinks

/-- In parentheses the tree is an expression. -/
theorem parens (h : e.ReadsBack) (hk : Closes k)
    (hskips : Skips Dialect.conditional.HasComments input (inParens e.render ++ k)) :
    Reads Dialect.conditional AnyArray (.expression (some e)) input
      (k.dropWhile Grammar.isBlank) :=
  reads_loneOperand hk (h.operand hskips (reads_linksEnd hk))

end Expr.ReadsBack

/-! ### Lists of trees -/

/-- The space behind a separator, when something follows. -/
def spaceBefore {α : Type} : List α → List Char
  | [] => []
  | _ :: _ => [' ']

theorem skips_spaceBefore {α : Type} {l : List α} {text : List Char}
    (h : Skips Dialect.conditional.HasComments text text) :
    Skips Dialect.conditional.HasComments (spaceBefore l ++ text) text := by
  cases l with
  | nil => exact h
  | cons _ _ => exact skips_space h

namespace Expr

theorem renderSlots_hole (slots : List (Option Expr)) :
    renderSlots (none :: slots) = ',' :: (spaceBefore slots ++ renderSlots slots) := by
  cases slots with
  | nil => simp [spaceBefore]
  | cons _ _ => simp [spaceBefore]

theorem renderList_cons {separator : Char} (e : Expr) {es : List Expr} (h : es ≠ []) :
    renderList separator (e :: es)
      = inParens e.render ++ separator :: ' ' :: renderList separator es := by
  cases es with
  | nil => exact absurd rfl h
  | cons _ _ => simp

theorem renderSlots_cons (e : Expr) {slots : List (Option Expr)} (h : slots ≠ []) :
    renderSlots (some e :: slots) = inParens e.render ++ ',' :: ' ' :: renderSlots slots := by
  cases slots with
  | nil => exact absurd rfl h
  | cons _ _ => simp

/-- Without holes, slots are rendered as a list. -/
theorem renderSlots_map_some (es : List Expr) :
    renderSlots (es.map some) = renderList ',' es := by
  induction es with
  | nil => simp
  | cons e es ih =>
    rcases es with - | ⟨e', es⟩
    · simp
    · rw [renderList_cons e (List.cons_ne_nil e' es), ← ih]
      exact renderSlots_cons e (by simp)

theorem skips_renderList {separator : Char} {es : List Expr} (h : es ≠ []) {k : List Char} :
    Skips Dialect.conditional.HasComments (renderList separator es ++ k)
      (renderList separator es ++ k) := by
  rcases es with - | ⟨e, - | ⟨e', es⟩⟩
  · exact absurd rfl h
  · simp only [renderList]
    exact skips_inParens e.render k
  · rw [renderList_cons e (List.cons_ne_nil e' es), List.append_assoc]
    exact skips_inParens e.render _

/-- What rendered slots start with is not blank. -/
theorem head_renderSlots (slots : List (Option Expr)) {ch : Char} {k : List Char}
    (hch : ¬ Grammar.isBlank ch) :
    ∀ first ∈ (renderSlots slots ++ ch :: k).head?, ¬ Grammar.isBlank first := by
  have hcomma : ¬ Grammar.isBlank ',' := by decide
  have hparen : ¬ Grammar.isBlank '(' := by decide
  intro first hfirst
  rcases slots with - | ⟨- | e, slots⟩
  · cases hfirst
    exact hch
  · rw [renderSlots_hole] at hfirst
    cases hfirst
    exact hcomma
  · rcases slots with - | ⟨slot, slots⟩
    · cases hfirst
      exact hparen
    · rw [renderSlots_cons e (List.cons_ne_nil slot slots)] at hfirst
      cases hfirst
      exact hparen

end Expr

section Lists

variable {input k rest : List Char}

/-- A tree in parentheses fills a slot, when a comma or the closing character follows. -/
theorem reads_filled {kind : ListKind} {e : Expr} {before after : Slots} {events : List SlotEvent}
    {ch : Char} (he : e.ReadsBack) (hcompound : ¬ e.isCompound)
    (hbefore : before.items.size = before.commas) (hch : ch = ',' ∨ ch = kind.closer)
    (hskips : Skips Dialect.conditional.HasComments input (inParens e.render ++ ch :: k))
    (h : Reads Dialect.conditional AnyArray (.list kind (before.fill e) events after)
      (ch :: k) rest) :
    Reads Dialect.conditional AnyArray (.list kind before (.filled e :: events) after) input
      rest := by
  have hmem : ch ∈ closers ∧ ¬ Grammar.isBlank ch := by
    rcases hch with rfl | rfl
    · decide
    · cases kind <;> decide
  have hopen : '(' ≠ kind.closer := by cases kind <;> decide
  have hexpr : Reads Dialect.conditional AnyArray (.expression (some e))
      (inParens e.render ++ ch :: k) (ch :: k) := by
    have hread := he.parens (.cons hmem.1) (skips_inParens e.render (ch :: k))
    rwa [List.dropWhile_cons_of_neg hmem.2] at hread
  exact .listFill hskips hopen (by decide) (by simp [Slots.accepts, hbefore]) hexpr hcompound h

/-- In front of a slot there are as many slots as commas.  A call has no holes, and after a
comma one more argument. -/
theorem reads_slots {kind : ListKind} {slots : List (Option Expr)}
    (hslots : ∀ e, some e ∈ slots → e.ReadsBack ∧ ¬ e.isCompound) {before : Slots}
    (hbefore : before.items.size = before.commas)
    (hholes : kind = .arguments → none ∉ slots ∧ (slots = [] → before.commas = 0))
    (hskips : Skips Dialect.conditional.HasComments input
      (Expr.renderSlots slots ++ kind.closer :: k)) :
    ∃ events after, Reads Dialect.conditional AnyArray (.list kind before events after) input k ∧
      after.items.toList = before.items.toList ++ slots := by
  have hblank : ¬ Grammar.isBlank kind.closer := by cases kind <;> decide
  have hnext (slots : List (Option Expr)) : Skips Dialect.conditional.HasComments
      (Expr.renderSlots slots ++ kind.closer :: k) (Expr.renderSlots slots ++ kind.closer :: k) :=
    skips_none (Expr.head_renderSlots slots hblank)
  induction slots generalizing before input with
  | nil =>
    refine ⟨[], before, .listEnd hskips ?_, (List.append_nil _).symm⟩
    cases kind with
    | elements => rfl
    | arguments => simp [Slots.closable, (hholes rfl).2 rfl]
  | cons slot slots ih =>
    have hrest : ∀ e, some e ∈ slots → e.ReadsBack ∧ ¬ e.isCompound :=
      fun e he => hslots e (List.mem_cons_of_mem _ he)
    cases slot with
    | none =>
      have hkind : kind = .elements := by
        cases kind with
        | elements => rfl
        | arguments => exact absurd List.mem_cons_self (hholes rfl).1
      subst hkind
      obtain ⟨next, hstep, hsize, hitems⟩ := Slots.comma_hole hbefore
      rw [Expr.renderSlots_hole, List.cons_append, List.append_assoc] at hskips
      obtain ⟨events, after, hreads, hafter⟩ :=
        ih hrest hsize (by intro h; cases h) (skips_spaceBefore (hnext slots))
      refine ⟨_, after, .listComma hskips hstep hreads, ?_⟩
      rw [hafter, hitems, List.append_assoc]
      rfl
    | some e =>
      obtain ⟨hback, hcompound⟩ := hslots e List.mem_cons_self
      rcases slots with - | ⟨slot, slots⟩
      · -- the list is closed behind its last slot
        have hclosable : (before.fill e).closable kind := by
          cases kind with
          | elements => rfl
          | arguments => simp [Slots.closable, Slots.fill, hbefore]
        have hend : Reads Dialect.conditional AnyArray
            (.list kind (before.fill e) [] (before.fill e)) (kind.closer :: k) k :=
          .listEnd (hnext []) hclosable
        simp only [Expr.renderSlots] at hskips
        exact ⟨_, _, reads_filled hback hcompound hbefore (.inr rfl) hskips hend,
          Slots.toList_fill before e⟩
      · -- the next slot comes behind a comma
        rw [Expr.renderSlots_cons e (List.cons_ne_nil slot slots), List.append_assoc] at hskips
        let next : Slots := ⟨(before.fill e).items, before.commas + 1⟩
        have hsize : next.items.size = next.commas := by simp [next, Slots.fill, hbefore]
        have hmore : kind = .arguments → none ∉ slot :: slots ∧ (slot :: slots = [] →
            next.commas = 0) :=
          fun h => ⟨fun hnone => (hholes h).1 (List.mem_cons_of_mem _ hnone),
            fun hnil => absurd hnil (List.cons_ne_nil slot slots)⟩
        obtain ⟨events, after, hreads, hafter⟩ :=
          ih hrest hsize hmore (skips_space (hnext (slot :: slots)))
        have hcomma : Reads Dialect.conditional AnyArray
            (.list kind (before.fill e) (.comma :: events) after)
            (',' :: ' ' :: (Expr.renderSlots (slot :: slots) ++ kind.closer :: k)) k :=
          .listComma (skips_none (by simp [Grammar.isBlank])) (Slots.comma_fill hbefore e kind)
            hreads
        refine ⟨_, after, reads_filled hback hcompound hbefore (.inl rfl) hskips hcomma, ?_⟩
        rw [hafter, Slots.toList_fill, List.append_assoc]
        rfl

/-- Several trees with separators between them are the items of a group or of a text. -/
theorem reads_items {closer : Option Char} {separator : Char} {es : List Expr}
    (hseparator : separator = ';' ∨ separator = ',') (hes : ∀ e ∈ es, e.ReadsBack)
    (hk : Closes k) (hblank : k.dropWhile Grammar.isBlank = k)
    (hend : ∀ input, Skips Dialect.conditional.HasComments input k →
      Reads Dialect.conditional AnyArray (.items closer []) input k)
    (hskips : Skips Dialect.conditional.HasComments input (Expr.renderList separator es ++ k)) :
    Reads Dialect.conditional AnyArray (.items closer es) input k := by
  have hopen : ¬ ('(' = ';' ∨ '(' = ',') := by decide
  have hmem : separator ∈ closers ∧ ¬ Grammar.isBlank separator := by
    rcases hseparator with rfl | rfl <;> decide
  induction es generalizing input with
  | nil => exact hend input hskips
  | cons e es ih =>
    have he : e.ReadsBack := hes e List.mem_cons_self
    rcases es with - | ⟨e', es⟩
    · have hread := he.parens hk (skips_inParens e.render k)
      rw [hblank] at hread
      simp only [Expr.renderList] at hskips
      exact .item hskips hopen hread (hend k (hblank ▸ skips_dropped k))
    · -- the separator is passed on the way to the next item
      let more : List Char := ' ' :: (Expr.renderList separator (e' :: es) ++ k)
      have hread := he.parens (k := separator :: more) (.cons hmem.1) (skips_inParens e.render _)
      rw [List.dropWhile_cons_of_neg hmem.2] at hread
      rw [Expr.renderList_cons e (List.cons_ne_nil e' es), List.append_assoc] at hskips
      have hnext : Skips Dialect.conditional.HasComments more
          (Expr.renderList separator (e' :: es) ++ k) :=
        skips_space (Expr.skips_renderList (List.cons_ne_nil e' es))
      have htail : Reads Dialect.conditional AnyArray (.items closer (e' :: es))
          (separator :: more) k :=
        .itemsSeparator (skips_none (by simpa using hmem.2)) hseparator
          (ih (fun e he => hes e (List.mem_cons_of_mem _ he)) hnext)
      exact .item hskips hopen hread htail

end Lists

/-! ### Links of a rendered tree -/

section Links

variable {node key : Expr} {k rest : List Char} {optional : Option Bool}

theorem skips_optionalMark (optional : Option Bool) (h : ∀ ch ∈ k.head?, ¬ Grammar.isBlank ch) :
    Skips Dialect.conditional.HasComments (optionalMark optional ++ k)
      (optionalMark optional ++ k) := by
  refine skips_none ?_
  rw [optionalMark]
  split
  · simp [Grammar.isBlank]
  · exact h

theorem reads_index (hmark : IsMark optional) (hkey : key.ReadsBack) (hk : Closes k) :
    Reads Dialect.conditional AnyArray (.links node (.member true node key optional))
      (optionalMark optional ++ '[' :: (inParens key.render ++ ']' :: k))
      (k.dropWhile Grammar.isBlank) := by
  have hbracket (more : List Char) : Skips Dialect.conditional.HasComments ('[' :: more)
      ('[' :: more) := skips_none (by simp [Grammar.isBlank])
  have hstart := skips_optionalMark optional
    (k := '[' :: (inParens key.render ++ ']' :: k)) (by simp [Grammar.isBlank])
  have hclose : Skips Dialect.conditional.HasComments (']' :: k) (']' :: k) :=
    skips_none (by simp [Grammar.isBlank])
  have hread : Reads Dialect.conditional AnyArray (.expression (some key))
      (inParens key.render ++ ']' :: k) (']' :: k) :=
    hkey.parens (.cons (by decide)) (skips_inParens _ _)
  rcases hmark with rfl | rfl
  · exact .index hstart (.plain rfl) hread hclose (reads_linksEnd hk)
  · exact .index hstart (.optionalIndex (hbracket _)) hread hclose (reads_linksEnd hk)

theorem reads_property {w : String} (hmark : IsMark optional)
    (hw : Dialect.conditional.grammar.IsName w) (hk : Closes k) :
    Reads Dialect.conditional AnyArray (.links node (.member false node (.identifier w) optional))
      ((if optional = some true then ['?', '.'] else ['.']) ++ (w.toList ++ k))
      (k.dropWhile Grammar.isBlank) := by
  have hw' : Grammar.unbounded.IsName w := hw
  have htoken : NameToken Dialect.conditional.grammar (w.toList ++ k) w k :=
    hw'.token fun ch hch => Grammar.not_isIdentifierPart (hk.head_mem ch hch).1
  have hskips : Skips Dialect.conditional.HasComments (w.toList ++ k) (w.toList ++ k) :=
    hw'.skips Dialect.conditional_not_hasComments
  rcases hmark with rfl | rfl
  · exact .property (skips_none (by simp [Grammar.isBlank])) (.plain rfl) hskips htoken
      (reads_linksEnd hk)
  · exact .property (skips_none (by simp [Grammar.isBlank]))
      (.optionalProperty hskips (hw'.head_ne (by decide)) (hw'.head_ne (by decide))) hskips htoken
      (reads_linksEnd hk)

theorem reads_call {arguments : List Expr} (hmark : IsMark optional)
    (harguments : ∀ e ∈ arguments, e.ReadsBack ∧ ¬ e.isCompound) (hk : Closes k) :
    Reads Dialect.conditional AnyArray (.links node (.call node arguments optional))
      (optionalMark optional ++ (inParens (Expr.renderList ',' arguments) ++ k))
      (k.dropWhile Grammar.isBlank) := by
  have hsplit : inParens (Expr.renderList ',' arguments) ++ k
      = '(' :: (Expr.renderSlots (arguments.map some) ++ ')' :: k) := by
    simp [inParens, Expr.renderSlots_map_some]
  have hslots : ∀ e, some e ∈ arguments.map some → e.ReadsBack ∧ ¬ e.isCompound := by
    intro e he
    exact harguments e (by simpa using he)
  have hinside : Skips Dialect.conditional.HasComments
      (Expr.renderSlots (arguments.map some) ++ ')' :: k)
      (Expr.renderSlots (arguments.map some) ++ ListKind.arguments.closer :: k) :=
    skips_none (Expr.head_renderSlots (arguments.map some) (by decide))
  have hempty : Slots.empty.items.size = Slots.empty.commas := rfl
  obtain ⟨events, after, hlist, hafter⟩ :=
    reads_slots hslots hempty (fun _ => ⟨by simp, fun _ => rfl⟩) hinside
  have hitems : after.items.toList.filterMap id = arguments := by
    rw [hafter]
    simp [Slots.empty]
  have hparen (more : List Char) : Skips Dialect.conditional.HasComments ('(' :: more)
      ('(' :: more) := skips_none (by simp [Grammar.isBlank])
  have hstart := skips_optionalMark optional
    (k := '(' :: (Expr.renderSlots (arguments.map some) ++ ')' :: k)) (by simp [Grammar.isBlank])
  rw [hsplit]
  rcases hmark with rfl | rfl
  · exact .call hstart (.plain rfl) hlist (hitems.symm ▸ reads_linksEnd hk)
  · exact .call hstart (.optionalCall (hparen _)) hlist (hitems.symm ▸ reads_linksEnd hk)

end Links

/-! ### Every tree is read back -/

namespace Expr

variable {e : Expr}

/-- Two nodes and more are bundled. -/
theorem bundle_of_length {several : List Expr → Expr} {nodes : List Expr}
    (h : 2 ≤ nodes.length) : bundle several nodes = some (several nodes) := by
  rcases nodes with - | ⟨node, - | ⟨node', nodes⟩⟩
  · exact absurd h (Nat.not_succ_le_zero 1)
  · exact absurd h (Nat.not_succ_le_self 1)
  · rfl

theorem Renderable.not_isCompound (h : e.Renderable) : ¬ e.isCompound := by
  cases h <;> simp [isCompound]

namespace ReadsBack

/-- Characters that a rendered tree may start with. -/
theorem starts_of_mem {ch : Char} {more : List Char} (hrender : e.render = ch :: more)
    (hch : ch ∈ '(' :: '[' :: '\'' :: '"' :: Grammar.marks) :
    ∃ ch more, e.render = ch :: more ∧ ch ∉ Grammar.blanks ++ [';', ','] := by
  have hall : ∀ ch ∈ '(' :: '[' :: '\'' :: '"' :: Grammar.marks,
      ch ∉ Grammar.blanks ++ [';', ','] := forall_mem_of_all (by decide)
  exact ⟨ch, more, hrender, hall ch hch⟩

/-- A name is read back as what it stands for. -/
theorem of_name {w : String} (hw : Dialect.conditional.grammar.IsName w)
    (hrender : e.render = w.toList)
    (hmeaning : Lexeme.meaning Dialect.conditional.grammar w = e) : e.ReadsBack := by
  obtain ⟨first, more, hfirst, hmem⟩ := Grammar.IsName.exists_cons hw
  have hall : ∀ ch ∈ Grammar.blanks ++ [';', ','], ch ∈ Grammar.punctuation :=
    forall_mem_of_all (by decide)
  refine ⟨⟨first, more, hrender.trans hfirst, fun h => hmem (hall first h)⟩, fun k hk => ?_⟩
  have hw' : Grammar.unbounded.IsName w := hw
  have htoken : NameToken Dialect.conditional.grammar (w.toList ++ k) w k :=
    hw'.token fun ch hch => Grammar.not_isIdentifierPart (hk.head_mem ch hch).1
  have hskips : Skips Dialect.conditional.HasComments (w.toList ++ k) (w.toList ++ k) :=
    hw'.skips Dialect.conditional_not_hasComments
  rw [hrender]
  exact reads_loneOperand hk
    (.name hskips (Grammar.lead_name hw) htoken (hmeaning ▸ reads_linksEnd hk))

theorem identifier {w : String} (hw : Dialect.conditional.grammar.IsName w)
    (hkey : w ∉ Grammar.keywords) : (Expr.identifier w).ReadsBack :=
  of_name hw (by simp) (Grammar.meaning_identifier hkey)

theorem receiver : Expr.receiver.ReadsBack := by
  have hkey : "this" ∈ Grammar.keywords := by decide
  exact of_name (Grammar.isName_keyword hkey) (by simp) rfl

theorem named {w : String} {value : Value}
    (h : Dialect.conditional.grammar.literal? w = some value) :
    (Expr.literal value w).ReadsBack := by
  refine of_name (Grammar.isName_keyword (Grammar.mem_keywords_of_literal h)) (by simp) ?_
  rw [Lexeme.meaning, h]

theorem string {q : Char} {body : List Char} {raw value : String} (hq : IsQuote q)
    (hraw : raw.toList = q :: (body ++ [q])) (hbody : Escaped q body value.toList) :
    (Expr.literal (.string value) raw).ReadsBack := by
  have hrender : (Expr.literal (.string value) raw).render = q :: (body ++ [q]) := by
    rw [render, hraw]
  have hmem : q ∈ '(' :: '[' :: '\'' :: '"' :: Grammar.marks := by
    rcases hq with rfl | rfl <;> decide
  refine ⟨starts_of_mem hrender hmem, fun k hk => ?_⟩
  have htoken : StringToken (raw.toList ++ k) raw value k := ⟨⟨q, body, hq, hraw, hbody⟩, rfl⟩
  have hskips : Skips Dialect.conditional.HasComments (raw.toList ++ k) (raw.toList ++ k) :=
    skips_none (by simpa [hraw] using hq.not_isBlank)
  have hlead : Dialect.conditional.grammar.lead (raw.toList ++ k) = .string := by
    rw [hraw]
    exact Grammar.lead_string hq
  rw [render]
  exact reads_loneOperand hk (.string hskips hlead htoken (reads_linksEnd hk))

theorem number {raw : String} {value : Float} (hraw : IsNumeral raw.toList)
    (hvalue : Decimal.read raw.toList = some value) :
    (Expr.literal (.number value) raw).ReadsBack := by
  obtain ⟨first, more, hcons, hfirst⟩ := hraw.exists_cons
  have hrender : (Expr.literal (.number value) raw).render = raw.toList := by rw [render]
  have hall : ∀ ch ∈ Grammar.blanks ++ [';', ','], ¬ (Grammar.isDigit ch ∨ ch = '.') :=
    forall_mem_of_all (by decide)
  refine ⟨⟨first, more, hrender.trans hcons, fun h => hall first h hfirst⟩, fun k hk => ?_⟩
  have htoken : NumberToken Dialect.conditional.grammar (raw.toList ++ k) raw value k := by
    refine ⟨hraw, hvalue, rfl, fun ch hch => ?_⟩
    obtain ⟨hmem, hpoint⟩ := hk.head_mem ch hch
    have hdigit : ∀ ch ∈ Grammar.punctuation, ¬ ch.isDigit := forall_mem_of_all (by decide)
    exact ⟨Grammar.not_isIdentifierStart hmem, hdigit ch hmem, hpoint⟩
  have hskips : Skips Dialect.conditional.HasComments (raw.toList ++ k) (raw.toList ++ k) := by
    refine skips_none ?_
    rw [hcons]
    intro ch hch hblank
    cases hch
    exact hall first (List.mem_append_left [';', ','] (Grammar.isBlank_iff.mp hblank)) hfirst
  rw [hrender]
  exact reads_expression hk
    (.lone (.number hskips (Grammar.lead_number hraw) htoken) (skips_drop k) hk.binaryOpIn)

/-- A tree in parentheses and what is linked to it. -/
theorem linked {object : Expr} {text : List Char} (hobject : object.ReadsBack)
    (hrender : e.render = inParens object.render ++ text)
    (htext : ∀ k, Closes k → Reads Dialect.conditional AnyArray (.links object e) (text ++ k)
      (k.dropWhile Grammar.isBlank)) : e.ReadsBack := by
  refine ⟨starts_of_mem hrender (by decide), fun k hk => ?_⟩
  rw [hrender, List.append_assoc]
  exact reads_loneOperand hk
    (hobject.operand (skips_inParens _ _) (htext k hk))

theorem unary {operator : String} {argument : Expr}
    (hop : Dialect.conditional.grammar.isUnaryOp operator) (h : argument.ReadsBack) :
    (Expr.unary operator argument true).ReadsBack := by
  obtain ⟨hne, hmarks⟩ := Grammar.unaryOp_marks hop
  obtain ⟨first, more, hcons⟩ := List.exists_cons_of_ne_nil hne
  have hfirst : first ∈ Grammar.marks := hmarks first (by simp [hcons])
  have hrender : (Expr.unary operator argument true).render
      = operator.toList ++ inParens argument.render := by rw [render]
  have hstart : (Expr.unary operator argument true).render
      = first :: (more ++ inParens argument.render) := by rw [hrender, hcons, List.cons_append]
  refine ⟨starts_of_mem hstart (by simp [hfirst]), fun k hk => ?_⟩
  have hblank : ∀ ch ∈ Grammar.marks, ¬ Grammar.isBlank ch := forall_mem_of_all (by decide)
  have hskips : Skips Dialect.conditional.HasComments
      (operator.toList ++ (inParens argument.render ++ k))
      (operator.toList ++ (inParens argument.render ++ k)) :=
    skips_none (by simpa [hcons] using hblank first hfirst)
  rw [hrender, List.append_assoc]
  exact reads_loneOperand hk (.unary hskips (Grammar.lead_unary hop)
    (h.operand (skips_inParens _ _) (reads_linksEnd hk)))

theorem binary {operator : String} {left right : Expr}
    (hop : Dialect.conditional.grammar.isBinaryOp operator) (hleft : left.ReadsBack)
    (hright : right.ReadsBack) : (Expr.binary operator left right).ReadsBack := by
  have hrender : (Expr.binary operator left right).render = inParens left.render ++
      ' ' :: (operator.toList ++ ' ' :: inParens right.render) := by rw [render]
  refine ⟨starts_of_mem hrender (by decide), fun k hk => ?_⟩
  let behind : List Char := operator.toList ++ ' ' :: (inParens right.render ++ k)
  have hhead : ∀ ch ∈ behind.head?, ch ∈ Grammar.marks := Grammar.binaryOp_head hop
  have hall : ∀ ch ∈ Grammar.marks,
      ¬ Grammar.isBlank ch ∧ LinkForm.ofChar? ch = none ∧ ch ≠ '?' :=
    forall_mem_of_all (by decide)
  have hskips : Skips Dialect.conditional.HasComments behind behind :=
    skips_none fun ch hch => (hall ch (hhead ch hch)).1
  -- the links of the left operand end in front of the operator
  have hfirst : Reads Dialect.conditional AnyArray (.operand (some left))
      (inParens left.render ++ ' ' :: behind) behind :=
    hleft.operand (skips_inParens _ _)
      (.linksEnd (skips_space hskips) (.of_head fun ch hch => (hall ch (hhead ch hch)).2))
  have hsecond : Reads Dialect.conditional AnyArray (.operand (some right))
      (' ' :: (inParens right.render ++ k)) (k.dropWhile Grammar.isBlank) :=
    hright.operand (skips_space (skips_inParens _ _)) (reads_linksEnd hk)
  have htail : Reads Dialect.conditional AnyArray
      (.tail true [(Dialect.conditional.grammar.binaryOp operator, right)]) behind
      (k.dropWhile Grammar.isBlank) :=
    .tailOperator hskips (Grammar.binaryOpIn_space hop) nofun hsecond
      (.tailEnd (skips_dropped k) hk.binaryOpIn)
  have hsplit : (Expr.binary operator left right).render ++ k
      = inParens left.render ++ ' ' :: behind := by simp [behind]
  rw [hsplit]
  exact reads_expression hk (.chain hfirst htail)

theorem conditional {test consequent alternate : Expr} (htest : test.ReadsBack)
    (hconsequent : consequent.ReadsBack) (halternate : alternate.ReadsBack) :
    (Expr.conditional test consequent alternate).ReadsBack := by
  have hrender : (Expr.conditional test consequent alternate).render = inParens test.render ++
      ' ' :: '?' :: ' ' :: (inParens consequent.render ++
        ' ' :: ':' :: ' ' :: inParens alternate.render) := by rw [render]
  refine ⟨starts_of_mem hrender (by decide), fun k hk => ?_⟩
  let afterColon : List Char := ' ' :: (inParens alternate.render ++ k)
  let afterMark : List Char := ' ' :: (inParens consequent.render ++ ' ' :: ':' :: afterColon)
  have hmark : Skips Dialect.conditional.HasComments ('?' :: afterMark) ('?' :: afterMark) :=
    skips_none (by simp [Grammar.isBlank])
  -- a question mark without a point is neither a link nor an operator
  have hnoLink : EndsLinks ('?' :: afterMark) := by
    refine ⟨by simp [LinkForm.ofChar?], ?_⟩
    simp [afterMark]
  have hnoOperator : Dialect.conditional.grammar.binaryOpIn ('?' :: afterMark) = none :=
    Grammar.binaryOpIn_eq_none (by simp [Grammar.marks])
  have hfirst : Reads Dialect.conditional AnyArray (.chain (some test))
      (inParens test.render ++ ' ' :: '?' :: afterMark) ('?' :: afterMark) :=
    .lone (htest.operand (skips_inParens _ _) (.linksEnd (skips_space hmark) hnoLink)) hmark
      hnoOperator
  have hsecond : Reads Dialect.conditional AnyArray (.expression (some consequent)) afterMark
      (':' :: afterColon) :=
    hconsequent.parens (k := ' ' :: ':' :: afterColon) (.cons_blank (by decide) (.cons (by decide)))
      (skips_space (skips_inParens _ _))
  have hthird : Reads Dialect.conditional AnyArray (.expression (some alternate)) afterColon
      (k.dropWhile Grammar.isBlank) := halternate.parens hk (skips_space (skips_inParens _ _))
  have hsplit : (Expr.conditional test consequent alternate).render ++ k
      = inParens test.render ++ ' ' :: '?' :: afterMark := by
    simp [afterMark, afterColon]
  rw [hsplit]
  exact .conditional hfirst Dialect.conditional_hasConditionals hmark hsecond hthird

theorem array {elements : List (Option Expr)}
    (h : ∀ e, some e ∈ elements → e.ReadsBack ∧ ¬ e.isCompound) :
    (Expr.array elements).ReadsBack := by
  have hrender : (Expr.array elements).render = '[' :: (renderSlots elements ++ [']']) := by
    rw [render]
  refine ⟨starts_of_mem hrender (by decide), fun k hk => ?_⟩
  let kind : ListKind := .elements
  have hinside : Skips Dialect.conditional.HasComments (renderSlots elements ++ ']' :: k)
      (renderSlots elements ++ kind.closer :: k) :=
    skips_none (head_renderSlots elements (by decide))
  have hempty : Slots.empty.items.size = Slots.empty.commas := rfl
  obtain ⟨events, after, hlist, hafter⟩ : ∃ events after,
      Reads Dialect.conditional AnyArray (.list kind .empty events after)
        (renderSlots elements ++ ']' :: k) k ∧
      after.items.toList = Slots.empty.items.toList ++ elements :=
    reads_slots h hempty nofun hinside
  have hitems : after.items.toList = elements := by
    rw [hafter]
    rfl
  have hsplit : (Expr.array elements).render ++ k = '[' :: (renderSlots elements ++ ']' :: k) := by
    simp
  rw [hsplit]
  exact reads_loneOperand hk (.array (skips_none (by simp [Grammar.isBlank])) hlist trivial
    (hitems.symm ▸ reads_linksEnd hk))

theorem sequence {expressions : List Expr} (hlen : 2 ≤ expressions.length)
    (h : ∀ e ∈ expressions, e.ReadsBack) : (Expr.sequence expressions).ReadsBack := by
  have hrender : (Expr.sequence expressions).render = inParens (renderList ',' expressions) := by
    rw [render]
  refine ⟨starts_of_mem hrender (by decide), fun k hk => ?_⟩
  have hsplit : (Expr.sequence expressions).render ++ k
      = '(' :: (renderList ',' expressions ++ ')' :: k) := by simp [inParens]
  have hne : expressions ≠ [] := List.ne_nil_of_length_pos (Nat.lt_of_lt_of_le Nat.two_pos hlen)
  have hitems : Reads Dialect.conditional AnyArray (.items (some ')') expressions)
      (renderList ',' expressions ++ ')' :: k) (')' :: k) :=
    reads_items (.inr rfl) h (.cons (by decide)) (List.dropWhile_cons_of_neg (by decide))
      (fun _ => reads_itemsStop) (skips_renderList hne)
  rw [hsplit]
  exact reads_loneOperand hk (.group (skips_none (by simp [Grammar.isBlank])) Grammar.lead_group
    hitems (bundle_of_length hlen) (reads_linksEnd hk))

end ReadsBack

/-- **Every tree below a root is read back from its rendering.** -/
theorem Renderable.readsBack (h : e.Renderable) : e.ReadsBack := by
  induction h with
  | identifier hw hkey => exact .identifier hw hkey
  | string hq hraw hbody => exact .string hq hraw hbody
  | number hraw hvalue => exact .number hraw hvalue
  | named h => exact .named h
  | receiver => exact .receiver
  | unary hop _ ih => exact .unary hop ih
  | binary hop _ _ ih ih' => exact .binary hop ih ih'
  | @index object key optional _ _ hmark ih ih' =>
    have hrender : (Expr.member true object key optional).render = inParens object.render ++
        (optionalMark optional ++ '[' :: (inParens key.render ++ [']'])) := by simp
    refine .linked ih hrender fun k hk => ?_
    simpa using reads_index hmark ih' hk
  | @property object w optional _ hw hmark ih =>
    have hrender : (Expr.member false object (.identifier w) optional).render =
        inParens object.render ++
          ((if optional = some true then ['?', '.'] else ['.']) ++ w.toList) := by simp
    refine .linked ih hrender fun k hk => ?_
    rw [List.append_assoc]
    exact reads_property hmark hw hk
  | @call callee arguments optional _ harguments hmark ih ih' =>
    have hrender : (Expr.call callee arguments optional).render = inParens callee.render ++
        (optionalMark optional ++ inParens (renderList ',' arguments)) := by simp
    refine .linked ih hrender fun k hk => ?_
    rw [List.append_assoc]
    exact reads_call hmark (fun e he => ⟨ih' e he, (harguments e he).not_isCompound⟩) hk
  | conditional _ _ _ ih ih' ih'' => exact .conditional ih ih' ih''
  | array helements ih => exact .array fun e he => ⟨ih e he, (helements e he).not_isCompound⟩
  | sequence hlen _ ih => exact .sequence hlen ih

/-- **Parsing undoes full parenthesisation.**  With the standard tables, the conditional
plugin and no nesting limit, the text of a tree is parsed as the tree. -/
theorem parse_render (h : e.RenderableRoot) :
    Dialect.conditional.parse (String.ofList e.render) = some (.ok (some e)) := by
  have hplain : Dialect.conditional.Plain := Dialect.conditional_plain
  rcases h with h | ⟨body, rfl, hlen, hbody⟩
  · have hitems : Reads Dialect.conditional AnyArray (.items none [e])
        (String.ofList e.render).toList [] := by
      rw [String.toList_ofList, ← List.append_nil e.render]
      exact h.readsBack.item .nil (.itemsEnd (skips_dropped []))
    exact Dialect.parse_of_reads hplain rfl hitems
  · have hne : body ≠ [] := List.ne_nil_of_length_pos (Nat.lt_of_lt_of_le Nat.two_pos hlen)
    have hitems : Reads Dialect.conditional AnyArray (.items none body)
        (String.ofList (Expr.compound body).render).toList [] := by
      rw [String.toList_ofList, render, ← List.append_nil (renderList ';' body)]
      exact reads_items (.inl rfl) (fun e he => (hbody e he).readsBack) .nil rfl
        (fun _ => .itemsEnd) (skips_renderList hne)
    rw [Dialect.parse_of_reads hplain rfl hitems, bundle_of_length hlen]

/-- An array with a hole at its end, an optional link to a keyword, and a call. -/
theorem parse_render_hole :
    Dialect.conditional.parse "([(a), ,]); ((a)?.true); ((a)((true), (this)))" =
      some (.ok (some (.compound [.array [some (.identifier "a"), none],
        .member false (.identifier "a") (.identifier "true") (some true),
        .call (.identifier "a") [.literal (.bool true) "true", .receiver] none]))) := by
  have hname : Dialect.conditional.grammar.IsName "a" := ⟨'a', [], rfl, by decide, nofun⟩
  have htrue : Dialect.conditional.grammar.IsName "true" := Grammar.isName_keyword (by decide)
  have ha : Renderable (.identifier "a") := .identifier hname (by decide)
  have harray : Renderable (.array [some (.identifier "a"), none]) := by
    refine .array fun e he => ?_
    obtain rfl : e = .identifier "a" := by simpa using he
    exact ha
  have hcall : Renderable
      (.call (.identifier "a") [.literal (.bool true) "true", .receiver] none) := by
    refine .call ha ?_ (.inl rfl)
    simp only [List.forall_mem_cons]
    exact ⟨.named rfl, .receiver, nofun⟩
  have hroot : RenderableRoot (.compound [.array [some (.identifier "a"), none],
      .member false (.identifier "a") (.identifier "true") (some true),
      .call (.identifier "a") [.literal (.bool true) "true", .receiver] none]) := by
    refine .inr ⟨_, rfl, by decide, ?_⟩
    simp only [List.forall_mem_cons]
    exact ⟨harray, .property ha htrue (.inr rfl), hcall, nofun⟩
  have hparse := parse_render hroot
  simpa [inParens, optionalMark] using hparse

end Expr

end OperatorGrammar
