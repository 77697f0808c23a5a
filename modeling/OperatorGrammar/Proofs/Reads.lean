/-
OperatorGrammar/Proofs/Reads.lean

What it means to read a phrase, without cursor, budget or nesting depth.

A `Phrase` is a production together with what it answers.  `Reads d A phrase
input rest` says that a plain dialect `d` reads the phrase from the front of
`input` and leaves `rest`.  There is one rule for each way in which a production
can succeed, and nothing in it but the tables, the characters still to be read
and smaller readings.  The production of the program is a function on a budget;
this relation is its graph where it succeeds.

The parameter `A` restricts the array literals that may occur: an array is read
only when the commas and elements between its brackets, in order, satisfy `A`.
With `A` always true the relation describes what the program does.
-/
import OperatorGrammar.Proofs.Blanks
import OperatorGrammar.Proofs.Number

namespace OperatorGrammar

/-! ### What an operand starts with -/

/-- The kinds of operand, told apart by how they start. -/
inductive Lead where
  | number
  | string
  | array
  | unary (operator : String)
  | name
  | group
  | nothing
  deriving DecidableEq

/-- The kind of operand that an input starts with, in the order in which the kinds
are tried. -/
def Grammar.lead (g : Grammar) : List Char → Lead
  | [] => .nothing
  | ch :: more =>
    if Grammar.isDigit ch ∨ ch = '.' then .number
    else if ch = '\'' ∨ ch = '"' then .string
    else if ch = '[' then .array
    else match g.unaryOpIn (ch :: more) with
      | some op => .unary op
      | none =>
        if g.isIdentifierStart ch then .name
        else if ch = '(' then .group
        else .nothing

/-- What a lead says about the first character. -/
theorem Grammar.lead_spec (g : Grammar) (ch : Char) (more : List Char) :
    match g.lead (ch :: more) with
    | .string => IsQuote ch
    | .array => ch = '['
    | .unary op => g.unaryOpIn (ch :: more) = some op
    | .name => g.unaryOpIn (ch :: more) = none
    | .group => ch = '('
    | _ => True := by
  rw [lead]
  by_cases hnumber : isDigit ch ∨ ch = '.'
  · rw [if_pos hnumber]
    trivial
  rw [if_neg hnumber]
  by_cases hquote : ch = '\'' ∨ ch = '"'
  · rw [if_pos hquote]
    exact hquote
  rw [if_neg hquote]
  by_cases hbracket : ch = '['
  · rw [if_pos hbracket]
    exact hbracket
  rw [if_neg hbracket]
  rcases hop : g.unaryOpIn (ch :: more) with - | op
  · simp only []
    by_cases hstart : g.isIdentifierStart ch
    · rw [if_pos hstart]
      trivial
    rw [if_neg hstart]
    by_cases hparen : ch = '('
    · rw [if_pos hparen]
      exact hparen
    · rw [if_neg hparen]
      trivial
  · rfl

theorem Grammar.unaryOpIn_of_lead {g : Grammar} {input : List Char} {op : String}
    (h : g.lead input = .unary op) : g.unaryOpIn input = some op := by
  cases input with
  | nil => cases h
  | cons ch more =>
    have hspec := g.lead_spec ch more
    rw [h] at hspec
    exact hspec

theorem Grammar.unaryOpIn_of_lead_name {g : Grammar} {input : List Char}
    (h : g.lead input = .name) : g.unaryOpIn input = none := by
  cases input with
  | nil => cases h
  | cons ch more =>
    have hspec := g.lead_spec ch more
    rw [h] at hspec
    exact hspec

/-- No operand starts with a character that is in no name, starts no unary operator, and
opens nothing. -/
theorem Grammar.lead_eq_nothing {g : Grammar} {ch : Char} {more : List Char}
    (hname : ¬ g.isIdentifierPart ch) (hunary : ∀ op, g.isUnaryOp op → op.toList.head? ≠ some ch)
    (hother : ch ∉ ['.', '\'', '"', '[', '(']) : g.lead (ch :: more) = .nothing := by
  simp only [List.mem_cons, List.not_mem_nil, or_false, not_or] at hother
  obtain ⟨hpoint, hquote, hquote', hbracket, hparen⟩ := hother
  simp only [isIdentifierPart, Bool.or_eq_true, not_or] at hname
  obtain ⟨hstart, hdigit⟩ := hname
  simp only [lead, unaryOpIn_eq_none_of_head hunary, hstart, hdigit, hpoint, hquote, hquote',
    hbracket, hparen, Bool.false_eq_true, or_self, if_false]

/-- What starts with a character that starts names, but no unary operator and no literal, is
a name. -/
theorem Grammar.lead_eq_name {g : Grammar} {ch : Char} {more : List Char}
    (hname : g.isIdentifierStart ch) (hdigit : ¬ isDigit ch)
    (hunary : ∀ op, g.isUnaryOp op → op.toList.head? ≠ some ch)
    (hother : ch ∉ ['.', '\'', '"', '[']) : g.lead (ch :: more) = .name := by
  simp only [List.mem_cons, List.not_mem_nil, or_false, not_or] at hother
  obtain ⟨hpoint, hquote, hquote', hbracket⟩ := hother
  simp only [lead, unaryOpIn_eq_none_of_head hunary, hname, hdigit, hpoint, hquote, hquote',
    hbracket, Bool.false_eq_true, or_self, if_false, if_true]

/-- The binary operator with a symbol, as the tables have it. -/
def Grammar.binaryOp (g : Grammar) (symbol : String) : BinaryOp :=
  ⟨symbol, g.precedence symbol, g.isRightAssociative symbol⟩

/-! ### How a link starts -/

/-- The input starts a link of a form; `rest` is what follows its opening characters. -/
inductive OpensLink (comments : Prop) : List Char → LinkForm → Bool → List Char → Prop
  | plain {ch form rest} : LinkForm.ofChar? ch = some form →
      OpensLink comments (ch :: rest) form false rest
  | optionalIndex {input rest} : Skips comments input ('[' :: rest) →
      OpensLink comments ('?' :: '.' :: input) .index true rest
  | optionalCall {input rest} : Skips comments input ('(' :: rest) →
      OpensLink comments ('?' :: '.' :: input) .call true rest
  | optionalProperty {input rest} : Skips comments input rest → rest.head? ≠ some '[' →
      rest.head? ≠ some '(' → OpensLink comments ('?' :: '.' :: input) .property true rest

/-- The input starts no link. -/
def EndsLinks (input : List Char) : Prop :=
  (∀ ch ∈ input.head?, LinkForm.ofChar? ch = none) ∧ ¬ ['?', '.'] <+: input

theorem EndsLinks.of_head {input : List Char}
    (h : ∀ ch ∈ input.head?, LinkForm.ofChar? ch = none ∧ ch ≠ '?') : EndsLinks input := by
  refine ⟨fun ch hch => (h ch hch).1, ?_⟩
  rintro ⟨more, hmore⟩
  exact (h '?' (by simp [← hmore])).2 rfl

/-- A link, marked when it was written with `?.`. -/
def Expr.marked (optional : Bool) (link : Expr) : Expr :=
  if optional then link.setOptional else link

/-- A link is plain or optional; it is never marked as not optional. -/
def IsMark (optional : Option Bool) : Prop :=
  optional = none ∨ optional = some true

namespace Expr

/-- The mark that reading leaves on a link. -/
theorem isMark_optional (optional : Bool) : IsMark (if optional then some true else none) := by
  cases optional with
  | false => exact .inl rfl
  | true => exact .inr rfl

theorem marked_link (optional : Bool) (object property : Expr) (computed : Bool) :
    marked optional (.link object property computed)
      = .member computed object property (if optional then some true else none) := by
  cases optional with
  | false => rfl
  | true => rfl

theorem marked_apply (optional : Bool) (callee : Expr) (arguments : List Expr) :
    marked optional (.apply callee arguments)
      = .call callee arguments (if optional then some true else none) := by
  cases optional with
  | false => rfl
  | true => rfl

end Expr

/-! ### Slots -/

theorem ListKind.comma_ne_closer (kind : ListKind) : ',' ≠ kind.closer := by
  cases kind <;> decide

/-- With no slot too many, the missing ones are added as holes. -/
theorem Slots.toList_resize {items : Array (Option Expr)} {n : Nat} (h : items.size ≤ n) :
    (Slots.resize items n).toList = items.toList ++ List.replicate (n - items.size) none := by
  have htake : (items.take n).toList = items.toList := by simp [List.take_of_length_le, h]
  rw [Slots.resize]
  rw [Array.toList_append, Array.toList_replicate, htake]

/-- A comma where no slot was filled since the last one makes a hole. -/
theorem Slots.comma_hole {before : Slots} (h : before.items.size = before.commas) :
    ∃ next, before.comma .elements = some next ∧ next.items.size = next.commas ∧
      next.items.toList = before.items.toList ++ [none] := by
  have hne : before.commas + 1 ≠ before.items.size := by omega
  have hone : before.commas + 1 - before.items.size = 1 := by omega
  have hitems : (Slots.resize before.items (before.commas + 1)).toList
      = before.items.toList ++ [none] := by
    rw [Slots.toList_resize (by omega), hone]
    rfl
  refine ⟨⟨Slots.resize before.items (before.commas + 1), before.commas + 1⟩, ?_, ?_, hitems⟩
  · simp [Slots.comma, hne]
  · show (Slots.resize before.items (before.commas + 1)).size = before.commas + 1
    rw [← Array.length_toList, hitems]
    simp [h]

/-- A comma behind a filled slot only counts. -/
theorem Slots.comma_fill {before : Slots} (h : before.items.size = before.commas) (e : Expr)
    (kind : ListKind) :
    (before.fill e).comma kind = some ⟨(before.fill e).items, before.commas + 1⟩ := by
  simp [Slots.comma, Slots.fill, h]

theorem Slots.toList_fill (before : Slots) (e : Expr) :
    (before.fill e).items.toList = before.items.toList ++ [some e] := by
  simp [Slots.fill]

/-! ### Phrases -/

/-- What stands between two brackets, in order. -/
inductive SlotEvent where
  | comma
  | filled (e : Expr)

/-- No restriction on arrays. -/
def AnyArray (_ : List SlotEvent) : Prop := True

/-- A production and its answer. -/
inductive Phrase where
  /-- An expression with the white space behind it. -/
  | expression (e : Option Expr)
  /-- Operands and the binary operators between them. -/
  | chain (e : Option Expr)
  /-- The operators and operands after an operand; `opening` before the first operator. -/
  | tail (opening : Bool) (pairs : List (BinaryOp × Expr))
  | operand (e : Option Expr)
  /-- The links after a node, and the node with them. -/
  | links (node linked : Expr)
  /-- The rest of a list: the slots before, what is met, the slots at the end. -/
  | list (kind : ListKind) (before : Slots) (events : List SlotEvent) (after : Slots)
  /-- The rest of a program, or of a group with its closing character. -/
  | items (closer : Option Char) (nodes : List Expr)

/-- The phrase is read from the front of the input, and the rest is left. -/
inductive Reads (d : Dialect) (A : List SlotEvent → Prop) : Phrase → List Char → List Char → Prop
  /-- An expression that is no conditional. -/
  | expression {e input mid rest} :
      Reads d A (.chain e) input mid → Skips d.HasComments mid rest →
      (e.isSome → d.HasConditionals → rest.head? ≠ some '?') →
      Reads d A (.expression e) input rest
  | conditional {test consequent alternate input mid afterMark afterColon rest} :
      Reads d A (.chain (some test)) input mid → d.HasConditionals →
      Skips d.HasComments mid ('?' :: afterMark) →
      Reads d A (.expression (some consequent)) afterMark (':' :: afterColon) →
      Reads d A (.expression (some alternate)) afterColon rest →
      Reads d A (.expression (some (.conditional test consequent alternate))) input rest
  | noChain {input rest} :
      Reads d A (.operand none) input rest → Reads d A (.chain none) input rest
  | chain {first pairs input mid rest} :
      Reads d A (.operand (some first)) input mid → Reads d A (.tail true pairs) mid rest →
      Reads d A (.chain (some (Chain.tree first pairs))) input rest
  | tailEnd {opening input rest} :
      Skips d.HasComments input rest → d.grammar.binaryOpIn rest = none →
      Reads d A (.tail opening []) input rest
  /-- A later operator of precedence zero is left where it is. -/
  | tailPutBack {op input rest} :
      Skips d.HasComments input rest → d.grammar.binaryOpIn rest = some op →
      d.grammar.precedence op = 0 → Reads d A (.tail false []) input rest
  | tailOperator {opening op e pairs input afterOp mid rest} :
      Skips d.HasComments input (op.toList ++ afterOp) →
      d.grammar.binaryOpIn (op.toList ++ afterOp) = some op →
      (opening = false → d.grammar.precedence op ≠ 0) →
      Reads d A (.operand (some e)) afterOp mid → Reads d A (.tail false pairs) mid rest →
      Reads d A (.tail opening ((d.grammar.binaryOp op, e) :: pairs)) input rest
  | noOperand {input rest} :
      Skips d.HasComments input rest → d.grammar.lead rest = .nothing →
      Reads d A (.operand none) input rest
  | number {raw value input start rest} :
      Skips d.HasComments input start → d.grammar.lead start = .number →
      NumberToken d.grammar start raw value rest →
      Reads d A (.operand (some (.literal (.number value) raw))) input rest
  | string {raw value e input start mid rest} :
      Skips d.HasComments input start → d.grammar.lead start = .string →
      StringToken start raw value mid →
      Reads d A (.links (.literal (.string value) raw) e) mid rest →
      Reads d A (.operand (some e)) input rest
  | array {events after e input inside mid rest} :
      Skips d.HasComments input ('[' :: inside) →
      Reads d A (.list .elements .empty events after) inside mid → A events →
      Reads d A (.links (.array after.items.toList) e) mid rest →
      Reads d A (.operand (some e)) input rest
  | unary {op argument input afterOp rest} :
      Skips d.HasComments input (op.toList ++ afterOp) →
      d.grammar.lead (op.toList ++ afterOp) = .unary op →
      Reads d A (.operand (some argument)) afterOp rest →
      Reads d A (.operand (some (.signed op argument))) input rest
  | name {w e input start mid rest} :
      Skips d.HasComments input start → d.grammar.lead start = .name →
      NameToken d.grammar start w mid →
      Reads d A (.links (Lexeme.meaning d.grammar w) e) mid rest →
      Reads d A (.operand (some e)) input rest
  | group {nodes node e input inside mid rest} :
      Skips d.HasComments input ('(' :: inside) → d.grammar.lead ('(' :: inside) = .group →
      Reads d A (.items (some ')') nodes) inside (')' :: mid) →
      Expr.bundle .sequence nodes = some node → Reads d A (.links node e) mid rest →
      Reads d A (.operand (some e)) input rest
  | emptyGroup {input inside rest} :
      Skips d.HasComments input ('(' :: inside) → d.grammar.lead ('(' :: inside) = .group →
      Reads d A (.items (some ')') []) inside (')' :: rest) →
      Reads d A (.operand none) input rest
  | linksEnd {node input rest} :
      Skips d.HasComments input rest → EndsLinks rest → Reads d A (.links node node) input rest
  | property {node e w optional input start opened named mid rest} :
      Skips d.HasComments input start → OpensLink d.HasComments start .property optional opened →
      Skips d.HasComments opened named → NameToken d.grammar named w mid →
      Reads d A (.links (.marked optional (.link node (.identifier w) false)) e) mid rest →
      Reads d A (.links node e) input rest
  | index {node key e optional input start opened mid after rest} :
      Skips d.HasComments input start → OpensLink d.HasComments start .index optional opened →
      Reads d A (.expression (some key)) opened mid → Skips d.HasComments mid (']' :: after) →
      Reads d A (.links (.marked optional (.link node key true)) e) after rest →
      Reads d A (.links node e) input rest
  | call {node e events slots optional input start opened mid rest} :
      Skips d.HasComments input start → OpensLink d.HasComments start .call optional opened →
      Reads d A (.list .arguments .empty events slots) opened mid →
      Reads d A (.links (.marked optional (.apply node (slots.items.toList.filterMap id))) e)
        mid rest →
      Reads d A (.links node e) input rest
  | listEnd {kind slots input rest} :
      Skips d.HasComments input (kind.closer :: rest) → slots.closable kind →
      Reads d A (.list kind slots [] slots) input rest
  | listComma {kind before next events after input inside rest} :
      Skips d.HasComments input (',' :: inside) → before.comma kind = some next →
      Reads d A (.list kind next events after) inside rest →
      Reads d A (.list kind before (.comma :: events) after) input rest
  | listFill {kind before e events after input ch more mid rest} :
      Skips d.HasComments input (ch :: more) → ch ≠ kind.closer → ch ≠ ',' → before.accepts →
      Reads d A (.expression (some e)) (ch :: more) mid → ¬ e.isCompound →
      Reads d A (.list kind (before.fill e) events after) mid rest →
      Reads d A (.list kind before (.filled e :: events) after) input rest
  | itemsEnd {closer input} :
      Skips d.HasComments input [] → Reads d A (.items closer []) input []
  | itemsSeparator {closer nodes input ch more rest} :
      Skips d.HasComments input (ch :: more) → ch = ';' ∨ ch = ',' →
      Reads d A (.items closer nodes) more rest → Reads d A (.items closer nodes) input rest
  | item {closer e nodes input ch more mid rest} :
      Skips d.HasComments input (ch :: more) → ¬ (ch = ';' ∨ ch = ',') →
      Reads d A (.expression (some e)) (ch :: more) mid → Reads d A (.items closer nodes) mid rest →
      Reads d A (.items closer (e :: nodes)) input rest
  /-- Where no expression comes: the end of the text or the closing character. -/
  | itemsStop {closer input ch more rest} :
      Skips d.HasComments input (ch :: more) → ¬ (ch = ';' ∨ ch = ',') →
      Reads d A (.expression none) (ch :: more) rest →
      (rest = [] ∨ ∃ last, closer = some last ∧ rest.head? = some last) →
      Reads d A (.items closer []) input rest

/-- A chain of one operand. -/
theorem Reads.lone {d : Dialect} {A : List SlotEvent → Prop} {e : Expr}
    {input mid rest : List Char} (he : Reads d A (.operand (some e)) input mid)
    (hskips : Skips d.HasComments mid rest) (hop : d.grammar.binaryOpIn rest = none) :
    Reads d A (.chain (some e)) input rest := by
  have htree : Chain.tree e [] = e := rfl
  rw [← htree]
  exact .chain he (.tailEnd hskips hop)

/-! ### What an expression starts with -/

/-- What an expression is read as depends only on what is left of the text in front of its first
token. -/
theorem Reads.expression_of_skips {d : Dialect} {A : List SlotEvent → Prop} {e : Option Expr}
    {input input' rest : List Char} (h : Reads d A (.expression e) input rest)
    (hskips : ∀ start, Skips d.HasComments input start → Skips d.HasComments input' start) :
    Reads d A (.expression e) input' rest := by
  have hoperand {e : Option Expr} {rest : List Char} (h : Reads d A (.operand e) input rest) :
      Reads d A (.operand e) input' rest := by
    cases h with
    | noOperand hstart hlead => exact .noOperand (hskips _ hstart) hlead
    | number hstart hlead htoken => exact .number (hskips _ hstart) hlead htoken
    | string hstart hlead htoken hlinks => exact .string (hskips _ hstart) hlead htoken hlinks
    | array hstart hlist hA hlinks => exact .array (hskips _ hstart) hlist hA hlinks
    | unary hstart hlead hargument => exact .unary (hskips _ hstart) hlead hargument
    | name hstart hlead htoken hlinks => exact .name (hskips _ hstart) hlead htoken hlinks
    | group hstart hlead hitems hnode hlinks =>
      exact .group (hskips _ hstart) hlead hitems hnode hlinks
    | emptyGroup hstart hlead hitems => exact .emptyGroup (hskips _ hstart) hlead hitems
  have hchain {e : Option Expr} {rest : List Char} (h : Reads d A (.chain e) input rest) :
      Reads d A (.chain e) input' rest := by
    cases h with
    | noChain h => exact .noChain (hoperand h)
    | chain hfirst htail => exact .chain (hoperand hfirst) htail
  cases h with
  | expression h hmid hno => exact .expression (hchain h) hmid hno
  | conditional htest hcond hmark hconsequent halternate =>
    exact .conditional (hchain htest) hcond hmark hconsequent halternate

/-- The same holds for links. -/
theorem Reads.links_of_skips {d : Dialect} {A : List SlotEvent → Prop} {node e : Expr}
    {input input' rest : List Char} (h : Reads d A (.links node e) input rest)
    (hskips : ∀ start, Skips d.HasComments input start → Skips d.HasComments input' start) :
    Reads d A (.links node e) input' rest := by
  cases h with
  | linksEnd hstart hends => exact .linksEnd (hskips _ hstart) hends
  | property hstart hopens hnamed htoken hlinks =>
    exact .property (hskips _ hstart) hopens hnamed htoken hlinks
  | index hstart hopens hkey hclose hlinks =>
    exact .index (hskips _ hstart) hopens hkey hclose hlinks
  | call hstart hopens hlist hlinks => exact .call (hskips _ hstart) hopens hlist hlinks

section Nothing

variable {d : Dialect} {A : List SlotEvent → Prop} {e : Option Expr} {input rest : List Char}
  (hskips : ∀ start, Skips d.HasComments input start → start = input)
  (hlead : d.grammar.lead input = .nothing)
include hskips hlead

theorem Reads.operand_of_nothing (h : Reads d A (.operand e) input rest) :
    e = none ∧ rest = input := by
  cases h with
  | noOperand hstart _ => exact ⟨rfl, hskips _ hstart⟩
  | number hstart hkind _ =>
    rw [hskips _ hstart, hlead] at hkind
    cases hkind
  | string hstart hkind _ _ =>
    rw [hskips _ hstart, hlead] at hkind
    cases hkind
  | array hstart _ _ _ =>
    rw [← hskips _ hstart] at hlead
    simp [Grammar.lead, Grammar.isDigit] at hlead
  | unary hstart hkind _ =>
    rw [hskips _ hstart, hlead] at hkind
    cases hkind
  | name hstart hkind _ _ =>
    rw [hskips _ hstart, hlead] at hkind
    cases hkind
  | group hstart hkind _ _ _ =>
    rw [hskips _ hstart, hlead] at hkind
    cases hkind
  | emptyGroup hstart hkind _ =>
    rw [hskips _ hstart, hlead] at hkind
    cases hkind

theorem Reads.expression_of_nothing (h : Reads d A (.expression e) input rest) :
    e = none ∧ rest = input := by
  have hchain {e : Option Expr} {rest : List Char} (h : Reads d A (.chain e) input rest) :
      e = none ∧ rest = input := by
    cases h with
    | noChain h => exact h.operand_of_nothing hskips hlead
    | chain h _ => cases (h.operand_of_nothing hskips hlead).1
  cases h with
  | expression h hmore _ =>
    obtain ⟨rfl, rfl⟩ := hchain h
    exact ⟨rfl, hskips _ hmore⟩
  | conditional h _ _ _ _ => cases (hchain h).1

end Nothing

/-! ### Reading consumes a part in front -/

theorem OpensLink.suffix {comments : Prop} {input rest : List Char} {form : LinkForm}
    {optional : Bool} (h : OpensLink comments input form optional rest) : rest <:+ input := by
  have hmark (more : List Char) : more <:+ '?' :: '.' :: more := ⟨['?', '.'], rfl⟩
  cases h with
  | plain _ => exact List.suffix_cons _ _
  | optionalIndex h => exact (List.suffix_cons _ _).trans (h.suffix.trans (hmark _))
  | optionalCall h => exact (List.suffix_cons _ _).trans (h.suffix.trans (hmark _))
  | optionalProperty h _ _ => exact h.suffix.trans (hmark _)

theorem NameToken.suffix {g : Grammar} {input rest : List Char} {w : String}
    (h : NameToken g input w rest) : rest <:+ input :=
  ⟨w.toList, h.split.symm⟩

theorem StringToken.suffix {input rest : List Char} {raw value : String}
    (h : StringToken input raw value rest) : rest <:+ input :=
  ⟨raw.toList, h.split.symm⟩

theorem NumberToken.suffix {g : Grammar} {input rest : List Char} {raw : String} {value : Float}
    (h : NumberToken g input raw value rest) : rest <:+ input :=
  ⟨raw.toList, h.split.symm⟩

/-- What a reading leaves is the end of what it started from. -/
theorem Reads.suffix {d : Dialect} {A : List SlotEvent → Prop} {p : Phrase}
    {input rest : List Char} (h : Reads d A p input rest) : rest <:+ input := by
  have hcons (ch : Char) (more : List Char) : more <:+ ch :: more := List.suffix_cons ch more
  induction h with
  | expression _ hskips _ ih => exact hskips.suffix.trans ih
  | conditional _ _ hskips _ _ ih ih' ih'' =>
    exact ih''.trans ((hcons _ _).trans (ih'.trans ((hcons _ _).trans (hskips.suffix.trans ih))))
  | noChain _ ih => exact ih
  | chain _ _ ih ih' => exact ih'.trans ih
  | tailEnd hskips _ => exact hskips.suffix
  | tailPutBack hskips _ _ => exact hskips.suffix
  | tailOperator hskips _ _ _ _ ih ih' =>
    exact ih'.trans (ih.trans ((List.suffix_append _ _).trans hskips.suffix))
  | noOperand hskips _ => exact hskips.suffix
  | number hskips _ htoken => exact htoken.suffix.trans hskips.suffix
  | string hskips _ htoken _ ih => exact ih.trans (htoken.suffix.trans hskips.suffix)
  | array hskips _ _ _ ih ih' => exact ih'.trans (ih.trans ((hcons _ _).trans hskips.suffix))
  | unary hskips _ _ ih => exact ih.trans ((List.suffix_append _ _).trans hskips.suffix)
  | name hskips _ htoken _ ih => exact ih.trans (htoken.suffix.trans hskips.suffix)
  | group hskips _ _ _ _ ih ih' =>
    exact ih'.trans ((hcons _ _).trans (ih.trans ((hcons _ _).trans hskips.suffix)))
  | emptyGroup hskips _ _ ih =>
    exact (hcons _ _).trans (ih.trans ((hcons _ _).trans hskips.suffix))
  | linksEnd hskips _ => exact hskips.suffix
  | property hskips hopens hskips' htoken _ ih =>
    exact ih.trans (htoken.suffix.trans (hskips'.suffix.trans (hopens.suffix.trans hskips.suffix)))
  | index hskips hopens _ hskips' _ ih ih' =>
    exact ih'.trans ((hcons _ _).trans
      (hskips'.suffix.trans (ih.trans (hopens.suffix.trans hskips.suffix))))
  | call hskips hopens _ _ ih ih' =>
    exact ih'.trans (ih.trans (hopens.suffix.trans hskips.suffix))
  | listEnd hskips _ => exact (hcons _ _).trans hskips.suffix
  | listComma hskips _ _ ih => exact ih.trans ((hcons _ _).trans hskips.suffix)
  | listFill hskips _ _ _ _ _ _ ih ih' => exact ih'.trans (ih.trans hskips.suffix)
  | itemsEnd hskips => exact hskips.suffix
  | itemsSeparator hskips _ _ ih => exact ih.trans ((hcons _ _).trans hskips.suffix)
  | item hskips _ _ _ ih ih' => exact ih'.trans (ih.trans hskips.suffix)
  | itemsStop hskips _ _ _ ih => exact ih.trans hskips.suffix

end OperatorGrammar
