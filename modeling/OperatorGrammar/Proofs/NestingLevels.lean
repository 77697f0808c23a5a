/-
OperatorGrammar/Proofs/NestingLevels.lean

What nesting costs.

Around a name, brackets of four kinds and signs are put in any order:

    (…)  […]  a[…]  f(…)      two levels: the operand, and the expression inside
    -…                        one level: the operand, whose argument is an operand

A group also asks for one more expression in front of its closing parenthesis, but
that opens no more levels than the expression before it has.  Each way of nesting
takes an operand of some cost to an operand that costs one or two levels more
(`Nestable.around`), and the name alone costs one; so the cost of a nested text is
counted along the word of its nestings.

Main result: `Dialect.parse_nested`.
-/
import Mathlib.Algebra.GroupWithZero.Nat
import OperatorGrammar.Proofs.Costs
import OperatorGrammar.Proofs.NestingLimit
import OperatorGrammar.Proofs.Parenthesised

namespace OperatorGrammar

/-! ### Nested texts -/

/-- A way to nest a text: between brackets of four kinds, or behind a sign. -/
inductive Nesting where
  | paren
  | array
  | index
  | call
  | unary
  deriving DecidableEq, Repr

namespace Nesting

/-- What stands in front of the nested text. -/
def opening : Nesting → String
  | paren => "("
  | array => "["
  | index => "a["
  | call => "f("
  | unary => "-"

/-- What stands behind it. -/
def closing : Nesting → String
  | paren => ")"
  | array => "]"
  | index => "]"
  | call => ")"
  | unary => ""

/-- The tree around the one of the nested text. -/
def node (e : Expr) : Nesting → Expr
  | paren => e
  | array => .array [some e]
  | index => .link (.identifier "a") e true
  | call => .apply (.identifier "f") [e]
  | unary => .signed "-" e

/-- How many levels are opened around those of the nested text. -/
def levels : Nesting → Nat
  | unary => 1
  | _ => 2

theorem sum_levels (w : List Nesting) :
    (w.map levels).sum = 2 * w.countP (· ≠ unary) + w.count unary := by
  induction w with
  | nil => rfl
  | cons n w ih =>
    rw [List.map_cons, List.sum_cons, ih]
    cases n <;> simp [levels] <;> omega

end Nesting

/-- A name with nestings around it, from the inside out. -/
def nested (w : List Nesting) : String :=
  w.foldl (fun inner n => n.opening ++ inner ++ n.closing) "x"

/-- The tree of a nested text. -/
def nestedTree (w : List Nesting) : Expr :=
  w.foldl Nesting.node (.identifier "x")

/-! ### What stands at the ends -/

/-- A text that closes what is in front of it: its end, or a closing character. -/
def Shuts (k : List Char) : Prop :=
  ∀ ch ∈ k.head?, ch ∈ closers

theorem shuts_nil : Shuts [] := nofun

theorem shuts_cons {ch : Char} {k : List Char} (hch : ch ∈ closers) : Shuts (ch :: k) := by
  rintro _ ⟨⟩
  exact hch

namespace Shuts

variable {k : List Char} (h : Shuts k)
include h

theorem not_blank : ∀ ch ∈ k.head?, ¬ Grammar.isBlank ch := by
  have hall : ∀ ch ∈ closers, ¬ Grammar.isBlank ch := forall_mem_of_all (by decide)
  exact fun ch hch => hall ch (h ch hch)

theorem binaryOpIn : Grammar.unbounded.binaryOpIn k = none := by
  have hall : ∀ ch ∈ closers, ch ∉ Grammar.marks := forall_mem_of_all (by decide)
  exact Grammar.binaryOpIn_eq_none fun ch hch => hall ch (h ch hch)

theorem endsLinks : EndsLinks k := by
  have hall : ∀ ch ∈ closers, LinkForm.ofChar? ch = none ∧ ch ≠ '?' :=
    forall_mem_of_all (by decide)
  exact .of_head fun ch hch => hall ch (h ch hch)

theorem not_part : ∀ ch ∈ k.head?, ¬ Grammar.unbounded.isIdentifierPart ch := by
  have hall : ∀ ch ∈ closers, ch ∈ Grammar.punctuation := forall_mem_of_all (by decide)
  exact fun ch hch => Grammar.not_isIdentifierPart (hall ch (h ch hch))

end Shuts

/-- A text that starts with a character that is neither white space nor closes something. -/
structure Opens (input : List Char) (ch : Char) : Prop where
  head : input.head? = some ch
  not_blank : ¬ Grammar.isBlank ch
  not_closer : ch ∉ closers

namespace Opens

variable {input : List Char} {ch : Char} (h : Opens input ch)
include h

theorem ne {other : Char} (hother : other ∈ closers) : ch ≠ other := by
  rintro rfl
  exact h.not_closer hother

theorem not_separator : ¬ (ch = ';' ∨ ch = ',') := by
  rintro (hsep | hsep)
  · exact h.ne (by decide) hsep
  · exact h.ne (by decide) hsep

theorem append (k : List Char) : Opens (input ++ k) ch :=
  ⟨by rw [List.head?_append, h.head]; rfl, h.not_blank, h.not_closer⟩

end Opens

theorem opens_cons {ch : Char} {more : List Char} (h : ch ∈ ['(', '[', 'a', 'f', '-', 'x']) :
    Opens (ch :: more) ch := by
  have hall : ∀ ch ∈ ['(', '[', 'a', 'f', '-', 'x'], ¬ Grammar.isBlank ch ∧ ch ∉ closers :=
    forall_mem_of_all (by decide)
  exact ⟨rfl, (hall ch h).1, (hall ch h).2⟩

namespace Grammar

/-- A minus is an operator whatever comes next, because no operator of the table is
longer. -/
theorem unaryOpIn_minus (input : List Char) : unbounded.unaryOpIn ('-' :: input) = some "-" := by
  have hfound : Lexeme.operatorUpTo unbounded unbounded.isUnaryOp ⟨('-' :: input).toArray, 0⟩
      (min unbounded.longestUnary ('-' :: input).length) = some "-" := by
    have hlongest : unbounded.longestUnary = 1 := by decide
    rw [hlongest, List.length_cons]
    refine Lexeme.operatorUpTo_of_longest (k := 0) (by omega) ?_ fun m hm hm' => by omega
    rw [Lexeme.operatorOfLength_eq_some, Lexeme.restAt_toArray]
    refine ⟨rfl, by decide, fun hstart => ?_⟩
    exact absurd hstart (not_isIdentifierStart (by decide))
  simpa [unaryOpIn, Lexeme.unaryOperator, Cursor.remaining] using hfound

theorem lead_minus (input : List Char) : unbounded.lead ('-' :: input) = .unary "-" := by
  rw [lead, unaryOpIn_minus]
  rfl

/-- The names in nested texts. -/
theorem isName_letter {ch : Char} (h : ch ∈ ['a', 'f', 'x']) :
    unbounded.IsName (String.ofList [ch]) := by
  have hall : ∀ ch ∈ ['a', 'f', 'x'], unbounded.isIdentifierStart ch :=
    forall_mem_of_all (by decide)
  exact ⟨ch, [], String.toList_ofList, hall ch h, nofun⟩

end Grammar

namespace Dialect

open Reading

/-- The standard tables under some limit, without callbacks. -/
structure Standard (d : Dialect) : Prop where
  hookFree : d.HookFree
  grammar : ∃ limit, d.grammar = Grammar.unbounded.setNestingLimit limit

theorem standard_limited (limit : Option Nat) : (standard.limited limit).Standard := by
  refine ⟨fun p => ?_, limit, rfl⟩
  cases p <;> rfl

namespace Standard

variable {d : Dialect} (hd : d.Standard)
include hd

theorem binaryOpIn (input : List Char) :
    d.grammar.binaryOpIn input = Grammar.unbounded.binaryOpIn input := by
  obtain ⟨limit, hg⟩ := hd.grammar
  rw [hg, binaryOpIn_setNestingLimit]

theorem lead (input : List Char) : d.grammar.lead input = Grammar.unbounded.lead input := by
  obtain ⟨limit, hg⟩ := hd.grammar
  rw [hg, lead_setNestingLimit]

theorem meaning {w : String} (hw : w ∉ Grammar.keywords) :
    Lexeme.meaning d.grammar w = .identifier w := by
  obtain ⟨limit, hg⟩ := hd.grammar
  rw [hg]
  exact Grammar.meaning_identifier hw

theorem token {w : String} (hw : Grammar.unbounded.IsName w) {rest : List Char}
    (h : ∀ ch ∈ rest.head?, ¬ Grammar.unbounded.isIdentifierPart ch) :
    NameToken d.grammar (w.toList ++ rest) w rest := by
  obtain ⟨limit, hg⟩ := hd.grammar
  rw [hg]
  exact (hw.token h).setNestingLimit limit

end Standard

/-! ### The cost of an operand -/

/-- In front of what closes it, a text is one operand and opens so many levels. -/
def CostsOperand (d : Dialect) (text : Array Char) (input : List Char) (e : Expr) (k : Nat) :
    Prop :=
  ∀ n rest, Shuts rest → 2 * (input ++ rest).length + 2 ≤ n →
    Costs (d.context text n) k Reading.operand (input ++ rest) (some e) rest

/-- In front of what closes it, a text is one expression and opens so many levels. -/
def CostsExpression (d : Dialect) (text : Array Char) (input : List Char) (e : Expr) (k : Nat) :
    Prop :=
  ∀ n rest, Shuts rest → 2 * (input ++ rest).length + 4 ≤ n →
    Costs (d.context text n) k (reenter .expression) (input ++ rest) (some e) rest

section Levels

variable {d : Dialect} (hd : d.Standard) {text : Array Char} {input rest : List Char} {e : Expr}
  {k n : Nat}

/-- Room to read what is inside is room to read what comes behind it. -/
theorem room_behind {ch : Char} (hn : 2 * (input ++ ch :: rest).length + 4 ≤ n) :
    2 * (ch :: rest).length + 4 ≤ n := by
  rw [List.length_append] at hn
  omega

theorem room_at_end {ch : Char} (hn : 2 * (input ++ ch :: rest).length + 4 ≤ n) :
    rest.length + 2 ≤ n := by
  rw [List.length_append, List.length_cons] at hn
  omega

include hd

/-- An expression of one operand opens one level around it. -/
theorem CostsOperand.expression (h : CostsOperand d text input e k) :
    CostsExpression d text input e (k + 1) := by
  intro n rest hrest hn
  obtain ⟨n, rfl⟩ : ∃ m, n = m + 2 := ⟨n - 2, by omega⟩
  have hroom : rest.length + 1 ≤ n + 1 := by
    rw [List.length_append] at hn
    omega
  have hop := (hd.binaryOpIn rest).trans hrest.binaryOpIn
  have hoperand : Costs (d.context text (n + 1)) k (reenter .operand) (input ++ rest) (some e)
      rest :=
    h n rest hrest (by omega)
  have hexpression : Costs (d.context text (n + 1)) (k + 1) Reading.expression (input ++ rest)
      (some e) rest :=
    .expression hd.hookFree hroom hrest.not_blank
      (.lone hd.hookFree hroom hrest.not_blank hop hoperand)
  exact hexpression

/-- In front of a closing character, no expression comes; two levels are opened to see this. -/
theorem costs_nothing {ch : Char} (hch : ch ∈ closers) (hn : 2 * (ch :: rest).length + 4 ≤ n) :
    Costs (d.context text n) 2 (reenter .expression) (ch :: rest) none (ch :: rest) := by
  obtain ⟨n, rfl⟩ : ∃ m, n = m + 2 := ⟨n - 2, by omega⟩
  have hrest : Shuts (ch :: rest) := shuts_cons hch
  have hroom : (ch :: rest).length + 1 ≤ n := by omega
  have hlead : d.grammar.lead (ch :: rest) = .nothing :=
    (hd.lead _).trans (Grammar.lead_of_mem (List.mem_cons_of_mem '?' hch))
  have hoperand : Costs (d.context text n) 1 Reading.operand (ch :: rest) none (ch :: rest) :=
    .operand hd.hookFree hroom hrest.not_blank hlead (.of_takes (.operandNone hd.hookFree.plain))
  have hexpression : Costs (d.context text (n + 1)) 2 Reading.expression (ch :: rest) none
      (ch :: rest) :=
    .expression hd.hookFree (Nat.le_succ_of_le hroom) hrest.not_blank
      (Costs.bind_takes (x := reenter .operand) hoperand (.pure none))
  exact hexpression

/-- No link follows; of the rounds for links, one at most was used before. -/
theorem links_none {m : Nat} (hrest : Shuts rest) (hend : rest.length + 2 ≤ n) (hm : n ≤ m + 1)
    (node : Expr) :
    Takes (d.context text n) (Reading.skipBlanks >>= fun _ => linksWithin m node) rest node
      rest :=
  Costs.linksNone hd.hookFree (Nat.le_of_succ_le hend) hrest.not_blank hrest.endsLinks
    (by omega) node

/-! ### Names, and links on them -/

section Named

variable {w : String} (hw : Grammar.unbounded.IsName w) (hplain : w ∉ Grammar.keywords)
include hw hplain

/-- A name that stands for itself. -/
theorem costsOperand_name : CostsOperand d text w.toList (.identifier w) 1 := by
  intro n rest hrest hn
  have hroom : (w.toList ++ rest).length + 1 ≤ n := by omega
  have hhead : ∀ ch ∈ (w.toList ++ rest).head?, ¬ Grammar.isBlank ch :=
    fun _ hch hblank => hw.head_ne (Grammar.mem_punctuation_of_isBlank hblank) hch
  have hlead : d.grammar.lead (w.toList ++ rest) = .name :=
    (hd.lead _).trans (Grammar.lead_name hw)
  have htoken : NameToken d.grammar (w.toList ++ rest) w rest := hd.token hw hrest.not_part
  rw [← hd.meaning hplain]
  exact .name hd.hookFree hroom hhead hlead htoken hrest.not_blank hrest.endsLinks

/-- A name with a link that opens levels. -/
theorem costsOperand_link {opener : Char} {form : LinkForm} {linked : Expr} {inside : List Char}
    (hn : (w.toList ++ opener :: inside).length + 1 ≤ n) (hopener : opener ∈ ['[', '('])
    (hform : LinkForm.ofChar? opener = some form)
    (hbody : Costs (d.context text n) k (linkBody (.identifier w) form) inside linked rest)
    (hrest : Shuts rest) (hend : rest.length + 2 ≤ n) :
    Costs (d.context text n) (k + 1) Reading.operand (w.toList ++ opener :: inside) (some linked)
      rest := by
  have hall : ∀ ch ∈ ['[', '('], ch ∈ Grammar.punctuation ∧ ¬ Grammar.isBlank ch :=
    forall_mem_of_all (by decide)
  obtain ⟨hpunctuation, hblank⟩ := hall opener hopener
  have hroom : (opener :: inside).length + 1 ≤ n := by
    rw [List.length_append] at hn
    omega
  have hhead : ∀ ch ∈ (w.toList ++ opener :: inside).head?, ¬ Grammar.isBlank ch :=
    fun _ hch hblank => hw.head_ne (Grammar.mem_punctuation_of_isBlank hblank) hch
  have hlead : d.grammar.lead (w.toList ++ opener :: inside) = .name :=
    (hd.lead _).trans (Grammar.lead_name hw)
  have htoken : NameToken d.grammar (w.toList ++ opener :: inside) w (opener :: inside) :=
    hd.token hw (by rintro _ ⟨⟩; exact Grammar.not_isIdentifierPart hpunctuation)
  rw [← hd.meaning hplain] at hbody
  refine .operand hd.hookFree hn hhead hlead (.operandLink hd.hookFree hroom
    (by rintro _ ⟨⟩; exact hblank) htoken (.plain hform) hbody fun m hm => ?_)
  exact links_none hd hrest hend (Nat.le_of_eq hm) linked

end Named

/-! ### One nesting more -/

theorem CostsOperand.unary (h : CostsOperand d text input e k) :
    CostsOperand d text ('-' :: input) (.signed "-" e) (k + 1) := by
  intro n rest hrest hn
  rw [List.cons_append] at hn ⊢
  have hroom : ('-' :: (input ++ rest)).length + 1 ≤ n := by omega
  rw [List.length_cons] at hn
  obtain ⟨n, rfl⟩ : ∃ m, n = m + 1 := ⟨n - 1, by omega⟩
  have hlead := (hd.lead _).trans (Grammar.lead_minus (input ++ rest))
  have hargument : Costs (d.context text (n + 1)) k (reenter .operand) (input ++ rest) (some e)
      rest :=
    h n rest hrest (by omega)
  exact .operand hd.hookFree hroom (by simp [Grammar.isBlank]) hlead
    (.operandUnary hd.hookFree hargument)

section Inside

variable {ch : Char} (hopens : Opens input ch) (h : CostsExpression d text input e k)
include hopens h

/-- The expressions of a group: behind the one inside, another one is asked for. -/
theorem CostsExpression.items (hk : 2 ≤ k) (hn : 2 * (input ++ ')' :: rest).length + 4 ≤ n) :
    Costs (d.context text n) k (expressionsWithin (some ')') n #[]) (input ++ ')' :: rest) [e]
      (')' :: rest) := by
  have hopens := hopens.append (')' :: rest)
  have hinside := h n (')' :: rest) (shuts_cons (by decide)) hn
  have hroom : (input ++ ')' :: rest).length + 1 ≤ n := by omega
  have hbehind := room_behind hn
  have hnothing : Costs (d.context text n) 2 (reenter .expression) (')' :: rest) none
      (')' :: rest) :=
    costs_nothing hd (by decide) hbehind
  obtain ⟨m, hm⟩ : ∃ m, n = m + 2 := ⟨n - 2, by omega⟩
  have hmore : Costs (d.context text n) 2 (expressionsWithin (some ')') (m + 1) #[e])
      (')' :: rest) [e] (')' :: rest) :=
    .itemsStop hd.hookFree (by show _ ≤ n; omega) (by decide) (by decide) hnothing
  have hitem : Costs (d.context text n) (max k 2) (expressionsWithin (some ')') (m + 2) #[])
      (input ++ ')' :: rest) [e] (')' :: rest) :=
    .item hd.hookFree hroom hopens.head hopens.not_blank hopens.not_separator hinside hmore
  rwa [← hm, Nat.max_eq_left hk] at hitem

/-- A list of one slot. -/
theorem CostsExpression.slots (hcompound : ¬ e.isCompound) (kind : ListKind)
    (hn : 2 * (input ++ kind.closer :: rest).length + 4 ≤ n) :
    Costs (d.context text n) k (slotsWithin kind n .empty) (input ++ kind.closer :: rest) [some e]
      rest := by
  have hcloser : kind.closer ∈ closers ∧ ¬ Grammar.isBlank kind.closer := by
    cases kind <;> decide
  have hopens := hopens.append (kind.closer :: rest)
  have hinside := h n _ (shuts_cons hcloser.1) hn
  have hroom : (input ++ kind.closer :: rest).length + 1 ≤ n := by omega
  have hbehind := room_behind hn
  have hskips : Skips d.HasComments (kind.closer :: rest) (kind.closer :: rest) :=
    skips_nothing hd.hookFree.not_hasComments (by rintro _ ⟨⟩; exact hcloser.2)
  have hclosable : (Slots.empty.fill e).closable kind := by
    cases kind <;> rfl
  obtain ⟨m, hm⟩ : ∃ m, n = m + 2 := ⟨n - 2, by omega⟩
  have hend : Takes (d.context text n) (slotsWithin kind (m + 1) (Slots.empty.fill e))
      (kind.closer :: rest) [some e] rest :=
    .listEnd hd.hookFree.plain (by show _ ≤ n; omega) hskips hclosable
  have hslots : Costs (d.context text n) k (slotsWithin kind (m + 2) .empty)
      (input ++ kind.closer :: rest) [some e] rest :=
    .listFill hd.hookFree hroom hopens.head hopens.not_blank (hopens.ne hcloser.1)
      (hopens.ne (by decide)) rfl hinside hcompound hend
  rwa [← hm] at hslots

theorem CostsExpression.paren (hk : 2 ≤ k) :
    CostsOperand d text ('(' :: (input ++ [')'])) e (k + 1) := by
  intro n rest hrest hn
  rw [List.cons_append, List.append_assoc, List.singleton_append] at hn ⊢
  have hroom : ('(' :: (input ++ ')' :: rest)).length + 1 ≤ n := by omega
  have hinside : 2 * (input ++ ')' :: rest).length + 4 ≤ n := by
    rw [List.length_cons] at hn
    omega
  have hitems := CostsExpression.items hd hopens h hk hinside
  have hlead : d.grammar.lead ('(' :: (input ++ ')' :: rest)) = .group :=
    (hd.lead _).trans Grammar.lead_group
  exact .operand hd.hookFree hroom (by simp [Grammar.isBlank]) hlead (.operandGroup hd.hookFree
    hitems (links_none hd hrest (room_at_end hinside) (Nat.le_succ n) e))

theorem CostsExpression.array (hcompound : ¬ e.isCompound) :
    CostsOperand d text ('[' :: (input ++ [']'])) (.array [some e]) (k + 1) := by
  intro n rest hrest hn
  rw [List.cons_append, List.append_assoc, List.singleton_append] at hn ⊢
  have hroom : ('[' :: (input ++ ']' :: rest)).length + 1 ≤ n := by omega
  have hinside : 2 * (input ++ ']' :: rest).length + 4 ≤ n := by
    rw [List.length_cons] at hn
    omega
  have hslots := CostsExpression.slots hd hopens h hcompound .elements hinside
  have hlead : d.grammar.lead ('[' :: (input ++ ']' :: rest)) = .array := rfl
  exact .operand hd.hookFree hroom (by simp [Grammar.isBlank]) hlead (.operandArray hd.hookFree
    hslots (links_none hd hrest (room_at_end hinside) (Nat.le_succ n) _))

omit hopens in
theorem CostsExpression.index :
    CostsOperand d text ('a' :: '[' :: (input ++ [']'])) (.link (.identifier "a") e true)
      (k + 1) := by
  intro n rest hrest hn
  simp only [List.cons_append, List.append_assoc, List.nil_append] at hn ⊢
  have hroom : ('a' :: '[' :: (input ++ ']' :: rest)).length + 1 ≤ n := by omega
  have hinside : 2 * (input ++ ']' :: rest).length + 4 ≤ n := by
    simp only [List.length_cons] at hn
    omega
  have hbehind := room_behind hinside
  have hkey := h n (']' :: rest) (shuts_cons (by decide)) hinside
  have hbody : Costs (d.context text n) k (linkBody (.identifier "a") .index)
      (input ++ ']' :: rest) (.link (.identifier "a") e true) rest :=
    .index hd.hookFree (by show _ ≤ n; omega) hkey
  exact costsOperand_link hd (Grammar.isName_letter (by decide)) (by decide) hroom (by decide) rfl
    hbody hrest (room_at_end hinside)

theorem CostsExpression.call (hcompound : ¬ e.isCompound) :
    CostsOperand d text ('f' :: '(' :: (input ++ [')'])) (.apply (.identifier "f") [e])
      (k + 1) := by
  intro n rest hrest hn
  simp only [List.cons_append, List.append_assoc, List.nil_append] at hn ⊢
  have hroom : ('f' :: '(' :: (input ++ ')' :: rest)).length + 1 ≤ n := by omega
  have hinside : 2 * (input ++ ')' :: rest).length + 4 ≤ n := by
    simp only [List.length_cons] at hn
    omega
  have hslots := CostsExpression.slots hd hopens h hcompound .arguments hinside
  have hbody : Costs (d.context text n) k (linkBody (.identifier "f") .call)
      (input ++ ')' :: rest) (.apply (.identifier "f") [e]) rest :=
    .call hslots
  exact costsOperand_link hd (Grammar.isName_letter (by decide)) (by decide) hroom (by decide) rfl
    hbody hrest (room_at_end hinside)

end Inside

/-! ### Every word of nestings -/

/-- What one more nesting needs to know of a text. -/
structure Nestable (d : Dialect) (text : Array Char) (input : List Char) (e : Expr) (k : Nat) :
    Prop where
  opens : ∃ ch, Opens input ch
  notCompound : ¬ e.isCompound
  one_le : 1 ≤ k
  costs : CostsOperand d text input e k

theorem nestable_name : Nestable d text "x".toList (.identifier "x") 1 where
  opens := ⟨'x', opens_cons (by decide)⟩
  notCompound := by decide
  one_le := Nat.le_refl 1
  costs := costsOperand_name hd (Grammar.isName_letter (by decide)) (by decide)

theorem Nestable.around (h : Nestable d text input e k) (n : Nesting) :
    Nestable d text (n.opening.toList ++ input ++ n.closing.toList) (n.node e) (k + n.levels) := by
  obtain ⟨ch, hopens⟩ := h.opens
  have hinside := h.costs.expression hd
  have hk := h.one_le
  have hcompound := h.notCompound
  cases n with
  | paren =>
    exact ⟨⟨'(', opens_cons (by decide)⟩, hcompound, by omega, hinside.paren hd hopens (by omega)⟩
  | array =>
    exact ⟨⟨'[', opens_cons (by decide)⟩, nofun, by omega, hinside.array hd hopens hcompound⟩
  | index => exact ⟨⟨'a', opens_cons (by decide)⟩, nofun, by omega, hinside.index hd⟩
  | call =>
    exact ⟨⟨'f', opens_cons (by decide)⟩, nofun, by omega, hinside.call hd hopens hcompound⟩
  | unary =>
    have htext : Nesting.unary.opening.toList ++ input ++ Nesting.unary.closing.toList
        = '-' :: input :=
      List.append_nil _
    rw [htext]
    exact ⟨⟨'-', opens_cons (by decide)⟩, nofun, by omega, h.costs.unary hd⟩

theorem nestable_nested (w : List Nesting) :
    Nestable d text (nested w).toList (nestedTree w) (1 + (w.map Nesting.levels).sum) := by
  -- the last nesting of the word is the outermost one
  induction w using List.reverseRecOn with
  | nil => exact nestable_name hd
  | append_singleton w n ih =>
    have h := ih.around hd n
    simpa [nested, nestedTree, Nat.add_assoc] using h

end Levels

/-! ### Whole texts -/

/-- A program that opens so many levels is read where the limit leaves them. -/
theorem parse_of_costs {d : Dialect} {text : String} {e : Option Expr} {k : Nat}
    (h : Costs (d.context text.toList.toArray (budgetFor text.length)) k program text.toList e []) :
    (d.Allows k ∧ d.parse text = some (.ok e)) ∨
      (¬ d.Allows k ∧ ∃ i, d.parse text = some (.error ⟨.nestingLimit, i⟩)) := by
  obtain ⟨-, hrun⟩ := h List.suffix_rfl
  have hinitial : State.initial.placed (d.context text.toList.toArray (budgetFor text.length)).text
      text.toList = State.initial :=
    State.placed_initial text.toList
  have hlevels : State.initial.depth + k = k := Nat.zero_add k
  have hrun := hrun .initial (atDepth_initial (d := d)).2
  rw [hinitial, hlevels] at hrun
  rcases hrun with ⟨hallows, hok⟩ | ⟨hallows, i, s', hfail⟩
  · exact .inl ⟨hallows, congrArg Reply.outcome? hok⟩
  · exact .inr ⟨hallows, i, congrArg Reply.outcome? hfail⟩

/-- A whole text that is one expression opens no other levels. -/
theorem costs_program {d : Dialect} (hd : d.HookFree) {text : String} {ch : Char}
    (hopens : Opens text.toList ch) {e : Expr} {k : Nat}
    (h : Costs (d.context text.toList.toArray (budgetFor text.length)) k (reenter .expression)
      text.toList (some e) []) :
    Costs (d.context text.toList.toArray (budgetFor text.length)) k Reading.program text.toList
      (some e) [] := by
  obtain ⟨n, hn⟩ : ∃ n, n = budgetFor text.length := ⟨_, rfl⟩
  rw [← hn] at h ⊢
  have hlen : text.toList.length = text.length := String.length_toList
  have hroom : text.toList.length + 2 ≤ n := by
    rw [budgetFor] at hn
    omega
  obtain ⟨m, hm⟩ : ∃ m, n = m + 2 := ⟨n - 2, by omega⟩
  let c := d.context text.toList.toArray n
  have hend : Takes c (expressionsWithin none (m + 1) #[e]) [] [e] [] :=
    .itemsEnd hd.plain (by show _ ≤ n; simp only [List.length_nil]; omega)
      (skips_nothing hd.not_hasComments (by simp))
  have hitems : Costs c (max k 0) (expressionsWithin none (m + 2) #[]) text.toList [e] [] :=
    .item hd (by show _ ≤ n; omega) hopens.head hopens.not_blank hopens.not_separator h
      (.of_takes hend)
  rw [← hm, Nat.max_eq_left (Nat.zero_le k)] at hitems
  exact .of_takes_bind (.notify_nil (hd _)) (.bind_takes (.of_takes_bind .budget hitems)
    (.notify_nil (hd _)))

/-- A whole text that is one operand is one level more than the operand. -/
theorem Nestable.program {d : Dialect} (hd : d.Standard) {text : String} {e : Expr} {k : Nat}
    (h : Nestable d text.toList.toArray text.toList e k) :
    Costs (d.context text.toList.toArray (budgetFor text.length)) (k + 1) Reading.program
      text.toList (some e) [] := by
  obtain ⟨ch, hopens⟩ := h.opens
  have hlen : text.toList.length = text.length := String.length_toList
  have hexpression := h.costs.expression hd (budgetFor text.length) [] shuts_nil
  rw [List.append_nil] at hexpression
  refine costs_program hd.hookFree hopens (hexpression ?_)
  rw [budgetFor]
  omega

/-- **Nesting costs two levels a bracket and one a sign.**  A name with nestings around it
is read exactly where the limit leaves two levels for the name, two for each pair of brackets
and one for each sign; everywhere else it fails at the limit. -/
theorem parse_nested (w : List Nesting) (limit : Nat) :
    let d := standard.limited (some limit)
    if 2 + 2 * w.countP (· ≠ .unary) + w.count .unary ≤ limit then
      d.parse (nested w) = some (.ok (some (nestedTree w)))
    else
      ∃ failure, d.parse (nested w) = some (.error failure) ∧
        failure.description = "Recursion limit exceeded" := by
  intro d
  have hd : d.Standard := standard_limited (some limit)
  have hallows : d.Allows (1 + (w.map Nesting.levels).sum + 1) ↔
      2 + 2 * w.countP (· ≠ .unary) + w.count .unary ≤ limit := by
    rw [Nesting.sum_levels]
    show decide (_ ≤ limit) = true ↔ _
    rw [decide_eq_true_eq]
    omega
  rcases parse_of_costs ((nestable_nested hd w).program hd) with ⟨hopen, hok⟩ | ⟨hopen, i, hfail⟩
  · rw [if_pos (hallows.mp hopen)]
    exact hok
  · rw [if_neg fun h => hopen (hallows.mpr h)]
    exact ⟨_, hfail, rfl⟩

end Dialect

end OperatorGrammar
