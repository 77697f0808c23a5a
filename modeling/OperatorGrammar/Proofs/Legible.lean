/-
OperatorGrammar/Proofs/Legible.lean

The outline of a tree that was read tells which tree it is.

An outline shows of each node only one row.  That is less than the node: a row does
not say what a literal stands for, nor on which side of its argument an operator
stands.  But reading settles what the row leaves open: operators with one argument
are written in front of it, a link is marked or not, and what a literal stands for
follows from how it was written.  Trees with this property are `Legible`, and
everything that is read is legible when no operator and no name has a line break
(`Dialect.parse_legible`).

The rows below a node are those that follow it at greater levels, so the trees are
told from the rows by induction on one of them (`Legible.rows_append_inj`), and the
rows are told from the text (`Outline.lines_inj`).

Main result: `Dialect.HookFree.dump_injective`.
-/
import OperatorGrammar.Proofs.Built
import OperatorGrammar.Proofs.OutlineRows
import OperatorGrammar.Proofs.Plain
import OperatorGrammar.Proofs.ReadsSound
import OperatorGrammar.Proofs.Stretch

namespace OperatorGrammar

/-! ### Rows -/

namespace Expr

/-- What the row of a node says behind the name of its kind. -/
def details (leaves : Outline.Leaves) : Expr → String
  | identifier name => " " ++ name
  | literal value raw => " " ++ leaves.text value raw
  | member computed _ _ optional =>
    (if computed then " computed" else "") ++ Outline.optionalMark optional
  | call _ _ optional => Outline.optionalMark optional
  | unary operator _ _ => " " ++ operator
  | binary operator _ _ => " " ++ operator
  | _ => ""

/-- What is shown below a node, in order. -/
def children : Expr → List (Option Expr)
  | identifier _ => []
  | literal _ _ => []
  | receiver => []
  | member _ object property _ => [some object, some property]
  | call callee arguments _ => some callee :: arguments.map some
  | unary _ argument _ => [some argument]
  | binary _ left right => [some left, some right]
  | conditional test consequent alternate => [some test, some consequent, some alternate]
  | array elements => elements
  | sequence expressions => expressions.map some
  | compound body => body.map some

end Expr

namespace Outline

variable {leaves : Leaves} {level : Nat}

/-- The text of a slot's own row. -/
def slotText (leaves : Leaves) : Option Expr → String
  | none => "<hole>"
  | some e => e.typeName ++ e.details leaves

theorem listRows_eq (es : List Expr) :
    listRows leaves level es = slotRows leaves level (es.map some) := by
  induction es with
  | nil => rfl
  | cons e es ih => simp only [listRows, List.map_cons, slotRows, ih]

/-- A node is shown as its own row, and below it what stands in its slots. -/
theorem rows_eq (e : Expr) :
    rows leaves level e
      = ⟨level, slotText leaves (some e)⟩ :: slotRows leaves (level + 1) e.children := by
  cases e <;> simp [rows, slotText, slotRows, listRows_eq, Expr.typeName, Expr.details,
    Expr.children, ← String.append_assoc]

end Outline

namespace Expr

variable {leaves : Outline.Leaves} {e e' : Expr}

theorem typeName_word (e : Expr) :
    ∀ ch ∈ e.typeName.toList, (fun ch => decide (ch ≠ ' ')) ch = true := by
  have hall : e.typeName.toList.all fun ch => decide (ch ≠ ' ') := by
    cases e <;> (simp only [typeName]; decide)
  exact List.all_eq_true.mp hall

/-- The name of a kind starts with a letter. -/
theorem typeName_cons (e : Expr) :
    ∃ ch more, e.typeName.toList = ch :: more ∧ ch ∉ [' ', '<', '('] := by
  have hfirst : e.typeName.toList.head?.any (· ∉ [' ', '<', '(']) := by
    cases e <;> (simp only [typeName]; decide)
  cases hkind : e.typeName.toList with
  | nil =>
    rw [hkind] at hfirst
    cases hfirst
  | cons ch more =>
    rw [hkind] at hfirst
    exact ⟨ch, more, rfl, of_decide_eq_true hfirst⟩

theorem details_word (e : Expr) :
    ∀ ch ∈ (e.details leaves).toList.head?, ¬ (fun ch => decide (ch ≠ ' ')) ch = true := by
  cases e with
  | member computed object property optional =>
    cases computed <;> rcases optional with - | - | - <;> simp [details, Outline.optionalMark]
  | call callee arguments optional =>
    rcases optional with - | - | - <;> simp [details, Outline.optionalMark]
  | _ => simp [details]

/-- The row of a node names its kind, and says what it says behind it. -/
theorem eq_of_slotText (h : Outline.slotText leaves (some e) = Outline.slotText leaves (some e')) :
    e.typeName = e'.typeName ∧ e.details leaves = e'.details leaves := by
  have htext := congrArg String.toList h
  simp only [Outline.slotText, String.toList_append] at htext
  obtain ⟨hkind, hdetails⟩ := append_run_inj (typeName_word e) (details_word e) (typeName_word e')
    (details_word e') htext
  exact ⟨String.toList_inj.mp hkind, String.toList_inj.mp hdetails⟩

end Expr

/-! ### Legible trees -/

/-- The text starts neither a number nor a string. -/
def StartsWord (l : List Char) : Prop :=
  ∀ ch ∈ l.head?, ¬ ch.isDigit ∧ ch ≠ '.' ∧ ¬ IsQuote ch

/-- A constant with the text that it was written as: a number, a string, or a name. -/
inductive IsConstant (g : Grammar) : Value → String → Prop
  | number {x raw} : IsNumeral raw.toList → Decimal.read raw.toList = some x →
      IsConstant g (.number x) raw
  | string {q body value raw} : IsQuote q → raw.toList = q :: (body ++ [q]) →
      Escaped q body value.toList → IsConstant g (.string value) raw
  | named {value w} : g.literal? w = some value → '\n' ∉ w.toList → StartsWord w.toList →
      IsConstant g value w

/-- What a row leaves open of its own node is settled. -/
def Expr.Clear (g : Grammar) : Expr → Prop
  | .identifier name => '\n' ∉ name.toList
  | .literal value raw => IsConstant g value raw
  | .member _ _ _ optional => IsMark optional
  | .call _ _ optional => IsMark optional
  | .unary operator _ leading => '\n' ∉ operator.toList ∧ leading = true
  | .binary operator _ _ => '\n' ∉ operator.toList
  | _ => True

/-- A tree whose rows tell which tree it is. -/
inductive Expr.Legible (g : Grammar) : Expr → Prop
  | node {e} : e.Clear g → (∀ c, some c ∈ e.children → Legible g c) → Legible g e

variable {g : Grammar}

/-- What a constant stands for follows from how it was written. -/
theorem IsConstant.unique {value value' : Value} {raw : String} (h : IsConstant g value raw)
    (h' : IsConstant g value' raw) : value = value' := by
  -- the first character tells a number, a string and a name apart
  have hstring {q : Char} {more : List Char} (hq : IsQuote q) (hraw : raw.toList = q :: more) :
      ¬ IsNumeral raw.toList := by
    intro hnumber
    obtain ⟨first, more', hfirst, hdigit⟩ := hnumber.exists_cons
    obtain ⟨rfl, -⟩ := List.cons.inj (hraw.symm.trans hfirst)
    rcases hq with rfl | rfl <;> exact absurd hdigit (by decide)
  have hnamed (hother : StartsWord raw.toList) : ¬ IsNumeral raw.toList := by
    intro hnumber
    obtain ⟨first, more, hfirst, hdigit⟩ := hnumber.exists_cons
    obtain ⟨hno, hpoint, -⟩ := hother first (by rw [hfirst]; rfl)
    exact hdigit.elim hno hpoint
  have hquoted {q : Char} {more : List Char} (hq : IsQuote q) (hraw : raw.toList = q :: more) :
      ¬ StartsWord raw.toList :=
    fun hother => (hother q (by rw [hraw]; rfl)).2.2 hq
  cases h with
  | number hnumber hread =>
    cases h' with
    | number _ hread' => rw [Option.some.inj (hread.symm.trans hread')]
    | string hq hraw _ => exact absurd hnumber (hstring hq hraw)
    | named _ _ hother => exact absurd hnumber (hnamed hother)
  | string hq hraw hbody =>
    cases h' with
    | number hnumber _ => exact absurd hnumber (hstring hq hraw)
    | string hq' hraw' hbody' =>
      obtain ⟨rfl, hrest⟩ := List.cons.inj (hraw.symm.trans hraw')
      obtain ⟨-, hvalue, -⟩ := hbody.append_inj hq.ne_backslash hbody' hrest
      rw [String.toList_inj.mp hvalue]
    | named _ _ hother => exact absurd hother (hquoted hq hraw)
  | named hknown _ hother =>
    cases h' with
    | number hnumber _ => exact absurd hnumber (hnamed hother)
    | string hq hraw _ => exact absurd hother (hquoted hq hraw)
    | named hknown' _ _ => exact Option.some.inj (hknown.symm.trans hknown')

namespace Expr

/-- A link is computed or not and marked or not, and its row says which. -/
theorem eq_of_linkDetails (computed computed' : Bool) {optional optional' : Option Bool}
    (h : IsMark optional) (h' : IsMark optional')
    (heq : (if computed then " computed" else "") ++ Outline.optionalMark optional
      = (if computed' then " computed" else "") ++ Outline.optionalMark optional') :
    computed = computed' ∧ optional = optional' := by
  cases computed <;> cases computed' <;> rcases h with rfl | rfl <;> rcases h' with rfl | rfl <;>
    first | exact ⟨rfl, rfl⟩ | exact absurd heq (by decide)

/-- Nodes of one kind that say the same and have the same below are the same. -/
theorem Clear.eq {e e' : Expr} (h : e.Clear g) (h' : e'.Clear g) (hkind : e.typeName = e'.typeName)
    (hdetails : e.details .written = e'.details .written) (hchildren : e.children = e'.children) :
    e = e' := by
  have hmap {es es' : List Expr} (h : es.map some = es'.map some) : es = es' :=
    (List.map_inj_right fun _ _ => Option.some.inj).mp h
  have hbehind {w w' : String} (h : " " ++ w = " " ++ w') : w = w' :=
    (String.append_right_inj _).mp h
  cases e <;> cases e' <;> simp [typeName] at hkind
  case identifier.identifier name name' => rw [hbehind hdetails]
  case literal.literal value raw value' raw' =>
    obtain rfl : raw = raw' := hbehind hdetails
    rw [IsConstant.unique h h']
  case receiver.receiver => rfl
  case member.member computed object property optional computed' object' property' optional' =>
    obtain ⟨rfl, rfl⟩ := eq_of_linkDetails computed computed' h h' hdetails
    cases hchildren
    rfl
  case call.call callee arguments optional callee' arguments' optional' =>
    obtain ⟨-, rfl⟩ := eq_of_linkDetails false false h h' (congrArg ("" ++ ·) hdetails)
    obtain ⟨hcallee, harguments⟩ := List.cons.inj hchildren
    rw [Option.some.inj hcallee, hmap harguments]
  case unary.unary operator argument leading operator' argument' leading' =>
    cases hchildren
    rw [hbehind hdetails, h.2, h'.2]
  case binary.binary operator left right operator' left' right' =>
    cases hchildren
    rw [hbehind hdetails]
  case conditional.conditional =>
    cases hchildren
    rfl
  case array.array => exact congrArg array hchildren
  case sequence.sequence => exact congrArg sequence (hmap hchildren)
  case compound.compound => exact congrArg compound (hmap hchildren)

end Expr

/-! ### Trees from rows -/

namespace Outline

/-- The rows start above this level, so that nothing more stands at it in front of them. -/
def Above (level : Nat) (rest : List Row) : Prop :=
  ∀ row ∈ rest.head?, row.level < level

/-- What a slot has below its own row. -/
def slotChildren : Option Expr → List (Option Expr)
  | none => []
  | some e => e.children

theorem slotRows_cons (slot : Option Expr) (slots : List (Option Expr)) :
    slotRows leaves level (slot :: slots) = ⟨level, slotText leaves slot⟩
      :: (slotRows leaves (level + 1) (slotChildren slot) ++ slotRows leaves level slots) := by
  cases slot with
  | none => rfl
  | some e => rw [slotRows, rows_eq, List.cons_append]; rfl

theorem Above.slotRows (slots : List (Option Expr)) {rest : List Row} (h : Above level rest) :
    Above (level + 1) (Outline.slotRows leaves level slots ++ rest) := by
  cases slots with
  | nil => exact fun row hrow => Nat.lt_succ_of_lt (h row hrow)
  | cons slot slots =>
    rw [slotRows_cons]
    rintro row ⟨⟩
    exact Nat.lt_succ_self level

/-- No row stands where the rows above end. -/
theorem Above.ne_slotRows {rest : List Row} (h : Above level rest) (slot : Option Expr)
    (slots : List (Option Expr)) (rest' : List Row) :
    rest ≠ Outline.slotRows leaves level (slot :: slots) ++ rest' := by
  rintro rfl
  rw [slotRows_cons] at h
  exact Nat.lt_irrefl level (h _ rfl)

theorem slotText_ne_hole (e : Expr) : slotText leaves (some e) ≠ slotText leaves none := by
  intro heq
  obtain ⟨ch, more, hkind, hch⟩ := e.typeName_cons
  have htext := congrArg String.toList heq
  simp only [slotText, String.toList_append, hkind, List.cons_append] at htext
  obtain ⟨rfl, -⟩ := List.cons.inj htext
  exact absurd hch (by decide)

end Outline

namespace Expr.Legible

open Outline

theorem clear {e : Expr} (h : e.Legible g) : e.Clear g := by
  cases h with
  | node hclear _ => exact hclear

theorem child {e c : Expr} (h : e.Legible g) (hc : some c ∈ e.children) : c.Legible g := by
  cases h with
  | node _ hbelow => exact hbelow c hc

/-- The slots of a list are told from their rows when each tree in them is told from its own. -/
theorem slotRows_append_inj {slots slots' : List (Option Expr)}
    (ih : ∀ e, some e ∈ slots → ∀ (level : Nat) (e' : Expr) (rest rest' : List Row), e'.Legible g →
      Above (level + 1) rest → Above (level + 1) rest' →
      rows .written level e ++ rest = rows .written level e' ++ rest' → e = e' ∧ rest = rest')
    (hslots' : ∀ e, some e ∈ slots' → e.Legible g) {level : Nat} {rest rest' : List Row}
    (hrest : Above level rest) (hrest' : Above level rest')
    (heq : slotRows .written level slots ++ rest = slotRows .written level slots' ++ rest') :
    slots = slots' ∧ rest = rest' := by
  induction slots generalizing slots' with
  | nil =>
    cases slots' with
    | nil => exact ⟨rfl, heq⟩
    | cons slot' slots' => exact absurd heq (hrest.ne_slotRows slot' slots' rest')
  | cons slot slots ihslots =>
    cases slots' with
    | nil => exact absurd heq.symm (hrest'.ne_slotRows slot slots rest)
    | cons slot' slots' =>
      have hrow : slotText .written slot = slotText .written slot' := by
        rw [slotRows_cons, slotRows_cons] at heq
        exact (Row.mk.inj (List.cons.inj heq).1).2
      have hmore := ihslots (fun e he => ih e (List.mem_cons_of_mem _ he))
        (fun e he => hslots' e (List.mem_cons_of_mem _ he))
      cases slot with
      | none =>
        cases slot' with
        | none =>
          obtain ⟨rfl, rfl⟩ := hmore (List.cons.inj heq).2
          exact ⟨rfl, rfl⟩
        | some e' => exact absurd hrow.symm (slotText_ne_hole e')
      | some e =>
        cases slot' with
        | none => exact absurd hrow (slotText_ne_hole e)
        | some e' =>
          rw [slotRows, slotRows, List.append_assoc, List.append_assoc] at heq
          obtain ⟨rfl, hrows⟩ := ih e List.mem_cons_self level e' _ _
            (hslots' e' List.mem_cons_self) (hrest.slotRows slots) (hrest'.slotRows slots') heq
          obtain ⟨rfl, rfl⟩ := hmore hrows
          exact ⟨rfl, rfl⟩

/-- A legible tree is told from its rows, whatever stands above it. -/
theorem rows_append_inj {e : Expr} (h : e.Legible g) : ∀ (level : Nat) (e' : Expr)
    (rest rest' : List Row), e'.Legible g → Above (level + 1) rest → Above (level + 1) rest' →
    rows .written level e ++ rest = rows .written level e' ++ rest' → e = e' ∧ rest = rest' := by
  induction h with
  | @node e hclear _ ih =>
    intro level e' rest rest' h' hrest hrest' heq
    rw [rows_eq, rows_eq, List.cons_append, List.cons_append] at heq
    obtain ⟨hrow, hbelow⟩ := List.cons.inj heq
    obtain ⟨hkind, hdetails⟩ := eq_of_slotText (Row.mk.inj hrow).2
    obtain ⟨hchildren, rfl⟩ := slotRows_append_inj ih (fun _ => h'.child) hrest hrest' hbelow
    exact ⟨hclear.eq h'.clear hkind hdetails hchildren, rfl⟩

end Expr.Legible

/-! ### Rows from a text -/

/-- A numeral is written on one line. -/
theorem IsNumeral.no_newline {l : List Char} (h : IsNumeral l) : '\n' ∉ l := by
  obtain ⟨whole, fraction, exponent, rfl, hwhole, hfraction, hexponent, -⟩ := h
  have hdigits {l : List Char} (h : AllDigits l) : '\n' ∉ l :=
    fun hmem => absurd (h _ hmem) (by decide)
  have hfraction' : '\n' ∉ fraction := by
    rcases hfraction with rfl | ⟨digits, rfl, hall⟩
    · exact List.not_mem_nil
    · simp [hdigits hall]
  have hexponent' : '\n' ∉ exponent := by
    rcases hexponent with rfl | ⟨mark, sign, digits, rfl, hmark, hsign, -, hall⟩
    · exact List.not_mem_nil
    · rcases hmark with rfl | rfl <;> rcases hsign with rfl | rfl | rfl <;> simp [hdigits hall]
  simp [hdigits hwhole, hfraction', hexponent']

/-- The row of a constant ends where the constant does. -/
theorem IsConstant.ends {value : Value} {raw : String} (h : IsConstant g value raw) :
    Outline.Ends ("Literal ".toList ++ raw.toList) := by
  have hplain (hline : '\n' ∉ raw.toList) (hquote : ∀ ch ∈ raw.toList.head?, ¬ IsQuote ch) :
      Outline.Ends ("Literal ".toList ++ raw.toList) := by
    refine .plain (by simp [hline]) ?_
    intro q hq hquoted
    rw [List.prefix_append_right_inj] at hquoted
    obtain ⟨more, hmore⟩ := hquoted
    exact hquote q (by rw [← hmore]; rfl) hq
  cases h with
  | number hnumber _ =>
    refine hplain hnumber.no_newline ?_
    obtain ⟨first, more, hfirst, hdigit⟩ := hnumber.exists_cons
    rw [hfirst]
    rintro _ ⟨⟩ (rfl | rfl) <;> exact absurd hdigit (by decide)
  | string hq hraw hbody =>
    rw [hraw]
    exact .quoted hq hbody
  | named _ hline hother => exact hplain hline fun ch hch => (hother ch hch).2.2

namespace Expr

theorem typeName_no_newline (e : Expr) : '\n' ∉ e.typeName.toList := by
  cases e <;> (simp only [typeName]; decide)

/-- Only constants can be written on several lines. -/
theorem Clear.details_no_newline {e : Expr} (h : e.Clear g) (hkind : e.typeName ≠ "Literal") :
    '\n' ∉ (e.details .written).toList := by
  cases e with
  | identifier name =>
    have hname : '\n' ∉ name.toList := h
    simp [details, hname]
  | literal value raw => exact absurd rfl hkind
  | member computed object property optional =>
    cases computed <;> rcases optional with - | - | - <;> (simp only [details]; decide)
  | call callee arguments optional =>
    rcases optional with - | - | - <;> (simp only [details]; decide)
  | unary operator argument leading => simp [details, h.1]
  | binary operator left right =>
    have hoperator : '\n' ∉ operator.toList := h
    simp [details, hoperator]
  | _ => simp [details]

theorem Clear.ends {e : Expr} (h : e.Clear g) :
    Outline.Ends (Outline.slotText .written (some e)).toList := by
  by_cases hkind : e.typeName = "Literal"
  · cases e <;> simp [typeName] at hkind
    case literal value raw =>
      have htext : (Outline.slotText .written (some (literal value raw))).toList
          = "Literal ".toList ++ raw.toList := by
        simp [Outline.slotText, typeName, details, Outline.Leaves.text]
      rw [htext]
      exact IsConstant.ends h
  · rw [Outline.slotText, String.toList_append]
    refine .plain ?_ ?_
    · rw [List.mem_append]
      exact not_or.mpr ⟨e.typeName_no_newline, h.details_no_newline hkind⟩
    · -- the word in front would be the name of the kind
      rintro q - ⟨more, hmore⟩
      have hword : "Literal".toList ++ (' ' :: q :: more) = e.typeName.toList
          ++ (e.details .written).toList := by
        rw [← hmore]
        simp
      obtain ⟨hkind', -⟩ := append_run_inj (typeName_word (.literal .null "")) (by simp)
        e.typeName_word e.details_word hword
      exact hkind (String.toList_inj.mp hkind'.symm)

theorem Clear.readable {e : Expr} (h : e.Clear g) (level : Nat) :
    Outline.Row.Readable ⟨level, Outline.slotText .written (some e)⟩ := by
  obtain ⟨ch, more, hkind, hch⟩ := e.typeName_cons
  refine ⟨h.ends, ch, more ++ (e.details .written).toList, ?_, ?_⟩
  · rw [Outline.slotText, String.toList_append, hkind, List.cons_append]
  · rintro rfl
    exact absurd hch (by decide)

end Expr

namespace Outline

theorem readable_hole (level : Nat) : Row.Readable ⟨level, slotText .written none⟩ := by
  have htext : (slotText .written none).toList = '<' :: "hole>".toList := by decide
  have hline : '\n' ∉ '<' :: "hole>".toList := by decide
  refine ⟨?_, '<', _, htext, by decide⟩
  rw [htext]
  refine .plain hline ?_
  rintro q - ⟨more, hmore⟩
  exact absurd (List.cons.inj hmore).1 (by decide)

theorem readable_slotRows {slots : List (Option Expr)}
    (h : ∀ e, some e ∈ slots → ∀ level, ∀ row ∈ rows .written level e, row.Readable) (level : Nat) :
    ∀ row ∈ slotRows .written level slots, row.Readable := by
  induction slots with
  | nil => exact nofun
  | cons slot slots ih =>
    have ih := ih fun e he => h e (List.mem_cons_of_mem _ he)
    cases slot with
    | none => exact List.forall_mem_cons.mpr ⟨readable_hole level, ih⟩
    | some e => exact List.forall_mem_append.mpr ⟨h e List.mem_cons_self level, ih⟩

end Outline

theorem Expr.Legible.readable {e : Expr} (h : e.Legible g) :
    ∀ level, ∀ row ∈ Outline.rows .written level e, row.Readable := by
  induction h with
  | node hclear _ ih =>
    intro level
    rw [Outline.rows_eq]
    exact List.forall_mem_cons.mpr ⟨hclear.readable level, Outline.readable_slotRows ih _⟩

/-- **A legible tree is told from its outline.** -/
theorem Expr.Legible.dump_inj {e e' : Expr} (h : e.Legible g) (h' : e'.Legible g)
    (heq : dump .written (some e) = dump .written (some e')) : e = e' := by
  have hrows := Outline.lines_inj (h.readable 0) (h'.readable 0) heq
  have hnil : Outline.Above 1 [] := nofun
  exact (h.rows_append_inj 0 e' [] [] h' hnil hnil (by rw [hrows])).1

/-- The outline of a tree starts with a letter, so it does not say that there is none. -/
theorem Expr.dump_ne_empty (e : Expr) : dump .written (some e) ≠ dump .written none := by
  intro heq
  have htext : (String.join ((Outline.rows .written 0 e).map Outline.Row.line)).toList
      = "(empty)\n".toList :=
    congrArg String.toList heq
  obtain ⟨ch, more, hkind, hch⟩ := e.typeName_cons
  rw [Outline.rows_eq, List.map_cons, String.toList_join, List.flatMap_cons,
    Outline.Row.toList_line, Outline.slotText, String.toList_append, hkind] at htext
  obtain ⟨rfl, -⟩ := List.cons.inj htext
  exact absurd hch (by decide)

/-! ### Everything that is read -/

theorem Grammar.Spares.not_mem_name {ch : Char} (hg : g.Spares ch) {w : String}
    (h : g.IsName w) : ch ∉ w.toList := by
  obtain ⟨first, more, hw, hfirst, hmore⟩ := h
  rw [hw, List.mem_cons]
  rintro (rfl | hmem)
  · exact hg.name (by simp [isIdentifierPart, hfirst])
  · exact hg.name (hmore _ hmem)

/-- A name is read only where no number and no string starts. -/
theorem Grammar.startsWord_of_lead {input : List Char} (h : g.lead input = .name) :
    StartsWord input := by
  cases input with
  | nil => cases h
  | cons ch more =>
    rintro _ ⟨⟩
    rw [lead] at h
    by_cases hnumber : isDigit ch ∨ ch = '.'
    · rw [if_pos hnumber] at h
      cases h
    by_cases hquote : ch = '\'' ∨ ch = '"'
    · rw [if_neg hnumber, if_pos hquote] at h
      cases h
    exact ⟨fun hdigit => hnumber (.inl hdigit), fun hpoint => hnumber (.inr hpoint), hquote⟩

variable {d : Dialect} {text : List Char}

theorem Expr.legible_meaning (hg : d.grammar.Spares '\n') {start rest : List Char} {w : String}
    (hlead : d.grammar.lead start = .name) (htoken : NameToken d.grammar start w rest) :
    (Lexeme.meaning d.grammar w).Legible d.grammar := by
  have hline := hg.not_mem_name htoken.isName
  have hhead : StartsWord w.toList := by
    intro ch hch
    refine Grammar.startsWord_of_lead hlead ch ?_
    rw [htoken.split, List.head?_append, hch]
    rfl
  rw [Lexeme.meaning]
  rcases hliteral : d.grammar.literal? w with - | value
  · simp only []
    by_cases hkeyword : w = d.grammar.receiverKeyword
    · rw [if_pos hkeyword]
      exact .node trivial nofun
    · rw [if_neg hkeyword]
      exact .node hline nofun
  · exact .node (.named hliteral hline hhead) nofun

/-- Where no operator and no name has a line break, only legible trees are read. -/
theorem Dialect.buildsOnly_legible (hg : d.grammar.Spares '\n') :
    d.BuildsOnly text (Expr.Legible d.grammar) where
  number _ htoken := .node (.number htoken.isNumeral htoken.value) nofun
  string _ htoken := by
    obtain ⟨q, body, hq, hraw, hbody⟩ := htoken.shape
    exact .node (.string hq hraw hbody) nofun
  name hlead htoken := Expr.legible_meaning hg hlead htoken
  property hobject hname hmark := by
    have hproperty : Expr.Legible d.grammar (.identifier _) := .node (hg.not_mem_name hname) nofun
    exact .node hmark (by simpa [Expr.children] using ⟨hobject, hproperty⟩)
  index hobject hkey hmark := .node hmark (by simpa [Expr.children] using ⟨hobject, hkey⟩)
  call hcallee harguments hmark :=
    .node hmark (by simpa [Expr.children] using ⟨hcallee, harguments⟩)
  unary hop hargument := .node ⟨hg.unary _ hop, rfl⟩ (by simpa [Expr.children] using hargument)
  binary hop hleft hright :=
    .node (hg.binary _ hop) (by simpa [Expr.children] using ⟨hleft, hright⟩)
  conditional _ htest hconsequent halternate :=
    .node trivial (by simpa [Expr.children] using ⟨htest, hconsequent, halternate⟩)
  array helements := .node trivial helements
  sequence _ hexpressions := .node trivial (by simpa [Expr.children] using hexpressions)

theorem Dialect.parse_legible (hd : d.Plain) (hg : d.grammar.Spares '\n') {text : String} {e : Expr}
    (h : d.parse text = some (.ok (some e))) : e.Legible d.grammar := by
  obtain ⟨nodes, he, hreads⟩ := parse_reads hd h
  have hnodes : ∀ x ∈ nodes, x.Legible d.grammar :=
    hreads.built (buildsOnly_legible hg) List.suffix_rfl
  rcases nodes with - | ⟨x, - | ⟨y, more⟩⟩
  · cases he
  · cases he
    exact hnodes _ List.mem_cons_self
  · cases he
    exact .node trivial (by simpa [Expr.children] using hnodes)

/-- **The outline tells the result.**  Without callbacks, and where no operator and no name has
a line break, two results with the same outline are the same: the same tree, with its marks,
holes and values, or nothing. -/
theorem Dialect.HookFree.dump_injective (hd : d.HookFree) (hg : d.grammar.Spares '\n')
    {text text' : String} {r r' : Option Expr} (h : d.parse text = some (.ok r))
    (h' : d.parse text' = some (.ok r')) (heq : Expr.dump .written r = Expr.dump .written r') :
    r = r' := by
  cases r with
  | none =>
    cases r' with
    | none => rfl
    | some e' => exact absurd heq.symm e'.dump_ne_empty
  | some e =>
    cases r' with
    | none => exact absurd heq e.dump_ne_empty
    | some e' =>
      have he := parse_legible hd.plain hg h
      have he' := parse_legible hd.plain hg h'
      rw [he.dump_inj he' heq]

/-- An array with a string that looks like two rows, and a hole, written in two ways. -/
theorem Dialect.HookFree.dump_injective_hole :
    let d := standard
    let array : List (Option Expr) := [some (.quoted "a\n  Literal b"), none]
    let text := "['a\n  Literal b',,]"
    let text' := "[ 'a\n  Literal b', ,\n]"
    d.HookFree ∧ d.grammar.Spares '\n' ∧ d.parse text = some (.ok (some (.array array))) ∧
      d.parse text' = some (.ok (some (.array array))) ∧
      (Expr.dump .written (some (.array array))
        = "ArrayExpression\n  Literal 'a\n  Literal b'\n  <hole>\n") ∧
      some (Expr.array array) = some (Expr.array array) := by
  intro d array text text'
  have hd : d.HookFree := fun p => by cases p <;> rfl
  have hg : d.grammar.Spares '\n' := by decide
  have hparse : d.parse text = some (.ok (some (.array array))) :=
    parse_of_parsesAs (by decide +kernel) rfl
  have hparse' : d.parse text' = some (.ok (some (.array array))) :=
    parse_of_parsesAs (by decide +kernel) rfl
  exact ⟨hd, hg, hparse, hparse', by decide +kernel, dump_injective hd hg hparse hparse' rfl⟩

end OperatorGrammar
