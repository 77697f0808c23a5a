/-
OperatorGrammar/Proofs/Conditionals.lean

How conditionals are put together.

A test, a consequent and an alternate that are expressions on their own make a
conditional when they are written with ` ? ` and ` : ` between them.  The test is
read as a whole chain of operands, because nothing in it goes on with a question
mark.  The consequent ends in front of the colon, whatever conditionals it
contains, and the alternate takes the rest of the text.  Only the test must not be
a conditional itself: its alternate would take the question mark.

Main result: `Dialect.isExpression_conditional`.
-/
import OperatorGrammar.Proofs.WholeExpression

namespace OperatorGrammar

/-- Nothing that is read goes on with a question mark that a space follows. -/
theorem Grammar.halts_mark (more : List Char) :
    Grammar.unbounded.Halts (' ' :: '?' :: ' ' :: more) where
  breaks := by
    rintro _ ⟨⟩
    exact Grammar.breaks_of_mem (by decide)
  lead := Grammar.lead_of_mem (by decide)
  operator := Grammar.binaryOpIn_eq_none (by
    rintro _ ⟨⟩
    decide)
  links := by
    refine ⟨?_, fun hprefix => ?_⟩
    · rintro _ ⟨⟩
      rfl
    · cases (List.cons_prefix_cons.mp (List.cons_prefix_cons.mp hprefix).2).1

/-- An expression that is no conditional is a chain and white space. -/
theorem Reads.chain_of_expression {d : Dialect} {A : List SlotEvent → Prop} {e : Expr}
    {input rest : List Char} (h : Reads d A (.expression (some e)) input rest)
    (he : ∀ test consequent alternate, e ≠ .conditional test consequent alternate) :
    ∃ mid, Reads d A (.chain (some e)) input mid ∧ Skips d.HasComments mid rest := by
  cases h with
  | expression hchain hskips _ => exact ⟨_, hchain, hskips⟩
  | conditional _ _ _ _ _ => exact absurd rfl (he _ _ _)

namespace Dialect

/-- **Conditionals compose.**  With the standard tables, the conditional plugin and no nesting
limit, let three texts be expressions on their own, the first one for no conditional.  With
` ? ` and ` : ` between them they are an expression for the conditional of their nodes, and
parsing answers it.  So a conditional may stand as the consequent and as the alternate of another
one, to any depth, and the test is all that stands in front of the question mark. -/
theorem isExpression_conditional {test consequent alternate : String} {nt nc na : Expr}
    (htest : Dialect.conditional.IsExpression test nt)
    (hconsequent : Dialect.conditional.IsExpression consequent nc)
    (halternate : Dialect.conditional.IsExpression alternate na)
    (hnt : ∀ x y z, nt ≠ .conditional x y z) :
    let text := test ++ " ? " ++ consequent ++ " : " ++ alternate
    Dialect.conditional.IsExpression text (.conditional nt nc na) ∧
      Dialect.conditional.parse text = some (.ok (some (.conditional nt nc na))) := by
  intro text
  have hd := conditional_plain
  have hc := conditional_not_hasComments
  let afterColon : List Char := ' ' :: alternate.toList
  let afterMark : List Char := ' ' :: (consequent.toList ++ ' ' :: ':' :: afterColon)
  have htext : text.toList = test.toList ++ ' ' :: '?' :: afterMark := by
    simp [text, afterMark, afterColon]
  -- what stands in front of the question mark is read as it is read alone
  obtain ⟨mid, hchain, hskips⟩ := (htest.reads hd).chain_of_expression hnt
  have hhalts : Dialect.conditional.grammar.Halts (' ' :: '?' :: afterMark) :=
    Grammar.halts_mark _
  obtain ⟨mid', hmid, hchain'⟩ := hchain.inFront hc hhalts (fun _ => trivial) (.behind _)
  have hmark : Skips Dialect.conditional.HasComments mid' ('?' :: afterMark) :=
    hskips.inFront hc hmid
  -- the consequent ends in front of the colon
  have hspace : BlankRun [' '] := by decide
  have hread : Reads Dialect.conditional AnyArray (.expression (some nc)) afterMark
      (':' :: afterColon) := hconsequent.padded hd hc rfl hspace hspace (by decide)
  have hread' : Reads Dialect.conditional AnyArray (.expression (some na)) afterColon [] :=
    (halternate.reads hd).expression_of_skips fun _ => .blank (by decide)
  have hwhole : Dialect.conditional.IsExpression text (.conditional nt nc na) := by
    refine isExpression_of_reads (A := AnyArray) hd rfl ?_
    rw [htext]
    exact .conditional hchain' conditional_hasConditionals hmark hread hread'
  exact ⟨hwhole, hwhole.parse hd hc rfl⟩

/-- A sum as the test, and conditionals as the consequent and as the alternate. -/
theorem isExpression_conditional_nested :
    let nt : Expr := .binary "+" (.identifier "a") (.identifier "b")
    let nc : Expr := .conditional (.identifier "c") (.identifier "d") (.identifier "e")
    let na : Expr := .conditional (.identifier "f") (.identifier "g") (.identifier "h")
    Dialect.conditional.IsExpression "a + b" nt ∧
      Dialect.conditional.IsExpression "c ? d : e" nc ∧
      Dialect.conditional.IsExpression "f ? g : h" na ∧
      (∀ x y z, nt ≠ .conditional x y z) ∧
      Dialect.conditional.parse ("a + b" ++ " ? " ++ "c ? d : e" ++ " : " ++ "f ? g : h")
        = some (.ok (some (.conditional nt nc na))) := by
  intro nt nc na
  have htest : Dialect.conditional.IsExpression "a + b" nt :=
    isExpression_of_answers 0 rfl (by decide +kernel)
  have hconsequent : Dialect.conditional.IsExpression "c ? d : e" nc :=
    isExpression_of_answers 0 rfl (by decide +kernel)
  have halternate : Dialect.conditional.IsExpression "f ? g : h" na :=
    isExpression_of_answers 0 rfl (by decide +kernel)
  have hnt (x y z : Expr) : nt ≠ .conditional x y z := nofun
  exact ⟨htest, hconsequent, halternate, hnt,
    (isExpression_conditional htest hconsequent halternate hnt).2⟩

end Dialect

end OperatorGrammar
