/-
OperatorGrammar/Proofs/LinkChains.lean

Links fold to the left.

A link is a property, an index or a call, and it may be optional.  `Link.Spelled`
says how each of the six kinds is written, with white space between any two pieces
but not inside `?.`; keys and arguments are texts that are expressions on their
own.  One link that is written in front of other text puts itself onto the node so
far, and reading goes on behind it (`Link.Spelled.reads`), so a chain of any length
is the left fold of its links.

Main result: `Dialect.parse_links`.
-/
import OperatorGrammar.Proofs.TopLevel
import OperatorGrammar.Proofs.WholeExpression

namespace OperatorGrammar

/-! ### Links -/

/-- What a link adds to a node. -/
inductive LinkPart where
  | property (name : String)
  | index (key : Expr)
  | call (arguments : List Expr)

/-- A link, optional when it is written with `?.`. -/
structure Link where
  optional : Bool
  part : LinkPart

/-- The node with a link on it: marked when the link is optional, and computed when it is an
index. -/
def Link.onto (object : Expr) (l : Link) : Expr :=
  let mark := if l.optional then some true else none
  match l.part with
  | .property name => .member false object (.identifier name) mark
  | .index key => .member true object key mark
  | .call arguments => .call object arguments mark

namespace Link

variable (object : Expr) (optional : Bool)

theorem onto_property (name : String) : Link.onto object ⟨optional, .property name⟩
    = .marked optional (.link object (.identifier name) false) :=
  (Expr.marked_link optional object (.identifier name) false).symm

theorem onto_index (key : Expr) : Link.onto object ⟨optional, .index key⟩
    = .marked optional (.link object key true) :=
  (Expr.marked_link optional object key true).symm

theorem onto_call (arguments : List Expr) : Link.onto object ⟨optional, .call arguments⟩
    = .marked optional (.apply object arguments) :=
  (Expr.marked_apply optional object arguments).symm

end Link

/-- Any number of texts that are expressions, with commas between them. -/
inductive SpelledArguments (d : Dialect) : List Expr → String → Prop
  | none {gap : String} : BlankRun gap.toList → SpelledArguments d [] gap
  | last {e : Expr} {text before after : String} : d.IsExpression text e →
      BlankRun before.toList → BlankRun after.toList →
      SpelledArguments d [e] (before ++ text ++ after)
  | next {e e' : Expr} {es : List Expr} {text before after rest : String} :
      d.IsExpression text e → BlankRun before.toList → BlankRun after.toList →
      SpelledArguments d (e' :: es) rest →
      SpelledArguments d (e :: e' :: es) (before ++ text ++ after ++ "," ++ rest)

/-- How a link is written. -/
inductive Link.Spelled (d : Dialect) : Link → String → Prop
  | property {name gap : String} : d.grammar.IsName name → BlankRun gap.toList →
      Spelled d ⟨false, .property name⟩ ("." ++ gap ++ name)
  | optionalProperty {name gap : String} : d.grammar.IsName name → BlankRun gap.toList →
      Spelled d ⟨true, .property name⟩ ("?." ++ gap ++ name)
  | index {key : Expr} {text before after : String} : d.IsExpression text key →
      BlankRun before.toList → BlankRun after.toList →
      Spelled d ⟨false, .index key⟩ ("[" ++ before ++ text ++ after ++ "]")
  | optionalIndex {key : Expr} {text gap before after : String} : d.IsExpression text key →
      BlankRun gap.toList → BlankRun before.toList → BlankRun after.toList →
      Spelled d ⟨true, .index key⟩ ("?." ++ gap ++ "[" ++ before ++ text ++ after ++ "]")
  | call {arguments : List Expr} {text : String} : SpelledArguments d arguments text →
      Spelled d ⟨false, .call arguments⟩ ("(" ++ text ++ ")")
  | optionalCall {arguments : List Expr} {text gap : String} :
      SpelledArguments d arguments text → BlankRun gap.toList →
      Spelled d ⟨true, .call arguments⟩ ("?." ++ gap ++ "(" ++ text ++ ")")

/-- Links, one behind the other, with white space in front of each. -/
inductive SpelledLinks (d : Dialect) : List Link → String → Prop
  | nil : SpelledLinks d [] ""
  | cons {l : Link} {ls : List Link} {gap text rest : String} : BlankRun gap.toList →
      l.Spelled d text → SpelledLinks d ls rest → SpelledLinks d (l :: ls) (gap ++ text ++ rest)

/-- A link starts with punctuation. -/
theorem Link.Spelled.starts {d : Dialect} {l : Link} {text : String} (h : l.Spelled d text) :
    ∃ ch ∈ ['.', '?', '[', '('], text.toList.head? = some ch := by
  cases h with
  | property _ _ => exact ⟨'.', by decide, by simp⟩
  | optionalProperty _ _ => exact ⟨'?', by decide, by simp⟩
  | index _ _ _ => exact ⟨'[', by decide, by simp⟩
  | optionalIndex _ _ _ _ => exact ⟨'?', by decide, by simp⟩
  | call _ => exact ⟨'(', by decide, by simp⟩
  | optionalCall _ _ => exact ⟨'?', by decide, by simp⟩

/-- No name runs into a chain of links. -/
theorem SpelledLinks.head {d : Dialect} {ls : List Link} {text : String}
    (h : SpelledLinks d ls text) :
    ∀ ch ∈ text.toList.head?, ¬ Grammar.unbounded.isIdentifierPart ch := by
  cases h with
  | nil => exact nofun
  | @cons _ _ gap _ _ hgap hl _ =>
    have hall : ∀ ch ∈ ['.', '?', '[', '('], ch ∈ Grammar.punctuation :=
      forall_mem_of_all (by decide)
    intro ch hch
    refine Grammar.not_isIdentifierPart ?_
    obtain ⟨first, hmem, hfirst⟩ := hl.starts
    rw [String.toList_append, String.toList_append] at hch
    cases hcons : gap.toList with
    | nil =>
      rw [hcons, List.nil_append, List.head?_append, hfirst] at hch
      cases hch
      exact hall _ hmem
    | cons blank gap' =>
      rw [hcons] at hch hgap
      cases hch
      exact Grammar.mem_punctuation_of_isBlank hgap.head

section Readings

variable {d : Dialect} {k rest : List Char} (hd : d.Plain) (hc : ¬ d.HasComments)
  (hg : d.grammar = Grammar.unbounded)

theorem skips_self {ch : Char} {more : List Char} (hc : ¬ d.HasComments)
    (hch : ¬ Grammar.isBlank ch) : Skips d.HasComments (ch :: more) (ch :: more) := by
  refine skips_nothing hc ?_
  rintro _ ⟨⟩
  exact hch

include hd hc hg

/-! ### Arguments -/

/-- An argument in front of a comma or the closing parenthesis fills a slot. -/
theorem Dialect.IsExpression.fills {e : Expr} {text : String} {before after : List Char}
    {ch : Char} {slots slots' : Slots} {events : List SlotEvent} (h : d.IsExpression text e)
    (hbefore : BlankRun before) (hafter : BlankRun after) (hch : ch ∈ closers)
    (haccepts : slots.accepts)
    (hmore : Reads d AnyArray (.list .arguments (slots.fill e) events slots') (ch :: k) rest) :
    Reads d AnyArray (.list .arguments slots (.filled e :: events) slots')
      (before ++ (text.toList ++ (after ++ ch :: k))) rest := by
  have hread := h.padded hd hc hg (k := k) hbefore hafter hch
  have hcompound : ¬ e.isCompound := hread.notCompound e rfl
  obtain ⟨first, more, hcons, hlead, hread'⟩ := hread.expression_starts hc
  have hfirst : first ∉ '?' :: closers := fun hmem => hlead (hg ▸ Grammar.lead_of_mem hmem)
  have hskips := skips_dropWhile hc (before ++ (text.toList ++ (after ++ ch :: k)))
  rw [hcons] at hskips
  refine .listFill hskips ?_ ?_ haccepts hread' hcompound hmore
  · rintro rfl
    exact hfirst (by decide)
  · rintro rfl
    exact hfirst (by decide)

/-- Arguments fill the slots behind those that are closed by commas. -/
theorem SpelledArguments.reads {es : List Expr} {text : String}
    (h : SpelledArguments d es text) {slots : Slots} (hsize : slots.items.size = slots.commas)
    (hempty : es = [] → slots = .empty) :
    ∃ events slots', Reads d AnyArray (.list .arguments slots events slots')
        (text.toList ++ ')' :: k) k ∧
      slots'.items.toList = slots.items.toList ++ es.map some := by
  have hcloser : Skips d.HasComments (')' :: k) (ListKind.arguments.closer :: k) :=
    skips_self hc (by decide)
  have haccepts {slots : Slots} (hsize : slots.items.size = slots.commas) : slots.accepts := by
    simp [Slots.accepts, hsize]
  induction h generalizing slots with
  | none hgap =>
    obtain rfl := hempty rfl
    exact ⟨[], .empty, .listEnd (hgap.skips hcloser) rfl, rfl⟩
  | @last e _ before after he hbefore hafter =>
    have hclosable : (slots.fill e).closable .arguments := by
      simp [Slots.closable, Slots.fill, hsize]
    have hread := he.fills hd hc hg hbefore hafter (by decide) (haccepts hsize)
      (.listEnd hcloser hclosable)
    refine ⟨[.filled e], slots.fill e, ?_, Slots.toList_fill slots e⟩
    simpa using hread
  | @next e e' es _ before after more he hbefore hafter _ ih =>
    let next : Slots := ⟨(slots.fill e).items, slots.commas + 1⟩
    have hcomma : (slots.fill e).comma .arguments = some next := Slots.comma_fill hsize e .arguments
    have hnext : next.items.size = next.commas := by simp [next, Slots.fill, hsize]
    obtain ⟨events, slots', hread, hitems⟩ :=
      ih hnext fun hnil => absurd hnil (List.cons_ne_nil e' es)
    have hskips : Skips d.HasComments (',' :: (more.toList ++ ')' :: k))
        (',' :: (more.toList ++ ')' :: k)) := skips_self hc (by decide)
    have hread' := he.fills hd hc hg hbefore hafter (by decide) (haccepts hsize)
      (.listComma hskips hcomma hread)
    refine ⟨.filled e :: .comma :: events, slots', ?_, ?_⟩
    · simpa using hread'
    · rw [hitems, Slots.toList_fill]
      simp

/-- The arguments of a call are those that are spelled. -/
theorem SpelledArguments.reads_call {es : List Expr} {text : String}
    (h : SpelledArguments d es text) :
    ∃ events slots, Reads d AnyArray (.list .arguments .empty events slots)
        (text.toList ++ ')' :: k) k ∧ es = slots.items.toList.filterMap id := by
  have hempty : Slots.empty.items.size = Slots.empty.commas := rfl
  obtain ⟨events, slots, hread, hitems⟩ := h.reads hd hc hg hempty fun _ => rfl
  refine ⟨events, slots, hread, ?_⟩
  rw [hitems]
  simp [Slots.empty]

/-! ### One link -/

/-- A link that is written in front of other text is put onto the node so far. -/
theorem Link.Spelled.reads {l : Link} {text : String} (h : l.Spelled d text) {object e : Expr}
    (hk : ∀ ch ∈ k.head?, ¬ Grammar.unbounded.isIdentifierPart ch)
    (hmore : Reads d AnyArray (.links (l.onto object) e) k rest) :
    Reads d AnyArray (.links object e) (text.toList ++ k) rest := by
  have hstay {ch : Char} {more : List Char} (hch : ch ∈ ['.', '?', '[', ']', '(']) :
      Skips d.HasComments (ch :: more) (ch :: more) := by
    have hall : ∀ ch ∈ ['.', '?', '[', ']', '('], ¬ Grammar.isBlank ch :=
      forall_mem_of_all (by decide)
    exact skips_self hc (hall ch hch)
  have hpoint (more : List Char) : OpensLink d.HasComments ('.' :: more) .property false more :=
    .plain rfl
  have hbracket (more : List Char) : OpensLink d.HasComments ('[' :: more) .index false more :=
    .plain rfl
  have hparen (more : List Char) : OpensLink d.HasComments ('(' :: more) .call false more :=
    .plain rfl
  have hclose : ']' ∈ closers := by decide
  cases h with
  | @property name gap hname hgap =>
    have hname' : Grammar.unbounded.IsName name := hg ▸ hname
    have hnamed : Skips d.HasComments (name.toList ++ k) (name.toList ++ k) := hname'.skips hc
    rw [Link.onto_property] at hmore
    have hlink := Reads.property (hstay (by decide)) (hpoint _) (hgap.skips hnamed)
      (hg ▸ hname'.token hk) hmore
    simpa using hlink
  | @optionalProperty name gap hname hgap =>
    have hname' : Grammar.unbounded.IsName name := hg ▸ hname
    have hnamed : Skips d.HasComments (name.toList ++ k) (name.toList ++ k) := hname'.skips hc
    have hopens := OpensLink.optionalProperty (hgap.skips hnamed) (hname'.head_ne (by decide))
      (hname'.head_ne (by decide))
    rw [Link.onto_property] at hmore
    have hlink := Reads.property (hstay (by decide)) hopens hnamed (hg ▸ hname'.token hk) hmore
    simpa using hlink
  | @index key text before after hkey hbefore hafter =>
    have hread := hkey.padded hd hc hg (k := k) hbefore hafter hclose
    rw [Link.onto_index] at hmore
    have hlink := Reads.index (hstay (by decide)) (hbracket _) hread (hstay (by decide)) hmore
    simpa using hlink
  | @optionalIndex key text gap before after hkey hgap hbefore hafter =>
    have hread := hkey.padded hd hc hg (k := k) hbefore hafter hclose
    rw [Link.onto_index] at hmore
    have hlink := Reads.index (hstay (by decide)) (.optionalIndex (hgap.skips (hstay (by decide))))
      hread (hstay (by decide)) hmore
    simpa using hlink
  | @call arguments text harguments =>
    obtain ⟨events, slots, hread, hitems⟩ := harguments.reads_call hd hc hg (k := k)
    rw [Link.onto_call, hitems] at hmore
    have hlink := Reads.call (hstay (by decide)) (hparen _) hread hmore
    simpa using hlink
  | @optionalCall arguments text gap harguments hgap =>
    obtain ⟨events, slots, hread, hitems⟩ := harguments.reads_call hd hc hg (k := k)
    rw [Link.onto_call, hitems] at hmore
    have hlink := Reads.call (hstay (by decide)) (.optionalCall (hgap.skips (hstay (by decide))))
      hread hmore
    simpa using hlink

/-! ### All links -/

/-- A chain of links is read to the left fold of the links. -/
theorem SpelledLinks.reads {ls : List Link} {text : String} (h : SpelledLinks d ls text)
    (object : Expr) :
    Reads d AnyArray (.links object (ls.foldl Link.onto object)) text.toList [] := by
  induction h generalizing object with
  | nil =>
    have hstop : Skips d.HasComments [] [] := skips_dropWhile hc []
    exact .linksEnd hstop (.of_head nofun)
  | @cons l ls gap text rest hgap hl hls ih =>
    have hlink := hl.reads hd hc hg hls.head (ih (l.onto object))
    have hspaced := hlink.links_of_skips fun _ => hgap.skips
    simpa using hspaced

end Readings

/-! ### Parsing -/

namespace Dialect

/-- The standard dialect without a nesting limit. -/
def unbounded : Dialect := standard.mapGrammar (·.setNestingLimit none)

theorem unbounded_hookFree : unbounded.HookFree := by
  intro p
  cases p <;> rfl

section Links

variable {x text : String} {links : List Link} (hx : unbounded.grammar.IsName x)
  (hliteral : unbounded.grammar.literal? x = none) (hthis : x ≠ unbounded.grammar.receiverKeyword)
  (h : SpelledLinks unbounded links text)
include hx hliteral hthis h

theorem isExpression_links :
    unbounded.IsExpression (x ++ text) (links.foldl Link.onto (.identifier x)) := by
  have hd := unbounded_hookFree.plain
  have hc := unbounded_hookFree.not_hasComments
  have hmeaning : Lexeme.meaning unbounded.grammar x = .identifier x := by
    rw [Lexeme.meaning, hliteral]
    exact if_neg hthis
  have hx' : Grammar.unbounded.IsName x := hx
  have hlinks := h.reads hd hc rfl (.identifier x)
  rw [← hmeaning] at hlinks
  have hnil : Skips unbounded.HasComments [] [] := skips_dropWhile hc []
  have hoperand := Reads.name (hx'.skips hc) (Grammar.lead_name hx) (hx'.token h.head) hlinks
  have hread := Reads.expression (hoperand.lone hnil Grammar.binaryOpIn_nil) hnil
    fun _ h => absurd h unbounded_hookFree.not_hasConditionals
  rw [hmeaning, ← String.toList_append] at hread
  exact isExpression_of_reads hd rfl hread

/-- **Links fold to the left.**  With the standard dialect and no nesting limit, a name that stands
for itself and any number of links behind it, each of any form and with white space between any two
pieces, are parsed to the left fold of the links over the name.  A link is marked as optional when
it is written with `?.`, and computed when it is an index; its name, key or arguments are those
that are written. -/
theorem parse_links :
    unbounded.parse (x ++ text) = some (.ok (some (links.foldl Link.onto (.identifier x)))) :=
  (isExpression_links hx hliteral hthis h).parse unbounded_hookFree.plain
    unbounded_hookFree.not_hasComments rfl

end Links

/-- One link of each form. -/
theorem parse_links_each :
    let b : Expr := .identifier "b"
    let links : List Link := [⟨false, .property "this"⟩, ⟨false, .index b⟩,
      ⟨false, .call [b, .receiver]⟩, ⟨true, .property "c"⟩, ⟨true, .index b⟩, ⟨true, .call []⟩]
    let text := ".this [ b ](b, this)?.c ?. [b]?.( )"
    unbounded.grammar.IsName "a" ∧ unbounded.grammar.literal? "a" = none ∧
      "a" ≠ unbounded.grammar.receiverKeyword ∧ SpelledLinks unbounded links text ∧
      unbounded.parse ("a" ++ text) = some (.ok (some (links.foldl Link.onto (.identifier "a")))) := by
  intro b links text
  have ha : unbounded.grammar.IsName "a" := ⟨'a', [], rfl, by decide, by simp⟩
  have hc : unbounded.grammar.IsName "c" := ⟨'c', [], rfl, by decide, by simp⟩
  have hname : unbounded.grammar.IsName "this" := Grammar.isName_keyword (by decide)
  have hnone : BlankRun "".toList := by decide
  have hspace : BlankRun " ".toList := by decide
  have hb : unbounded.IsExpression "b" b := isExpression_of_answers 0 rfl (by decide +kernel)
  have hthis : unbounded.IsExpression "this" .receiver :=
    isExpression_of_answers 0 rfl (by decide +kernel)
  have harguments : SpelledArguments unbounded [b, .receiver] "b, this" :=
    .next hb hnone hnone (.last hthis hspace hnone)
  have hlinks : SpelledLinks unbounded links text :=
    .cons hnone (.property hname hnone) (.cons hspace (.index hb hspace hspace)
      (.cons hnone (.call harguments) (.cons hnone (.optionalProperty hc hnone)
        (.cons hspace (.optionalIndex hb hspace hnone hnone)
          (.cons hnone (.optionalCall (.none hspace) hnone) .nil)))))
  exact ⟨ha, rfl, by decide, hlinks, parse_links ha rfl (by decide) hlinks⟩

end Dialect

end OperatorGrammar
