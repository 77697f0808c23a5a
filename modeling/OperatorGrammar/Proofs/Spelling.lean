/-
OperatorGrammar/Proofs/Spelling.lean

Nothing of a source text is lost, repeated or reordered.

The yield of a tree is the list of its leaf texts in source order: names, raw
literals, the receiver keyword and the operators.  Without callbacks, a text
that is read spells the yield of its tree, with only white space and brackets,
separators, points and question marks between the words.

There is one exception, and it is in an array that is first separated by spaces
and then by commas: its first comma drops all slots but one.  So the readings
here are those in which no array mixes the two (`Mixed`); what such an array
keeps is an invariant of its slots (`Slots.Keeps`).

Main result: `Dialect.parse_spells`.
-/
import OperatorGrammar.Proofs.ReadsComplete

namespace OperatorGrammar

/-! ### The yield of a tree -/

mutual

/-- The leaf texts of a tree in source order; `keyword` is the text of the receiver. -/
def Expr.yield (keyword : String) : Expr → List String
  | .identifier name => [name]
  | .literal _ raw => [raw]
  | .receiver => [keyword]
  | .member _ object property _ => object.yield keyword ++ property.yield keyword
  | .call callee arguments _ => callee.yield keyword ++ Expr.yieldAll keyword arguments
  | .unary operator argument _ => operator :: argument.yield keyword
  | .binary operator left right => left.yield keyword ++ operator :: right.yield keyword
  | .conditional test consequent alternate =>
    test.yield keyword ++ consequent.yield keyword ++ alternate.yield keyword
  | .array elements => Expr.yieldSlots keyword elements
  | .sequence expressions => Expr.yieldAll keyword expressions
  | .compound body => Expr.yieldAll keyword body

/-- The leaf texts of several trees. -/
def Expr.yieldAll (keyword : String) : List Expr → List String
  | [] => []
  | e :: es => e.yield keyword ++ Expr.yieldAll keyword es

/-- The leaf texts of several trees with holes. -/
def Expr.yieldSlots (keyword : String) : List (Option Expr) → List String
  | [] => []
  | none :: es => Expr.yieldSlots keyword es
  | some e :: es => e.yield keyword ++ Expr.yieldSlots keyword es

end

/-- The leaf texts of a result; none when there is no node. -/
def Expr.yieldOf (keyword : String) (e : Option Expr) : List String :=
  e.elim [] (Expr.yield keyword)

namespace Expr

variable {keyword : String}

theorem yieldSlots_append (es es' : List (Option Expr)) :
    yieldSlots keyword (es ++ es') = yieldSlots keyword es ++ yieldSlots keyword es' := by
  induction es with
  | nil => rfl
  | cons e es ih =>
    cases e with
    | none => exact ih
    | some e =>
      rw [List.cons_append, yieldSlots, yieldSlots, ih, List.append_assoc]

theorem yieldSlots_replicate (n : Nat) : yieldSlots keyword (List.replicate n none) = [] := by
  induction n with
  | zero => rfl
  | succ n ih => exact ih

/-- Holes have no text. -/
theorem yieldAll_filterMap (es : List (Option Expr)) :
    yieldAll keyword (es.filterMap id) = yieldSlots keyword es := by
  induction es with
  | nil => rfl
  | cons e es ih =>
    cases e with
    | none => exact ih
    | some e =>
      show e.yield keyword ++ yieldAll keyword (es.filterMap id) = _
      rw [ih, yieldSlots]

/-- The mark of an optional link is no leaf. -/
theorem yield_marked (optional : Bool) (e : Expr) :
    (marked optional e).yield keyword = e.yield keyword := by
  cases optional with
  | false => rfl
  | true => cases e <;> rfl

/-- A list of nodes has the same leaves as the one node that stands for it. -/
theorem yieldOf_bundle (keyword : String) (several : List Expr → Expr)
    (h : ∀ es, (several es).yield keyword = yieldAll keyword es) (nodes : List Expr) :
    yieldOf keyword (bundle several nodes) = yieldAll keyword nodes := by
  rcases nodes with - | ⟨e, - | ⟨e', es⟩⟩
  · rfl
  · show e.yield keyword = e.yield keyword ++ []
    rw [List.append_nil]
  · exact h _

/-- A name is its own text, whatever it stands for. -/
theorem yield_meaning (g : Grammar) (w : String) :
    (Lexeme.meaning g w).yield g.receiverKeyword = [w] := by
  rw [Lexeme.meaning]
  split
  · rfl
  · split
    · rename_i hw
      rw [hw]
      rfl
    · rfl

end Expr

/-- The leaf texts of a chain after its first operand. -/
def yieldPairs (keyword : String) (pairs : List (BinaryOp × Expr)) : List String :=
  pairs.flatMap fun p => p.1.symbol :: p.2.yield keyword

/-- Whatever tree a chain becomes, its leaves stand in the order of the chain. -/
theorem Layout.yield_expr {keyword : String} (T : Layout) :
    T.expr.yield keyword = T.first.yield keyword ++ yieldPairs keyword T.rest := by
  induction T with
  | operand e => simp [Layout.expr, Layout.first, Layout.rest, yieldPairs]
  | node op left right ihl ihr =>
    simp [Layout.expr, Layout.first, Layout.rest, yieldPairs, Expr.yield, ihl, ihr]

theorem Chain.yield_tree {keyword : String} (first : Expr) (pairs : List (BinaryOp × Expr)) :
    (Chain.tree first pairs).yield keyword
      = first.yield keyword ++ yieldPairs keyword pairs := by
  rw [← Chain.layout_expr, Layout.yield_expr, Chain.layout_first, Chain.layout_rest]

/-! ### Spelling -/

/-- The characters that may stand between two words. -/
def IsGap (ch : Char) : Prop :=
  Grammar.isBlank ch ∨ ch ∈ ['(', ')', '[', ']', ',', ';', '.', '?']

/-- The input is words in order with gaps around them, up to the rest. -/
inductive Spells : List String → List Char → List Char → Prop
  | done {rest} : Spells [] rest rest
  | gap {ch words input rest} : IsGap ch → Spells words input rest →
      Spells words (ch :: input) rest
  | word {w words input rest} : Spells words input rest →
      Spells (w :: words) (w.toList ++ input) rest

namespace Spells

variable {words words' : List String} {input mid rest : List Char}

theorem append (h : Spells words input mid) (h' : Spells words' mid rest) :
    Spells (words ++ words') input rest := by
  induction h with
  | done => exact h'
  | gap hgap _ ih => exact .gap hgap (ih h')
  | word _ ih => exact .word (ih h')

theorem single (w : String) : Spells [w] (w.toList ++ rest) rest := .word .done

/-- White space is a gap. -/
theorem of_skips {comments : Prop} (hc : ¬ comments) (h : Skips comments input rest) :
    Spells [] input rest := by
  induction h with
  | stop _ _ => exact .done
  | blank hch _ ih => exact .gap (.inl hch) ih
  | comment h _ _ _ => exact absurd h hc

/-- The gaps can be told: one in front and one behind each word. -/
theorem exists_gaps (h : Spells words input rest) :
    ∃ (front : List Char) (gaps : List (List Char)), gaps.length = words.length ∧
      (∀ gap ∈ front :: gaps, ∀ ch ∈ gap, IsGap ch) ∧
      input
        = front ++ (List.zipWith (fun w gap => w.toList ++ gap) words gaps).flatten ++ rest := by
  induction h with
  | done => exact ⟨[], [], rfl, by simp, by simp⟩
  | @gap ch _ _ _ hgap _ ih =>
    obtain ⟨front, gaps, hlen, hgaps, hsplit⟩ := ih
    refine ⟨ch :: front, gaps, hlen, ?_, by rw [hsplit]; rfl⟩
    intro gap hmem
    rcases List.mem_cons.mp hmem with rfl | hmem
    · intro ch' hch'
      rcases List.mem_cons.mp hch' with rfl | hch'
      · exact hgap
      · exact hgaps front List.mem_cons_self ch' hch'
    · exact hgaps gap (List.mem_cons_of_mem _ hmem)
  | word _ ih =>
    obtain ⟨front, gaps, hlen, hgaps, hsplit⟩ := ih
    refine ⟨[], front :: gaps, by simp [hlen], ?_, by rw [hsplit]; simp⟩
    intro gap hmem
    rcases List.mem_cons.mp hmem with rfl | hmem
    · intro ch hch
      cases hch
    · exact hgaps gap hmem

end Spells

theorem OpensLink.spells {comments : Prop} (hc : ¬ comments) {input rest : List Char}
    {form : LinkForm} {optional : Bool} (h : OpensLink comments input form optional rest) :
    Spells [] input rest := by
  have hmark {more : List Char} (hmore : Spells [] more rest) :
      Spells [] ('?' :: '.' :: more) rest :=
    .gap (.inr (by simp)) (.gap (.inr (by simp)) hmore)
  cases h with
  | @plain ch form rest hform =>
    refine .gap (.inr ?_) .done
    unfold LinkForm.ofChar? at hform
    split at hform
    · simp
    · simp
    · simp
    · cases hform
  | optionalIndex hskips =>
    exact hmark ((Spells.of_skips hc hskips).append (.gap (.inr (by simp)) .done))
  | optionalCall hskips =>
    exact hmark ((Spells.of_skips hc hskips).append (.gap (.inr (by simp)) .done))
  | optionalProperty hskips _ _ => exact hmark (Spells.of_skips hc hskips)

/-! ### The slots of a list -/

/-- An array in which two elements follow one another without a comma, and that has a
comma all the same. -/
def Mixed (events : List SlotEvent) : Prop :=
  .comma ∈ events ∧ ∃ front e e' back, events = front ++ .filled e :: .filled e' :: back

namespace Slots

/-- The slots so far, in front of events that make no mixed array of them: either only
filled slots, or no more slots than the commas allow for. -/
def Keeps (before : Slots) (events : List SlotEvent) : Prop :=
  (before.commas = 0 ∧ ∃ es : List Expr, es.length = before.items.size ∧
    ¬ Mixed (es.map .filled ++ events)) ∨
  (before.commas ≠ 0 ∧ before.items.size ≤ before.commas + 1)

variable {before next : Slots} {events : List SlotEvent} {keyword : String}

theorem keeps_empty (h : ¬ Mixed events) : Slots.empty.Keeps events :=
  .inl ⟨rfl, [], rfl, h⟩

theorem keeps_fill {e : Expr} (haccepts : before.accepts)
    (h : before.Keeps (.filled e :: events)) : (before.fill e).Keeps events := by
  rcases h with ⟨hzero, es, hlen, hmixed⟩ | ⟨hcommas, hsize⟩
  · refine .inl ⟨hzero, es ++ [e], ?_, ?_⟩
    · simp [Slots.fill, hlen]
    · simpa using hmixed
  · have hroom : before.items.size = before.commas := by
      simpa [accepts, hcommas] using haccepts
    refine .inr ⟨hcommas, ?_⟩
    simp [Slots.fill, hroom]

/-- In front of a comma there is at most one slot more than commas. -/
theorem size_le_of_keeps (h : before.Keeps (.comma :: events)) :
    before.items.size ≤ before.commas + 1 := by
  rcases h with ⟨hzero, es, hlen, hmixed⟩ | ⟨-, hsize⟩
  · rcases es with - | ⟨e, - | ⟨e', es⟩⟩
    · simp only [List.length_nil] at hlen
      omega
    · simp only [List.length_cons, List.length_nil] at hlen
      omega
    · -- two filled slots in a row, and now a comma
      exact absurd ⟨by simp, [], e, e', es.map .filled ++ .comma :: events, rfl⟩ hmixed
  · exact hsize

/-- A comma changes no text, as long as it drops no slot. -/
theorem yield_comma {kind : ListKind} (hnext : before.comma kind = some next)
    (h : kind = .elements → before.Keeps (.comma :: events)) :
    Expr.yieldSlots keyword next.items.toList = Expr.yieldSlots keyword before.items.toList ∧
      next.Keeps events := by
  unfold comma at hnext
  by_cases hfull : before.commas + 1 = before.items.size
  · simp only [hfull, if_true, Option.some.injEq] at hnext
    subst hnext
    refine ⟨rfl, .inr ⟨?_, ?_⟩⟩
    · simp only []
      omega
    · simp only []
      omega
  · simp only [hfull, if_false] at hnext
    cases kind with
    | arguments => cases hnext
    | elements =>
      simp only [Option.some.injEq] at hnext
      subst hnext
      have hsize := size_le_of_keeps (h rfl)
      have hlist := toList_resize hsize
      refine ⟨?_, .inr ⟨Nat.succ_ne_zero _, ?_⟩⟩
      · rw [hlist, Expr.yieldSlots_append, Expr.yieldSlots_replicate, List.append_nil]
      · have hlen := congrArg List.length hlist
        simp only [Array.length_toList, List.length_append, List.length_replicate] at hlen ⊢
        omega

end Slots

/-! ### Every reading is spelled -/

/-- The words that a phrase takes from the input. -/
def Phrase.Spelled (keyword : String) (input rest : List Char) : Phrase → Prop
  | .expression e => Spells (Expr.yieldOf keyword e) input rest
  | .chain e => Spells (Expr.yieldOf keyword e) input rest
  | .tail _ pairs => Spells (yieldPairs keyword pairs) input rest
  | .operand e => Spells (Expr.yieldOf keyword e) input rest
  | .links node linked => ∃ words, linked.yield keyword = node.yield keyword ++ words ∧
      Spells words input rest
  | .list kind before events after => (kind = .elements → before.Keeps events) → ∃ words,
      Expr.yieldSlots keyword after.items.toList
        = Expr.yieldSlots keyword before.items.toList ++ words ∧ Spells words input rest
  | .items _ nodes => Spells (Expr.yieldAll keyword nodes) input rest

/-- Without comments and conditionals, a phrase is spelled by the words of its answer. -/
theorem Reads.spelled {d : Dialect} (hcomments : ¬ d.HasComments)
    (hconditionals : ¬ d.HasConditionals) {p : Phrase} {input rest : List Char}
    (h : Reads d (fun events => ¬ Mixed events) p input rest) :
    p.Spelled d.grammar.receiverKeyword input rest := by
  have hskip {input rest : List Char} (h : Skips d.HasComments input rest) :
      Spells [] input rest := .of_skips hcomments h
  have hgap {ch : Char} {input rest : List Char} {words : List String}
      (hch : ch ∈ ['(', ')', '[', ']', ',', ';', '.', '?']) (h : Spells words input rest) :
      Spells words (ch :: input) rest := .gap (.inr hch) h
  -- white space and brackets are gaps; each token adds its own word between those of its parts
  induction h with
  | @expression e _ _ _ _ hskips _ ih =>
    have hwords := ih.append (hskip hskips)
    rwa [List.append_nil] at hwords
  | conditional _ hcond _ _ _ _ _ _ => exact absurd hcond hconditionals
  | noChain _ ih => exact ih
  | chain _ _ ih ih' =>
    show Spells ((Chain.tree _ _).yield _) _ _
    rw [Chain.yield_tree]
    exact ih.append ih'
  | tailEnd hskips _ => exact hskip hskips
  | tailPutBack hskips _ _ => exact hskip hskips
  | tailOperator hskips _ _ _ _ ih ih' => exact (hskip hskips).append (.word (ih.append ih'))
  | noOperand hskips _ => exact hskip hskips
  | number hskips _ htoken =>
    rw [htoken.split] at hskips
    exact (hskip hskips).append (.single _)
  | string hskips _ htoken _ ih =>
    obtain ⟨words, hyield, hwords⟩ := ih
    show Spells (Expr.yield _ _) _ _
    rw [htoken.split] at hskips
    rw [hyield]
    exact (hskip hskips).append (.word hwords)
  | array hskips _ hmixed _ ih ih' =>
    obtain ⟨inside, hinside, hlist⟩ := ih fun _ => Slots.keeps_empty hmixed
    obtain ⟨words, hyield, hwords⟩ := ih'
    show Spells (Expr.yield _ _) _ _
    rw [hyield]
    -- the slots of a list just opened have no text
    have harray : (Expr.array _).yield d.grammar.receiverKeyword = inside := hinside
    rw [harray]
    exact (hskip hskips).append ((hgap (by simp) hlist).append hwords)
  | unary hskips _ _ ih => exact (hskip hskips).append (.word ih)
  | name hskips _ htoken _ ih =>
    obtain ⟨words, hyield, hwords⟩ := ih
    show Spells (Expr.yield _ _) _ _
    rw [htoken.split] at hskips
    rw [hyield, Expr.yield_meaning]
    exact (hskip hskips).append (.word hwords)
  | @group nodes node _ _ _ _ _ hskips _ _ hnode _ ih ih' =>
    obtain ⟨words, hyield, hwords⟩ := ih'
    have hnodes : node.yield d.grammar.receiverKeyword
        = Expr.yieldAll d.grammar.receiverKeyword nodes := by
      have hbundle := Expr.yieldOf_bundle d.grammar.receiverKeyword .sequence (fun _ => rfl) nodes
      rw [hnode] at hbundle
      exact hbundle
    show Spells (Expr.yield _ _) _ _
    rw [hyield, hnodes]
    exact (hskip hskips).append (hgap (by simp) (ih.append (hgap (by simp) hwords)))
  | emptyGroup hskips _ _ ih =>
    exact (hskip hskips).append (hgap (by simp) (ih.append (hgap (by simp) .done)))
  | linksEnd hskips _ => exact ⟨[], by simp, hskip hskips⟩
  | property hskips hopens hskips' htoken _ ih =>
    obtain ⟨words, hyield, hwords⟩ := ih
    rw [htoken.split] at hskips'
    refine ⟨_ :: words, ?_, (hskip hskips).append ((hopens.spells hcomments).append
      ((hskip hskips').append (.word hwords)))⟩
    rw [hyield, Expr.yield_marked]
    simp [Expr.link, Expr.yield]
  | index hskips hopens _ hskips' _ ih ih' =>
    obtain ⟨words, hyield, hwords⟩ := ih'
    refine ⟨_, ?_, (hskip hskips).append ((hopens.spells hcomments).append
      (ih.append ((hskip hskips').append (hgap (by simp) hwords))))⟩
    rw [hyield, Expr.yield_marked]
    simp [Expr.link, Expr.yield, Expr.yieldOf]
  | call hskips hopens _ _ ih ih' =>
    obtain ⟨inside, hinside, hlist⟩ := ih (by simp)
    obtain ⟨words, hyield, hwords⟩ := ih'
    refine ⟨_, ?_, (hskip hskips).append ((hopens.spells hcomments).append (hlist.append hwords))⟩
    -- holes have no text, so dropping them loses no word
    have hslots : Expr.yieldSlots d.grammar.receiverKeyword _ = inside := hinside
    rw [hyield, Expr.yield_marked]
    simp only [Expr.apply, Expr.yield]
    rw [Expr.yieldAll_filterMap, hslots, List.append_assoc]
    rfl
  | @listEnd kind _ _ _ hskips _ =>
    intro _
    refine ⟨[], by simp, (hskip hskips).append (hgap ?_ .done)⟩
    cases kind <;> simp [ListKind.closer]
  | listComma hskips hnext _ ih =>
    intro hkeeps
    -- the comma may add holes, but it drops no filled slot
    obtain ⟨hsame, hnextKeeps⟩ := Slots.yield_comma hnext hkeeps
    obtain ⟨words, hyield, hwords⟩ := ih fun _ => hnextKeeps
    refine ⟨words, ?_, (hskip hskips).append (hgap (by simp) hwords)⟩
    rw [hyield, hsame]
  | listFill hskips _ _ haccepts _ _ _ ih ih' =>
    intro hkeeps
    obtain ⟨words, hyield, hwords⟩ := ih' fun hkind => Slots.keeps_fill haccepts (hkeeps hkind)
    refine ⟨_, ?_, (hskip hskips).append (ih.append hwords)⟩
    rw [hyield]
    simp [Slots.fill, Expr.yieldSlots_append, Expr.yieldSlots, Expr.yieldOf]
  | itemsEnd hskips => exact hskip hskips
  | itemsSeparator hskips hsep _ ih =>
    refine (hskip hskips).append (hgap ?_ ih)
    rcases hsep with rfl | rfl
    · simp
    · simp
  | item hskips _ _ _ ih ih' => exact (hskip hskips).append (ih.append ih')
  | itemsStop hskips _ _ _ ih => exact (hskip hskips).append ih

/-! ### Whole texts -/

/-- No array literal of the text mixes separation by spaces with commas: the text has a
reading, its only one, in which none does. -/
def Dialect.Unmixed (d : Dialect) (text : String) : Prop :=
  ∃ nodes, Reads d (fun events => ¬ Mixed events) (.items none nodes) text.toList []

/-- **Nothing of the source is lost, repeated or reordered.**  Without callbacks, a text
that is parsed, and in which no array mixes spaces with commas, is the yield of the result
with gaps around its words. -/
theorem Dialect.parse_spells {d : Dialect} (hd : d.HookFree) {text : String} {r : Option Expr}
    (hparse : d.parse text = some (.ok r)) (hunmixed : d.Unmixed text) :
    ∃ (front : List Char) (gaps : List (List Char)),
      let words := Expr.yieldOf d.grammar.receiverKeyword r
      gaps.length = words.length ∧ (∀ gap ∈ front :: gaps, ∀ ch ∈ gap, IsGap ch) ∧
        text.toList
          = front ++ (List.zipWith (fun w gap => w.toList ++ gap) words gaps).flatten := by
  obtain ⟨nodes, rfl, hreads⟩ := parse_reads hd.plain hparse
  obtain ⟨nodes', hreads'⟩ := hunmixed
  obtain rfl := hreads.program_unique hd.plain hreads'
  have hspells : Spells (Expr.yieldAll d.grammar.receiverKeyword nodes) text.toList [] :=
    hreads'.spelled hd.not_hasComments hd.not_hasConditionals
  obtain ⟨front, gaps, hlen, hgaps, hsplit⟩ := hspells.exists_gaps
  rw [List.append_nil] at hsplit
  refine ⟨front, gaps, ?_⟩
  rw [Expr.yieldOf_bundle d.grammar.receiverKeyword .compound (fun _ => rfl) nodes]
  exact ⟨hlen, hgaps, hsplit⟩

/-- An array under an operator: `-[a]`. -/
theorem Dialect.parse_spells_negated :
    let d := Dialect.standard.mapGrammar (·.setNestingLimit none)
    let e : Expr := .signed "-" (.array [some (.identifier "a")])
    let words := Expr.yieldOf d.grammar.receiverKeyword (some e)
    d.HookFree ∧ d.parse "-[a]" = some (.ok (some e)) ∧ d.Unmixed "-[a]" ∧
      words = ["-", "a"] ∧ ∃ (front : List Char) (gaps : List (List Char)),
        gaps.length = words.length ∧ (∀ gap ∈ front :: gaps, ∀ ch ∈ gap, IsGap ch) ∧
          "-[a]".toList
            = front ++ (List.zipWith (fun w gap => w.toList ++ gap) words gaps).flatten := by
  intro d e words
  have hd : d.HookFree := fun _ => rfl
  have hstart {ch : Char} {more : List Char} (h : ¬ Grammar.isBlank ch) :
      Skips d.HasComments (ch :: more) (ch :: more) :=
    .stop (by simpa using h) fun hc => absurd hc hd.not_hasComments
  have hend : Skips d.HasComments [] [] :=
    .stop nofun fun hc => absurd hc hd.not_hasComments
  have hplain {e : Option Expr} {input : List Char} :
      e.isSome → d.HasConditionals → input.head? ≠ some '?' :=
    fun _ hc => absurd hc hd.not_hasConditionals
  let A : List SlotEvent → Prop := fun events => ¬ Mixed events
  -- the name inside
  have htoken : NameToken d.grammar ['a', ']'] "a" [']'] := by
    refine ⟨⟨'a', [], rfl, by decide, nofun⟩, rfl, ?_⟩
    intro ch hch
    cases hch
    decide
  have hname : Reads d A (.operand (some (.identifier "a"))) ['a', ']'] [']'] :=
    .name (hstart (by decide)) (by decide) htoken
      (.linksEnd (hstart (by decide)) (.of_head (by simp [LinkForm.ofChar?])))
  have hinside : Reads d A (.expression (some (.identifier "a"))) ['a', ']'] [']'] :=
    .expression (.lone hname (hstart (by decide)) (by decide)) (hstart (by decide)) hplain
  -- the brackets around it
  have hlist : Reads d A
      (.list .elements .empty [.filled (.identifier "a")] ⟨#[some (.identifier "a")], 0⟩)
      ['a', ']'] [] :=
    .listFill (hstart (by decide)) (by decide) (by decide) (by decide) hinside (by decide)
      (.listEnd (hstart (by decide)) (by decide))
  have hmixed : ¬ Mixed [.filled (.identifier "a")] := by
    rintro ⟨hcomma, -⟩
    cases hcomma with
    | tail _ h => cases h
  have harray : Reads d A (.operand (some (.array [some (.identifier "a")]))) ['[', 'a', ']'] [] :=
    .array (hstart (by decide)) hlist hmixed (.linksEnd hend (.of_head nofun))
  -- the sign in front of them
  have hunary : Reads d A (.operand (some e)) "-[a]".toList [] := by
    have hop : d.grammar.lead ("-".toList ++ ['[', 'a', ']']) = .unary "-" := by decide
    have hskips : Skips d.HasComments "-[a]".toList ("-".toList ++ ['[', 'a', ']']) :=
      hstart (by decide)
    exact .unary hskips hop harray
  have hreads : Reads d A (.items none [e]) "-[a]".toList [] :=
    .item (hstart (by decide)) (by decide) (.expression (.lone hunary hend (by decide)) hend hplain)
      (.itemsEnd hend)
  have hparse : d.parse "-[a]" = some (.ok (some e)) := parse_of_reads hd.plain rfl hreads
  exact ⟨hd, hparse, ⟨_, hreads⟩, rfl, parse_spells hd hparse ⟨_, hreads⟩⟩

end OperatorGrammar
