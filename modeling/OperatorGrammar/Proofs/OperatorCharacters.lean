/-
OperatorGrammar/Proofs/OperatorCharacters.lean

A character outside ASCII as a binary operator, and as a letter.

Whether such a character goes on with a name depends on the table of binary operators
alone (`StandardNames.isIdentifierPart_iff`), and everything else follows from that.  As
an operator it ends the name in front of it, and there it is found, because every other
operator is made of ASCII marks (`binaryOpIn_addBinaryOp`).  Without an entry it is one
more letter of the name.

A name that starts with an ASCII letter costs one level in either grammar
(`Dialect.costs_name`), and a text of one or two such names one more; the standard limit
leaves these levels.

Main result: `Dialect.parse_operatorCharacter`.
-/
import OperatorGrammar.Proofs.LongestMatch
import OperatorGrammar.Proofs.NestingLevels
import OperatorGrammar.Proofs.Removal

namespace OperatorGrammar

namespace Grammar

variable {g : Grammar} {c : Char} {w x y : String}

/-! ### Words and names -/

theorem isIdentifierStart_of_isAlpha (h : c.isAlpha) : g.isIdentifierStart c := by
  simp [isIdentifierStart, h]

theorem isIdentifierPart_of_isAlphanum (h : c.isAlphanum) : g.isIdentifierPart c := by
  rw [Char.isAlphanum, Bool.or_eq_true] at h
  rcases h with h | h
  · simp [isIdentifierPart, isIdentifierStart, h]
  · simp [isIdentifierPart, isDigit, h]

/-- Letters and digits that start with a letter, all ASCII, without a meaning of their own. -/
structure IsWord (w : String) : Prop where
  shape : ∃ first more, w.toList = first :: more ∧ first.isAlpha ∧ ∀ ch ∈ more, ch.isAlphanum
  literal : standard.literal? w = none
  receiver : w ≠ standard.receiverKeyword

/-- A name that starts with an ASCII letter and stands for itself. -/
structure IsPlainName (g : Grammar) (w : String) : Prop where
  isName : g.IsName w
  letter : ∃ first more, w.toList = first :: more ∧ first.isAlpha
  plain : w ∉ keywords

/-- Whatever the tables, a word is a plain name. -/
theorem IsWord.isPlainName (h : IsWord w) : g.IsPlainName w := by
  obtain ⟨first, more, hw, hfirst, hmore⟩ := h.shape
  refine ⟨⟨first, more, hw, isIdentifierStart_of_isAlpha hfirst,
    fun ch hch => isIdentifierPart_of_isAlphanum (hmore ch hch)⟩, ⟨first, more, hw, hfirst⟩, ?_⟩
  have hall : ∀ w ∈ keywords, standard.literal? w ≠ none ∨ w = standard.receiverKeyword := by
    decide
  intro hkeyword
  rcases hall w hkeyword with hliteral | hreceiver
  · exact hliteral h.literal
  · exact h.receiver hreceiver

/-! ### Grammars with the standard names -/

/-- The tables that names depend on, but for the binary operators, are those of a new
grammar. -/
structure StandardNames (g : Grammar) : Prop where
  unaryOps : g.unaryOps = standard.unaryOps
  identifierChars : g.identifierChars = standard.identifierChars
  literals : g.literals = standard.literals
  receiverKeyword : g.receiverKeyword = standard.receiverKeyword

/-- A character outside ASCII is none of some that are all ASCII. -/
theorem not_mem_of_ascii {l : List Char} (hl : l.all fun ch => ch.toNat < 128)
    (hc : 128 ≤ c.toNat) : c ∉ l := by
  intro hmem
  have hlt : c.toNat < 128 := by simpa using List.all_eq_true.mp hl c hmem
  omega

theorem toNat_lt_of_isAlphanum (h : c.isAlphanum) : c.toNat < 128 := by
  have hclasses : (c.isUpper || c.isLower || c.isDigit) = true := h
  have hupper : c.isUpper → c.toNat ≤ 90 := fun h =>
    UInt32.le_iff_toNat_le.mp (of_decide_eq_true h).2
  have hlower : c.isLower → c.toNat ≤ 122 := fun h =>
    UInt32.le_iff_toNat_le.mp (of_decide_eq_true (Bool.and_eq_true_iff.mp h).2)
  have hdigit : c.isDigit → c.toNat ≤ 57 := fun h =>
    UInt32.le_iff_toNat_le.mp (of_decide_eq_true (Bool.and_eq_true_iff.mp h).2)
  simp only [Bool.or_eq_true] at hclasses
  rcases hclasses with (hc | hc) | hc
  · exact Nat.lt_of_le_of_lt (hupper hc) (by decide)
  · exact Nat.lt_of_le_of_lt (hlower hc) (by decide)
  · exact Nat.lt_of_le_of_lt (hdigit hc) (by decide)

namespace StandardNames

variable (h : g.StandardNames)
include h

/-- A letter starts a name, because no unary operator starts with one. -/
theorem lead_letter {more : List Char} (hc : c.isAlpha) : g.lead (c :: more) = .name := by
  have hdigit : ¬ isDigit c := fun hdigit =>
    not_isIdentifierStart_digit hdigit (isIdentifierStart_of_isAlpha hc)
  refine lead_eq_name (isIdentifierStart_of_isAlpha hc) hdigit (fun op hop hhead => ?_) ?_
  · have hstandard : unbounded.isUnaryOp op := by
      rwa [isUnaryOp, h.unaryOps] at hop
    have hall : ∀ ch ∈ marks, ¬ ch.isAlpha := forall_mem_of_all (by decide)
    exact hall c ((unaryOp_marks hstandard).2 c (List.mem_of_mem_head? hhead)) hc
  · have hall : ∀ ch ∈ ['.', '\'', '"', '['], ¬ ch.isAlpha := forall_mem_of_all (by decide)
    exact fun hmem => hall c hmem hc

theorem meaning (hw : w ∉ keywords) : Lexeme.meaning g w = .identifier w := by
  have hsame : Lexeme.meaning g w = Lexeme.meaning unbounded w := by
    rw [Lexeme.meaning, Lexeme.meaning, literal?, h.literals, h.receiverKeyword]
    rfl
  rw [hsame, meaning_identifier hw]

/-- Outside ASCII, names go on with whatever is no binary operator. -/
theorem isIdentifierPart_iff (hc : 128 ≤ c.toNat) :
    g.isIdentifierPart c ↔ ¬ g.isBinaryOp (String.singleton c) := by
  have halphanum : c.isAlphanum = false :=
    Bool.eq_false_iff.mpr fun halphanum => by
      have hlt := toNat_lt_of_isAlphanum halphanum
      omega
  obtain ⟨halpha, hdigit⟩ := Bool.or_eq_false_iff.mp halphanum
  have hextra : standard.identifierChars.contains c = false :=
    decide_eq_false (not_mem_of_ascii (by decide) hc)
  simp [isIdentifierPart, isIdentifierStart, isDigit, h.identifierChars, halpha, hdigit, hextra,
    hc]

end StandardNames

/-! ### The character as an operator -/

section Added

variable {precedence : Nat} {right : Bool}

theorem standardNames_addBinaryOp (op : String) :
    (standard.addBinaryOp op precedence right).StandardNames :=
  ⟨rfl, rfl, rfl, rfl⟩

theorem isBinaryOp_addBinaryOp (op : String) :
    (standard.addBinaryOp op precedence right).isBinaryOp op :=
  OrderedMap.contains_iff.mpr (OrderedMap.mem_keys_insert.mpr (.inr rfl))

/-- An added character outside ASCII is found, whatever comes behind it: no other operator
starts with it. -/
theorem binaryOpIn_addBinaryOp (hc : 128 ≤ c.toNat) (rest : List Char) :
    (standard.addBinaryOp (String.singleton c) precedence right).binaryOpIn (c :: rest) =
      some (String.singleton c) := by
  let g := standard.addBinaryOp (String.singleton c) precedence right
  have hcounted : g.Counted := counted_standard.addBinaryOp _ _ _
  have hnotPart : ¬ g.isIdentifierPart c :=
    fun hpart => ((standardNames_addBinaryOp _).isIdentifierPart_iff hc).mp hpart
      (isBinaryOp_addBinaryOp _)
  refine (Lexeme.binaryOperator_eq_some_iff hcounted).mpr
    { mem := OrderedMap.mem_keys_insert.mpr (.inr rfl)
      fits :=
        { ne_empty := by simp
          starts := startsWith_iff.mpr ⟨rest, by simp⟩
          ends := fun hstart => absurd ?_ hnotPart }
      longest := fun other hother hfits => ?_ }
  · have hstart : g.isIdentifierStart c := hstart
    simp [isIdentifierPart, hstart]
  · -- a standard operator that fits would start with the character
    rcases OrderedMap.mem_keys_insert.mp hother with hstandard | rfl
    · obtain ⟨hne, hmarks⟩ := binaryOp_marks (OrderedMap.contains_iff.mpr hstandard)
      have hstarts : other.toList <+: c :: rest := startsWith_iff.mp hfits.starts
      obtain ⟨first, more, hcons⟩ := List.exists_cons_of_ne_nil hne
      rw [hcons] at hstarts hmarks
      obtain ⟨rfl, -⟩ := List.cons_prefix_cons.mp hstarts
      exact absurd (hmarks first List.mem_cons_self) (not_mem_of_ascii (by decide) hc)
    · exact Nat.le_refl _

end Added

/-- What neither goes on with a name nor links to it. -/
structure EndsName (g : Grammar) (rest : List Char) : Prop where
  not_part : ∀ ch ∈ rest.head?, ¬ g.isIdentifierPart ch
  not_blank : ∀ ch ∈ rest.head?, ¬ isBlank ch
  endsLinks : EndsLinks rest

theorem endsName_nil (g : Grammar) : g.EndsName [] :=
  ⟨nofun, nofun, .of_head nofun⟩

theorem endsName_cons {rest : List Char} (hc : 128 ≤ c.toNat) (hpart : ¬ g.isIdentifierPart c) :
    g.EndsName (c :: rest) where
  not_part := by
    rintro _ ⟨⟩
    exact hpart
  not_blank := by
    rintro _ ⟨⟩ hblank
    exact not_mem_of_ascii (by decide) hc (isBlank_iff.mp hblank)
  endsLinks := .of_head <| by
    have hnot : c ∉ ['.', '[', '(', '?'] := not_mem_of_ascii (by decide) hc
    simp only [List.mem_cons, List.not_mem_nil, or_false, not_or] at hnot
    rintro _ ⟨⟩
    refine ⟨?_, hnot.2.2.2⟩
    unfold LinkForm.ofChar?
    split
    · exact absurd rfl hnot.1
    · exact absurd rfl hnot.2.1
    · exact absurd rfl hnot.2.2.1
    · rfl

/-! ### The character as a letter -/

theorem not_isBinaryOp_singleton (hc : 128 ≤ c.toNat) :
    ¬ standard.isBinaryOp (String.singleton c) := by
  intro hop
  have hmarks := (binaryOp_marks hop).2 c (by simp)
  exact not_mem_of_ascii (by decide) hc hmarks

/-- Added and removed, the character leaves the standard tables. -/
theorem removeBinaryOp_addBinaryOp_standard (hc : 128 ≤ c.toNat) (precedence : Nat)
    (right : Bool) : (standard.addBinaryOp (String.singleton c) precedence right).removeBinaryOp
      (String.singleton c) = standard := by
  have hright (op : String) : standard.isRightAssociative op → standard.isBinaryOp op := nofun
  rw [counted_standard.removeBinaryOp_addBinaryOp]
  exact counted_standard.removeBinaryOp_of_not_isBinaryOp hright (not_isBinaryOp_singleton hc)

/-- Two words with the character between them are one name. -/
theorem IsWord.isPlainName_append (hx : IsWord x) (hy : IsWord y) (hc : 128 ≤ c.toNat) :
    standard.IsPlainName (x ++ String.singleton c ++ y) := by
  obtain ⟨first, more, hcons, hfirst, hmore⟩ := hx.shape
  obtain ⟨first', more', hcons', hfirst', hmore'⟩ := hy.shape
  have hsplit : (x ++ String.singleton c ++ y).toList
      = first :: (more ++ c :: first' :: more') := by
    simp [hcons, hcons']
  have hnames : standard.StandardNames := ⟨rfl, rfl, rfl, rfl⟩
  have hpart : ∀ ch ∈ more ++ c :: first' :: more', standard.isIdentifierPart ch := by
    intro ch hch
    simp only [List.mem_append, List.mem_cons] at hch
    rcases hch with hch | rfl | rfl | hch
    · exact isIdentifierPart_of_isAlphanum (hmore ch hch)
    · exact (hnames.isIdentifierPart_iff hc).mpr (not_isBinaryOp_singleton hc)
    · exact isIdentifierPart_of_isAlphanum (by simp [Char.isAlphanum, hfirst'])
    · exact isIdentifierPart_of_isAlphanum (hmore' ch hch)
  refine ⟨⟨first, _, hsplit, isIdentifierStart_of_isAlpha hfirst, hpart⟩,
    ⟨first, _, hsplit, hfirst⟩, fun hkeyword => ?_⟩
  have hall : ∀ w ∈ keywords, w.toList.all fun ch => ch.toNat < 128 := by decide
  exact not_mem_of_ascii (hall _ hkeyword) hc (by simp)

end Grammar

/-! ### Texts of one or two names -/

namespace Dialect

open Reading

variable {d : Dialect} {w x y : String} {text : Array Char} {n : Nat}

theorem opens_name (hw : d.grammar.IsPlainName w) (rest : List Char) :
    ∃ ch, Opens (w.toList ++ rest) ch ∧ ch.isAlpha := by
  obtain ⟨first, more, hcons, hfirst⟩ := hw.letter
  have hall : ∀ ch ∈ Grammar.blanks ++ closers, ¬ ch.isAlpha := forall_mem_of_all (by decide)
  refine ⟨first, ⟨by rw [hcons]; rfl, fun hblank => ?_, fun hcloser => ?_⟩, hfirst⟩
  · exact hall first (List.mem_append_left _ (Grammar.isBlank_iff.mp hblank)) hfirst
  · exact hall first (List.mem_append_right _ hcloser) hfirst

/-- At the end of the text there is always room. -/
theorem room_nil : ([] : List Char).length + 1 ≤ (d.context text (n + 1)).budget :=
  Nat.le_add_left 1 n

variable (hd : d.HookFree) (hg : d.grammar.StandardNames)
include hd hg

/-- A plain name opens one level. -/
theorem costs_name {rest : List Char} (hw : d.grammar.IsPlainName w)
    (hn : (w.toList ++ rest).length + 1 ≤ n) (hrest : d.grammar.EndsName rest) :
    Costs (d.context text n) 1 Reading.operand (w.toList ++ rest) (some (.identifier w)) rest := by
  obtain ⟨ch, hopens, hletter⟩ := opens_name hw rest
  have hlead : d.grammar.lead (w.toList ++ rest) = .name := by
    obtain ⟨more, hmore⟩ := List.head?_eq_some_iff.mp hopens.head
    rw [hmore]
    exact hg.lead_letter hletter
  have hhead : ∀ ch ∈ (w.toList ++ rest).head?, ¬ Grammar.isBlank ch := by
    rw [hopens.head]
    rintro _ ⟨⟩
    exact hopens.not_blank
  rw [← hg.meaning hw.plain]
  exact .name hd hn hhead hlead ⟨hw.isName, rfl, hrest.not_part⟩ hrest.not_blank hrest.endsLinks

omit hg in
/-- A text that is one chain, under a limit that leaves one level more than the chain
opens. -/
theorem parse_of_chain {text : String} {ch : Char} {e : Expr} {k : Nat} (hallows : d.Allows (k + 1))
    (hopens : Opens text.toList ch)
    (h : ∀ n, 2 * text.length + 2 ≤ n → Costs (d.context text.toList.toArray (n + 1)) k
      Reading.binaryExpression text.toList (some e) []) : d.parse text = some (.ok (some e)) := by
  obtain ⟨n, hn⟩ : ∃ n, budgetFor text.length = n + 2 := ⟨budgetFor text.length - 2, rfl⟩
  have hroom : 2 * text.length + 2 ≤ n := by
    rw [budgetFor] at hn
    omega
  have hexpression : Costs (d.context text.toList.toArray (n + 1)) (k + 1) Reading.expression
      text.toList (some e) [] :=
    .expression hd room_nil d.grammar.endsName_nil.not_blank (h n hroom)
  have hprogram := costs_program hd hopens (k := k + 1) (e := e) (by rw [hn]; exact hexpression)
  rcases parse_of_costs hprogram with ⟨-, hok⟩ | ⟨hno, -⟩
  · exact hok
  · exact absurd hallows hno

variable (hallows : d.Allows 2)
include hallows

theorem parse_name (hw : d.grammar.IsPlainName w) :
    d.parse w = some (.ok (some (.identifier w))) := by
  obtain ⟨ch, hopens, -⟩ := opens_name hw []
  rw [List.append_nil] at hopens
  refine parse_of_chain hd hallows hopens fun n hn => ?_
  have hroom : (w.toList ++ []).length + 1 ≤ n := by
    rw [List.append_nil, String.length_toList]
    omega
  have hname : Costs (d.context w.toList.toArray n) 1 Reading.operand (w.toList ++ [])
      (some (.identifier w)) [] :=
    costs_name hd hg hw hroom (Grammar.endsName_nil _)
  rw [List.append_nil] at hname
  exact .lone hd room_nil d.grammar.endsName_nil.not_blank Grammar.binaryOpIn_nil hname

/-- Two names with an operator between them. -/
theorem parse_names {op : String} (hx : d.grammar.IsPlainName x) (hy : d.grammar.IsPlainName y)
    (hop : d.grammar.binaryOpIn (op.toList ++ y.toList) = some op)
    (hends : d.grammar.EndsName (op.toList ++ y.toList)) :
    d.parse (x ++ op ++ y) = some (.ok (some (.binary op (.identifier x) (.identifier y)))) := by
  obtain ⟨text, htext⟩ : ∃ text, text = x ++ op ++ y := ⟨_, rfl⟩
  have hsplit : text.toList = x.toList ++ (op.toList ++ y.toList) := by
    rw [htext, String.toList_append, String.toList_append, List.append_assoc]
  have hlength : text.length = x.length + (op.length + y.length) := by
    rw [htext, String.length_append, String.length_append, Nat.add_assoc]
  obtain ⟨ch, hopens, -⟩ := opens_name hx (op.toList ++ y.toList)
  rw [← hsplit] at hopens
  rw [← htext]
  refine parse_of_chain hd hallows hopens fun n hn => ?_
  have hleft : Costs (d.context text.toList.toArray n) 1 Reading.operand
      (x.toList ++ (op.toList ++ y.toList)) (some (.identifier x)) (op.toList ++ y.toList) := by
    refine costs_name hd hg hx ?_ hends
    simp only [List.length_append, String.length_toList]
    omega
  have hright : Costs (d.context text.toList.toArray n) 1 Reading.operand (y.toList ++ [])
      (some (.identifier y)) [] := by
    refine costs_name hd hg hy ?_ (Grammar.endsName_nil _)
    simp only [List.append_nil, String.length_toList]
    omega
  rw [List.append_nil] at hright
  have hroom : (op.toList ++ y.toList).length + 1 ≤ n + 1 := by
    simp only [List.length_append, String.length_toList]
    omega
  have hfound : Takes (d.context text.toList.toArray (n + 1)) binaryOp (op.toList ++ y.toList)
      (some (d.grammar.binaryOp op)) y.toList :=
    .binaryOp_some hd.plain hroom (skips_nothing hd.not_hasComments hends.not_blank) hop
  rw [← hsplit] at hleft
  exact .binary hd room_nil d.grammar.endsName_nil.not_blank Grammar.binaryOpIn_nil hleft hfound
    hright

omit hd hg hallows

/-- **A character outside ASCII is an operator while it is added, and a letter otherwise.**
Between two words, without any space, it joins them to a binary expression once it is added,
whatever its precedence and associativity, and to one identifier once it is removed. -/
theorem parse_operatorCharacter {c : Char} (hc : 128 ≤ c.toNat) (precedence : Nat) (right : Bool)
    (hx : Grammar.IsWord x) (hy : Grammar.IsWord y) :
    let symbol := String.singleton c
    let added := (Session.standard.configured [.addBinaryOp symbol precedence right]).dialect
    let removed := (Session.standard.configured
      [.addBinaryOp symbol precedence right, .removeBinaryOp symbol]).dialect
    added.parse (x ++ symbol ++ y) =
        some (.ok (some (.binary symbol (.identifier x) (.identifier y)))) ∧
      removed.parse (x ++ symbol ++ y) = some (.ok (some (.identifier (x ++ symbol ++ y)))) := by
  intro symbol added removed
  have hsymbol : symbol.toList ++ y.toList = c :: y.toList := by
    rw [String.toList_singleton, List.singleton_append]
  constructor
  · have hnames : added.grammar.StandardNames := Grammar.standardNames_addBinaryOp symbol
    have hpart : ¬ added.grammar.isIdentifierPart c := fun hpart =>
      (hnames.isIdentifierPart_iff hc).mp hpart (Grammar.isBinaryOp_addBinaryOp symbol)
    refine parse_names (fun _ => rfl) hnames rfl hx.isPlainName hy.isPlainName ?_ ?_
    · rw [hsymbol]
      exact Grammar.binaryOpIn_addBinaryOp hc y.toList
    · rw [hsymbol]
      exact Grammar.endsName_cons hc hpart
  · have hstandard : removed = standard :=
      congrArg (fun g => Dialect.mk g .empty .empty)
        (Grammar.removeBinaryOp_addBinaryOp_standard hc precedence right)
    rw [hstandard]
    exact parse_name (fun _ => rfl) ⟨rfl, rfl, rfl, rfl⟩ rfl (hx.isPlainName_append hy hc)

/-- An operator of precedence zero between words of letters and digits. -/
theorem parse_operatorCharacter_cross :
    let added := (Session.standard.configured [.addBinaryOp "×" 0 true]).dialect
    let removed :=
      (Session.standard.configured [.addBinaryOp "×" 0 true, .removeBinaryOp "×"]).dialect
    (128 ≤ '×'.toNat ∧ Grammar.IsWord "a1" ∧ Grammar.IsWord "Truth") ∧
      added.parse "a1×Truth" =
        some (.ok (some (.binary "×" (.identifier "a1") (.identifier "Truth")))) ∧
      removed.parse "a1×Truth" = some (.ok (some (.identifier "a1×Truth"))) := by
  intro added removed
  have hc : 128 ≤ '×'.toNat := by decide
  have hx : Grammar.IsWord "a1" :=
    ⟨⟨'a', ['1'], rfl, by decide, forall_mem_of_all (by decide)⟩, by decide, by decide⟩
  have hy : Grammar.IsWord "Truth" :=
    ⟨⟨'T', ['r', 'u', 't', 'h'], rfl, by decide, forall_mem_of_all (by decide)⟩, by decide,
      by decide⟩
  have hsymbol : String.singleton '×' = "×" := by decide
  have htext : "a1" ++ "×" ++ "Truth" = "a1×Truth" := by decide
  obtain ⟨hadded, hremoved⟩ := parse_operatorCharacter hc 0 true hx hy
  rw [hsymbol, htext] at hadded hremoved
  exact ⟨⟨hc, hx, hy⟩, hadded, hremoved⟩

end Dialect

end OperatorGrammar
