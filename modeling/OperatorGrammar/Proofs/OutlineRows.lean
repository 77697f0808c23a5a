/-
OperatorGrammar/Proofs/OutlineRows.lean

The rows of an outline, told from its text.

The rows of an outline are separated by line breaks, but a row may itself have a
line break inside: a string is shown as it was written.  Still the rows can be
told.  A string ends at the first quote that is not escaped, and its row starts like
no other; every other row ends at its line break.

Main result: `Outline.lines_inj`.
-/
import OperatorGrammar.Expr.Display
import OperatorGrammar.Proofs.Lexeme

namespace OperatorGrammar

/-! ### Rows from a text -/

/-- The body of a string and its value can be told from what stands behind the quote. -/
theorem Escaped.append_inj {q : Char} (hq : q ≠ '\\') {body body' value value' t t' : List Char}
    (h : Escaped q body value) (h' : Escaped q body' value')
    (heq : body ++ q :: t = body' ++ q :: t') : body = body' ∧ value = value' ∧ t = t' := by
  induction h generalizing body' value' with
  | nil =>
    cases h' with
    | nil => exact ⟨rfl, rfl, (List.cons.inj heq).2⟩
    | plain hne _ _ => exact absurd (List.cons.inj heq).1.symm hne
    | pair _ => exact absurd (List.cons.inj heq).1 hq
  | plain hne hback _ ih =>
    cases h' with
    | nil => exact absurd (List.cons.inj heq).1 hne
    | plain _ _ h' =>
      obtain ⟨rfl, hrest⟩ := List.cons.inj heq
      obtain ⟨rfl, rfl, rfl⟩ := ih h' hrest
      exact ⟨rfl, rfl, rfl⟩
    | pair _ => exact absurd (List.cons.inj heq).1 hback
  | pair _ ih =>
    cases h' with
    | nil => exact absurd (List.cons.inj heq).1.symm hq
    | plain _ hback _ => exact absurd (List.cons.inj heq).1.symm hback
    | pair h' =>
      obtain ⟨rfl, hrest⟩ := List.cons.inj (List.cons.inj heq).2
      obtain ⟨rfl, rfl, rfl⟩ := ih h' hrest
      exact ⟨rfl, rfl, rfl⟩

namespace Outline

/-- A text of a row that shows where it ends: it has no line break and does not look like the
row of a string, or it is the row of a string. -/
inductive Ends : List Char → Prop
  | plain {text} : '\n' ∉ text → (∀ q, IsQuote q → ¬ "Literal ".toList ++ [q] <+: text) → Ends text
  | quoted {q body value} : IsQuote q → Escaped q body value →
      Ends ("Literal ".toList ++ q :: (body ++ [q]))

/-- A row without line break that goes on like the row of a string starts like one. -/
theorem plain_ne_quoted {text t more : List Char} {q : Char}
    (hno : ¬ "Literal ".toList ++ [q] <+: text) (hq : IsQuote q) :
    text ++ '\n' :: t ≠ "Literal ".toList ++ q :: more := by
  intro heq
  have hquoted : "Literal ".toList ++ [q] <+: text ++ '\n' :: t := by
    rw [heq]
    exact ⟨more, by simp⟩
  rcases Nat.lt_or_ge text.length ("Literal ".toList ++ [q]).length with hlt | hge
  · -- the line break stands inside the start of the row of a string, where there is none
    have hend : text ++ ['\n'] <+: text ++ '\n' :: t := ⟨t, by simp⟩
    have hlen : (text ++ ['\n']).length ≤ ("Literal ".toList ++ [q]).length := by
      rw [List.length_append]
      exact hlt
    have hinside := List.prefix_of_prefix_length_le hend hquoted hlen
    have hmem : '\n' ∈ "Literal ".toList ++ [q] := hinside.subset (by simp)
    rcases hq with rfl | rfl <;> exact absurd hmem (by decide)
  · exact hno (List.prefix_of_prefix_length_le hquoted (List.prefix_append _ _) hge)

theorem Ends.append_inj {text text' t t' : List Char} (h : Ends text) (h' : Ends text')
    (heq : text ++ '\n' :: t = text' ++ '\n' :: t') : text = text' ∧ t = t' := by
  cases h with
  | plain hline hno =>
    cases h' with
    | plain hline' _ =>
      have hchar (text : List Char) (hline : '\n' ∉ text) :
          ∀ ch ∈ text, (fun ch => decide (ch ≠ '\n')) ch = true := by
        rintro ch hch
        exact decide_eq_true (fun h => hline (h ▸ hch))
      obtain ⟨rfl, hrest⟩ := append_run_inj (hchar _ hline) (by simp) (hchar _ hline') (by simp) heq
      exact ⟨rfl, (List.cons.inj hrest).2⟩
    | quoted hq _ =>
      rw [List.append_assoc, List.cons_append] at heq
      exact absurd heq (plain_ne_quoted (hno _ hq) hq)
  | quoted hq hbody =>
    cases h' with
    | plain hline' hno' =>
      rw [List.append_assoc, List.cons_append] at heq
      exact absurd heq.symm (plain_ne_quoted (hno' _ hq) hq)
    | quoted hq' hbody' =>
      simp only [List.append_assoc, List.cons_append, List.nil_append,
        List.append_cancel_left_eq] at heq
      obtain ⟨rfl, hrest⟩ := List.cons.inj heq
      obtain ⟨rfl, -, hrest⟩ := hbody.append_inj hq.ne_backslash hbody' hrest
      exact ⟨rfl, (List.cons.inj hrest).2⟩

/-- A row that can be told from what stands below it. -/
structure Row.Readable (row : Row) : Prop where
  ends : Ends row.text.toList
  starts : ∃ ch more, row.text.toList = ch :: more ∧ ch ≠ ' '

theorem Row.toList_line (row : Row) :
    row.line.toList = List.replicate (2 * row.level) ' ' ++ (row.text.toList ++ ['\n']) := by
  simp [Row.line]

/-- A row that can be told ends where it does, whatever follows. -/
theorem Row.line_append_inj {row row' : Row} (h : row.Readable) (h' : row'.Readable)
    {t t' : List Char} (heq : row.line.toList ++ t = row'.line.toList ++ t') :
    row = row' ∧ t = t' := by
  have hspaces (n : Nat) : ∀ ch ∈ List.replicate n ' ', (fun ch => decide (ch = ' ')) ch = true :=
    fun ch hch => decide_eq_true (List.eq_of_mem_replicate hch)
  have hstart {row : Row} (h : row.Readable) (t : List Char) :
      ∀ ch ∈ (row.text.toList ++ '\n' :: t).head?, ¬ (fun ch => decide (ch = ' ')) ch = true := by
    obtain ⟨ch, more, htext, hch⟩ := h.starts
    rw [htext]
    rintro _ ⟨⟩
    simpa using hch
  simp only [toList_line, List.append_assoc, List.singleton_append] at heq
  obtain ⟨hindent, hrest⟩ := append_run_inj (hspaces _) (hstart h t) (hspaces _) (hstart h' t') heq
  obtain ⟨htext, ht⟩ := h.ends.append_inj h'.ends hrest
  have hlevel := congrArg List.length hindent
  simp only [List.length_replicate] at hlevel
  refine ⟨?_, ht⟩
  rw [Row.mk.injEq]
  exact ⟨by omega, String.toList_inj.mp htext⟩

theorem lines_inj {rows rows' : List Row} (h : ∀ row ∈ rows, row.Readable)
    (h' : ∀ row ∈ rows', row.Readable)
    (heq : String.join (rows.map Row.line) = String.join (rows'.map Row.line)) : rows = rows' := by
  replace heq : rows.flatMap (·.line.toList) = rows'.flatMap (·.line.toList) := by
    have htext := congrArg String.toList heq
    simpa [String.toList_join, List.flatMap_map] using htext
  have hne (row : Row) (more : List Char) : row.line.toList ++ more ≠ [] := by
    rw [Row.toList_line]
    simp
  induction rows generalizing rows' with
  | nil =>
    cases rows' with
    | nil => rfl
    | cons row' rows' => exact absurd heq.symm (hne row' _)
  | cons row rows ih =>
    cases rows' with
    | nil => exact absurd heq (hne row _)
    | cons row' rows' =>
      rw [List.forall_mem_cons] at h h'
      rw [List.flatMap_cons, List.flatMap_cons] at heq
      obtain ⟨rfl, hmore⟩ := Row.line_append_inj h.1 h'.1 heq
      rw [ih h.2 h'.2 hmore]

end Outline

end OperatorGrammar
