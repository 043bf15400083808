import ScanPolicy.Proofs.Text.Blanks
import ScanPolicy.Schedule.ContentLine

/-!
# Folded content lines

A content line is folded by line breaks, each followed by one space or tab. Unfolding takes
the breaks out again, and nothing else as long as the first part of a folded line does not
end in a blank: blanks at the end of that part are taken for blanks at the end of the line.

- `ContentLine.Written`: a text with the given lines, each ended in LF, CRLF or CR.
- `ContentLine.Folded`: a content line in parts.
- `ContentLine.unfold_written`: what unfolding gives of folded lines.
- `ContentLine.unfold_eq_lines_iff`: when it gives the lines.
-/

namespace ScanPolicy.ContentLine

/-! ## Lines of a text -/

/-- What ends a line. -/
inductive LineEnd where
  | lf
  | crlf
  | cr
deriving DecidableEq, Repr

/-- The characters of a line end. -/
def LineEnd.text : LineEnd → Text
  | lf => ['\n']
  | crlf => ['\r', '\n']
  | cr => ['\r']

/-- A text that has the given lines; each is ended, but the last one may be not. -/
inductive Written : List Text → Text → Prop
  | nil : Written [] []
  | last (line : Text) : Written [line] line
  | cons (line : Text) (ending : LineEnd) {lines : List Text} {rest : Text}
      (h : Written lines rest) : Written (line :: lines) (line ++ (ending.text ++ rest))

/-- A character that neither ends a line nor is part of a line end. -/
def IsInLine (c : Char) : Prop := c ≠ '\r' ∧ c ≠ '\n'

theorem physical_cons_of_isInLine {c : Char} (hc : IsInLine c) {t line : Text} {lines : List Text}
    (h : physical t = line :: lines) : physical (c :: t) = (c :: line) :: lines := by
  rw [physical.eq_3 _ _ fun _ hr _ => hc.1 hr, if_neg (by simp [hc.1, hc.2]), h]

theorem physical_of_isInLine {line : Text} (h : ∀ c ∈ line, IsInLine c) : physical line = [line] := by
  induction line with
  | nil => rfl
  | cons c line ih =>
    obtain ⟨hc, hline⟩ := List.forall_mem_cons.mp h
    exact physical_cons_of_isInLine hc (ih hline)

/-- A line end that is a lone CR must not come before an LF. -/
theorem physical_lineEnd (ending : LineEnd) {rest : Text} (h : rest.head? ≠ some '\n') :
    physical (ending.text ++ rest) = [] :: physical rest := by
  cases ending with
  | lf => rfl
  | crlf => rfl
  | cr =>
    cases rest with
    | nil => rfl
    | cons c rest =>
      have hc : c ≠ '\n' := fun heq => h (congrArg some heq)
      exact (physical.eq_3 _ _ fun _ _ ht => hc (List.cons.inj ht).1).trans (if_pos rfl)

theorem physical_append (ending : LineEnd) {line rest : Text} (hline : ∀ c ∈ line, IsInLine c)
    (hrest : rest.head? ≠ some '\n') :
    physical (line ++ (ending.text ++ rest)) = line :: physical rest := by
  induction line with
  | nil => exact physical_lineEnd ending hrest
  | cons c line ih =>
    obtain ⟨hc, hline⟩ := List.forall_mem_cons.mp hline
    exact physical_cons_of_isInLine hc (ih hline)

/-- Lines are unfolded one after the other. -/
theorem unfoldFrom_cons_congr (line : Text) {ls ls' : List Text}
    (h : ∀ current, unfoldFrom current ls = unfoldFrom current ls') (current : Option Text) :
    unfoldFrom current (line :: ls) = unfoldFrom current (line :: ls') := by
  unfold unfoldFrom
  cases current <;> cases line <;> simp only [h]

/-- A text of lines that are not empty does not begin with an LF. -/
theorem Written.head?_ne {lines : List Text} {text : Text} (h : Written lines text)
    (hlines : ∀ line ∈ lines, line ≠ [] ∧ ∀ c ∈ line, IsInLine c) : text.head? ≠ some '\n' := by
  cases h with
  | nil => exact nofun
  | last line =>
    have hline := (hlines text List.mem_cons_self).2
    exact fun heq => (hline _ (List.mem_of_head? heq)).2 rfl
  | cons line ending h =>
    obtain ⟨hne, hline⟩ := hlines line List.mem_cons_self
    rw [List.head?_append_of_ne_nil _ hne]
    exact fun heq => (hline _ (List.mem_of_head? heq)).2 rfl

/-- A text is unfolded as its lines are, if none of them is empty. -/
theorem unfoldFrom_written {lines : List Text} {text : Text} (h : Written lines text)
    (hlines : ∀ line ∈ lines, line ≠ [] ∧ ∀ c ∈ line, IsInLine c) (current : Option Text) :
    unfoldFrom current (physical text) = unfoldFrom current lines := by
  induction h generalizing current with
  | nil => cases current <;> rfl
  | last line => rw [physical_of_isInLine (hlines line List.mem_cons_self).2]
  | @cons line ending lines rest h ih =>
    obtain ⟨hline, hlines⟩ := List.forall_mem_cons.mp hlines
    rw [physical_append ending hline.2 (h.head?_ne hlines)]
    exact unfoldFrom_cons_congr line (ih hlines) current

/-! ## Folded lines -/

/-- A content line in parts: the first one, and the others with the white space before them. -/
structure Folded where
  first : Text
  further : List (Char × Text)
deriving DecidableEq, Repr

namespace Folded

/-- What comes after the first part. -/
def rest (f : Folded) : Text := (f.further.map Prod.snd).flatten

/-- The content line. -/
def line (f : Folded) : Text := f.first ++ f.rest

/-- The lines on which the parts stand. -/
def lines (f : Folded) : List Text := f.first :: f.further.map fun (c, part) => c :: part

/-- A content line neither begins nor ends with a blank, and its first part has a character. -/
structure IsFolding (f : Folded) : Prop where
  first_ne_nil : f.first ≠ []
  inLine : ∀ c ∈ f.line, IsInLine c
  starts : ∀ c ∈ f.line.head?, Text.isBlank c = false
  ends : ∀ c ∈ f.line.getLast?, Text.isBlank c = false
  marks : ∀ p ∈ f.further, isFold p.1 = true

instance : DecidablePred Folded.IsFolding := fun f => decidable_of_iff
  (f.first ≠ [] ∧ (f.line.all fun c => c != '\r' && c != '\n') = true ∧
    (f.line.head?.all fun c => !Text.isBlank c) = true ∧
    (f.line.getLast?.all fun c => !Text.isBlank c) = true ∧ (f.further.all fun p => isFold p.1) = true)
  ⟨fun ⟨hfirst, hline, hstarts, hends, hmarks⟩ => ⟨hfirst,
      fun c hc => by simpa [IsInLine] using List.all_eq_true.mp hline c hc,
      fun c hc => by simpa using (Option.all_eq_true _ _).mp hstarts c hc,
      fun c hc => by simpa using (Option.all_eq_true _ _).mp hends c hc,
      List.all_eq_true.mp hmarks⟩,
    fun h => ⟨h.first_ne_nil, List.all_eq_true.mpr fun c hc => by simpa [IsInLine] using h.inLine c hc,
      (Option.all_eq_true _ _).mpr fun c hc => by simpa using h.starts c hc,
      (Option.all_eq_true _ _).mpr fun c hc => by simpa using h.ends c hc,
      List.all_eq_true.mpr h.marks⟩⟩

variable {f : Folded}

theorem IsFolding.exists_first (h : f.IsFolding) :
    ∃ c t, f.first = c :: t ∧ Text.isBlank c = false := by
  cases hfirst : f.first with
  | nil => exact absurd hfirst h.first_ne_nil
  | cons c t =>
    refine ⟨c, t, rfl, h.starts c ?_⟩
    unfold line
    rw [hfirst]
    exact rfl

theorem IsFolding.lines_spec (h : f.IsFolding) :
    ∀ l ∈ f.lines, l ≠ [] ∧ ∀ c ∈ l, IsInLine c := by
  have hinLine := h.inLine
  unfold line rest at hinLine
  refine List.forall_mem_cons.mpr ⟨⟨h.first_ne_nil, fun c hc =>
    hinLine c (List.mem_append_left _ hc)⟩, fun l hl => ?_⟩
  obtain ⟨⟨mark, part⟩, hp, rfl⟩ := List.mem_map.mp hl
  refine ⟨List.cons_ne_nil _ _, List.forall_mem_cons.mpr ⟨?_, fun c hc => ?_⟩⟩
  · have hmark := h.marks _ hp
    simp only [isFold, Bool.or_eq_true, decide_eq_true_eq] at hmark
    rcases hmark with rfl | rfl <;> exact ⟨by decide, by decide⟩
  · exact hinLine c (List.mem_append_right _
      (List.mem_flatten.mpr ⟨part, List.mem_map_of_mem hp, hc⟩))

/-- A part of a content line that begins with a character that is not blank loses its blanks at the end,
if it has any. -/
theorem IsFolding.trim_first_iff (h : f.IsFolding) :
    Text.trim f.first = f.first ↔ ∀ c ∈ f.first.getLast?, Text.isBlank c = false := by
  obtain ⟨c, t, hfirst, hc⟩ := h.exists_first
  rw [Text.trim_eq_rdropWhile, hfirst,
    List.dropWhile_cons_of_neg (by rw [hc]; exact Bool.false_ne_true), List.rdropWhile_eq_self_iff]
  simp [List.getLast?_eq_some_getLast]

end Folded

/-! ## Unfolding -/

theorem unfoldFrom_further {further : List (Char × Text)} (h : ∀ p ∈ further, isFold p.1 = true)
    (line : Text) (more : List Text) :
    unfoldFrom (some line) ((further.map fun (c, part) => c :: part) ++ more) =
      unfoldFrom (some (line ++ (further.map Prod.snd).flatten)) more := by
  induction further generalizing line with
  | nil => simp
  | cons p further ih =>
    obtain ⟨hp, hfurther⟩ := List.forall_mem_cons.mp h
    obtain ⟨c, part⟩ := p
    rw [List.map_cons, List.cons_append, unfoldFrom]
    dsimp only
    rw [if_pos hp, ih hfurther, List.map_cons, List.flatten_cons, List.append_assoc]

/-- The lines of a folded content line begin a new one, of which only the first part is trimmed. -/
theorem unfoldFrom_folded {f : Folded} (h : f.IsFolding) (current : Option Text)
    (more : List Text) : unfoldFrom current (f.lines ++ more) =
      current.toList ++ unfoldFrom (some (Text.trim f.first ++ f.rest)) more := by
  obtain ⟨c, t, hfirst, hc⟩ := h.exists_first
  have hfold : isFold c = false := by
    cases hfold : isFold c with
    | false => rfl
    | true =>
      simp only [isFold, Bool.or_eq_true, decide_eq_true_eq] at hfold
      rcases hfold with rfl | rfl <;> exact absurd hc (by decide)
  have hblank : Text.allBlank (c :: t) = false := Text.allBlank_append_cons hc []
  have hrest := unfoldFrom_further h.marks (Text.trim f.first) more
  unfold Folded.lines
  rw [hfirst] at hrest ⊢
  rw [List.cons_append]
  cases current with
  | none =>
    rw [unfoldFrom]
    · rw [if_neg (by rw [hblank]; exact Bool.false_ne_true), hrest]
      rfl
    · exact nofun
  | some line =>
    rw [unfoldFrom]
    dsimp only
    rw [if_neg (by rw [hfold]; exact Bool.false_ne_true),
      if_neg (by rw [hblank]; exact Bool.false_ne_true), hrest]
    rfl

/-- Folded content lines are unfolded to what they were, but for blanks at the end of a first part. -/
theorem unfold_written {fs : List Folded} (h : ∀ f ∈ fs, f.IsFolding) {text : Text}
    (htext : Written (fs.flatMap Folded.lines) text) :
    unfold text = fs.map fun f => Text.trim f.first ++ f.rest := by
  have hlines : ∀ line ∈ fs.flatMap Folded.lines, line ≠ [] ∧ ∀ c ∈ line, IsInLine c := by
    intro line hline
    obtain ⟨f, hf, hline⟩ := List.mem_flatMap.mp hline
    exact (h f hf).lines_spec line hline
  have hall : ∀ current, unfoldFrom current (fs.flatMap Folded.lines) =
      current.toList ++ fs.map fun f => Text.trim f.first ++ f.rest := by
    clear htext hlines
    induction fs with
    | nil =>
      intro current
      cases current <;> rfl
    | cons f fs ih =>
      intro current
      obtain ⟨hf, hfs⟩ := List.forall_mem_cons.mp h
      rw [List.flatMap_cons, unfoldFrom_folded hf, ih hfs]
      rfl
  unfold unfold
  rw [unfoldFrom_written htext hlines, hall]
  rfl

/-- Unfolding gives the content lines exactly if no first part of a line ends in a blank. -/
theorem unfold_eq_lines_iff {fs : List Folded} (h : ∀ f ∈ fs, f.IsFolding) {text : Text}
    (htext : Written (fs.flatMap Folded.lines) text) : unfold text = fs.map Folded.line ↔
      ∀ f ∈ fs, ∀ c ∈ f.first.getLast?, Text.isBlank c = false := by
  rw [unfold_written h htext, List.map_inj_left]
  refine forall_congr' fun f => forall_congr' fun hf => ?_
  unfold Folded.line
  rw [List.append_cancel_right_eq]
  exact (h f hf).trim_first_iff

/-- A rule that is folded within a word is unfolded. -/
theorem unfold_eq_lines_of_folded_word :
    unfold "DTSTART:20240101T090000Z\r\nRRULE:FREQ=DAI\r\n\tLY;INTERVAL=3\r\n".toList =
      ["DTSTART:20240101T090000Z".toList, "RRULE:FREQ=DAILY;INTERVAL=3".toList] := by
  have hfs : ∀ f ∈ [(⟨"DTSTART:20240101T090000Z".toList, []⟩ : Folded),
      ⟨"RRULE:FREQ=DAI".toList, [('\t', "LY;INTERVAL=3".toList)]⟩], f.IsFolding := by
    intro f hf
    rcases List.mem_pair.mp hf with rfl | rfl <;> decide
  refine (unfold_eq_lines_iff hfs (.cons _ .crlf (.cons _ .crlf (.cons _ .crlf .nil)))).mpr ?_
  intro f hf c hc
  rcases List.mem_pair.mp hf with rfl | rfl <;>
    · cases hc
      decide

/-- A line that is folded after a blank loses the blank. -/
theorem unfold_ne_lines_of_blank_before_fold : ∃ f : Folded, f.IsFolding ∧
    Written f.lines "DTSTART:2024 \r\n 0101T000000Z".toList ∧
    f.line = "DTSTART:2024 0101T000000Z".toList ∧
    unfold "DTSTART:2024 \r\n 0101T000000Z".toList = ["DTSTART:20240101T000000Z".toList] :=
  ⟨⟨"DTSTART:2024 ".toList, [(' ', "0101T000000Z".toList)]⟩, by decide, .cons _ .crlf (.last _),
    by decide, by decide⟩

end ScanPolicy.ContentLine
