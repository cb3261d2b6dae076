import BlockLang.Proofs.Lexer.Open
import BlockLang.Proofs.Parser.Accepted
import BlockLang.Proofs.Session.Division
import BlockLang.Proofs.Shell
import BlockLang.Proofs.Trim

/-!
# Lines of a shell and lines of a file

A shell and a file cut lines into the same runs, but they do not make the same text of a
run.  A file takes the blanks from the end of every line.  A shell takes them from the end
of all that it holds, the end of the last line with them where the next line is blank, and
so its text is that of the lines that are not blank,

    handed lines  =  the complete runs, each less its blank lines,
    chunks        =  the runs.

A blank line opens and closes no brace.  It does not count for the tokens either, but for
one that stands in a string: the string has its line end in a file, and not in a shell.
-/

namespace BlockLang

open BlockLang.Text

namespace Chunk

/-! ### Blank lines of a run -/

/-- The lines that are not blank. -/
def nonBlank (rows : List String) : List String :=
  rows.filter (fun row => row ≠ "")

variable {rows : List String}

theorem nonBlank_concat_of_eq {row : String} (h : row = "") :
    nonBlank (rows ++ [row]) = nonBlank rows := by
  simp [nonBlank, h]

theorem nonBlank_concat_of_ne {row : String} (h : row ≠ "") :
    nonBlank (rows ++ [row]) = nonBlank rows ++ [row] := by
  simp [nonBlank, h]

theorem Begins.nonBlank_ne_nil (h : Begins rows) : nonBlank rows ≠ [] := by
  obtain ⟨first, rest, rfl, hfirst⟩ := h
  simp [nonBlank, hfirst]

/-- **No blank line stands in a string**: where a line is blank, no string is open in front of
it. -/
def BlankOutsideStrings (rows : List String) : Prop :=
  ∀ before after, rows = before ++ "" :: after →
    Lexer.endsInString ("\n".intercalate before).toList = false

theorem blankOutsideStrings_singleton {first : String} (h : first ≠ "") :
    BlankOutsideStrings [first] := by
  intro before after hsplit
  cases before with
  | nil => exact absurd (List.cons.inj hsplit).1 h
  | cons => simp at hsplit

theorem blankOutsideStrings_concat {row : String} :
    BlankOutsideStrings (rows ++ [row])
      ↔ BlankOutsideStrings rows
        ∧ (row = "" → Lexer.endsInString ("\n".intercalate rows).toList = false) := by
  have hiff : ∀ rows, BlankOutsideStrings rows ↔ ∀ before row after,
      rows = before ++ row :: after → row = "" →
        Lexer.endsInString ("\n".intercalate before).toList = false :=
    fun rows => ⟨fun h before _ after hsplit hrow => h before after (hrow ▸ hsplit),
      fun h before after hsplit => h before "" after hsplit rfl⟩
  rw [hiff, hiff, forall_split_concat]

/-- **The blank lines of a run** are blanks that do not count, but for those that stand in a
string. -/
theorem exists_padded (h : Begins rows) :
    ∃ n, Lexer.Padded n ("\n".intercalate rows).toList ("\n".intercalate (nonBlank rows)).toList
      ∧ (n = 0 ↔ BlankOutsideStrings rows) := by
  obtain ⟨first, rest, rfl, hfirst⟩ := h
  have hbegins : ∀ rest, Begins (first :: rest) := fun rest => ⟨first, rest, rfl, hfirst⟩
  have hnewline : isBlank '\n' = true := by decide
  induction rest using List.reverseRecOn with
  | nil =>
    have hkept : nonBlank [first] = [first] := by simp [nonBlank, hfirst]
    rw [hkept]
    exact ⟨0, .refl _, fun _ => blankOutsideStrings_singleton hfirst, fun _ => rfl⟩
  | append_singleton rest row ih =>
    obtain ⟨n, hpadded, hzero⟩ := ih
    rw [← List.cons_append, intercalate_concat (List.cons_ne_nil first rest),
      blankOutsideStrings_concat, ← hzero]
    -- a blank line is one more blank behind the one text, any other is put behind both
    by_cases hrow : row = ""
    · rw [nonBlank_concat_of_eq hrow, hrow, String.append_empty, String.toList_append]
      refine ⟨_, hpadded.blank hnewline, ?_⟩
      cases Lexer.endsInString ("\n".intercalate (first :: rest)).toList with
      | true => simp
      | false => simp
    · rw [nonBlank_concat_of_ne hrow, intercalate_concat (hbegins rest).nonBlank_ne_nil]
      refine ⟨n, ?_, fun hn => ⟨hn, fun h => absurd h hrow⟩, fun h => h.1⟩
      have happend : ∀ s : String, (s ++ "\n" ++ row).toList = s.toList ++ '\n' :: row.toList := by
        intro s
        rw [String.toList_append, String.toList_append, List.append_assoc]
        rfl
      rw [happend, happend]
      exact hpadded.append hnewline row.toList

theorem needsMore_nonBlank (h : Begins rows) :
    needsMore ("\n".intercalate (nonBlank rows)) = needsMore ("\n".intercalate rows) := by
  obtain ⟨n, hpadded, -⟩ := exists_padded h
  rw [needsMore, needsMore, openBraces_eq_balance, openBraces_eq_balance,
    hpadded.longer.balance_eq]

/-- **The lines of a run that are not blank** have its tokens, if no blank line stands in a
string. -/
theorem significantTokens_nonBlank_iff (h : Begins rows) :
    significantTokens ("\n".intercalate (nonBlank rows))
        = significantTokens ("\n".intercalate rows) ↔ BlankOutsideStrings rows := by
  obtain ⟨n, hpadded, hzero⟩ := exists_padded h
  rw [significantTokens_eq, significantTokens_eq, ← hzero, eq_comm]
  exact hpadded.longer.filter_eq_iff

end Chunk

namespace Shell

open Chunk

/-! ### A shell -/

/-- The text that a shell holds after the lines of a run. -/
def heldText (rows : List String) : String :=
  if rows = [] then "" else "\n".intercalate (nonBlank rows) ++ "\n"

/-- **Lines that a shell can hold**: none, or the first lines of a run that leave a brace open. -/
structure HeldLines (rows : List String) : Prop where
  trimEnd_eq : trimEnd ("\n".intercalate (nonBlank rows)) = "\n".intercalate (nonBlank rows)
  begins : rows ≠ [] → Begins rows
  needsMore : rows ≠ [] → needsMore ("\n".intercalate rows) = true

theorem heldLines_nil : HeldLines [] where
  trimEnd_eq := by decide
  begins h := absurd rfl h
  needsMore h := absurd rfl h

variable {rows : List String} {line : String}

/-- **What a shell holds with a line behind it**, less the blanks at the end, is what the lines make
that are not blank. -/
theorem HeldLines.trimEnd_append (h : HeldLines rows) (line : String) :
    trimEnd (heldText rows ++ line) = "\n".intercalate (nonBlank (rows ++ [trimEnd line])) := by
  by_cases hrows : rows = []
  · rw [hrows, heldText, if_pos rfl, String.empty_append, List.nil_append]
    by_cases hline : trimEnd line = ""
    · rw [hline]
      rfl
    · simp [nonBlank, hline]
  · rw [heldText, if_neg hrows, Text.trimEnd_append]
    by_cases hline : trimEnd line = ""
    · rw [if_pos hline, trimEnd_append_newline, h.trimEnd_eq, nonBlank_concat_of_eq hline]
    · rw [if_neg hline, nonBlank_concat_of_ne hline,
        intercalate_concat (h.begins hrows).nonBlank_ne_nil]

theorem intercalate_nonBlank_ne (h : Begins rows) : "\n".intercalate (nonBlank rows) ≠ "" := by
  obtain ⟨first, rest, rfl, hfirst⟩ := h
  have hcons : nonBlank (first :: rest) = first :: nonBlank rest := by simp [nonBlank, hfirst]
  rw [hcons]
  cases nonBlank rest with
  | nil => rwa [String.intercalate_singleton]
  | cons row rows => simp [String.intercalate_cons_cons, hfirst]

theorem completedBy_of_blank (h : trimEnd line = "") :
    completedBy "" line = none ∧ heldAfter "" line = "" := by
  have hclosed : ¬ 0 < openBraces "" := by decide
  rw [completedBy, heldAfter, String.empty_append, h]
  exact ⟨if_pos (.inr rfl), if_neg hclosed⟩

/-- **A line of a run** is held with the others if they leave a brace open, and completes their text
otherwise. -/
theorem HeldLines.completedBy_eq (h : HeldLines rows) (hline : ¬ (rows = [] ∧ trimEnd line = "")) :
    let rows' := rows ++ [trimEnd line]
    (Chunk.needsMore ("\n".intercalate rows') = true →
        completedBy (heldText rows) line = none ∧ heldAfter (heldText rows) line = heldText rows'
          ∧ HeldLines rows')
      ∧ (Chunk.needsMore ("\n".intercalate rows') = false →
        completedBy (heldText rows) line = some ("\n".intercalate (nonBlank rows'))
          ∧ heldAfter (heldText rows) line = heldText []) := by
  intro rows'
  have hbegins : Begins rows' := begins_concat h.begins hline
  have htext := h.trimEnd_append line
  have hne : rows' ≠ [] := by simp [rows']
  rw [completedBy, heldAfter, htext, ← needsMore_nonBlank hbegins, Chunk.needsMore]
  refine ⟨fun hmore => ?_, fun hdone => ?_⟩
  · have hopen := of_decide_eq_true hmore
    refine ⟨if_pos (.inl hopen), ?_, ?_, fun _ => hbegins, fun _ => ?_⟩
    · rw [if_pos hopen, heldText, if_neg hne]
    · rw [← htext, trimEnd_trimEnd]
    · rw [← needsMore_nonBlank hbegins]
      exact hmore
  · have hclosed := of_decide_eq_false hdone
    have hboth := not_or.2 ⟨hclosed, intercalate_nonBlank_ne hbegins⟩
    exact ⟨if_neg hboth, if_neg hclosed⟩

/-- **The texts of a shell are runs of its lines**, less the lines that are blank. -/
theorem completed_eq (h : HeldLines rows) (lines : List String) :
    completed (heldText rows) lines
      = ((runs rows lines).filter (fun rows => !Chunk.needsMore ("\n".intercalate rows))).map
          (fun rows => "\n".intercalate (nonBlank rows)) := by
  fun_induction runs rows lines with
  | case1 => rfl
  | case2 rows hne => simp [completed, h.needsMore hne]
  | case3 rows line lines row hblank ih =>
    obtain ⟨rfl, hrow⟩ := hblank
    obtain ⟨hnone, hafter⟩ := completedBy_of_blank hrow
    have hnil : heldText [] = "" := rfl
    rw [completed, hnil, hnone, hafter]
    exact ih heldLines_nil
  | case4 rows line lines row hline rows' hmore ih =>
    obtain ⟨hnone, hafter, hheld⟩ := (h.completedBy_eq hline).1 hmore
    rw [completed, hnone, hafter]
    exact ih hheld
  | case5 rows line lines row hline rows' hdone ih =>
    rw [Bool.not_eq_true] at hdone
    obtain ⟨hsome, hafter⟩ := (h.completedBy_eq hline).2 hdone
    rw [completed, hsome, hafter, ih heldLines_nil, List.filter_cons_of_pos (by rw [hdone]; rfl)]
    rfl

/-! ### The two side by side -/

/-- The texts that a shell hands on to be run, as lines are fed to it. -/
def handed : List String → Shell → List String
  | [], _ => []
  | line :: lines, sh => (sh.absorb line).1.toList ++ handed lines (sh.feed line).2

theorem handed_eq_completed (lines : List String) (sh : Shell) :
    handed lines sh = completed sh.partialText lines := by
  induction lines generalizing sh with
  | nil => rfl
  | cons line lines ih => rw [handed, completed, ih, partialText_feed, absorb_eq]

/-- **A shell and a file cut lines alike**: what a shell hands on are the complete chunks of a file
with the same lines, less the lines that are blank.  The tokens are the same if and only if no
blank line stands in a string. -/
theorem handed_eq_read_iff (console : Console) (g : Grouping) (lines : List String) :
    let fed := handed lines (start console g)
    let read := ((Chunk.ofLines lines).map Chunk.text).filter (fun text => !Chunk.needsMore text)
    let complete := (Chunk.runs [] lines).filter
      (fun rows => !Chunk.needsMore ("\n".intercalate rows))
    fed = complete.map (fun rows => "\n".intercalate (Chunk.nonBlank rows))
      ∧ read = complete.map "\n".intercalate
      ∧ (∀ c ∈ (Chunk.ofLines lines).dropLast, Chunk.needsMore c.text = false)
      ∧ fed.length = read.length
      ∧ (fed.map significantTokens = read.map significantTokens
        ↔ ∀ rows ∈ complete, BlankOutsideStrings rows) := by
  intro fed read complete
  have hfed : fed = complete.map (fun rows => "\n".intercalate (nonBlank rows)) :=
    (handed_eq_completed lines (start console g)).trans (completed_eq heldLines_nil lines)
  have hread : read = complete.map "\n".intercalate := by
    show ((Chunk.ofLines lines).map Chunk.text).filter _ = _
    rw [map_text_ofLines, List.filter_map]
    rfl
  refine ⟨hfed, hread, fun c hc => ?_, ?_, ?_⟩
  · exact decide_eq_false (Int.not_lt.2 (openBraces_nonpos_of_mem_dropLast_ofLines hc))
  · rw [hfed, hread, List.length_map, List.length_map]
  · rw [hfed, hread, List.map_map, List.map_map, List.map_inj_left]
    refine forall₂_congr (fun rows hrows => ?_)
    exact significantTokens_nonBlank_iff (begins_of_mem_runs (List.mem_filter.1 hrows).1)

/-- A blank line in the string of `{ "a` and `b" }` is part of it for a file, and left out by a
shell. -/
theorem not_handed_eq_read :
    let lines := ["\x7b \"a", "", "b\" \x7d"]
    let fed := handed lines (start {} .byPrecedence)
    let read := ((Chunk.ofLines lines).map Chunk.text).filter (fun text => !Chunk.needsMore text)
    fed = ["\x7b \"a\nb\" \x7d"] ∧ read = ["\x7b \"a\n\nb\" \x7d"]
      ∧ fed.map significantTokens ≠ read.map significantTokens := by
  intro lines fed read
  have hfed : fed = ["\x7b \"a\nb\" \x7d"] := by
    show handed lines (start {} .byPrecedence) = _
    rw [handed_eq_completed]
    decide +kernel
  have hread : read = ["\x7b \"a\n\nb\" \x7d"] := by decide +kernel
  refine ⟨hfed, hread, ?_⟩
  rw [hfed, hread]
  decide +kernel

end Shell

end BlockLang
