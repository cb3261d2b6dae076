import BlockLang.Proofs.Lexer.Open
import BlockLang.Proofs.Parser.Accepted
import BlockLang.Proofs.Session.Division

/-!
# Blanks at the ends of lines

A file takes the blanks from the end of every line before it lays the lines of a chunk under
each other.  Outside strings these blanks do not count, and so the chunk has the tokens of
its lines.  But a string may go on over a line end, and then the blanks in front of the line
end are characters of the string, which it loses:

    tokens of the chunk  =  tokens of its lines

if and only if no line has blanks at its end where a string is open.  The braces that are
open are the same in any case.
-/

namespace BlockLang

open BlockLang.Text

namespace Chunk

variable {rows : List String} {line : String}

/-- **No blanks at the end of a line are in a string**: where a line ends with blanks, no string is
open. -/
def BlankEndsOutsideStrings (rows : List String) : Prop :=
  ∀ before line after, rows = before ++ line :: after → trimEnd line ≠ line →
    Lexer.endsInString ("\n".intercalate (before ++ [line])).toList = false

end Chunk

namespace Lexer

/-- **The blanks at the end of a line** are those by which a string is longer, or they do not
count. -/
theorem Padded.exists_line {n : Nat} {cs cs' : List Char} {line : String}
    (h : Padded n (cs ++ (trimEnd line).toList) cs') :
    ∃ m, Padded m (cs ++ line.toList) cs'
      ∧ (m = 0 ↔ n = 0 ∧ (trimEnd line ≠ line → endsInString (cs ++ line.toList) = false)) := by
  obtain ⟨bs, hbs, hline⟩ := exists_blanks line
  have hpadded := h.blanks hbs
  rw [← endsInString_append hbs, List.append_assoc, ← hline] at hpadded
  have hkept : trimEnd line = line ↔ bs = [] := by
    rw [← String.toList_inj, hline, List.self_eq_append_right]
  refine ⟨_, hpadded, ?_⟩
  rw [Nat.add_eq_zero_iff, Ne, hkept]
  cases endsInString (cs ++ line.toList) with
  | true => simp
  | false => simp

end Lexer

namespace Chunk

theorem blankEndsOutsideStrings_concat :
    BlankEndsOutsideStrings (rows ++ [line]) ↔ BlankEndsOutsideStrings rows
      ∧ (trimEnd line ≠ line →
        Lexer.endsInString ("\n".intercalate (rows ++ [line])).toList = false) :=
  forall_split_concat

/-- **The blanks at the ends of lines** are those by which strings are longer, or they do not
count. -/
theorem exists_padded_ends (rows : List String) :
    ∃ n, Lexer.Padded n ("\n".intercalate rows).toList
        ("\n".intercalate (rows.map trimEnd)).toList
      ∧ (n = 0 ↔ BlankEndsOutsideStrings rows) := by
  have hnewline : isBlank '\n' = true := by decide
  have happend : ∀ s t : String, (s ++ "\n" ++ t).toList = s.toList ++ '\n' :: t.toList := by
    intro s t
    rw [String.toList_append, String.toList_append, List.append_assoc]
    rfl
  induction rows using List.reverseRecOn with
  | nil => exact ⟨0, .refl _, by simp [BlankEndsOutsideStrings]⟩
  | append_singleton rows line ih =>
    obtain ⟨n, hpadded, hzero⟩ := ih
    rw [blankEndsOutsideStrings_concat, ← hzero, List.map_append, List.map_singleton]
    by_cases hrows : rows = []
    · obtain rfl : n = 0 := hzero.2 (by simp [hrows, BlankEndsOutsideStrings])
      have hline := (Lexer.Padded.refl ([] ++ (trimEnd line).toList)).exists_line
      rw [List.nil_append, List.nil_append] at hline
      rw [hrows, List.nil_append, List.map_nil, List.nil_append, String.intercalate_singleton,
        String.intercalate_singleton]
      exact hline
    · have hmap : rows.map trimEnd ≠ [] := by rwa [Ne, List.map_eq_nil_iff]
      have hline := hpadded.append hnewline (trimEnd line).toList
      rw [List.append_cons] at hline
      rw [intercalate_concat hrows, intercalate_concat hmap, happend, happend, List.append_cons]
      exact hline.exists_line

/-- **The chunks of a file and its lines**: a chunk has the tokens of its lines if and only if no
line of it has blanks at its end where a string is open.  It leaves the same braces open in any
case. -/
theorem ofLines_keeps_tokens_iff (lines : List String) :
    ∃ spans, Division lines spans ∧ ofLines lines = spans.map (Span.chunk lines)
      ∧ ∀ s ∈ spans,
        (significantTokens (s.chunk lines).text
            = significantTokens ("\n".intercalate (s.lines lines))
          ↔ BlankEndsOutsideStrings (s.lines lines))
        ∧ openBraces (s.chunk lines).text = openBraces ("\n".intercalate (s.lines lines)) := by
  obtain ⟨spans, hdivision, hchunks⟩ := exists_division lines
  refine ⟨spans, hdivision, hchunks, fun s _ => ?_⟩
  obtain ⟨n, hpadded, hzero⟩ := exists_padded_ends (s.lines lines)
  constructor
  · rw [significantTokens_eq, significantTokens_eq, ← hzero, eq_comm]
    exact hpadded.longer.filter_eq_iff
  · rw [openBraces_eq_balance, openBraces_eq_balance]
    exact hpadded.longer.balance_eq.symm

/-- In `{ "a ` and `b" }` on the next line, the blank in front of the line end is part of the string,
but not of the string that the chunk has. -/
theorem not_ofLines_keeps_tokens :
    let lines := ["\x7b \"a ", "b\" \x7d"]
    ofLines lines = [⟨"\x7b \"a\nb\" \x7d", 1⟩]
      ∧ significantTokens "\x7b \"a\nb\" \x7d"
        = [.fixed .openBrace, .of .string "\"a\nb\"", .fixed .closeBrace]
      ∧ significantTokens ("\n".intercalate lines)
        = [.fixed .openBrace, .of .string "\"a \nb\"", .fixed .closeBrace]
      ∧ significantTokens "\x7b \"a\nb\" \x7d" ≠ significantTokens ("\n".intercalate lines) := by
  decide +kernel

end Chunk

end BlockLang
