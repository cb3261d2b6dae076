import BlockLang.Session.Chunk

/-!
# The runs of a list of lines

A line that is not blank begins a run, and the lines behind it belong to the run as long as
it leaves a brace open.  `runs` cuts all lines at once, with the lines of a run kept apart
that a chunk has laid under each other, `"\n".intercalate`.
-/

namespace BlockLang

open BlockLang.Text

namespace Chunk

variable {rows : List String}

/-- **Lines cut into runs**: a line begins a run unless it is blank, and the next line belongs to it
as long as a brace is open.  `held` are the lines of a run that is yet to end. -/
def runs (held : List String) : List String → List (List String)
  | [] => if held = [] then [] else [held]
  | line :: lines =>
    let row := trimEnd line
    if held = [] ∧ row = "" then runs [] lines
    else
      let rows := held ++ [row]
      if needsMore ("\n".intercalate rows) then runs rows lines else rows :: runs [] lines

/-- A run that begins with a line that is not blank. -/
def Begins (rows : List String) : Prop :=
  ∃ first rest, rows = first :: rest ∧ first ≠ ""

/-- The line at hand joins a run, or begins one unless it is blank. -/
theorem begins_concat {row : String} (h : rows ≠ [] → Begins rows)
    (hrow : ¬ (rows = [] ∧ row = "")) : Begins (rows ++ [row]) := by
  by_cases hrows : rows = []
  · rw [hrows]
    exact ⟨row, [], rfl, fun heq => hrow ⟨hrows, heq⟩⟩
  · obtain ⟨first, rest, rfl, hfirst⟩ := h hrows
    exact ⟨first, rest ++ [row], rfl, hfirst⟩

theorem forall_split_concat {P : List String → String → Prop} {last : String} :
    (∀ before row after, rows ++ [last] = before ++ row :: after → P before row)
      ↔ (∀ before row after, rows = before ++ row :: after → P before row) ∧ P rows last := by
  constructor
  · intro h
    refine ⟨fun before row after hsplit => h before row (after ++ [last]) ?_, h rows last [] rfl⟩
    rw [hsplit, List.append_assoc, List.cons_append]
  · intro ⟨hrows, hlast⟩ before row after hsplit
    rcases List.eq_nil_or_concat after with rfl | ⟨init, final, rfl⟩
    · obtain ⟨rfl, hrow⟩ := List.append_inj' hsplit rfl
      exact (List.cons.inj hrow).1 ▸ hlast
    · rw [List.concat_eq_append, ← List.cons_append, ← List.append_assoc] at hsplit
      exact hrows before row init (List.append_inj' hsplit rfl).1

theorem intercalate_concat (h : rows ≠ []) (row : String) :
    "\n".intercalate (rows ++ [row]) = "\n".intercalate rows ++ "\n" ++ row := by
  rw [String.intercalate_append_of_ne_nil h (List.cons_ne_nil row []),
    String.intercalate_singleton]

end Chunk

end BlockLang
