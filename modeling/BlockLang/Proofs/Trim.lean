import BlockLang.Text.Blank
import Mathlib.Data.List.DropRight

/-!
# Texts without the blanks at their end

Blanks are taken from the end of a text that is laid behind another: if anything is left
of it, the other text stays whole, and if nothing is left, the blanks in front of it go as
well,

    trimEnd (s ++ t) = trimEnd s          if t is blank,
    trimEnd (s ++ t) = s ++ trimEnd t     otherwise.
-/

namespace BlockLang.Text

theorem trimEndChars_append (cs ds : List Char) :
    trimEndChars (cs ++ ds)
      = if trimEndChars ds = [] then trimEndChars cs else cs ++ trimEndChars ds := by
  unfold trimEndChars
  rw [List.reverse_append, List.dropWhile_append]
  simp only [List.isEmpty_iff, List.reverse_eq_nil_iff]
  split
  · rfl
  · rw [List.reverse_append, List.reverse_reverse]

theorem trimEnd_eq_empty_iff {s : String} : trimEnd s = "" ↔ trimEndChars s.toList = [] := by
  rw [trimEnd, ← String.toList_inj, String.toList_ofList]
  rfl

/-- **The end of two texts end to end.** -/
theorem trimEnd_append (s t : String) :
    trimEnd (s ++ t) = if trimEnd t = "" then trimEnd s else s ++ trimEnd t := by
  rw [← String.toList_inj]
  by_cases h : trimEnd t = ""
  · rw [if_pos h, trimEnd, trimEnd, String.toList_ofList, String.toList_ofList,
      String.toList_append, trimEndChars_append, if_pos (trimEnd_eq_empty_iff.1 h)]
  · rw [if_neg h, trimEnd, String.toList_ofList, String.toList_append, trimEndChars_append,
      if_neg (fun hnil => h (trimEnd_eq_empty_iff.2 hnil)), String.toList_append, trimEnd,
      String.toList_ofList]

@[simp] theorem trimEndChars_trimEndChars (cs : List Char) :
    trimEndChars (trimEndChars cs) = trimEndChars cs :=
  List.rdropWhile_idempotent isBlank cs

@[simp] theorem trimEnd_trimEnd (s : String) : trimEnd (trimEnd s) = trimEnd s := by
  rw [trimEnd, trimEnd, String.toList_ofList, trimEndChars_trimEndChars]

@[simp] theorem trimEnd_trim (s : String) : trimEnd (trim s) = trim s := by
  rw [trimEnd, trim, String.toList_ofList, trimEndChars_trimEndChars]

theorem exists_blanks (s : String) :
    ∃ bs, (∀ b ∈ bs, isBlank b = true) ∧ s.toList = (trimEnd s).toList ++ bs := by
  refine ⟨s.toList.rtakeWhile isBlank, fun b hb => List.mem_rtakeWhile_imp hb, ?_⟩
  rw [trimEnd, String.toList_ofList]
  exact (List.rdropWhile_append_rtakeWhile ..).symm

theorem trimEnd_append_newline (s : String) : trimEnd (s ++ "\n") = trimEnd s := by
  have hblank : trimEnd "\n" = "" := by decide
  rw [trimEnd_append, if_pos hblank]

/-- A text that blanks were taken from has something else than blanks in it, unless it is empty. -/
theorem dropWhile_trimEnd_ne_nil {s : String} (h : trimEnd s ≠ "") :
    (trimEnd s).toList.dropWhile isBlank ≠ [] := by
  intro hnil
  have hblank : ∀ c ∈ (trimEnd s).toList, isBlank c = true := List.dropWhile_eq_nil_iff.1 hnil
  rw [← trimEnd_trimEnd, Ne, trimEnd_eq_empty_iff, trimEndChars, List.reverse_eq_nil_iff,
    List.dropWhile_eq_nil_iff] at h
  exact h (fun c hc => hblank c (List.mem_reverse.1 hc))

end BlockLang.Text
