import BlockLang.Text.Blank
import BlockLang.Text.Letter

/-!
# Letters, digits and blanks

The tables of letters and of blanks have no code point in common, and the digits `0` to
`9` are in neither.
-/

namespace BlockLang.Text

/-- No letter is a digit or a blank. -/
theorem letterRanges_covers_eq_false : ∀ r ∈ (0x30, 0x39) :: blankRanges,
    ∀ i ∈ List.range (r.2 + 1 - r.1), letterRanges.covers (r.1 + i) = false := by
  decide +kernel

theorem isLetter_eq_false {c : Char} {r : Nat × Nat} (hr : r ∈ (0x30, 0x39) :: blankRanges)
    (hlo : r.1 ≤ c.toNat) (hhi : c.toNat ≤ r.2) : isLetter c = false := by
  have h := letterRanges_covers_eq_false r hr (c.toNat - r.1) (List.mem_range.2 (by omega))
  rwa [Nat.add_sub_cancel' hlo] at h

theorem isLetter_eq_false_of_isBlank {c : Char} (h : isBlank c = true) : isLetter c = false := by
  obtain ⟨r, hr, hlo, hhi⟩ := (CodeRanges.covers_eq_true_iff increasing_blankRanges).1 h
  exact isLetter_eq_false (List.mem_cons_of_mem _ hr) hlo hhi

/-- No blank is one of the digits `0` to `9`. -/
theorem isBlank_eq_false_of_digit {c : Char} (hlo : 0x30 ≤ c.toNat) (hhi : c.toNat ≤ 0x39) :
    isBlank c = false := by
  have hapart : ∀ r ∈ blankRanges, r.2 < 0x30 ∨ 0x39 < r.1 := by decide
  rw [← Bool.not_eq_true]
  intro h
  obtain ⟨r, hr, hlo', hhi'⟩ := (CodeRanges.covers_eq_true_iff increasing_blankRanges).1 h
  rcases hapart r hr with hlt | hlt
  · omega
  · omega

end BlockLang.Text
