/-!
# Sets of code points as sorted ranges

A property of characters that a standard fixes by enumeration is held here as a
list of closed ranges of code points, in increasing order.  `covers` asks whether
a code point lies in one of them,

    covers rs n = true  ↔  some range (lo, hi) of rs has lo ≤ n ≤ hi,

and stops at the first range that begins past the code point, so that the common
characters at the front of the code space are settled at once.
-/

namespace BlockLang.Text

/-- A set of code points, as closed ranges in increasing order. -/
abbrev CodeRanges := List (Nat × Nat)

namespace CodeRanges

/-- Whether `n` lies in one of the ranges. -/
def covers : CodeRanges → Nat → Bool
  | [], _ => false
  | (lo, hi) :: rest, n => if n < lo then false else if n ≤ hi then true else covers rest n

/-- **Increasing.**  Each range is non-empty and ends before the next one begins; `low` bounds
them all from below. -/
def increasing : Nat → CodeRanges → Bool
  | _, [] => true
  | low, (lo, hi) :: rest => low ≤ lo && lo ≤ hi && increasing (hi + 1) rest

/-- Nothing below the lower bound is covered. -/
theorem covers_eq_false_of_lt {low n : Nat} (h : n < low) :
    ∀ {rs : CodeRanges}, increasing low rs = true → covers rs n = false
  | [], _ => rfl
  | (lo, hi) :: rest, hrs => by
    simp only [increasing, Bool.and_eq_true, decide_eq_true_eq] at hrs
    simp [covers, show n < lo by omega]

/-- **Covered means in a range.**  Stopping early loses nothing when the ranges increase. -/
theorem covers_eq_true_iff {n : Nat} : ∀ {low : Nat} {rs : CodeRanges},
    increasing low rs = true → (covers rs n = true ↔ ∃ r ∈ rs, r.1 ≤ n ∧ n ≤ r.2)
  | _, [], _ => by simp [covers]
  | low, (lo, hi) :: rest, hrs => by
    simp only [increasing, Bool.and_eq_true, decide_eq_true_eq] at hrs
    have ih := covers_eq_true_iff (n := n) hrs.2
    by_cases hlo : n < lo
    · have hrest : covers rest n = false := covers_eq_false_of_lt (by omega) hrs.2
      have hnone : ¬ ∃ r ∈ rest, r.1 ≤ n ∧ n ≤ r.2 := by rw [← ih, hrest]; simp
      simp only [covers, hlo, if_true, Bool.false_eq_true, false_iff, List.mem_cons, not_exists, not_and]
      rintro r (rfl | hr) h1 h2
      · simp only at h1; omega
      · exact hnone ⟨r, hr, h1, h2⟩
    · by_cases hhi : n ≤ hi
      · simp only [covers, hlo, hhi, if_true, if_false, true_iff]
        exact ⟨(lo, hi), by simp, by simp; omega, by simpa using hhi⟩
      · simp only [covers, hlo, hhi, if_false, ih, List.mem_cons]
        constructor
        · rintro ⟨r, hr, h⟩; exact ⟨r, Or.inr hr, h⟩
        · rintro ⟨r, rfl | hr, h1, h2⟩
          · simp only at h2; omega
          · exact ⟨r, hr, h1, h2⟩

end CodeRanges

end BlockLang.Text
