import BlockLang.Eval.Arithmetic
import Mathlib.Algebra.Order.Group.Unbundled.Int
import Mathlib.Data.Int.Order.Basic
import Mathlib.Tactic

/-!
# Arithmetic is exact

Division is put together from the magnitudes of its operands and their signs.  What it
should be is said without either:

  l = q r + m,  with |m| < |r|  and  m zero or of the sign of l.

There is one such `q` whenever `r` is not zero, so the exact result of each of the four
operations is a relation that has one solution, with the one exception of a quotient by
zero.  An operation gives that solution or says that it is out of range.
-/

namespace BlockLang

/-! ### The quotient toward zero -/

/-- `q` is the quotient of `l` and `r` toward zero: what is left is smaller than `r`, and it is
on the side of zero that `l` is on. -/
def QuotientTowardZero (l r q : Int) : Prop :=
  ∃ m, l = q * r + m ∧ |m| < |r| ∧ (m = 0 ∨ m.sign = l.sign)

theorem side_of_sign {l m : Int} (h : m = 0 ∨ m.sign = l.sign) :
    (0 ≤ l → 0 ≤ m) ∧ (l ≤ 0 → m ≤ 0) := by
  rcases h with rfl | h
  · exact ⟨fun _ => le_rfl, fun _ => le_rfl⟩
  · constructor
    · intro hl
      rw [← Int.sign_nonneg_iff, h]
      exact Int.sign_nonneg_iff.2 hl
    · intro hl
      rw [← Int.sign_nonpos_iff, h]
      exact Int.sign_nonpos_iff.2 hl

theorem quotientTowardZero_tdiv (l : Int) {r : Int} (hr : r ≠ 0) :
    QuotientTowardZero l r (l.tdiv r) := by
  refine ⟨l.tmod r, (Int.tdiv_mul_add_tmod l r).symm, ?_, ?_⟩
  · rw [Int.abs_eq_natAbs, Int.abs_eq_natAbs, Int.natAbs_tmod]
    exact_mod_cast Nat.mod_lt _ (Int.natAbs_pos.2 hr)
  · by_cases hdvd : r ∣ l
    · exact .inl (Int.tmod_eq_zero_of_dvd hdvd)
    · exact .inr (by rw [Int.sign_tmod, if_neg hdvd])

namespace QuotientTowardZero

/-- Two remainders are on the same side of zero, so their difference is a multiple of `r` that is
smaller than `r`. -/
theorem unique {l r q q' : Int} (hr : r ≠ 0) (h : QuotientTowardZero l r q)
    (h' : QuotientTowardZero l r q') : q = q' := by
  obtain ⟨m, hm, hlt, hsign⟩ := h
  obtain ⟨m', hm', hlt', hsign'⟩ := h'
  obtain ⟨hpos, hneg⟩ := side_of_sign hsign
  obtain ⟨hpos', hneg'⟩ := side_of_sign hsign'
  have hdiff : (q - q') * r = m' - m := by
    rw [sub_mul]
    omega
  have hsmall : (m' - m).natAbs < r.natAbs := by
    rw [Int.abs_eq_natAbs, Int.abs_eq_natAbs] at hlt hlt'
    rcases le_total 0 l with hl | hl
    · have := hpos hl
      have := hpos' hl
      omega
    · have := hneg hl
      have := hneg' hl
      omega
  have hzero : m' - m = 0 :=
    Int.eq_zero_of_dvd_of_natAbs_lt_natAbs (hdiff ▸ Dvd.intro_left _ rfl) hsmall
  rw [hzero] at hdiff
  rcases mul_eq_zero.1 hdiff with hq | hr'
  · exact sub_eq_zero.1 hq
  · exact absurd hr' hr

end QuotientTowardZero

/-- The quotient of the magnitudes, with the sign put back, is the quotient toward zero. -/
theorem divide?_of_ne_zero (l : Int) {r : Int} (hr : r ≠ 0) : divide? l r = some (l.tdiv r) := by
  have hquot : ((l.natAbs / r.natAbs : Nat) : Int) = (l.natAbs : Int).tdiv r.natAbs := rfl
  rw [divide?, if_neg hr, Option.some.injEq, hquot]
  rcases lt_or_ge l 0 with hl | hl <;> rcases lt_or_ge r 0 with hr | hr
  · have hl' : (l.natAbs : Int) = -l := by omega
    have hr' : (r.natAbs : Int) = -r := by omega
    rw [hl', hr', Int.neg_tdiv_neg, if_pos (decide_eq_decide.2 (by omega))]
  · have hl' : (l.natAbs : Int) = -l := by omega
    have hr' : (r.natAbs : Int) = r := by omega
    rw [hl', hr', Int.neg_tdiv, neg_neg, if_neg (by rw [decide_eq_decide]; omega)]
  · have hl' : (l.natAbs : Int) = l := by omega
    have hr' : (r.natAbs : Int) = -r := by omega
    rw [hl', hr', Int.tdiv_neg, neg_neg, if_neg (by rw [decide_eq_decide]; omega)]
  · have hl' : (l.natAbs : Int) = l := by omega
    have hr' : (r.natAbs : Int) = r := by omega
    rw [hl', hr', if_pos (decide_eq_decide.2 (by omega))]

/-- The only quotient of two numbers in range that is out of range is that of the least number
and minus one. -/
theorem tdiv_out_of_range_iff {l r : Int} (hl : leastNumber ≤ l ∧ l ≤ greatestNumber)
    (hr : r ≠ 0) :
    ¬ (leastNumber ≤ l.tdiv r ∧ l.tdiv r ≤ greatestNumber) ↔ l = leastNumber ∧ r = -1 := by
  simp only [leastNumber, greatestNumber] at hl ⊢
  rcases eq_or_ne r (-1) with rfl | hr1
  · rw [Int.tdiv_neg, Int.tdiv_one]
    omega
  · -- unless `r` is 1, the magnitude is halved
    have hfits : -2147483648 ≤ l.tdiv r ∧ l.tdiv r ≤ 2147483647 := by
      rcases eq_or_ne r 1 with rfl | hr1'
      · rwa [Int.tdiv_one]
      · have hhalf : (l.tdiv r).natAbs ≤ l.natAbs / 2 := by
          rw [Int.natAbs_tdiv]
          exact Nat.div_le_div_left (by omega) (by decide)
        omega
    omega

/-! ### The four operations -/

namespace Operator

/-- `n` is the exact result of an operation on `l` and `r`. -/
def Exact : Operator → Int → Int → Int → Prop
  | add, l, r, n => n = l + r
  | sub, l, r, n => n = l - r
  | mul, l, r, n => n = l * r
  | div, l, r, n => QuotientTowardZero l r n

end Operator

theorem divide?_eq_none_iff {l r : Int} : divide? l r = none ↔ r = 0 := by
  rcases eq_or_ne r 0 with rfl | hr
  · simp [divide?]
  · simp [divide?_of_ne_zero l hr, hr]

theorem checked_eq_ok_iff {l r n k : Int} {op : Operator} :
    checked l op r n = .ok k ↔ (leastNumber ≤ n ∧ n ≤ greatestNumber) ∧ n = k := by
  rw [checked]
  split <;> simp [*]

theorem checked_eq_error_iff {l r n : Int} {op : Operator} {e : EvalError} :
    checked l op r n = .error e ↔
      ¬ (leastNumber ≤ n ∧ n ≤ greatestNumber) ∧ .overflow l op r = e := by
  rw [checked]
  split <;> simp [*]

/-- An operation that is no division by zero has one exact result, and all that is left to do is
to check its range. -/
theorem exists_calculate_eq_checked {op : Operator} {l r : Int} (h : ¬ (op = .div ∧ r = 0)) :
    ∃ n, (∀ k, op.Exact l r k ↔ k = n) ∧ calculate op l r = checked l op r n := by
  cases op with
  | add => exact ⟨l + r, fun _ => Iff.rfl, rfl⟩
  | sub => exact ⟨l - r, fun _ => Iff.rfl, rfl⟩
  | mul => exact ⟨l * r, fun _ => Iff.rfl, rfl⟩
  | div =>
    have hr : r ≠ 0 := fun hr => h ⟨rfl, hr⟩
    refine ⟨l.tdiv r, fun k => ⟨fun hk => hk.unique hr (quotientTowardZero_tdiv l hr), ?_⟩, ?_⟩
    · rintro rfl
      exact quotientTowardZero_tdiv l hr
    · rw [calculate, divide?_of_ne_zero l hr]

theorem calculate_eq_divisionByZero_iff {op : Operator} {l r : Int} :
    calculate op l r = .error (.divisionByZero l r) ↔ op = .div ∧ r = 0 := by
  constructor
  · intro h
    by_contra hne
    obtain ⟨n, -, hn⟩ := exists_calculate_eq_checked (l := l) hne
    rw [hn, checked_eq_error_iff] at h
    exact absurd h.2 (by simp)
  · rintro ⟨rfl, rfl⟩
    rw [calculate, divide?_eq_none_iff.2 rfl]

theorem calculate_div_eq_overflow_iff {l r : Int}
    (hl : leastNumber ≤ l ∧ l ≤ greatestNumber) :
    calculate .div l r = .error (.overflow l .div r) ↔ l = leastNumber ∧ r = -1 := by
  rcases eq_or_ne r 0 with rfl | hr
  · rw [calculate_eq_divisionByZero_iff.2 ⟨rfl, rfl⟩]
    simp
  · rw [calculate, divide?_of_ne_zero l hr, checked_eq_error_iff, tdiv_out_of_range_iff hl hr]
    simp

/-- **Numbers are calculated exactly, or not at all.**  Division is division toward zero.  An
operation is refused as a division by zero if it is one.  Any other has one exact result, which it
gives if the result is in range, and otherwise it is refused as an overflow.  Among the divisions
of numbers in range, that of the least number by minus one is the only overflow. -/
theorem calculate_exact :
    (∀ l r : Int, r ≠ 0 → ∃ q m, divide? l r = some q ∧
      l = q * r + m ∧ |m| < |r| ∧ (m = 0 ∨ m.sign = l.sign)) ∧
    ∀ (op : Operator) (l r : Int),
      (calculate op l r = .error (.divisionByZero l r) ↔ op = .div ∧ r = 0) ∧
      (¬ (op = .div ∧ r = 0) → ∃ n, (∀ k, op.Exact l r k ↔ k = n) ∧
        (calculate op l r = .error (.overflow l op r) ↔ n < leastNumber ∨ greatestNumber < n) ∧
        (calculate op l r = .ok n ↔ leastNumber ≤ n ∧ n ≤ greatestNumber)) ∧
      (leastNumber ≤ l ∧ l ≤ greatestNumber → leastNumber ≤ r ∧ r ≤ greatestNumber →
        (calculate .div l r = .error (.overflow l .div r) ↔ l = leastNumber ∧ r = -1)) := by
  refine ⟨fun l r hr => ?_, fun op l r => ⟨calculate_eq_divisionByZero_iff, fun h => ?_,
    fun hl _ => calculate_div_eq_overflow_iff hl⟩⟩
  · obtain ⟨m, hm⟩ := quotientTowardZero_tdiv l hr
    exact ⟨l.tdiv r, m, divide?_of_ne_zero l hr, hm⟩
  · obtain ⟨n, hexact, hn⟩ := exists_calculate_eq_checked (l := l) h
    refine ⟨n, hexact, ?_, ?_⟩
    · rw [hn, checked_eq_error_iff]
      simp only [and_true, not_and_or, not_le]
    · rw [hn, checked_eq_ok_iff, and_iff_left rfl]

/-- Minus seven divided by two leaves minus one, and the least number divided by minus one is one
more than the greatest. -/
theorem calculate_exact_at_limit :
    (∃ q m, divide? (-7) 2 = some q ∧ -7 = q * 2 + m ∧ |m| < |(2 : Int)| ∧
      (m = 0 ∨ m.sign = (-7 : Int).sign)) ∧
    (∃ n, (∀ k, Operator.div.Exact leastNumber (-1) k ↔ k = n) ∧
      (calculate .div leastNumber (-1) = .error (.overflow leastNumber .div (-1)) ↔
        n < leastNumber ∨ greatestNumber < n) ∧
      (calculate .div leastNumber (-1) = .ok n ↔ leastNumber ≤ n ∧ n ≤ greatestNumber)) ∧
    calculate .div leastNumber (-1) = .error (.overflow leastNumber .div (-1)) := by
  obtain ⟨hdivide, hcalculate⟩ := calculate_exact
  obtain ⟨-, hresult, hoverflow⟩ := hcalculate .div leastNumber (-1)
  exact ⟨hdivide (-7) 2 (by decide), hresult (by decide),
    (hoverflow (by decide) (by decide)).2 ⟨rfl, rfl⟩⟩

end BlockLang
