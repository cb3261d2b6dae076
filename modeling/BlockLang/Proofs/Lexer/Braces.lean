import BlockLang.Proofs.Stream
import Mathlib

/-!
# The balance of braces

The braces that a text leaves open are counted by its tokens, each with a weight of its
kind.  Blanks have no weight.
-/

namespace BlockLang

/-- What a token of a kind adds to the open braces. -/
def TokenKind.weight : TokenKind → Int
  | openBrace => 1
  | closeBrace => -1
  | _ => 0

/-- The open braces after tokens. -/
def balance (ts : List Token) : Int :=
  (ts.map (fun t => t.kind.weight)).sum

theorem balance_cons (t : Token) (ts : List Token) :
    balance (t :: ts) = t.kind.weight + balance ts := by
  rw [balance, List.map_cons, List.sum_cons, balance]

theorem balance_append (ts us : List Token) : balance (ts ++ us) = balance ts + balance us := by
  rw [balance, List.map_append, List.sum_append, balance, balance]

theorem balance_filter (ts : List Token) : balance (ts.filter Token.counts) = balance ts := by
  induction ts with
  | nil => rfl
  | cons t ts ih =>
    rw [balance_cons]
    by_cases h : t.counts = true
    · rw [List.filter_cons_of_pos h, balance_cons, ih]
    · have hkind : t.kind = .whitespace := by simpa [Token.counts, Token.isWhitespace] using h
      have hweight : t.kind.weight = 0 := by rw [hkind]; rfl
      rw [List.filter_cons_of_neg h, ih, hweight, Int.zero_add]

/-- **The open braces of a text** are the balance of its tokens. -/
theorem openBraces_eq_balance (source : String) :
    openBraces source = balance (Lexer.tokens source.toList) := by
  have hfold : ∀ (ts : List Token) (n : Int), ts.foldl (fun n t =>
      match t.kind with
      | .openBrace => n + 1
      | .closeBrace => n - 1
      | _ => n) n = n + balance ts := by
    intro ts
    induction ts with
    | nil => intro n; exact (Int.add_zero n).symm
    | cons t ts ih =>
      intro n
      rw [List.foldl_cons, ih, balance_cons, ← Int.add_assoc]
      congr 1
      cases t.kind <;> simp [TokenKind.weight, Int.sub_eq_add_neg]
  calc openBraces source
    _ = 0 + balance (tokenize source) := hfold (tokenize source) 0
    _ = balance (Lexer.tokens source.toList) + 0 := by
      rw [Int.zero_add, tokenize_eq, balance, List.map_append, List.sum_append]
      rfl
    _ = balance (Lexer.tokens source.toList) := Int.add_zero _

end BlockLang
