import BlockLang.Proofs.Lexer.Braces
import BlockLang.Proofs.Parser.Accepted
import BlockLang.Proofs.Resolver.Depth
import BlockLang.Session.Chunk

/-!
# Accepted sources leave no brace open

Whether a chunk is finished is decided by counting braces, and what it says is found by the
parser.  The two agree on every source that is accepted: what is written as a passage ends
at the depth at which it began, the resolver keeps the depth, and the balance of the braces
is how much the depth rises, so long as it stays above zero.  So a chunk that needs another
line is no program yet.
-/

namespace BlockLang

variable {source : String} {g : Grouping} {ts : List Tree}

/-- Above depth zero a token deepens by its weight. -/
theorem Token.deepen_eq_add_weight {t : Token} (ht : t.kind ≠ .eof) {n : Nat} (hn : 0 < n) :
    (t.deepen n : Int) = n + t.kind.weight := by
  unfold Token.deepen
  rcases hk : t.kind
  case openBrace => exact Int.natCast_succ n
  case closeBrace => exact Int.natCast_pred_of_pos hn
  case eof => exact absurd hk ht
  all_goals exact (Int.add_zero _).symm

/-- **Far enough from depth zero**, tokens deepen by their balance. -/
theorem depthFrom_eq_add_balance {toks : List Token} (htoks : ∀ t ∈ toks, t.kind ≠ .eof) {n : Nat}
    (hn : toks.length ≤ n) : (depthFrom n toks : Int) = n + balance toks := by
  induction toks generalizing n with
  | nil => exact (Int.add_zero _).symm
  | cons t toks ih =>
    obtain ⟨ht, htoks⟩ := List.forall_mem_cons.1 htoks
    rw [List.length_cons] at hn
    have hdeepen := Token.deepen_eq_add_weight ht (Nat.zero_lt_of_lt hn)
    have hweight : -1 ≤ t.kind.weight := by cases t.kind <;> decide
    rw [depthFrom_cons, ih htoks (by omega), hdeepen, balance_cons, Int.add_assoc]

/-- **The braces of an accepted source are matched**: from any depth, it ends where it began. -/
theorem depthFrom_of_parseProgram (h : parseProgram source g = .ok ts) (n : Nat) :
    depthFrom n (significantTokens source) = n := by
  cases g with
  | rightward =>
    obtain ⟨b, -, hb, -⟩ := parseProgram_rightward_iff.1 h
    rw [← hb, b.depthFrom_tokens]
  | byPrecedence =>
    obtain ⟨b, -, hb⟩ := parseProgram_byPrecedence_iff.1 h
    rw [← depthFrom_resolve, ← hb, b.depthFrom_tokens]

theorem openBraces_eq_zero (h : parseProgram source g = .ok ts) : openBraces source = 0 := by
  have heof : ∀ t ∈ significantTokens source, t.kind ≠ .eof :=
    fun t => kind_ne_eof_of_mem_significantTokens
  have hbalance := depthFrom_eq_add_balance heof (Nat.le_refl _)
  rw [depthFrom_of_parseProgram h] at hbalance
  rw [openBraces_eq_balance, ← balance_filter, ← significantTokens_eq]
  omega

theorem Chunk.needsMore_readLine (line : String) :
    needsMore (readLine line).1 = (readLine line).2 := by
  rw [readLine]

theorem ne_ok_of_needsMore (h : Chunk.needsMore source = true) (g : Grouping) (ts : List Tree) :
    parseProgram source g ≠ .ok ts := by
  intro hok
  have hopen : 0 < openBraces source := of_decide_eq_true h
  rw [openBraces_eq_zero hok] at hopen
  exact Int.lt_irrefl 0 hopen

/-- **An accepted source leaves no brace open.**  So a line that asks for another one, by itself or
behind the chunk that it belongs to, is refused as it stands. -/
theorem parseProgram_leaves_none_open :
    (∀ source g ts, parseProgram source g = .ok ts → openBraces source = 0)
      ∧ (∀ line, (Chunk.readLine line).2 = true →
        ∀ g ts, parseProgram (Chunk.readLine line).1 g ≠ .ok ts)
      ∧ ∀ chunks continues line num,
        Chunk.needsMore (Chunk.addLine chunks continues line num).1 = true →
          ∀ g ts, parseProgram (Chunk.addLine chunks continues line num).1 g ≠ .ok ts :=
  ⟨fun _ _ _ => openBraces_eq_zero,
    fun line h => ne_ok_of_needsMore ((Chunk.needsMore_readLine line).trans h),
    fun _ _ _ _ => ne_ok_of_needsMore⟩

/-- `{ "}" }`, with a brace in a string, and the same text without the end of the string. -/
theorem parseProgram_leaves_none_open_quoted :
    openBraces "\x7b \"\x7d\" \x7d" = 0
      ∧ (∀ g ts, parseProgram "\x7b \"\x7d" g ≠ .ok ts)
      ∧ ∀ g ts, parseProgram "\x7b \"\x7d\n \x7d" g ≠ .ok ts := by
  obtain ⟨hnone, halone, hbehind⟩ := parseProgram_leaves_none_open
  let b : Passage :=
    .bare (.block (.bare (.leaf (.of .string "\"\x7d\"") (.text "\x7d") rfl) .done)) .done
  have hb : b.tokens .between = significantTokens "\x7b \"\x7d\" \x7d" := by decide +kernel
  refine ⟨hnone _ .rightward _ (parseProgram_rightward_iff.2 ⟨b, rfl, hb, rfl⟩), ?_, ?_⟩
  · exact halone "\x7b \"\x7d  " (by decide +kernel)
  · exact hbehind [⟨"\x7b \"\x7d", 1⟩] true " \x7d" 2 (by decide +kernel)

end BlockLang
