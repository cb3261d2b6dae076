import BlockLang.Proofs.Lexer.Spaced
import BlockLang.Proofs.Normal
import BlockLang.Proofs.Parser.Accepted

/-!
# Writing normal trees and reading them back

Normal statements are rendered as the texts of the tokens of a delimited passage, in
which every literal and name is spelled plainly.  With spaces between the texts, the
parser reads the same statements back.
-/

namespace BlockLang

/-- The plain spelling of a literal or a name. -/
def Tree.token? : Tree → Option Token
  | number v => some { kind := .number, text := toString v }
  | text s => some { kind := .string, text := "\"" ++ s ++ "\"" }
  | name x => some (.ofName x)
  | _ => none

mutual

/-- Whether every literal and name of an expression is spelled plainly. -/
@[simp] def Phrase.isPlain : Phrase → Bool
  | .leaf t e _ => e.token? = some t
  | .operation l _ r => l.isPlain && r.isPlain
  | .block body => body.isPlain

/-- Whether every literal and name of a passage is spelled plainly. -/
@[simp] def Passage.isPlain : Passage → Bool
  | .done => true
  | .declaration _ rest => rest.isPlain
  | .initialization _ e rest | .assignment _ e rest | .closed e rest | .bare e rest =>
    e.isPlain && rest.isPlain

end

/-- **Renderings.**  Statements are rendered as the texts of the tokens of a passage, with the signs
between operands, every literal and name spelled plainly, a `;` after every binding and assignment,
and a `;` after an expression except at will where it is no operation or is followed by `let`, by
the closing brace or by the end. -/
def Renders (ts : List Tree) (texts : List String) : Prop :=
  ∃ b : Passage, b.trees = ts ∧ b.isPlain = true ∧ b.delimited = true
    ∧ (b.tokens .between).map Token.text = texts

/-! ### Plain spellings -/

open Lexer Text

theorem isDigit_of_mem_toDigits {c : Char} {n : Nat} (h : c ∈ Nat.toDigits 10 n) :
    isDigit c = true ∧ isBlank c = false := by
  have hdigit : isDigit c = true := Nat.isDigit_of_mem_toDigits (by decide) (by decide) h
  refine ⟨hdigit, ?_⟩
  simp only [isDigit, Bool.and_eq_true, decide_eq_true_eq] at hdigit
  have hlo : 48 ≤ c.toNat := hdigit.1
  have hhi : c.toNat ≤ 57 := hdigit.2
  rw [← Bool.not_eq_true, isBlank, CodeRanges.covers_eq_true_iff increasing_blankRanges]
  rintro ⟨r, hr, h1, h2⟩
  have : ∀ r ∈ blankRanges, r.2 < 48 ∨ 57 < r.1 := by decide
  rcases this r hr with h | h <;> omega

theorem toString_ofNat_int (n : Nat) : toString (n : Int) = String.ofList (Nat.toDigits 10 n) :=
  Nat.toString_eq_ofList_toDigits

theorem numeral_toDigits (n : Nat) : Parser.numeral (String.ofList (Nat.toDigits 10 n)) = n := by
  rw [Parser.numeral, String.toList_ofList, ← Nat.ofDigitChars_eq_foldl,
    Nat.ofDigitChars_ten_toDigits]

theorem stands_toString (n : Nat) : Stands { kind := .number, text := toString (n : Int) } := by
  rw [toString_ofNat_int]
  rcases hds : Nat.toDigits 10 n with _ | ⟨c, cs⟩
  · exact absurd hds Nat.toDigits_ne_nil
  · have hmem : ∀ d ∈ c :: cs, isDigit d = true ∧ isBlank d = false := by
      rw [← hds]
      exact fun d hd => isDigit_of_mem_toDigits hd
    refine stands_number (hmem c List.mem_cons_self).2 (hmem c List.mem_cons_self).1 ?_
    exact List.all_eq_true.2 (fun d hd => (hmem d (List.mem_cons_of_mem c hd)).1)

theorem stands_ofName {x : String} (h : isName x = true) : Stands (.ofName x) := by
  unfold isName at h
  rcases hx : x.toList with _ | ⟨c, cs⟩
  · rw [hx] at h
    exact absurd h Bool.false_ne_true
  · rw [hx] at h
    simp only [Bool.and_eq_true, decide_eq_true_eq] at h
    have hword := stands_word h.1.1 h.1.2
    have hlet : c :: cs ≠ ['l', 'e', 't'] := by
      intro hlet
      rw [hlet] at hx
      exact h.2 (String.toList_injective hx)
    rw [nameKind, if_neg hlet, ← hx, String.ofList_toList] at hword
    exact hword

theorem quoted_eq_ofList (s : String) :
    "\"" ++ s ++ "\"" = String.ofList ('"' :: (s.toList ++ ['"'])) :=
  String.toList_injective (by simp)

theorem stands_of_token? {e : Tree} {t : Token} (ht : e.token? = some t) (he : e.isNormal = true) :
    Stands t := by
  unfold Tree.token? at ht
  split at ht
  case h_1 v =>
    rw [Tree.isNormal, Bool.and_eq_true, decide_eq_true_eq] at he
    obtain ⟨n, rfl⟩ := Int.eq_ofNat_of_zero_le he.1
    rw [← Option.some.inj ht]
    exact stands_toString n
  case h_2 s =>
    rw [Tree.isNormal] at he
    have hquote : '"' ∉ s.toList := by simpa using he
    have hall : s.toList.all isUnquoted = true :=
      List.all_eq_true.2 (fun c hc => decide_eq_true (fun h => hquote (h ▸ hc)))
    rw [← Option.some.inj ht, quoted_eq_ofList]
    exact stands_string hall
  case h_3 x =>
    rw [Tree.isNormal] at he
    rw [← Option.some.inj ht]
    exact stands_ofName he
  case h_4 => exact absurd ht (by simp)

theorem leaf?_of_token? {e : Tree} {t : Token} (ht : e.token? = some t) (he : e.isNormal = true) :
    t.leaf? = some e := by
  unfold Tree.token? at ht
  split at ht
  case h_1 v =>
    rw [Tree.isNormal, Bool.and_eq_true, decide_eq_true_eq, decide_eq_true_eq] at he
    obtain ⟨n, rfl⟩ := Int.eq_ofNat_of_zero_le he.1
    have hn : n < 10 ^ 10 := by
      have := he.2
      unfold greatestNumber at this
      omega
    have hlen := (Nat.length_toDigits_le_iff (b := 10) (by decide) (by decide)).2 hn
    rw [← Option.some.inj ht, toString_ofNat_int]
    have hlen : (String.ofList (Nat.toDigits 10 n)).length ≤ maxDigits := by
      rw [String.length_ofList]
      exact Nat.le_trans hlen (by decide)
    simp only [Token.leaf?, numeral_toDigits, hlen, he.2, and_self, if_true]
  case h_2 s =>
    have hterm : Parser.isTerminated (String.ofList ('"' :: (s.toList ++ ['"']))) = true := by
      rw [Parser.isTerminated, String.length_ofList, String.toList_ofList, List.length_cons,
        List.length_append, ← List.cons_append, List.getLast?_concat]
      simp
    have hunquote : Parser.unquote (String.ofList ('"' :: (s.toList ++ ['"']))) = s := by
      rw [Parser.unquote, String.toList_ofList, List.drop_one, List.tail_cons,
        List.dropLast_concat, String.ofList_toList]
    rw [← Option.some.inj ht, quoted_eq_ofList, Token.leaf?, if_pos hterm, hunquote]
  case h_3 x => rw [← Option.some.inj ht]; rfl
  case h_4 => exact absurd ht (by simp)

/-! ### Every token stands by itself -/

mutual

theorem Phrase.stands_of_mem_tokens {t : Token} : ∀ e : Phrase, e.isPlain = true →
    e.tree.isNormal = true → t ∈ e.tokens .between → Stands t
  | .leaf u e he, hp, hn, h => by
    rw [List.mem_singleton.1 h]
    rw [Phrase.isPlain, decide_eq_true_eq] at hp
    exact stands_of_token? hp hn
  | .operation l op r, hp, hn, h => by
    rw [Phrase.isPlain, Bool.and_eq_true] at hp
    rw [Phrase.tree, Tree.isNormal, Bool.and_eq_true, Bool.and_eq_true] at hn
    rcases List.mem_append.1 h with h | h
    · exact l.stands_of_mem_tokens hp.1 hn.1.2 h
    · rcases List.mem_cons.1 h with rfl | h
      · exact stands_fixed (by cases op <;> rfl)
      · exact r.stands_of_mem_tokens hp.2 hn.2 h
  | .block body, hp, hn, h => by
    rw [Phrase.isPlain] at hp
    rw [Phrase.tree, Tree.isNormal] at hn
    simp only [Phrase.tokens, List.mem_cons, List.mem_append, List.not_mem_nil, or_false] at h
    rcases h with rfl | h | rfl
    · exact stands_fixed rfl
    · exact body.stands_of_mem_tokens hp hn h
    · exact stands_fixed rfl

/-- **Every token of a plain passage of normal trees stands by itself.** -/
theorem Passage.stands_of_mem_tokens {t : Token} : ∀ b : Passage, b.isPlain = true →
    Tree.areNormal b.trees = true → t ∈ b.tokens .between → Stands t
  | .done, _, _, h => absurd h List.not_mem_nil
  | .declaration name rest, hp, hn, h => by
    rw [Passage.isPlain] at hp
    rw [Passage.trees, Tree.areNormal, Tree.isNormal, Bool.and_eq_true] at hn
    simp only [Passage.tokens, List.mem_cons] at h
    rcases h with rfl | rfl | rfl | h
    · exact stands_fixed rfl
    · exact stands_ofName hn.1
    · exact stands_fixed rfl
    · exact rest.stands_of_mem_tokens hp hn.2 h
  | .initialization name e rest, hp, hn, h => by
    rw [Passage.isPlain, Bool.and_eq_true] at hp
    rw [Passage.trees, Tree.areNormal, Tree.isNormal, Bool.and_eq_true, Bool.and_eq_true,
      Bool.and_eq_true] at hn
    simp only [Passage.tokens, List.mem_cons, List.mem_append] at h
    rcases h with rfl | rfl | rfl | h | rfl | h
    · exact stands_fixed rfl
    · exact stands_ofName hn.1.1.1
    · exact stands_fixed rfl
    · exact e.stands_of_mem_tokens hp.1 hn.1.2 h
    · exact stands_fixed rfl
    · exact rest.stands_of_mem_tokens hp.2 hn.2 h
  | .assignment name e rest, hp, hn, h => by
    rw [Passage.isPlain, Bool.and_eq_true] at hp
    rw [Passage.trees, Tree.areNormal, Tree.isNormal, Bool.and_eq_true, Bool.and_eq_true,
      Bool.and_eq_true] at hn
    simp only [Passage.tokens, List.mem_cons, List.mem_append] at h
    rcases h with rfl | rfl | h | rfl | h
    · exact stands_ofName hn.1.1.1
    · exact stands_fixed rfl
    · exact e.stands_of_mem_tokens hp.1 hn.1.2 h
    · exact stands_fixed rfl
    · exact rest.stands_of_mem_tokens hp.2 hn.2 h
  | .closed e rest, hp, hn, h => by
    rw [Passage.isPlain, Bool.and_eq_true] at hp
    rw [Passage.trees, Tree.areNormal, Bool.and_eq_true] at hn
    simp only [Passage.tokens, List.mem_cons, List.mem_append] at h
    rcases h with h | rfl | h
    · exact e.stands_of_mem_tokens hp.1 hn.1 h
    · exact stands_fixed rfl
    · exact rest.stands_of_mem_tokens hp.2 hn.2 h
  | .bare e rest, hp, hn, h => by
    rw [Passage.isPlain, Bool.and_eq_true] at hp
    rw [Passage.trees, Tree.areNormal, Bool.and_eq_true] at hn
    rcases List.mem_append.1 h with h | h
    · exact e.stands_of_mem_tokens hp.1 hn.1 h
    · exact rest.stands_of_mem_tokens hp.2 hn.2 h

end

/-! ### Rendering and reading -/

mutual

theorem Tree.exists_phrase : ∀ t : Tree, t.isNormal = true → t.isExpression = true →
    ∃ e : Phrase, e.tree = t ∧ e.isPlain = true ∧ e.delimited = true
  | .number v, hn, _ =>
    ⟨.leaf _ (.number v) (leaf?_of_token? rfl hn), rfl, by simp [Phrase.isPlain, Tree.token?], rfl⟩
  | .text v, hn, _ =>
    ⟨.leaf _ (.text v) (leaf?_of_token? rfl hn), rfl, by simp [Phrase.isPlain, Tree.token?], rfl⟩
  | .name x, hn, _ =>
    ⟨.leaf _ (.name x) (leaf?_of_token? rfl hn), rfl, by simp [Phrase.isPlain, Tree.token?], rfl⟩
  | .operation l r op, hn, _ => by
    rw [Tree.isNormal] at hn
    simp only [Bool.and_eq_true] at hn
    obtain ⟨⟨⟨⟨⟨hl, hr⟩, -⟩, -⟩, hln⟩, hrn⟩ := hn
    obtain ⟨el, hel, hlplain, hldel⟩ := l.exists_phrase hln hl
    obtain ⟨er, her, hrplain, hrdel⟩ := r.exists_phrase hrn hr
    refine ⟨.operation el op er, by rw [Phrase.tree, hel, her], ?_, ?_⟩
    · rw [Phrase.isPlain, hlplain, hrplain]; rfl
    · rw [Phrase.delimited, hldel, hrdel]; rfl
  | .block stmts, hn, _ => by
    rw [Tree.isNormal] at hn
    obtain ⟨b, hb, hplain, hdel⟩ := Tree.exists_passage stmts hn
    exact ⟨.block b, by rw [Phrase.tree, hb], by rw [Phrase.isPlain, hplain],
      by rw [Phrase.delimited, hdel]⟩
  | .declaration _, _, h => absurd h Bool.false_ne_true
  | .initialization .., _, h => absurd h Bool.false_ne_true
  | .assignment .., _, h => absurd h Bool.false_ne_true
  | .foreign _, _, h => absurd h Bool.false_ne_true

/-- **Normal statements can be written.** -/
theorem Tree.exists_passage : ∀ ts : List Tree, Tree.areNormal ts = true →
    ∃ b : Passage, b.trees = ts ∧ b.isPlain = true ∧ b.delimited = true
  | [], _ => ⟨.done, rfl, rfl, rfl⟩
  | t :: ts, hn => by
    rw [Tree.areNormal, Bool.and_eq_true] at hn
    obtain ⟨b, hb, hplain, hdel⟩ := Tree.exists_passage ts hn.2
    have hexpr : t.isExpression = true →
        ∃ b : Passage, b.trees = t :: ts ∧ b.isPlain = true ∧ b.delimited = true := by
      intro ht
      obtain ⟨e, he, heplain, hedel⟩ := t.exists_phrase hn.1 ht
      exact ⟨.closed e b, by rw [Passage.trees, he, hb],
        by rw [Passage.isPlain, heplain, hplain]; rfl,
        by rw [Passage.delimited, hedel, hdel]; rfl⟩
    cases t with
    | number | text | name | operation | block => exact hexpr rfl
    | declaration x =>
      exact ⟨.declaration x b, by rw [Passage.trees, hb], by rw [Passage.isPlain, hplain],
        by rw [Passage.delimited, hdel]⟩
    | initialization x v =>
      rw [Tree.isNormal, Bool.and_eq_true, Bool.and_eq_true] at hn
      obtain ⟨e, he, heplain, hedel⟩ := v.exists_phrase hn.1.2 hn.1.1.2
      exact ⟨.initialization x e b, by rw [Passage.trees, he, hb],
        by rw [Passage.isPlain, heplain, hplain]; rfl,
        by rw [Passage.delimited, hedel, hdel]; rfl⟩
    | assignment x v =>
      rw [Tree.isNormal, Bool.and_eq_true, Bool.and_eq_true] at hn
      obtain ⟨e, he, heplain, hedel⟩ := v.exists_phrase hn.1.2 hn.1.1.2
      exact ⟨.assignment x e b, by rw [Passage.trees, he, hb],
        by rw [Passage.isPlain, heplain, hplain]; rfl,
        by rw [Passage.delimited, hedel, hdel]; rfl⟩
    | «foreign» => exact absurd hn.1 (by rw [Tree.isNormal]; exact Bool.false_ne_true)

end

theorem significantTokens_intercalate {ts : List Token} (h : ∀ t ∈ ts, Stands t) :
    significantTokens (" ".intercalate (ts.map Token.text)) = ts := by
  rw [significantTokens_eq, filter_tokens_intercalate ts h]

/-- **Round trip.**  Normal statements have a rendering, and every rendering of them, with spaces
between its texts, is read back as the same statements where operations group by precedence. -/
theorem parseProgram_of_renders {ts : List Tree} (h : Tree.areNormal ts = true) :
    (∃ texts, Renders ts texts) ∧ ∀ texts, Renders ts texts →
      parseProgram (" ".intercalate texts) .byPrecedence = .ok ts := by
  refine ⟨?_, ?_⟩
  · obtain ⟨b, hb, hplain, hdel⟩ := Tree.exists_passage ts h
    exact ⟨_, b, hb, hplain, hdel, rfl⟩
  · rintro texts ⟨b, rfl, hplain, hdel, rfl⟩
    have htokens := significantTokens_intercalate (fun t => b.stands_of_mem_tokens hplain h)
    rw [parseProgram_byPrecedence_of_tokens htokens.symm (Passage.stranded_of_delimited hdel),
      b.trees_regroup_of_areNormal h hdel]

/-- `let a = { x x = "s"; 1 + 20 * y } - 3; 0 _b / 4`: a block as an operand, statements without `;`
in it, and both ranks. -/
theorem parseProgram_of_renders_nested :
    Tree.areNormal
        [.initialization "a" (.operation (.block [.name "x", .assignment "x" (.text "s"),
            .operation (.number 1) (.operation (.number 20) (.name "y") .mul) .add]) (.number 3) .sub),
          .number 0, .operation (.name "_b") (.number 4) .div] = true
      ∧ parseProgram (" ".intercalate ["let", "a", "=", "\x7b", "x", "x", "=", "\"s\"", ";", "1", "+",
            "20", "*", "y", "\x7d", "-", "3", ";", "0", "_b", "/", "4"]) .byPrecedence
        = .ok [.initialization "a" (.operation (.block [.name "x", .assignment "x" (.text "s"),
            .operation (.number 1) (.operation (.number 20) (.name "y") .mul) .add]) (.number 3) .sub),
          .number 0, .operation (.name "_b") (.number 4) .div] := by
  let b : Passage :=
    .initialization "a" (.operation (.block
        (.bare (.leaf (.of .ident "x") (.name "x") rfl)
          (.assignment "x" (.leaf (.of .string "\"s\"") (.text "s") rfl)
            (.bare (.operation (.leaf (.of .number "1") (.number 1) rfl) .add
              (.operation (.leaf (.of .number "20") (.number 20) rfl) .mul
                (.leaf (.of .ident "y") (.name "y") rfl))) .done))))
        .sub (.leaf (.of .number "3") (.number 3) rfl))
      (.bare (.leaf (.of .number "0") (.number 0) rfl)
        (.bare (.operation (.leaf (.of .ident "_b") (.name "_b") rfl) .div
          (.leaf (.of .number "4") (.number 4) rfl)) .done))
  have h : Tree.areNormal b.trees = true := by decide
  exact ⟨h, (parseProgram_of_renders h).2 _ ⟨b, rfl, by decide, rfl, rfl⟩⟩

end BlockLang
