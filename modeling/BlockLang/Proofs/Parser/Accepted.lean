import BlockLang.Proofs.Parser.Complete
import BlockLang.Proofs.Parser.Sound
import BlockLang.Proofs.Resolved

/-!
# The sources that are accepted

Soundness and completeness meet here: a source is accepted as `ts` if and only if its
tokens, or what the resolver makes of them, are those of a passage with the trees `ts`.
-/

namespace BlockLang

/-- The tokens of a source, less the blanks and the end mark. -/
def significantTokens (source : String) : List Token :=
  (tokenize source).filter (fun t => t.counts && t.kind ≠ .eof)

theorem filter_counts_tokenize (source : String) :
    (tokenize source).filter Token.counts = significantTokens source ++ [.endMark] := by
  have heof : ∀ t ∈ Lexer.tokens source.toList, t.kind ≠ .eof :=
    Lexer.forall_mem_tokens Lexer.kind_cut_ne_eof _
  have hsame : (Lexer.tokens source.toList).filter (fun t => t.counts && t.kind ≠ .eof)
      = (Lexer.tokens source.toList).filter Token.counts :=
    List.filter_congr (fun t ht => by simp [heof t ht])
  have hmark : ([.endMark] : List Token).filter (fun t => t.counts && t.kind ≠ .eof) = [] := rfl
  rw [significantTokens, tokenize_eq, List.filter_append, List.filter_append, hsame, hmark,
    List.append_nil]
  rfl

theorem significantTokens_eq (source : String) :
    significantTokens source = (Lexer.tokens source.toList).filter Token.counts := by
  have h := filter_counts_tokenize source
  rw [tokenize_eq, List.filter_append] at h
  exact (List.append_cancel_right h).symm

theorem kind_ne_eof_of_mem_significantTokens {source : String} {t : Token}
    (h : t ∈ significantTokens source) : t.kind ≠ .eof := by
  have := (List.mem_filter.1 h).2
  simp only [Bool.and_eq_true, decide_eq_true_eq] at this
  exact this.2

/-- What a source is parsed as is what the program parser ends with. -/
theorem exists_runFrom_program {source : String} {g : Grouping} {r : Except Fault (List Tree)}
    (h : parseProgram source g = r) :
    ∃ c, StepM.runFrom Parser.program (.ofSource source g) = (r, c) :=
  StepM.exists_runFrom h

theorem exists_runFrom_statement {source : String} {g : Grouping} {r : Except Fault Tree}
    (h : parse source g = r) :
    ∃ c, StepM.runFrom Parser.statement (.ofSource source g) = (r, c) :=
  StepM.exists_runFrom h

theorem parse_of_gives {source : String} {g : Grouping} {t : Tree} {rest : List Token}
    (h : Parser.Gives Parser.statement (.ofSource source g) t rest) : parse source g = .ok t := by
  obtain ⟨_, _, hrun, rfl, -⟩ := h.exists_ok
  rw [parse, hrun]

theorem fit_ofSource (source : String) (g : Grouping) : (TokenStream.ofSource source g).Fit := by
  refine ⟨TokenStream.sound_ofSource source g, ?_, ?_⟩
  · cases g with
    | byPrecedence => exact Nat.le_of_eq (resolve_perm _).length_eq
    | rightward => exact Nat.le_refl _
  · intro t ht
    cases g with
    | byPrecedence => exact proper_of_mem_tokenize ((resolve_perm _).mem_iff.1 ht)
    | rightward => exact proper_of_mem_tokenize ht

theorem ahead_ofSource_rightward (source : String) :
    (TokenStream.ofSource source .rightward).ahead = significantTokens source ++ [.endMark] :=
  filter_counts_tokenize source

theorem ahead_ofSource_byPrecedence (source : String) :
    (TokenStream.ofSource source .byPrecedence).ahead
      = resolve (significantTokens source) ++ [.endMark] := by
  calc (TokenStream.ofSource source .byPrecedence).ahead
      = (resolve (tokenize source)).filter Token.counts := rfl
    _ = resolve (significantTokens source ++ [.endMark]) := by
        rw [filter_resolve, filter_counts_tokenize]
    _ = resolve (significantTokens source) ++ [.endMark] := resolve_endMark _

theorem Passage.kind_ne_eof {p : Placement} {t : Token} (b : Passage) (h : t ∈ b.tokens p) :
    t.kind ≠ .eof := by
  refine b.forall_mem_tokens (P := fun t => t.kind ≠ .eof) (fun t e he hk => ?_)
    (fun k hk => ?_) t h
  · simp [Token.leaf?, hk] at he
  · rintro rfl
    exact Bool.false_ne_true hk

/-- A list that ends with the only end mark is cut right in front of it. -/
theorem eq_of_append_endMark {l toks rest : List Token} (hl : ∀ t ∈ l, t.kind ≠ .eof)
    (htoks : ∀ t ∈ toks, t.kind ≠ .eof) (hrest : ∀ t, rest.head? = some t → t.kind = .eof)
    (h : l ++ [.endMark] = toks ++ rest) : toks = l := by
  rcases List.eq_nil_or_concat rest with rfl | ⟨rest, t, rfl⟩
  · rw [List.append_nil] at h
    exact absurd rfl (htoks .endMark (by rw [← h]; simp))
  · rw [List.concat_eq_append, ← List.append_assoc] at h
    obtain ⟨h, ht⟩ := List.append_inj' h rfl
    cases rest with
    | nil => rw [h, List.append_nil]
    | cons u rest =>
      have hu : u ∈ l := by rw [h]; simp
      exact absurd (hrest u rfl) (hl u hu)

/-- **A source is accepted if and only if a passage has its tokens**, as far as the stream's
grouping asks. -/
theorem parseProgram_eq_ok_iff {source : String} {g : Grouping} {toks : List Token} {ts : List Tree}
    (hahead : (TokenStream.ofSource source g).ahead = toks ++ [.endMark])
    (htoks : ∀ t ∈ toks, t.kind ≠ .eof) :
    parseProgram source g = .ok ts ↔ ∃ b : Passage, b.trees = ts ∧ b.tokens g.placement = toks
      ∧ (g = .rightward → b.nestsRight = true) := by
  constructor
  · intro h
    obtain ⟨b, rest, htrees, hb, hrest, hnests⟩ :=
      exists_passage_of_parseProgram (fit_ofSource source g) h
    rw [hahead] at hb
    exact ⟨b, htrees, eq_of_append_endMark htoks (fun t => b.kind_ne_eof) hrest hb, hnests⟩
  · rintro ⟨b, rfl, rfl, hnests⟩
    exact parseProgram_of_passage (fit_ofSource source g) hahead hnests

theorem parseProgram_rightward_iff {source : String} {ts : List Tree} :
    parseProgram source .rightward = .ok ts ↔ ∃ b : Passage, b.trees = ts
      ∧ b.tokens .between = significantTokens source ∧ b.nestsRight = true := by
  rw [parseProgram_eq_ok_iff (ahead_ofSource_rightward source)
    (fun _ => kind_ne_eof_of_mem_significantTokens)]
  simp only [forall_const]
  rfl

theorem parseProgram_byPrecedence_iff {source : String} {ts : List Tree} :
    parseProgram source .byPrecedence = .ok ts
      ↔ WrittenAs .behind ts (resolve (significantTokens source)) := by
  rw [parseProgram_eq_ok_iff (ahead_ofSource_byPrecedence source)
    (fun t ht => kind_ne_eof_of_mem_significantTokens ((resolve_perm _).mem_iff.1 ht))]
  simp only [reduceCtorEq, false_implies, and_true]
  rfl

/-- **A source without stranded operators** is accepted as its statements regrouped. -/
theorem parseProgram_byPrecedence_of_tokens {source : String} {b : Passage}
    (hb : b.tokens .between = significantTokens source) (h : b.stranded = false) :
    parseProgram source .byPrecedence = .ok b.regroup.trees :=
  parseProgram_byPrecedence_iff.2 ⟨b.regroup, rfl, by rw [← hb, resolve_tokens h]⟩

/-- **A source with a stranded operator** is refused. -/
theorem parseProgram_byPrecedence_ne_ok {source : String} {b : Passage}
    (hb : b.tokens .between = significantTokens source) (h : b.stranded = true) (ts : List Tree) :
    parseProgram source .byPrecedence ≠ .ok ts := by
  intro hok
  obtain ⟨b', -, hb'⟩ := parseProgram_byPrecedence_iff.1 hok
  rw [← hb] at hb'
  exact tokens_ne_resolve_of_stranded h b' .behind hb'

end BlockLang
