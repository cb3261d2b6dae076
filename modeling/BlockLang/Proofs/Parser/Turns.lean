import BlockLang.Proofs.Parser.Accepted

/-!
# The share of each statement

The loop over the statements of a program calls the statement parser once a turn.  What
a call takes lies between the place where it started and the place where it stopped, and
this stretch of the stream is the statement's share.  The shares stand end to end,

    tokens = share₁ ++ share₂ ++ … ++ blanks ++ [end mark],

and each of them, less its blanks, is the writing of its own statement.  The parser may
well read on beyond a statement, over whole blocks, and go back: the share ends at the
place to which it goes back.
-/

namespace BlockLang

open StepM

namespace Parser

/-- **One turn** of the loop over statements: where the statement parser started, the statement that
it gave, and where it stopped. -/
structure Turn where
  start : Nat
  tree : Tree
  stop : Nat

/-- The tokens of a turn, of all tokens of the stream. -/
def Turn.share (all : List Token) (turn : Turn) : List Token :=
  (all.drop turn.start).take (turn.stop - turn.start)

/-- **The turns of the loop** from one cursor to another: it stops at the end of the input, and else
runs the statement parser with no failures recorded. -/
inductive Turns : Cursor → List Turn → Cursor → Prop
  | done {c c' : Cursor} (hend : runFrom atEnd c = (.ok true, c')) : Turns c [] c'
  | next {c c₁ c₂ c' : Cursor} {t : Tree} {turns : List Turn}
      (hend : runFrom atEnd c = (.ok false, c₁))
      (hrun : runFrom statement { c₁ with failures := [] } = (.ok t, c₂))
      (hrest : Turns c₂ turns c') :
      Turns c (⟨c₁.stream.pos, t, c₂.stream.pos⟩ :: turns) c'

theorem exists_turns_of_statements (fuel : Nat) {c c' : Cursor} {ts : List Tree}
    (h : runFrom (statements fuel) c = (.ok ts, c')) :
    ∃ turns, Turns c turns c' ∧ turns.map Turn.tree = ts := by
  induction fuel generalizing c ts with
  | zero => exact absurd h (by simp [statements])
  | succ fuel ih =>
    rw [statements, runFrom_bind] at h
    rcases hend : runFrom atEnd c with ⟨_ | b, c₁⟩
    · rw [hend] at h
      exact absurd h (by simp)
    · rw [hend] at h
      cases b with
      | true =>
        obtain ⟨rfl, rfl⟩ : [] = ts ∧ c₁ = c' := by simpa using h
        exact ⟨[], .done hend, rfl⟩
      | false =>
        simp only [Bool.false_eq_true, if_false, runFrom_bind, runFrom_modify] at h
        rcases hrun : runFrom statement { c₁ with failures := [] } with ⟨_ | t, c₂⟩
        · rw [hrun] at h
          exact absurd h (by simp)
        · rw [hrun] at h
          simp only at h
          rcases hrest : runFrom (statements fuel) c₂ with ⟨_ | ts', c₃⟩
          · rw [hrest] at h
            exact absurd h (by simp)
          · rw [hrest] at h
            obtain ⟨rfl, rfl⟩ : t :: ts' = ts ∧ c₃ = c' := by simpa using h
            obtain ⟨turns, hturns, htrees⟩ := ih hrest
            exact ⟨_, .next hend hrun hturns, congrArg (t :: ·) htrees⟩

theorem exists_turns_of_program {c c' : Cursor} {ts : List Tree}
    (h : runFrom program c = (.ok ts, c')) :
    ∃ turns, Turns c turns c' ∧ turns.map Turn.tree = ts := by
  have hcapacity : runFrom capacity c = (.ok c.stream.capacity, c) := rfl
  rw [program, runFrom_bind, hcapacity] at h
  exact exists_turns_of_statements _ h

/-- **A turn takes its statement**: its share is not empty, has no end mark and is the writing of
the statement. -/
structure Turn.Takes (p : Placement) (all : List Token) (turn : Turn) : Prop where
  start_lt : turn.start < turn.stop
  written : WrittenAs p [turn.tree] ((turn.share all).filter Token.counts)
  kind_ne_eof : ∀ t ∈ turn.share all, t.kind ≠ .eof

/-- **What stands between two places.**  If the counting tokens from one place on are some tokens
and those from another place on, then the other place lies behind, and these tokens stand
between. -/
theorem filter_between {all toks : List Token} {i j : Nat} (hne : toks ≠ [])
    (h : (all.drop i).filter Token.counts = toks ++ (all.drop j).filter Token.counts) :
    i < j ∧ ((all.drop i).take (j - i)).filter Token.counts = toks
      ∧ all.drop i = (all.drop i).take (j - i) ++ all.drop j := by
  have hlt : i < j := by
    by_contra hle
    have hdrop : all.drop i = (all.drop j).drop (i - j) := by
      rw [List.drop_drop]
      congr 1
      omega
    have hlen := congrArg List.length h
    have hsub := ((List.drop_sublist (i - j) (all.drop j)).filter Token.counts).length_le
    have hpos := List.length_pos_iff.2 hne
    rw [← hdrop] at hsub
    rw [List.length_append] at hlen
    omega
  have hsplit : all.drop i = (all.drop i).take (j - i) ++ all.drop j := by
    have hdrop : all.drop j = (all.drop i).drop (j - i) := by
      rw [List.drop_drop]
      congr 1
      omega
    rw [hdrop, List.take_append_drop]
  refine ⟨hlt, ?_, hsplit⟩
  rw [hsplit, List.filter_append] at h
  exact List.append_cancel_right h

/-- **The turns of a run** take their statements, one after the other, up to the end mark. -/
theorem Turns.takes {c c' : Cursor} {turns : List Turn} (h : Turns c turns c') (hc : c.Fit) :
    (∀ turn ∈ turns, turn.Takes c.grouping.placement c.stream.all)
      ∧ c.stream.all.drop c.stream.pos
        = (turns.map (Turn.share c.stream.all)).flatten ++ c.stream.all.drop c'.stream.pos
      ∧ c.Along c' ∧ ∀ t, c'.ahead.head? = some t → t.kind = .eof := by
  induction h with
  | @done c c' hend =>
    obtain ⟨hhead, hstay⟩ := (ends_atEnd hc).of_ok hend
    refine ⟨fun turn hturn => absurd hturn List.not_mem_nil, ?_, hstay.toAlong, fun t ht => ?_⟩
    · rw [hstay.pos_eq]
      rfl
    · rw [hstay.ahead_eq] at ht
      rw [ht] at hhead
      simpa using hhead.symm
  | @next c c₁ c₂ c' t turns hend hrun hrest ih =>
    have hstay := ((ends_atEnd hc).of_ok hend).2
    have hstart : c.Stays { c₁ with failures := [] } :=
      ⟨⟨hstay.stream, hstay.grouping_eq⟩, hstay.pos_eq⟩
    have hread := hstart.readStatements ((ends_statement _ (hstart.fit hc)).of_ok hrun)
    obtain ⟨halong, b, htrees, hahead, -⟩ := hread
    have hall := halong.stream.all_eq
    obtain ⟨htakes, hsplit, halong', hend'⟩ := ih (halong.fit hc)
    rw [halong.grouping_eq, hall] at htakes
    rw [hall] at hsplit
    simp only [Cursor.ahead, TokenStream.ahead, TokenStream.aheadAt, hall] at hahead
    rw [← hstay.pos_eq] at hahead ⊢
    obtain ⟨hlt, hshare, hbetween⟩ := filter_between (Passage.tokens_ne_nil htrees) hahead
    refine ⟨fun turn hturn => ?_, ?_, halong.trans halong', hend'⟩
    · rcases List.mem_cons.1 hturn with rfl | hturn
      · refine ⟨hlt, ⟨b, htrees, hshare.symm⟩, fun u hu hk => ?_⟩
        have hcounts : u.counts = true := by simp [Token.counts, Token.isWhitespace, hk]
        have hmem : u ∈ b.tokens c.grouping.placement := by
          rw [← hshare]
          exact List.mem_filter.2 ⟨hu, hcounts⟩
        exact b.kind_ne_eof hmem hk
      · exact htakes turn hturn
    · rw [List.map_cons, List.flatten_cons, List.append_assoc, ← hsplit]
      exact hbetween

end Parser

/-- **Nothing of the resolved stream is lost or invented.**  If a source is accepted as `ts`, then
`ts` is written, with the signs behind, in what comes out of the resolver, less the blanks and the
end mark.  And the turns of the loop give `ts`: each takes the writing of its statement, at least
one token and never the end mark, and the shares stand end to end, with only blanks and the end
mark behind the last. -/
theorem parseProgram_byPrecedence_shares {source : String} {ts : List Tree}
    (h : parseProgram source .byPrecedence = .ok ts) :
    (∃ toks, (resolve (tokenize source)).filter Token.counts = toks ++ [.endMark]
        ∧ WrittenAs .behind ts toks)
      ∧ ∃ turns c' rest, Parser.Turns (.ofSource source .byPrecedence) turns c'
        ∧ turns.map Parser.Turn.tree = ts
        ∧ (∀ turn ∈ turns, turn.Takes .behind (resolve (tokenize source)))
        ∧ resolve (tokenize source)
          = (turns.map (Parser.Turn.share (resolve (tokenize source)))).flatten ++ rest
        ∧ rest.filter Token.counts = [.endMark] := by
  have hahead := ahead_ofSource_byPrecedence source
  have hwritten := parseProgram_byPrecedence_iff.1 h
  refine ⟨⟨_, hahead, hwritten⟩, ?_⟩
  obtain ⟨c', hrun⟩ := exists_runFrom_program h
  obtain ⟨turns, hturns, htrees⟩ := Parser.exists_turns_of_program hrun
  obtain ⟨htakes, hsplit, halong, hend⟩ := hturns.takes (fit_ofSource source .byPrecedence)
  have hall : (Cursor.ofSource source .byPrecedence).stream.all = resolve (tokenize source) := rfl
  rw [hall] at htakes hsplit
  have hrest : ((resolve (tokenize source)).drop c'.stream.pos).filter Token.counts = c'.ahead := by
    rw [← hall, ← halong.stream.all_eq]
    rfl
  refine ⟨turns, c', _, hturns, htrees, htakes, hsplit, ?_⟩
  have hparts := congrArg (List.filter Token.counts) hsplit
  rw [List.filter_append, hrest] at hparts
  -- the only end mark stands last, so the shares are all that stands in front of it
  have hshares : ((turns.map (Parser.Turn.share (resolve (tokenize source)))).flatten).filter
      Token.counts = resolve (significantTokens source) := by
    refine eq_of_append_endMark ?_ ?_ hend (hahead.symm.trans hparts)
    · exact fun t ht => kind_ne_eof_of_mem_significantTokens ((resolve_perm _).mem_iff.1 ht)
    · intro t ht
      obtain ⟨share, hshare, ht⟩ := List.mem_flatten.1 (List.mem_filter.1 ht).1
      obtain ⟨turn, hturn, rfl⟩ := List.mem_map.1 hshare
      exact (htakes turn hturn).kind_ne_eof t ht
  rw [hshares] at hparts
  exact hrest.trans (List.append_cancel_left (hparts.symm.trans hahead))

/-- `007 {1 2} 3*4 let a;`: the fold reads on over the block and the operation before it goes back
to the end of `007`. -/
theorem parseProgram_byPrecedence_shares_adjacent :
    parseProgram "007 \x7b1 2\x7d 3*4 let a;" .byPrecedence = .ok [.number 7,
        .block [.number 1, .number 2], .operation (.number 3) (.number 4) .mul, .declaration "a"]
      ∧ ∃ turns c', Parser.Turns (.ofSource "007 \x7b1 2\x7d 3*4 let a;" .byPrecedence) turns c'
        ∧ turns.length = 4
        ∧ ∀ turn ∈ turns,
          turn.Takes .behind (resolve (tokenize "007 \x7b1 2\x7d 3*4 let a;")) := by
  let b : Passage :=
    .bare (.leaf (.of .number "007") (.number 7) rfl)
      (.bare (.block (.bare (.leaf (.of .number "1") (.number 1) rfl)
          (.bare (.leaf (.of .number "2") (.number 2) rfl) .done)))
        (.bare (.operation (.leaf (.of .number "3") (.number 3) rfl) .mul
            (.leaf (.of .number "4") (.number 4) rfl))
          (.declaration "a" .done)))
  have hb : b.tokens .behind = resolve (significantTokens "007 \x7b1 2\x7d 3*4 let a;") := by
    decide
  have h := parseProgram_byPrecedence_iff.2 ⟨b, rfl, hb⟩
  obtain ⟨-, turns, c', -, hturns, htrees, htakes, -⟩ := parseProgram_byPrecedence_shares h
  refine ⟨h, turns, c', hturns, ?_, htakes⟩
  rw [← List.length_map (f := Parser.Turn.tree), htrees]
  rfl

end BlockLang
