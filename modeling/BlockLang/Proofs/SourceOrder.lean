import BlockLang.Proofs.Delimited
import BlockLang.Proofs.Rightward

/-!
# Whether operations stand in source order

Where operations group by precedence, the parser sees the signs behind operands only.  A
source that it accepts is the writing of what it is accepted as, with the signs between
operands, exactly if the source is a delimited passage.  Any other source that is
accepted has an operator that joins what it does not stand between.
-/

namespace BlockLang

/-- **Source order.**  A source that is accepted as `ts` by precedence is written as `ts`, with the
sign of each operation between its operands, if and only if it is a delimited passage. -/
theorem writtenAs_between_iff_delimited {source : String} {ts : List Tree}
    (h : parseProgram source .byPrecedence = .ok ts) :
    WrittenAs .between ts (significantTokens source)
      ↔ ∃ b : Passage, b.delimited = true ∧ b.tokens .between = significantTokens source := by
  constructor
  · rintro ⟨b, rfl, hb⟩
    have hs : b.stranded = false := by
      rw [← Bool.not_eq_true]
      exact fun hs => parseProgram_byPrecedence_ne_ok hb hs _ h
    rw [parseProgram_byPrecedence_of_tokens hb hs] at h
    exact ⟨b, b.delimited_of_trees_regroup hs (Except.ok.inj h), hb⟩
  · rintro ⟨b, hdelimited, hb⟩
    rw [parseProgram_byPrecedence_of_tokens hb (Passage.stranded_of_delimited hdelimited)] at h
    exact ⟨b.regroup, Except.ok.inj h, (b.tokens_regroup hdelimited).trans hb⟩

/-- The operations of `{2*3} 4+1 let a; 5-b` are all in source order. -/
theorem writtenAs_between_block_let :
    parseProgram "\x7b2*3\x7d 4+1 let a; 5-b" .byPrecedence = .ok
        [.block [.operation (.number 2) (.number 3) .mul], .operation (.number 4) (.number 1) .add,
          .declaration "a", .operation (.number 5) (.name "b") .sub]
      ∧ WrittenAs .between
        [.block [.operation (.number 2) (.number 3) .mul], .operation (.number 4) (.number 1) .add,
          .declaration "a", .operation (.number 5) (.name "b") .sub]
        (significantTokens "\x7b2*3\x7d 4+1 let a; 5-b") := by
  let b : Passage :=
    .bare (.block (.bare (.operation (.leaf (.of .number "2") (.number 2) rfl) .mul
        (.leaf (.of .number "3") (.number 3) rfl)) .done))
      (.bare (.operation (.leaf (.of .number "4") (.number 4) rfl) .add
          (.leaf (.of .number "1") (.number 1) rfl))
        (.declaration "a"
          (.bare (.operation (.leaf (.of .number "5") (.number 5) rfl) .sub
            (.leaf (.of .ident "b") (.name "b") rfl)) .done)))
  have hb : b.tokens .behind = resolve (significantTokens "\x7b2*3\x7d 4+1 let a; 5-b") := by
    decide
  have h := parseProgram_byPrecedence_iff.2 ⟨b, rfl, hb⟩
  exact ⟨h, (writtenAs_between_iff_delimited h).2 ⟨b, rfl, by decide⟩⟩

/-- **Not every accepted source is in source order**: `1 + 2 3` is accepted as `1` and `2 + 3`. -/
theorem not_writtenAs_between_of_parseProgram :
    ¬ ∀ (source : String) (ts : List Tree), parseProgram source .byPrecedence = .ok ts →
      WrittenAs .between ts (significantTokens source) := by
  intro hall
  let one : Phrase := .leaf (.of .number "1") (.number 1) rfl
  let two : Phrase := .leaf (.of .number "2") (.number 2) rfl
  let three : Phrase := .leaf (.of .number "3") (.number 3) rfl
  have h : parseProgram "1 + 2 3" .byPrecedence
      = .ok [.number 1, .operation (.number 2) (.number 3) .add] :=
    parseProgram_byPrecedence_iff.2
      ⟨.bare one (.bare (.operation two .add three) .done), rfl, by decide⟩
  have hright : parseProgram "1 + 2 3" .rightward
      = .ok [.operation (.number 1) (.number 2) .add, .number 3] :=
    parseProgram_rightward_iff.2
      ⟨.bare (.operation one .add two) (.bare three .done), rfl, by decide, rfl⟩
  -- these trees group to the right too, so the source would be accepted as them there as well
  obtain ⟨b, htrees, hb⟩ := hall _ _ h
  have hnests : b.nestsRight = true := by
    rw [← b.nestsRight_trees, htrees]
    rfl
  have hother := parseProgram_rightward_iff.2 ⟨b, htrees, hb, hnests⟩
  rw [hright] at hother
  exact Tree.noConfusion (List.cons.inj (Except.ok.inj hother)).1

end BlockLang
