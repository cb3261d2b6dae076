import BlockLang.Proofs.Eval.Program
import BlockLang.Proofs.Parser.Outcome
import BlockLang.Proofs.Session

/-!
# The chunks of a file

Chunks with numbers of their own are pending in their order once they are added, and
`run` evaluates their statements as one list,

    run of the chunks  =  ofStatements root (the statements of all chunks).

If a chunk is not accepted, the chunks behind it are not added and nothing is run.
-/

namespace BlockLang

open StepM

namespace Chunk

/-- The statements of a chunk, or none if it is not accepted. -/
def statements (g : Grouping) (c : Chunk) : List Tree :=
  match parseProgram c.text g with
  | .ok stmts => stmts
  | .error _ => []

theorem statements_of_ok {g : Grouping} {c : Chunk} {stmts : List Tree}
    (h : parseProgram c.text g = .ok stmts) : c.statements g = stmts := by
  rw [statements, h]

end Chunk

/-- A chunk that is yet to be run. -/
def Pending.ofChunk (g : Grouping) (c : Chunk) : Pending :=
  { num := c.num, text := c.text, stmts := c.statements g }

namespace LineRun

/-- **Lines are run as their statements are, taken as one list.** -/
theorem ofLines_eq_ofStatements (s : Scopes) (ps : List Pending) :
    ending (upToFault (ofLines s ps))
        = (ProgramRun.ofStatements s (ps.flatMap Pending.stmts)).ending
      ∧ ((ProgramRun.ofStatements s (ps.flatMap Pending.stmts)).fault = none →
        (upToFault (ofLines s ps)).flatMap records
          = (ps.flatMap Pending.stmts).zip
              (ProgramRun.ofStatements s (ps.flatMap Pending.stmts)).values) := by
  induction ps generalizing s with
  | nil => exact ⟨rfl, fun _ => rfl⟩
  | cons p ps ih =>
    rw [ofLines, upToFault, List.flatMap_cons, ProgramRun.ofStatements_append]
    dsimp only
    by_cases hp : (ProgramRun.ofStatements s p.stmts).fault = none
    · rw [if_pos hp, if_pos hp, ending_cons hp]
      obtain ⟨hending, hrecords⟩ := ih (ProgramRun.ofStatements s p.stmts).scopes
      refine ⟨hending, fun hfault => ?_⟩
      rw [List.flatMap_cons, hrecords hfault, records,
        List.zip_append (ProgramRun.length_values hp).symm]
    · rw [if_neg hp, if_neg hp]
      exact ⟨rfl, fun hfault => absurd hfault hp⟩

end LineRun

namespace Session

variable {s : Session}

/-- **Adding the chunks of a file.**  If all are accepted, they are pending in order; if not, it
stops at one that is refused.  Nothing but warnings is printed, and nothing is run. -/
theorem exists_addChunks (chunks : List Chunk) (htrace : s.console.trace = false)
    (hnums : (s.pending.map Pending.num ++ chunks.map Chunk.num).Nodup)
    (hfit : ∀ c ∈ chunks, DigitsFit c.text) :
    ∃ s' ws, (∀ e ∈ ws, e.isWarning = true) ∧ s.console.Prints ws s'.console
      ∧ s'.results = s.results ∧ s'.scopes = s.scopes
      ∧ (((∀ c ∈ chunks, ∃ stmts, parseProgram c.text s.grouping = .ok stmts)
            ∧ runFrom (addChunks chunks) s = (.ok (), s')
            ∧ s'.pending = s.pending ++ chunks.map (Pending.ofChunk s.grouping))
        ∨ ∃ c ∈ chunks, ∃ e, parseProgram c.text s.grouping = .error (.refused e)
            ∧ runFrom (addChunks chunks) s = (.error (.parse (.refused e)), s')) := by
  induction chunks generalizing s with
  | nil =>
    refine ⟨s, [], fun e he => absurd he List.not_mem_nil, .refl s.console, rfl, rfl, .inl ?_⟩
    exact ⟨fun c hc => absurd hc List.not_mem_nil, rfl, (List.append_nil _).symm⟩
  | cons c chunks ih =>
    rcases parseProgram_cases s.grouping (hfit c List.mem_cons_self) with
      ⟨stmts, hparse⟩ | ⟨e, hparse⟩
    · obtain ⟨console, ws, hws, hprints, -, hadd⟩ := exists_add_of_ok c.num htrace hparse
      rw [List.map_cons] at hnums
      rw [put_eq_append (num_not_mem hnums)] at hadd
      obtain ⟨s', ws', hws', hprints', hresults, hscopes, hcases⟩ := ih
        (s := { s with pending := s.pending ++ [{ num := c.num, text := c.text, stmts }], console })
        (hprints.trace_eq.trans htrace)
        (by rw [List.map_append, List.append_assoc]; exact hnums)
        (fun d hd => hfit d (List.mem_cons_of_mem c hd))
      refine ⟨s', ws ++ ws', ?_, hprints.trans hprints', hresults, hscopes, ?_⟩
      · intro e he
        exact (List.mem_append.1 he).elim (hws e) (hws' e)
      · rw [addChunks, runFrom_bind, hadd]
        dsimp only
        refine hcases.imp ?_ ?_
        · intro ⟨hall, hrun, hpending⟩
          refine ⟨List.forall_mem_cons.2 ⟨⟨stmts, hparse⟩, hall⟩, hrun, ?_⟩
          rw [hpending, List.map_cons, Pending.ofChunk, Chunk.statements_of_ok hparse,
            List.append_assoc]
          rfl
        · intro ⟨d, hd, e, hrefused, hrun⟩
          exact ⟨d, List.mem_cons_of_mem c hd, e, hrefused, hrun⟩
    · refine ⟨{ s with console := s.console.registerLine s.path c.text c.num }, [],
        fun e he => absurd he List.not_mem_nil, ?_, rfl, rfl,
        .inr ⟨c, List.mem_cons_self, e, hparse, ?_⟩⟩
      · exact ⟨rfl, rfl, rfl, (List.append_nil s.console.log).symm⟩
      · rw [addChunks, runFrom_bind, runFrom_add_of_error c.num htrace hparse]

end Session

end BlockLang
