import BlockLang.Proofs.Session.Chunks
import BlockLang.Proofs.Session.Runs
import BlockLang.Proofs.Trim
import Mathlib.Data.List.Sort

/-!
# The division of a file into chunks

The chunks of a file are spans of its lines.  A span begins at a line that is not blank, goes
on as long as a brace is open, and ends with the line that leaves none open, or with the
file.  Spans of this form that hold every line but blank ones are a `Division` of the lines,
and the chunks are the texts of its spans,

    ofLines lines = spans.map (Span.chunk lines).

The lines are read one at a time.  Where a brace is open, a line makes the last span longer,
and else it begins a span of its own, unless it is blank: so what is a division of the lines
in front becomes one of these lines and the next.  No lines have two divisions, since it can
be seen from the lines where a span has to begin and where it has to end.
-/

namespace BlockLang

open BlockLang.Text

namespace Chunk

/-! ### Spans of lines -/

/-- Lines that stand behind each other: from the one with the index `start` to the one in front of
the index `stop`. -/
@[ext] structure Span where
  start : Nat
  stop : Nat

namespace Span

/-- The lines of a span. -/
def lines (s : Span) (all : List String) : List String :=
  (all.take s.stop).drop s.start

/-- The lines of a span, without the blanks at their ends. -/
def rows (s : Span) (all : List String) : List String :=
  (s.lines all).map trimEnd

/-- The lines of a span, without the blanks at their ends, under each other. -/
def text (s : Span) (all : List String) : String :=
  "\n".intercalate ((s.lines all).map trimEnd)

theorem text_eq (s : Span) (all : List String) : s.text all = "\n".intercalate (s.rows all) :=
  rfl

/-- A span as a chunk, with the number of its first line, counted from one. -/
def chunk (all : List String) (s : Span) : Chunk :=
  { text := s.text all, num := s.start + 1 }

/-- **A run of lines**: it begins at a line that is not blank, every line but the last leaves a
brace open, and so does the last only if it is the last of all. -/
structure IsRun (all : List String) (s : Span) : Prop where
  start_lt : s.start < s.stop
  stop_le : s.stop ≤ all.length
  begins : ∀ line ∈ all[s.start]?, trimEnd line ≠ ""
  goesOn : ∀ n, s.start < n → n < s.stop → 0 < openBraces ((Span.mk s.start n).text all)
  ends : 0 < openBraces (s.text all) → s.stop = all.length

variable {s t : Span} {all : List String} {line : String}

theorem lines_concat (h : s.stop ≤ all.length) : s.lines (all ++ [line]) = s.lines all := by
  rw [lines, lines, List.take_append_of_le_length h]

/-- A line behind the last changes no span that ends in front of it. -/
theorem rows_concat (h : s.stop ≤ all.length) : s.rows (all ++ [line]) = s.rows all := by
  rw [rows, rows, lines_concat h]

theorem text_concat (h : s.stop ≤ all.length) : s.text (all ++ [line]) = s.text all := by
  rw [text, text, lines_concat h]

theorem chunk_concat (h : s.stop ≤ all.length) : s.chunk (all ++ [line]) = s.chunk all := by
  rw [chunk, chunk, text_concat h]

theorem rows_extended {n : Nat} (h : n ≤ all.length) :
    (Span.mk n (all.length + 1)).rows (all ++ [line])
      = (Span.mk n all.length).rows all ++ [trimEnd line] := by
  have hlength : all.length + 1 = (all ++ [line]).length := by simp
  simp only [rows, lines]
  rw [hlength, List.take_length, List.take_length, List.drop_append_of_le_length h, List.map_append,
    List.map_singleton]

theorem rows_ne_nil (hlt : s.start < s.stop) (hle : s.stop ≤ all.length) : s.rows all ≠ [] := by
  rw [rows, Ne, List.map_eq_nil_iff, ← List.length_eq_zero_iff, lines, List.length_drop,
    List.length_take]
  omega

theorem text_extended {n : Nat} (h : n < all.length) :
    (Span.mk n (all.length + 1)).text (all ++ [line])
      = (Span.mk n all.length).text all ++ "\n" ++ trimEnd line := by
  have hne : (Span.mk n all.length).rows all ≠ [] := rows_ne_nil h (Nat.le_refl _)
  calc (Span.mk n (all.length + 1)).text (all ++ [line])
    _ = "\n".intercalate ((Span.mk n all.length).rows all ++ [trimEnd line]) := by
      rw [text_eq, rows_extended (Nat.le_of_lt h)]
    _ = (Span.mk n all.length).text all ++ "\n" ++ trimEnd line := intercalate_concat hne _

theorem rows_last :
    (Span.mk all.length (all.length + 1)).rows (all ++ [line]) = [trimEnd line] := by
  have hnone : (Span.mk all.length all.length).rows all = [] := by
    simp only [rows, lines]
    rw [List.take_length, List.drop_length, List.map_nil]
  rw [rows_extended (Nat.le_refl _), hnone, List.nil_append]

theorem text_last : (Span.mk all.length (all.length + 1)).text (all ++ [line]) = trimEnd line := by
  rw [text_eq, rows_last, String.intercalate_singleton]

namespace IsRun

/-- A run that leaves no brace open has ended, whatever line comes next. -/
theorem concat (h : s.IsRun all) (hclosed : openBraces (s.text all) ≤ 0) :
    s.IsRun (all ++ [line]) where
  start_lt := h.start_lt
  stop_le := by
    rw [List.length_append]
    exact Nat.le_add_right_of_le h.stop_le
  begins := by
    rw [List.getElem?_append_left (Nat.lt_of_lt_of_le h.start_lt h.stop_le)]
    exact h.begins
  goesOn n hstart hstop := by
    rw [text_concat (Nat.le_trans (Nat.le_of_lt hstop) h.stop_le)]
    exact h.goesOn n hstart hstop
  ends hopen := by
    rw [text_concat h.stop_le] at hopen
    omega

theorem extend (h : s.IsRun all) (hopen : 0 < openBraces (s.text all)) :
    (Span.mk s.start (all.length + 1)).IsRun (all ++ [line]) where
  start_lt := Nat.lt_of_lt_of_le h.start_lt (Nat.le_succ_of_le h.stop_le)
  stop_le := by simp
  begins := by
    rw [List.getElem?_append_left (Nat.lt_of_lt_of_le h.start_lt h.stop_le)]
    exact h.begins
  goesOn n hstart hstop := by
    rw [text_concat (Nat.le_of_lt_succ hstop)]
    rcases Nat.lt_or_eq_of_le (Nat.le_of_lt_succ hstop) with hlt | rfl
    · exact h.goesOn n hstart (h.ends hopen ▸ hlt)
    · rw [← h.ends hopen]
      exact hopen
  ends _ := by simp

theorem last (h : trimEnd line ≠ "") :
    (Span.mk all.length (all.length + 1)).IsRun (all ++ [line]) where
  start_lt := Nat.lt_succ_self _
  stop_le := by simp
  begins := by
    intro line' hline'
    rw [List.getElem?_concat_length] at hline'
    rw [← Option.some.inj hline']
    exact h
  goesOn n hstart hstop := absurd hstart (Nat.not_lt_of_le (Nat.le_of_lt_succ hstop))
  ends _ := by simp

theorem begins_rows (h : s.IsRun all) : Begins (s.rows all) := by
  have hlt : s.start < all.length := Nat.lt_of_lt_of_le h.start_lt h.stop_le
  have htake : s.start < (all.take s.stop).length := by
    rw [List.length_take]
    exact Nat.lt_min.2 ⟨h.start_lt, hlt⟩
  rw [rows, lines, List.drop_eq_getElem_cons htake, List.map_cons, List.getElem_take]
  exact ⟨_, _, rfl, h.begins _ (List.getElem?_eq_getElem hlt)⟩

/-- **Where a run begins tells where it ends.** -/
theorem stop_le_of_start_eq (h : s.IsRun all) (h' : t.IsRun all) (hstart : s.start = t.start) :
    s.stop ≤ t.stop := by
  by_contra hlt
  have hopen := h.goesOn t.stop (hstart ▸ h'.start_lt) (Nat.lt_of_not_le hlt)
  rw [hstart] at hopen
  have hend := h'.ends hopen
  have hle := h.stop_le
  omega

end IsRun

end Span

/-! ### Divisions -/

/-- **Lines divided into runs**: the runs are one behind the other, and a line in none of them is
blank. -/
structure Division (all : List String) (spans : List Span) : Prop where
  isRun : ∀ s ∈ spans, s.IsRun all
  ordered : spans.Pairwise (fun s t => s.stop ≤ t.start)
  covered : ∀ i, ∀ line ∈ all[i]?, trimEnd line = "" ∨ ∃ s ∈ spans, s.start ≤ i ∧ i < s.stop

/-- Whether the next line belongs to the last span. -/
def leavesOpen (all : List String) (spans : List Span) : Bool :=
  spans.getLast?.any (fun s => needsMore (s.text all))

theorem leavesOpen_concat (all : List String) (spans : List Span) (s : Span) :
    leavesOpen all (spans ++ [s]) = needsMore (s.text all) := by
  rw [leavesOpen, List.getLast?_concat, Option.any_some]

theorem leavesOpen_append {all : List String} {spans : List Span}
    (h : ∀ s ∈ spans, s.stop ≤ all.length) (line : String) :
    leavesOpen (all ++ [line]) spans = leavesOpen all spans := by
  obtain rfl | ⟨init, s, rfl⟩ := List.eq_nil_or_concat' spans
  · rfl
  · rw [leavesOpen_concat, leavesOpen_concat,
      Span.text_concat (h s (List.mem_append_right _ List.mem_cons_self))]

namespace Division

variable {all : List String} {spans spans' : List Span} {s t : Span} {line : String}

theorem openBraces_nonpos (h : Division all (spans ++ [s])) (ht : t ∈ spans) :
    openBraces (t.text all) ≤ 0 := by
  by_contra hopen
  have hend := (h.isRun t (List.mem_append_left _ ht)).ends (by omega)
  have hlast := h.isRun s (List.mem_append_right _ List.mem_cons_self)
  have hbefore := (List.pairwise_append.1 h.ordered).2.2 t ht s List.mem_cons_self
  have hlt := hlast.start_lt
  have hle := hlast.stop_le
  omega

/-- If no brace is open behind the last run, none is behind any. -/
theorem closed_of_leavesOpen (h : Division all spans) (hclosed : leavesOpen all spans = false) :
    ∀ s ∈ spans, openBraces (s.text all) ≤ 0 := by
  intro t ht
  rcases List.eq_nil_or_concat' spans with rfl | ⟨init, s, rfl⟩
  · exact absurd ht List.not_mem_nil
  · rcases List.mem_append.1 ht with ht | ht
    · exact h.openBraces_nonpos ht
    · rw [List.mem_singleton.1 ht]
      simpa [leavesOpen, needsMore] using hclosed

theorem covered_concat (h : Division all spans)
    (hspans : ∀ s ∈ spans, ∃ t ∈ spans', t.start ≤ s.start ∧ s.stop ≤ t.stop)
    (hline : trimEnd line = "" ∨ ∃ t ∈ spans', t.start ≤ all.length ∧ all.length < t.stop) :
    ∀ i, ∀ line' ∈ (all ++ [line])[i]?,
      trimEnd line' = "" ∨ ∃ t ∈ spans', t.start ≤ i ∧ i < t.stop := by
  intro i line' hline'
  by_cases hi : i < all.length
  · rw [List.getElem?_append_left hi] at hline'
    refine (h.covered i line' hline').imp_right (fun ⟨s, hs, hstart, hstop⟩ => ?_)
    obtain ⟨t, ht, hle, hle'⟩ := hspans s hs
    exact ⟨t, ht, Nat.le_trans hle hstart, Nat.lt_of_lt_of_le hstop hle'⟩
  · have hlt := (List.getElem?_eq_some_iff.1 hline').1
    rw [List.length_append, List.length_singleton] at hlt
    obtain rfl : i = all.length := by omega
    rw [List.getElem?_concat_length] at hline'
    rw [← Option.some.inj hline']
    exact hline

theorem extend (h : Division all (spans ++ [s])) (hopen : 0 < openBraces (s.text all)) :
    Division (all ++ [line]) (spans ++ [⟨s.start, all.length + 1⟩]) := by
  have hlast := h.isRun s (List.mem_append_right _ List.mem_cons_self)
  obtain ⟨hordered, -, hbefore⟩ := List.pairwise_append.1 h.ordered
  refine ⟨fun t ht => ?_, ?_, h.covered_concat (fun t ht => ?_) (.inr ?_)⟩
  · rcases List.mem_append.1 ht with ht | ht
    · exact (h.isRun t (List.mem_append_left _ ht)).concat (h.openBraces_nonpos ht)
    · rw [List.mem_singleton.1 ht]
      exact hlast.extend hopen
  · refine List.pairwise_append.2 ⟨hordered, List.pairwise_singleton .., fun t ht u hu => ?_⟩
    rw [List.mem_singleton.1 hu]
    exact hbefore t ht s List.mem_cons_self
  · rcases List.mem_append.1 ht with ht | ht
    · exact ⟨t, List.mem_append_left _ ht, Nat.le_refl _, Nat.le_refl _⟩
    · refine ⟨_, List.mem_append_right _ List.mem_cons_self, ?_⟩
      rw [List.mem_singleton.1 ht]
      exact ⟨Nat.le_refl _, Nat.le_succ_of_le hlast.stop_le⟩
  · refine ⟨_, List.mem_append_right _ List.mem_cons_self, ?_, Nat.lt_succ_self _⟩
    exact Nat.le_trans (Nat.le_of_lt hlast.start_lt) hlast.stop_le

theorem skipBlank (h : Division all spans) (hclosed : leavesOpen all spans = false)
    (hline : trimEnd line = "") : Division (all ++ [line]) spans where
  isRun s hs := (h.isRun s hs).concat (h.closed_of_leavesOpen hclosed s hs)
  ordered := h.ordered
  covered := h.covered_concat (fun s hs => ⟨s, hs, Nat.le_refl _, Nat.le_refl _⟩) (.inl hline)

theorem beginRun (h : Division all spans) (hclosed : leavesOpen all spans = false)
    (hline : trimEnd line ≠ "") :
    Division (all ++ [line]) (spans ++ [⟨all.length, all.length + 1⟩]) := by
  refine ⟨fun s hs => ?_, ?_, h.covered_concat (fun s hs => ?_) (.inr ?_)⟩
  · rcases List.mem_append.1 hs with hs | hs
    · exact (h.isRun s hs).concat (h.closed_of_leavesOpen hclosed s hs)
    · rw [List.mem_singleton.1 hs]
      exact .last hline
  · refine List.pairwise_append.2 ⟨h.ordered, List.pairwise_singleton .., fun s hs t ht => ?_⟩
    rw [List.mem_singleton.1 ht]
    exact (h.isRun s hs).stop_le
  · exact ⟨s, List.mem_append_left _ hs, Nat.le_refl _, Nat.le_refl _⟩
  · exact ⟨_, List.mem_append_right _ List.mem_cons_self, Nat.le_refl _, Nat.lt_succ_self _⟩

theorem disjoint (h : Division all spans) (hs : s ∈ spans) (ht : t ∈ spans) (hne : s ≠ t) :
    s.stop ≤ t.start ∨ t.stop ≤ s.start := by
  have hsymm : Std.Symm (fun s t : Span => s.stop ≤ t.start ∨ t.stop ≤ s.start) :=
    ⟨fun _ _ => Or.symm⟩
  have hapart : spans.Pairwise (fun s t => s.stop ≤ t.start ∨ t.stop ≤ s.start) :=
    h.ordered.imp Or.inl
  exact hapart.forall hs ht hne

/-- **The runs of one division are those of any other.** -/
theorem mem_of_mem (h : Division all spans) (h' : Division all spans') (hs : s ∈ spans) :
    s ∈ spans' := by
  induction hn : s.start using Nat.strongRecOn generalizing spans spans' s with
  | _ n ih =>
    subst hn
    have hrun := h.isRun s hs
    have hlt : s.start < all.length := Nat.lt_of_lt_of_le hrun.start_lt hrun.stop_le
    have hline : all[s.start] ∈ all[s.start]? := List.getElem?_eq_getElem hlt
    obtain ⟨t, ht, hstart, hstop⟩ :=
      (h'.covered s.start _ hline).resolve_left (hrun.begins _ hline)
    rcases Nat.lt_or_eq_of_le hstart with hbefore | heq
    · -- a run that begins further in front is in both, and so it does not reach here
      have hmem := ih t.start hbefore h' h ht rfl
      have hne : s ≠ t := fun heq => Nat.lt_irrefl _ (heq ▸ hbefore)
      have hlt := hrun.start_lt
      rcases h.disjoint hs hmem hne with hle | hle
      · omega
      · omega
    · have hrun' := h'.isRun t ht
      have hend := Nat.le_antisymm (hrun.stop_le_of_start_eq hrun' heq.symm)
        (hrun'.stop_le_of_start_eq hrun heq)
      rwa [Span.ext heq.symm hend]

theorem pairwise_start (h : Division all spans) : spans.Pairwise (fun s t => s.start < t.start) :=
  h.ordered.imp_of_mem (fun hs _ hle => Nat.lt_of_lt_of_le (h.isRun _ hs).start_lt hle)

/-- **No lines have two divisions.** -/
theorem unique (h : Division all spans) (h' : Division all spans') : spans = spans' := by
  have hirrefl : Std.Irrefl (fun s t : Span => s.start < t.start) := ⟨fun _ => Nat.lt_irrefl _⟩
  have hantisymm : Std.Antisymm (fun s t : Span => s.start < t.start) :=
    ⟨fun _ _ hlt hgt => absurd hlt (Nat.lt_asymm hgt)⟩
  exact h.pairwise_start.eq_of_mem_iff h'.pairwise_start
    (fun _ => ⟨h.mem_of_mem h', h'.mem_of_mem h⟩)

end Division

/-! ### The runs of a file -/

/-- **Lines that were read**: the runs that have ended, and the lines of the one that has not, if
there is one. -/
inductive Reads (all : List String) (done : List Span) (held : List String) : Prop
  | ended (h : Division all done) (hclosed : leavesOpen all done = false) (hheld : held = [])
  | unfinished (s : Span) (h : Division all (done ++ [s])) (hopen : 0 < openBraces (s.text all))
    (hheld : held = s.rows all)

namespace Reads

variable {all held : List String} {done : List Span} {line : String}

theorem stop_le (h : Reads all done held) : ∀ s ∈ done, s.stop ≤ all.length := by
  cases h with
  | ended h => exact fun s hs => (h.isRun s hs).stop_le
  | unfinished _ h => exact fun s hs => (h.isRun s (List.mem_append_left _ hs)).stop_le

theorem map_rows_concat (h : Reads all done held) (line : String) :
    done.map (Span.rows · (all ++ [line])) = done.map (Span.rows · all) :=
  List.map_congr_left (fun s hs => Span.rows_concat (h.stop_le s hs))

theorem division (h : Reads all done []) : Division all done ∧ leavesOpen all done = false := by
  cases h with
  | ended h hclosed => exact ⟨h, hclosed⟩
  | unfinished s h hopen hheld =>
    have hrun := h.isRun s (List.mem_append_right _ List.mem_cons_self)
    exact absurd hheld.symm (Span.rows_ne_nil hrun.start_lt hrun.stop_le)

/-- **The next line** joins the run that has not ended, or begins one unless it is blank. -/
theorem concat (h : Reads all done held) (hline : ¬ (held = [] ∧ trimEnd line = "")) :
    ∃ s : Span, Division (all ++ [line]) (done ++ [s])
      ∧ s.rows (all ++ [line]) = held ++ [trimEnd line] := by
  cases h with
  | ended h hclosed hheld =>
    have hbegins : trimEnd line ≠ "" := fun hblank => hline ⟨hheld, hblank⟩
    rw [hheld]
    exact ⟨_, h.beginRun hclosed hbegins, Span.rows_last⟩
  | unfinished s h hopen hheld =>
    have hrun := h.isRun s (List.mem_append_right _ List.mem_cons_self)
    have hwhole : s = ⟨s.start, all.length⟩ := Span.ext rfl (hrun.ends hopen)
    have hlt : s.start < all.length := hrun.ends hopen ▸ hrun.start_lt
    refine ⟨_, h.extend hopen, ?_⟩
    rw [Span.rows_extended (Nat.le_of_lt hlt), ← hwhole, hheld]

theorem exists_division_runs (held lines : List String) :
    ∀ (all : List String) (done : List Span), Reads all done held →
      ∃ spans, Division (all ++ lines) spans
        ∧ done.map (Span.rows · all) ++ runs held lines
          = spans.map (Span.rows · (all ++ lines)) := by
  fun_induction runs held lines with
  | case1 =>
    intro all done h
    rw [List.append_nil, List.append_nil]
    exact ⟨done, h.division.1, rfl⟩
  | case2 held hne =>
    intro all done h
    cases h with
    | ended _ _ hheld => exact absurd hheld hne
    | unfinished s h _ hheld =>
      rw [List.append_nil, hheld]
      exact ⟨_, h, by rw [List.map_append, List.map_singleton]⟩
  | case3 held line lines row hblank ih =>
    intro all done h
    rw [hblank.1] at h
    obtain ⟨hdivision, hclosed⟩ := h.division
    have hnext : Reads (all ++ [line]) done [] :=
      .ended (hdivision.skipBlank hclosed hblank.2)
        ((leavesOpen_append h.stop_le line).trans hclosed) rfl
    have hrest := ih _ _ hnext
    rwa [h.map_rows_concat, List.append_assoc, List.singleton_append] at hrest
  | case4 held line lines row hline rows hmore ih =>
    intro all done h
    obtain ⟨s, hdivision, hrows⟩ := h.concat hline
    have hopen : 0 < openBraces (s.text (all ++ [line])) := by
      rw [Span.text_eq, hrows]
      exact of_decide_eq_true hmore
    have hrest := ih _ _ (.unfinished s hdivision hopen hrows.symm)
    rwa [h.map_rows_concat, List.append_assoc, List.singleton_append] at hrest
  | case5 held line lines row hline rows hdone ih =>
    intro all done h
    obtain ⟨s, hdivision, hrows⟩ := h.concat hline
    have hclosed : leavesOpen (all ++ [line]) (done ++ [s]) = false := by
      rw [leavesOpen_concat, Span.text_eq, hrows]
      exact Bool.eq_false_iff.2 hdone
    have hrest := ih _ _ (.ended hdivision hclosed rfl)
    rwa [List.map_append, h.map_rows_concat, List.map_singleton, hrows, List.append_assoc,
      List.append_assoc, List.singleton_append, List.singleton_append] at hrest

end Reads

/-! ### The chunks of a file -/

/-- **Lines that were read**, with the chunks that came of them, the last in front, and whether the
next line belongs to the last. -/
def Divided (all : List String) (chunks : List Chunk) (continues : Bool) : Prop :=
  ∃ spans, Division all spans ∧ chunks = (spans.map (Span.chunk all)).reverse
    ∧ continues = leavesOpen all spans

variable {all : List String} {chunks : List Chunk} {continues : Bool}

theorem map_chunk_concat {spans : List Span} (h : ∀ s ∈ spans, s.stop ≤ all.length)
    (line : String) : spans.map (Span.chunk (all ++ [line])) = spans.map (Span.chunk all) :=
  List.map_congr_left (fun s hs => Span.chunk_concat (h s hs))

/-- A line where a brace is open is read into the last chunk. -/
theorem Division.divided_extend {init : List Span} {s : Span}
    (h : Division all (init ++ [s])) (hopen : 0 < openBraces (s.text all)) (line : String) :
    let added := addLine ((init ++ [s]).map (Span.chunk all)).reverse true line (all.length + 1)
    Divided (all ++ [line]) added.2 (needsMore added.1) := by
  have hinit : ∀ t ∈ init, t.stop ≤ all.length :=
    fun t ht => (h.isRun t (List.mem_append_left _ ht)).stop_le
  have hs := h.isRun s (List.mem_append_right _ List.mem_cons_self)
  have hwhole : s = ⟨s.start, all.length⟩ := Span.ext rfl (hs.ends hopen)
  have htext : (Span.mk s.start (all.length + 1)).text (all ++ [line])
      = s.text all ++ "\n" ++ trimEnd line := by
    rw [Span.text_extended (hs.ends hopen ▸ hs.start_lt), ← hwhole]
  refine ⟨_, h.extend hopen, ?_, ?_⟩
  · rw [List.map_append, List.map_append, List.reverse_append, List.reverse_append,
      map_chunk_concat hinit]
    simp only [List.map_singleton, List.reverse_singleton, List.singleton_append, Chunk.addLine]
    rw [Span.chunk, Span.chunk, htext]
  · rw [leavesOpen_concat, htext, List.map_append, List.reverse_append]
    simp only [List.map_singleton, List.reverse_singleton, List.singleton_append, Chunk.addLine,
      Span.chunk]

theorem Divided.addLine (h : Divided all chunks continues) (line : String) :
    let added := addLine chunks continues line (all.length + 1)
    Divided (all ++ [line]) added.2 (needsMore added.1) := by
  obtain ⟨spans, hdivision, rfl, rfl⟩ := h
  have hstop : ∀ s ∈ spans, s.stop ≤ all.length := fun s hs => (hdivision.isRun s hs).stop_le
  cases hleaves : leavesOpen all spans with
  | true =>
    obtain rfl | ⟨init, s, rfl⟩ := List.eq_nil_or_concat' spans
    · exact absurd hleaves Bool.false_ne_true
    · rw [leavesOpen_concat] at hleaves
      exact hdivision.divided_extend (of_decide_eq_true hleaves) line
  | false =>
    by_cases hline : trimEnd line = ""
    · refine ⟨spans, hdivision.skipBlank hleaves hline, ?_, ?_⟩
      · rw [map_chunk_concat hstop]
        simp [Chunk.addLine, hline]
      · rw [leavesOpen_append hstop, hleaves]
        simp only [Chunk.addLine, hline, if_pos]
        decide
    · refine ⟨_, hdivision.beginRun hleaves hline, ?_, ?_⟩
      · rw [List.map_append, List.reverse_append, map_chunk_concat hstop]
        simp [Chunk.addLine, hline, Span.chunk, Span.text_last]
      · rw [leavesOpen_concat, Span.text_last]
        simp [Chunk.addLine, hline]

/-- **All lines are read.** -/
theorem Divided.addLines (h : Divided all chunks continues) (lines : List String) :
    ∃ spans, Division (all ++ lines) spans
      ∧ addLines chunks continues (all.length + 1) lines
        = (spans.map (Span.chunk (all ++ lines))).reverse := by
  induction lines generalizing all chunks continues with
  | nil =>
    obtain ⟨spans, hdivision, rfl, -⟩ := h
    rw [List.append_nil]
    exact ⟨spans, hdivision, rfl⟩
  | cons line lines ih =>
    have hnum : ((all ++ [line]).length : Int) + 1 = (all.length : Int) + 1 + 1 := by simp
    have hrest := ih (h.addLine line)
    rw [hnum, List.append_assoc, List.singleton_append] at hrest
    exact hrest

theorem division_nil : Division [] [] :=
  ⟨fun _ h => absurd h List.not_mem_nil, .nil, fun i line h => absurd h (by simp)⟩

theorem divided_nil : Divided [] [] false :=
  ⟨[], division_nil, rfl, rfl⟩

/-- The chunks of a file are the runs of a division. -/
theorem exists_division (lines : List String) :
    ∃ spans, Division lines spans ∧ ofLines lines = spans.map (Span.chunk lines) := by
  obtain ⟨spans, hdivision, hlines⟩ := divided_nil.addLines lines
  exact ⟨spans, hdivision, List.reverse_eq_iff.2 hlines⟩

/-- **The runs of a file are those of its division.** -/
theorem Division.runs_eq {lines : List String} {spans : List Span} (h : Division lines spans) :
    runs [] lines = spans.map (Span.rows · lines) := by
  obtain ⟨spans', hdivision, hruns⟩ :=
    Reads.exists_division_runs [] lines [] [] (.ended division_nil rfl rfl)
  rw [h.unique hdivision]
  exact hruns

theorem begins_of_mem_runs {lines rows : List String} (h : rows ∈ runs [] lines) : Begins rows := by
  obtain ⟨spans, hdivision, -⟩ := exists_division lines
  rw [hdivision.runs_eq] at h
  obtain ⟨s, hs, rfl⟩ := List.mem_map.1 h
  exact (hdivision.isRun s hs).begins_rows

theorem map_text_ofLines (lines : List String) :
    (ofLines lines).map text = (runs [] lines).map "\n".intercalate := by
  obtain ⟨spans, hdivision, hchunks⟩ := exists_division lines
  rw [hchunks, hdivision.runs_eq, List.map_map, List.map_map]
  rfl

theorem openBraces_nonpos_of_mem_dropLast_ofLines {lines : List String} {c : Chunk}
    (h : c ∈ (ofLines lines).dropLast) : openBraces c.text ≤ 0 := by
  obtain ⟨spans, hdivision, hchunks⟩ := exists_division lines
  rw [hchunks, ← List.map_dropLast] at h
  obtain ⟨t, ht, rfl⟩ := List.mem_map.1 h
  obtain rfl | ⟨init, s, rfl⟩ := List.eq_nil_or_concat' spans
  · exact absurd ht List.not_mem_nil
  · rw [List.dropLast_concat] at ht
    exact hdivision.openBraces_nonpos ht

theorem pairwise_num_ofLines (lines : List String) :
    ((ofLines lines).map num).Pairwise (· < ·) := by
  obtain ⟨spans, hdivision, hchunks⟩ := exists_division lines
  rw [hchunks, List.map_map]
  refine List.pairwise_map.2 (hdivision.pairwise_start.imp (fun hlt => ?_))
  simp only [Function.comp_apply, Span.chunk]
  omega

theorem nodup_num_ofLines (lines : List String) : ((ofLines lines).map num).Nodup :=
  (pairwise_num_ofLines lines).imp (fun hlt => Int.ne_of_lt hlt)

theorem foldl_put {ps done : List Pending}
    (h : (done.map Pending.num ++ ps.map Pending.num).Nodup) :
    ps.foldl (fun ps p => p.put ps) done = done ++ ps := by
  induction ps generalizing done with
  | nil => exact (List.append_nil done).symm
  | cons p ps ih =>
    rw [List.map_cons] at h
    rw [List.foldl_cons, Session.put_eq_append (Session.num_not_mem h), ih, List.append_assoc,
      List.singleton_append]
    rw [List.map_append, List.append_assoc]
    exact h

/-- **The chunks of a file are the runs of its one division**, and the number of each is that of its
first line.  The numbers increase, so that no chunk takes the place of another one, and only the
last chunk may leave a brace open. -/
theorem ofLines_division (lines : List String) :
    ∃ spans, Division lines spans ∧ ofLines lines = spans.map (Span.chunk lines)
      ∧ (∀ spans', Division lines spans' → spans' = spans)
      ∧ ((ofLines lines).map num).Pairwise (· < ·)
      ∧ (∀ c ∈ (ofLines lines).dropLast, openBraces c.text ≤ 0)
      ∧ ∀ g, ((ofLines lines).map (Pending.ofChunk g)).foldl (fun ps p => p.put ps) []
        = (ofLines lines).map (Pending.ofChunk g) := by
  obtain ⟨spans, hdivision, hchunks⟩ := exists_division lines
  refine ⟨spans, hdivision, hchunks, fun spans' h => h.unique hdivision,
    pairwise_num_ofLines lines, fun c hc => openBraces_nonpos_of_mem_dropLast_ofLines hc,
    fun g => ?_⟩
  refine foldl_put ?_
  rw [List.map_nil, List.nil_append, List.map_map]
  exact nodup_num_ofLines lines

/-- A block over four lines, from `let a = {` to `};`, a blank line, and two lines of their own. -/
example : ofLines ["let a = \x7b", "  let b = 2; ", "  b * 3", "\x7d;", " ", "a + 1", "\"s\""]
    = [⟨"let a = \x7b\n  let b = 2;\n  b * 3\n\x7d;", 1⟩, ⟨"a + 1", 6⟩, ⟨"\"s\"", 7⟩] := by
  decide +kernel

end Chunk

end BlockLang
