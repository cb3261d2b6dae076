import BlockLang.Proofs.Cursor

/-!
# A stream behind other tokens

A stream may stand behind tokens that are passed already.  `s.Behind pre t` says that `s`
is the stream `t` with `pre` in front of it: the same tokens ahead, at a place that is
further on by the length of `pre`.  Every operation of the stream shows the same on both
sides and keeps them so.

A failure that is found behind `pre` is the same failure, moved on by the same length,
and which failure got furthest does not change by moving all of them.
-/

namespace BlockLang

/-! ### Failures moved on -/

/-- The same failure, `n` tokens further on. -/
def Failure.moved (n : Nat) (f : Failure) : Failure :=
  { f with position := f.position + n }

namespace Failure

theorem furthest_map_moved (n : Nat) (fs : List Failure) :
    furthest (fs.map (moved n)) = (furthest fs).map (moved n) := by
  induction fs with
  | nil => rfl
  | cons last earlier ih =>
    rw [List.map_cons, furthest, furthest, ih]
    rcases furthest earlier with _ | best
    · rfl
    · simp only [Option.map_some, moved, Int.add_lt_add_iff_right]
      split <;> rfl

end Failure

namespace ParseError

/-- The same error, `n` tokens further on. -/
def moved (n : Nat) : ParseError → ParseError
  | failed f => failed (f.moved n)
  | malformed cause => malformed (cause.moved n)

theorem failure_moved (n : Nat) : ∀ e : ParseError, (e.moved n).failure = e.failure.moved n
  | failed _ => rfl
  | malformed cause => cause.failure_moved n

theorem position_moved (n : Nat) (e : ParseError) : (e.moved n).position = e.position + n := by
  rw [position, failure_moved]
  rfl

theorem wanted_moved (n : Nat) (e : ParseError) : (e.moved n).wanted = e.wanted := by
  rw [wanted, failure_moved]
  rfl

theorem found_moved (n : Nat) (e : ParseError) : (e.moved n).found = e.found := by
  rw [found, failure_moved]
  rfl

theorem report_moved (n : Nat) : ∀ e : ParseError, (e.moved n).report = e.report
  | failed _ => rfl
  | malformed cause => by rw [moved, report, cause.report_moved, report]

theorem message_moved (n : Nat) (e : ParseError) : (e.moved n).message = e.message := by
  rw [message, report_moved, message]

/-- **Moving all errors on does not change which got furthest.** -/
theorem furthestOf_moved (n : Nat) (e : ParseError) (es : List ParseError) :
    (e.moved n).furthestOf (es.map (moved n)) = (e.furthestOf es).moved n := by
  induction es generalizing e with
  | nil => rfl
  | cons e' es ih =>
    rw [List.map_cons, furthestOf, furthestOf, ← ih]
    simp only [position_moved, Int.add_lt_add_iff_right]
    split <;> rfl

end ParseError

/-! ### Streams -/

namespace TokenStream

theorem size_buffer_fill {s : TokenStream} (hs : s.Sound) (n : Nat) :
    (s.fill n).buffer.size = min (max s.buffer.size (s.pos + n)) s.all.length := by
  have hpos := hs.pos_le
  rw [← Array.length_toList, fill, toList_buffer_pullMany hs, List.length_take]
  congr 1
  omega

/-- **The stream `t` behind the tokens `pre`**, which are passed already. -/
structure Behind (pre : List Token) (s t : TokenStream) : Prop where
  fit : s.Fit
  fit' : t.Fit
  all_eq : s.all = pre ++ t.all
  pos_eq : s.pos = pre.length + t.pos
  buffer_le : pre.length + t.buffer.size ≤ s.buffer.size
  capacity_le : t.capacity ≤ s.capacity

namespace Behind

variable {pre : List Token} {s t : TokenStream}

theorem stays (h : Behind pre s t) {s' : TokenStream} (hs : s.Along s') (hp : s'.pos = s.pos) :
    Behind pre s' t :=
  ⟨hs.fit h.fit, h.fit', hs.all_eq.trans h.all_eq, hp.trans h.pos_eq,
    Nat.le_trans h.buffer_le hs.buffer_le, hs.capacity_eq.symm ▸ h.capacity_le⟩

theorem peek (h : Behind pre s t) (n : Nat) :
    (s.peek n).1 = (t.peek n).1 ∧ Behind pre (s.peek n).2 (t.peek n).2 := by
  have halong := along_peek h.fit.sound n
  have halong' := along_peek h.fit'.sound n
  refine ⟨?_, halong.fit h.fit, halong'.fit h.fit', ?_, ?_, ?_, ?_⟩
  · rw [fst_peek h.fit.sound, fst_peek h.fit'.sound, h.all_eq, h.pos_eq,
      List.getElem?_append_right (by omega)]
    congr 1
    omega
  · rw [all_snd_peek, all_snd_peek, h.all_eq]
  · rw [pos_snd_peek, pos_snd_peek, h.pos_eq]
  · have hle := h.buffer_le
    have hpos := h.pos_eq
    have hlen := congrArg List.length h.all_eq
    rw [List.length_append] at hlen
    simp only [TokenStream.peek, size_buffer_fill h.fit.sound, size_buffer_fill h.fit'.sound]
    omega
  · rw [halong.capacity_eq, halong'.capacity_eq]
    exact h.capacity_le

theorem seek {fuel' fuel : Nat} (hfuel : fuel' ≤ fuel) {i : Nat} (h : Behind pre s t)
    (hf : t.all.length < t.pos + i + fuel') :
    (TokenStream.seek fuel i s).1 = (TokenStream.seek fuel' i t).1
      ∧ Behind pre (TokenStream.seek fuel i s).2 (TokenStream.seek fuel' i t).2 := by
  induction fuel' generalizing fuel i s t with
  | zero =>
    -- nothing is left, and only the stream behind `pre` looks once more
    cases fuel with
    | zero => exact ⟨rfl, h⟩
    | succ fuel =>
      have hnone : (s.peek i).1 = none := by
        rw [(h.peek i).1, fst_peek h.fit'.sound, List.getElem?_eq_none (by omega)]
      have hstays := h.stays (along_peek h.fit.sound i) (s.pos_snd_peek i)
      unfold TokenStream.seek
      rcases hp : s.peek i with ⟨found, s'⟩
      rw [hp] at hnone hstays
      obtain rfl : found = none := hnone
      exact ⟨rfl, hstays⟩
  | succ fuel' ih =>
    obtain ⟨fuel, rfl⟩ : ∃ n, fuel = n + 1 := ⟨fuel - 1, by omega⟩
    have hpeek := h.peek i
    have hall := t.all_snd_peek i
    have hpos := t.pos_snd_peek i
    unfold TokenStream.seek
    rcases hp : s.peek i with ⟨found, s'⟩
    rcases hp' : t.peek i with ⟨found', t'⟩
    rw [hp, hp'] at hpeek
    rw [hp'] at hall hpos
    obtain ⟨rfl, hbehind⟩ : found = found' ∧ Behind pre s' t' := hpeek
    rcases found with _ | u
    · exact ⟨rfl, hbehind⟩
    · dsimp only at hall hpos ⊢
      split
      · exact ih (by omega) hbehind (by rw [hall, hpos]; omega)
      · exact ⟨rfl, hbehind⟩

/-- The searches of both streams have room for all their tokens. -/
theorem seek_capacity (h : Behind pre s t) (i : Nat) :
    (TokenStream.seek (s.capacity + 1) i s).1 = (TokenStream.seek (t.capacity + 1) i t).1
      ∧ Behind pre (TokenStream.seek (s.capacity + 1) i s).2
        (TokenStream.seek (t.capacity + 1) i t).2 := by
  have hroom := h.fit'.length_le
  exact h.seek (Nat.succ_le_succ h.capacity_le) (by omega)

theorem peekSignificant (h : Behind pre s t) :
    s.peekSignificant.1 = t.peekSignificant.1
      ∧ Behind pre s.peekSignificant.2 t.peekSignificant.2 :=
  ⟨congrArg (Option.map Prod.snd) (h.seek_capacity 0).1, (h.seek_capacity 0).2⟩

theorem significantFrom (n i : Nat) (h : Behind pre s t) :
    (TokenStream.significantFrom n i s).1 = (TokenStream.significantFrom n i t).1
      ∧ Behind pre (TokenStream.significantFrom n i s).2 (TokenStream.significantFrom n i t).2 := by
  induction n generalizing i s t with
  | zero => exact ⟨rfl, h⟩
  | succ n ih =>
    have hseek := h.seek_capacity i
    unfold TokenStream.significantFrom
    rcases hs : TokenStream.seek (s.capacity + 1) i s with ⟨found, s'⟩
    rcases ht : TokenStream.seek (t.capacity + 1) i t with ⟨found', t'⟩
    rw [hs, ht] at hseek
    obtain ⟨rfl, hbehind⟩ : found = found' ∧ Behind pre s' t' := hseek
    rcases found with _ | ⟨j, u⟩
    · exact ⟨rfl, hbehind⟩
    · have hrest := ih (j + 1) hbehind
      exact ⟨congrArg (u.kind :: ·) hrest.1, hrest.2⟩

theorem startsWith (h : Behind pre s t) (kinds : List TokenKind) :
    (s.startsWith kinds).1 = (t.startsWith kinds).1
      ∧ Behind pre (s.startsWith kinds).2 (t.startsWith kinds).2 := by
  have hkinds := h.significantFrom kinds.length 0
  exact ⟨decide_eq_decide.2 (iff_of_eq (congrArg (· = kinds) hkinds.1)), hkinds.2⟩

theorem next (h : Behind pre s t) : s.next.1 = t.next.1 ∧ Behind pre s.next.2 t.next.2 := by
  have hpeek := h.peek 0
  have hlt := @lt_size_of_peek s 0
  have hlt' := @lt_size_of_peek t 0
  have hpos := s.pos_snd_peek 0
  have hpos' := t.pos_snd_peek 0
  unfold TokenStream.next
  rcases hs : s.peek 0 with ⟨found, s'⟩
  rcases ht : t.peek 0 with ⟨found', t'⟩
  rw [hs, ht] at hpeek
  rw [hs] at hlt hpos
  rw [ht] at hlt' hpos'
  obtain ⟨rfl, hbehind⟩ : found = found' ∧ Behind pre s' t' := hpeek
  rcases found with _ | u
  · exact ⟨rfl, hbehind⟩
  · have hin : s'.pos + 1 ≤ s'.buffer.size := by rw [hpos]; exact hlt rfl
    have hin' : t'.pos + 1 ≤ t'.buffer.size := by rw [hpos']; exact hlt' rfl
    refine ⟨rfl, ⟨⟨hin, hbehind.fit.sound.feed_nil⟩, hbehind.fit.length_le, hbehind.fit.proper⟩,
      ⟨⟨hin', hbehind.fit'.sound.feed_nil⟩, hbehind.fit'.length_le, hbehind.fit'.proper⟩,
      hbehind.all_eq, ?_, hbehind.buffer_le, hbehind.capacity_le⟩
    exact (congrArg (· + 1) hbehind.pos_eq).trans (Nat.add_assoc ..)

theorem reset (h : Behind pre s t) {mark : Nat} {t' : TokenStream} (ht : t.reset mark = some t') :
    ∃ s', s.reset ((pre.length + mark : Nat) : Int) = some s' ∧ Behind pre s' t' := by
  unfold TokenStream.reset at ht
  split at ht
  next hseen =>
    obtain rfl := Option.some.inj ht
    have hle' : mark ≤ t.buffer.size := by omega
    have hle : pre.length + mark ≤ s.buffer.size :=
      Nat.le_trans (Nat.add_le_add_left hle' _) h.buffer_le
    refine ⟨{ s with pos := pre.length + mark }, ?_, ?_⟩
    · rw [TokenStream.reset, if_pos ⟨by omega, by omega⟩, Int.toNat_natCast]
    · exact ⟨⟨⟨hle, h.fit.sound.feed_nil⟩, h.fit.length_le, h.fit.proper⟩,
        ⟨⟨hle', h.fit'.sound.feed_nil⟩, h.fit'.length_le, h.fit'.proper⟩, h.all_eq, rfl,
        h.buffer_le, h.capacity_le⟩
  · exact absurd ht (by simp)

end Behind

end TokenStream

/-- **A cursor behind the tokens `pre`**: the same stream behind them, and the same failures moved
on. -/
structure Cursor.Behind (pre : List Token) (c d : Cursor) : Prop where
  stream : c.stream.Behind pre d.stream
  grouping_eq : c.grouping = d.grouping
  failures_eq : c.failures = d.failures.map (Failure.moved pre.length)

end BlockLang
