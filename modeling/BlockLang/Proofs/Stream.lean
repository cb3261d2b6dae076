import BlockLang.Proofs.Lexer
import BlockLang.Token.Stream

/-!
# What a stream has ahead

The parser never looks at blanks, so what matters of a stream is the list of tokens
ahead of its place with the blanks left out, `TokenStream.ahead`.  Looking ahead shows
the first tokens of that list and changes neither it nor the place:

    s.peekSignificant.1 = s.ahead.head?.

`Along s s'` says that `s'` is a later state of `s`: the same sequence, with no less of
it in the buffer, at some place in the buffer.
-/

namespace BlockLang

namespace Token

/-- Whether a token counts for the parser, that is, is no blank. -/
def counts (t : Token) : Bool :=
  !t.isWhitespace

end Token

namespace TokenStream

/-- The tokens from the `i`-th of the sequence on that are no blanks. -/
def aheadAt (s : TokenStream) (i : Nat) : List Token :=
  (s.all.drop i).filter Token.counts

/-- The tokens ahead that are no blanks. -/
def ahead (s : TokenStream) : List Token :=
  s.aheadAt s.pos

theorem aheadAt_of_none {s : TokenStream} {i : Nat} (h : s.all[i]? = none) : s.aheadAt i = [] := by
  rw [aheadAt, List.drop_eq_nil_of_le (List.getElem?_eq_none_iff.1 h), List.filter_nil]

theorem drop_of_getElem? {s : TokenStream} {i : Nat} {t : Token} (h : s.all[i]? = some t) :
    s.all.drop i = t :: s.all.drop (i + 1) := by
  obtain ⟨hlt, ht⟩ := List.getElem?_eq_some_iff.1 h
  rw [← ht]
  exact List.drop_eq_getElem_cons hlt

theorem aheadAt_of_blank {s : TokenStream} {i : Nat} {t : Token} (h : s.all[i]? = some t)
    (hb : t.isWhitespace = true) : s.aheadAt i = s.aheadAt (i + 1) := by
  rw [aheadAt, drop_of_getElem? h, List.filter_cons_of_neg (by simp [Token.counts, hb]), aheadAt]

theorem aheadAt_of_counts {s : TokenStream} {i : Nat} {t : Token} (h : s.all[i]? = some t)
    (hb : ¬ t.isWhitespace = true) : s.aheadAt i = t :: s.aheadAt (i + 1) := by
  rw [aheadAt, drop_of_getElem? h, List.filter_cons_of_pos (by simpa [Token.counts] using hb),
    aheadAt]

/-- **A later state of a stream**: the same sequence, at any place in a buffer that only grew. -/
structure Along (s s' : TokenStream) : Prop where
  sound : s'.Sound
  all_eq : s'.all = s.all
  capacity_eq : s'.capacity = s.capacity
  buffer_le : s.buffer.size ≤ s'.buffer.size

theorem Sound.along {s : TokenStream} (h : s.Sound) : s.Along s :=
  ⟨h, rfl, rfl, Nat.le_refl _⟩

theorem Sound.pos_le_length {s : TokenStream} (h : s.Sound) : s.pos ≤ s.all.length := by
  have hbuffer : s.buffer.size ≤ s.all.length := by simp [all]
  exact Nat.le_trans h.pos_le hbuffer

theorem Along.trans {s s' s'' : TokenStream} (h : s.Along s') (h' : s'.Along s'') : s.Along s'' :=
  ⟨h'.sound, h'.all_eq.trans h.all_eq, h'.capacity_eq.trans h.capacity_eq,
    Nat.le_trans h.buffer_le h'.buffer_le⟩

theorem Along.aheadAt_eq {s s' : TokenStream} (h : s.Along s') (i : Nat) :
    s'.aheadAt i = s.aheadAt i := by
  rw [aheadAt, h.all_eq, aheadAt]

theorem Along.ahead_eq {s s' : TokenStream} (h : s.Along s') (hp : s'.pos = s.pos) :
    s'.ahead = s.ahead := by
  rw [ahead, hp, h.aheadAt_eq, ahead]

/-! ### Pulling and looking -/

@[simp] theorem capacity_pull (s : TokenStream) : s.pull.capacity = s.capacity := by
  unfold pull; split <;> rfl

theorem size_buffer_le_pull (s : TokenStream) : s.buffer.size ≤ s.pull.buffer.size := by
  rcases s.pull_eq with ⟨t, rest, _, hb, _, _⟩ | ⟨_, hb, _⟩
  · rw [hb, Array.size_push]; exact Nat.le_succ _
  · exact Nat.le_of_eq (congrArg Array.size hb.symm)

theorem along_pullMany {s : TokenStream} (hs : s.Sound) (n : Nat) : s.Along (pullMany n s) := by
  induction n generalizing s with
  | zero => exact hs.along
  | succ n ih =>
    unfold pullMany
    split
    · exact hs.along
    · exact Along.trans ⟨hs.pull, s.all_pull, s.capacity_pull, s.size_buffer_le_pull⟩ (ih hs.pull)

theorem along_peek {s : TokenStream} (hs : s.Sound) (n : Nat) : s.Along (s.peek n).2 :=
  along_pullMany hs _

theorem lt_size_of_peek {s : TokenStream} {n : Nat} {t : Token} (h : (s.peek n).1 = some t) :
    s.pos + n < (s.peek n).2.buffer.size := by
  simp only [peek, pos_fill] at h ⊢
  exact (Array.getElem?_eq_some_iff.1 h).1

/-- **Looking for a token that is no blank.**  The search finds the first one that is ahead, and
there is none if it finds none. -/
theorem seek_spec (fuel i : Nat) {s : TokenStream} (hs : s.Sound)
    (hf : s.all.length < s.pos + i + fuel) :
    s.Along (seek fuel i s).2 ∧ (seek fuel i s).2.pos = s.pos ∧
      match (seek fuel i s).1 with
      | none => s.aheadAt (s.pos + i) = []
      | some (j, t) => s.aheadAt (s.pos + i) = t :: s.aheadAt (s.pos + (j + 1)) := by
  induction fuel generalizing i s with
  | zero =>
    refine ⟨hs.along, rfl, ?_⟩
    simp only [seek, aheadAt]
    rw [List.drop_eq_nil_of_le (by omega), List.filter_nil]
  | succ fuel ih =>
    have hlook := fst_peek hs i
    have halong := along_peek hs i
    have hpos := s.pos_snd_peek i
    unfold seek
    rcases hp : s.peek i with ⟨_ | t, s'⟩
    · rw [hp] at hlook halong hpos
      exact ⟨halong, hpos, aheadAt_of_none hlook.symm⟩
    · rw [hp] at hlook halong hpos
      simp only at hlook halong hpos ⊢
      by_cases hb : t.isWhitespace = true
      · rw [if_pos hb]
        have hrest := ih (i + 1) halong.sound (by rw [halong.all_eq, hpos]; omega)
        refine ⟨halong.trans hrest.1, hrest.2.1.trans hpos, ?_⟩
        have hfound := hrest.2.2
        simp only [halong.aheadAt_eq, hpos, ← Nat.add_assoc] at hfound ⊢
        rw [aheadAt_of_blank hlook.symm hb]
        exact hfound
      · rw [if_neg hb]
        exact ⟨halong, hpos, aheadAt_of_counts hlook.symm hb⟩

/-- **Fit to be parsed**: a sound stream of proper tokens with room for all of them. -/
structure Fit (s : TokenStream) : Prop where
  sound : s.Sound
  length_le : s.all.length ≤ s.capacity
  proper : ∀ t ∈ s.all, t.Proper

theorem Along.fit {s s' : TokenStream} (h : s.Along s') (hs : s.Fit) : s'.Fit :=
  ⟨h.sound, by rw [h.all_eq, h.capacity_eq]; exact hs.length_le,
    by rw [h.all_eq]; exact hs.proper⟩

theorem peekSignificant_spec {s : TokenStream} (hs : s.Fit) :
    s.peekSignificant.1 = s.ahead.head? ∧ s.Along s.peekSignificant.2
      ∧ s.peekSignificant.2.pos = s.pos := by
  have hlen := hs.length_le
  have hspec := seek_spec (s.capacity + 1) 0 hs.sound (by omega)
  refine ⟨?_, hspec.1, hspec.2.1⟩
  have hfound := hspec.2.2
  simp only [peekSignificant, ahead]
  rcases hseek : (seek (s.capacity + 1) 0 s).1 with _ | ⟨j, t⟩
  · rw [hseek] at hfound
    simp only [Nat.add_zero] at hfound
    rw [hfound]
    rfl
  · rw [hseek] at hfound
    simp only [Nat.add_zero] at hfound
    rw [hfound]
    rfl

theorem significantFrom_spec (n i : Nat) {s : TokenStream} (hs : s.Fit) :
    (significantFrom n i s).1 = ((s.aheadAt (s.pos + i)).take n).map Token.kind
      ∧ s.Along (significantFrom n i s).2 ∧ (significantFrom n i s).2.pos = s.pos := by
  induction n generalizing i s with
  | zero => exact ⟨by simp [significantFrom], hs.sound.along, rfl⟩
  | succ n ih =>
    have hlen := hs.length_le
    have hspec := seek_spec (s.capacity + 1) i hs.sound (by omega)
    unfold significantFrom
    rcases hseek : seek (s.capacity + 1) i s with ⟨_ | ⟨j, t⟩, s'⟩
    · rw [hseek] at hspec
      refine ⟨?_, hspec.1, hspec.2.1⟩
      rw [hspec.2.2]
      rfl
    · rw [hseek] at hspec
      obtain ⟨halong, hpos, hfound⟩ := hspec
      have hrest := ih (j + 1) (halong.fit hs)
      refine ⟨?_, halong.trans hrest.2.1, hrest.2.2.trans hpos⟩
      simp only at hpos hfound halong ⊢
      rw [hfound, hrest.1, halong.aheadAt_eq, hpos]
      rfl

/-- Whether `<name> =` comes next shows in the first two tokens ahead. -/
theorem startsAssignment_spec {s : TokenStream} (hs : s.Fit) :
    s.startsAssignment.1 = decide ((s.ahead.take 2).map Token.kind = [.ident, .equals])
      ∧ s.Along s.startsAssignment.2 ∧ s.startsAssignment.2.pos = s.pos := by
  have hspec := significantFrom_spec 2 0 hs
  refine ⟨?_, hspec.2⟩
  have hkinds : (s.significant 2).1 = (s.ahead.take 2).map Token.kind := hspec.1
  simp only [startsAssignment, startsWith, List.length_cons, List.length_nil, hkinds]

/-! ### Moving -/

theorem next_spec {s : TokenStream} (hs : s.Sound) :
    s.next.1 = s.all[s.pos]? ∧ s.Along s.next.2
      ∧ s.next.2.pos = if s.pos < s.all.length then s.pos + 1 else s.pos := by
  have hlook := fst_peek hs 0
  have halong := along_peek hs 0
  have hpos := s.pos_snd_peek 0
  have hlt := @lt_size_of_peek s 0
  unfold next
  rcases hp : s.peek 0 with ⟨_ | t, s'⟩
  · rw [hp] at hlook halong hpos
    refine ⟨hlook, halong, ?_⟩
    have hle : s.all.length ≤ s.pos := List.getElem?_eq_none_iff.1 hlook.symm
    rw [if_neg (Nat.not_lt.2 hle)]
    exact hpos
  · rw [hp] at hlook halong hpos hlt
    refine ⟨hlook, ⟨⟨?_, halong.sound.feed_nil⟩, halong.all_eq, halong.capacity_eq,
      halong.buffer_le⟩, ?_⟩
    · have := hlt rfl
      simp only [Nat.add_zero] at this hpos
      simp only [hpos]
      exact this
    · have hin : s.pos < s.all.length := (List.getElem?_eq_some_iff.1 hlook.symm).1
      rw [if_pos hin]
      simp only at hpos ⊢
      rw [hpos]

theorem reset_spec {s : TokenStream} (hs : s.Sound) {mark : Nat} (hm : mark ≤ s.buffer.size) :
    ∃ s', s.reset mark = some s' ∧ s.Along s' ∧ s'.pos = mark := by
  refine ⟨{ s with pos := mark }, ?_, ⟨⟨hm, hs.feed_nil⟩, rfl, rfl, Nat.le_refl _⟩, rfl⟩
  rw [reset, if_pos ⟨by omega, by omega⟩]
  simp

theorem reset_eq_none {s : TokenStream} {mark : Nat} (hm : ¬ mark ≤ s.buffer.size) :
    s.reset mark = none := by
  rw [reset, if_neg (by omega)]

end TokenStream

end BlockLang
