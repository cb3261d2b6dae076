import BlockLang.Proofs.Resolver
import BlockLang.Proofs.Stream
import BlockLang.Token.Stream.Call

/-!
# A list with an index

What a stream does lazily, a machine does with the whole sequence at hand.  Its state is
the sequence, a place in it, and its reach: the largest sum so far of a place and the
number of tokens that were asked for from there.  Every call has the same answer from
both, and the buffer of the stream is as long as the reach demands and no longer,

    s.buffer.toList = m.all.take m.reach,

so that no token is pulled before it is needed.  `Mirrors s m` is this relation.  Each
call keeps it, `Mirrors.run`, and so does a list of calls, whatever looks ahead, steps
and ways back it mixes.

The sequence of a stream is what its feed yields: the tokens that come out one after the
other until there is none.  For a resolver that is what comes out of its own queue and
its own stack.
-/

namespace BlockLang

namespace Feed

/-- **Pulling to the end.**  The tokens that a feed gives one after the other until it gives
none. -/
inductive Yields : Feed → List Token → Prop
  | done {f f' : Feed} (h : f.pull = (none, f')) : Yields f []
  | pull {f f' : Feed} {t : Token} {ts : List Token} (h : f.pull = (some t, f'))
      (hrest : Yields f' ts) : Yields f (t :: ts)

theorem yields_iff {f : Feed} {ts : List Token} : f.Yields ts ↔ f.toList = ts := by
  constructor
  · intro h
    induction h with
    | @done f f' h =>
      have hhead := f.fst_pull
      rw [h] at hhead
      exact List.head?_eq_none_iff.1 hhead.symm
    | @pull f f' t ts h _ ih =>
      have hhead := f.fst_pull
      have htail := f.toList_snd_pull
      rw [h] at hhead htail
      cases hall : f.toList with
      | nil =>
        rw [hall] at hhead
        exact absurd hhead (by simp)
      | cons u us =>
        rw [hall] at hhead htail
        rw [← Option.some.inj hhead, ← ih, htail, List.tail_cons]
  · intro h
    induction ts generalizing f with
    | nil =>
      have hhead := f.fst_pull
      rw [h, List.head?_nil] at hhead
      exact .done (Prod.ext hhead rfl)
    | cons t ts ih =>
      have hhead := f.fst_pull
      have htail := f.toList_snd_pull
      rw [h, List.head?_cons] at hhead
      rw [h, List.tail_cons] at htail
      exact .pull (Prod.ext hhead rfl) (ih htail)

end Feed

namespace TokenStream

/-- Whether a call looks ahead, and not back into the buffer. -/
def Call.isForward : Call → Bool
  | read n | peek n => decide (0 ≤ n)
  | _ => true

/-- Carries out calls in order. -/
def runCalls (s : TokenStream) : List Call → List Answer × TokenStream
  | [] => ([], s)
  | call :: calls =>
    let (answer, s) := call.run s
    let (answers, s) := runCalls s calls
    (answer :: answers, s)

/-- **At its start**: nothing pulled yet, from a feed that yields `all`. -/
structure Starts (s : TokenStream) (all : List Token) : Prop where
  buffer_eq : s.buffer = #[]
  pos_eq : s.pos = 0
  exhausted_eq : s.exhausted = false
  yields : s.feed.Yields all
  length_le : all.length ≤ s.capacity

theorem starts_ofTokens (ts : List Token) : (ofTokens ts).Starts ts :=
  ⟨rfl, rfl, rfl, Feed.yields_iff.2 rfl, Nat.le_refl _⟩

theorem starts_ofResolver (ts : List Token) : (ofResolver ts).Starts (resolve ts) :=
  ⟨rfl, rfl, rfl, Feed.yields_iff.2 rfl, Nat.le_of_eq (resolve_perm ts).length_eq⟩

theorem starts_ofSource (source : String) (g : Grouping) :
    (ofSource source g).Starts (ofSource source g).all := by
  cases g with
  | byPrecedence => exact starts_ofResolver (tokenize source)
  | rightward => exact starts_ofTokens (tokenize source)

/-- **The machine**: a sequence, a place in it, and how far it was ever asked for. -/
structure Machine where
  all : List Token
  place : Nat := 0
  reach : Nat := 0
  deriving Repr, DecidableEq

namespace Machine

/-- The tokens from the place on. -/
def ahead (m : Machine) : List Token :=
  m.all.drop m.place

/-- The number of tokens that are there of those asked for. -/
def seen (m : Machine) : Nat :=
  min m.all.length m.reach

/-- Asks for `n` tokens from the place on. -/
def demand (m : Machine) (n : Nat) : Machine :=
  { m with reach := max m.reach (m.place + n) }

/-- The number of tokens that are looked at, one by one, until `n` are found that are no blanks.  A
look beyond the last token is one, too. -/
def looks : Nat → List Token → Nat
  | 0, _ => 0
  | _ + 1, [] => 1
  | n + 1, t :: ts => 1 + if t.isWhitespace then looks (n + 1) ts else looks n ts

/-- The kinds of the next `n` tokens that are no blanks. -/
def kinds (m : Machine) (n : Nat) : List TokenKind :=
  ((m.ahead.filter Token.counts).take n).map Token.kind

/-- Looks for `n` tokens that are no blanks. -/
def look (m : Machine) (n : Nat) : Machine :=
  m.demand (looks n m.ahead)

/-- Whether the next tokens that are no blanks are of the given kinds. -/
def starts (m : Machine) (ks : List TokenKind) : Answer × Machine :=
  (.flag (m.kinds ks.length = ks), m.look ks.length)

/-- **Carries out one call.** -/
def run (m : Machine) : Call → Answer × Machine
  | .fill n => (.done, m.demand n.toNat)
  | .read n => (.tokens (m.ahead.take n.toNat), m.demand n.toNat)
  | .peek n => (.token m.all[m.place + n.toNat]?, m.demand (n.toNat + 1))
  | .next =>
    (.token m.all[m.place]?,
      { m.demand 1 with place := if m.place = m.all.length then m.place else m.place + 1 })
  | .rest => (.tokens m.ahead, { m.demand (m.ahead.length + 1) with place := m.all.length })
  | .mark => (.place m.place, m)
  | .reset i => if i < 0 ∨ m.seen < i then (.refused i, m) else (.done, { m with place := i.toNat })
  | .significant n => (.kinds (m.kinds n.toNat), m.look n.toNat)
  | .startsWith ks => m.starts ks
  | .startsWithLet => m.starts [.letWord]
  | .startsDeclaration => m.starts [.letWord, .ident, .semi]
  | .startsInitialization => m.starts [.letWord, .ident, .equals]
  | .startsAssignment => m.starts [.ident, .equals]

/-- Carries out calls in order. -/
def runAll (m : Machine) : List Call → List Answer × Machine
  | [] => ([], m)
  | call :: calls =>
    let (answer, m) := m.run call
    let (answers, m) := runAll m calls
    (answer :: answers, m)

theorem all_run (m : Machine) (call : Call) : (m.run call).2.all = m.all := by
  cases call with
  | reset i =>
    rw [run]
    split <;> rfl
  | _ => rfl

theorem all_runAll (m : Machine) (calls : List Call) : (m.runAll calls).2.all = m.all := by
  induction calls generalizing m with
  | nil => rfl
  | cons call calls ih =>
    show ((m.run call).2.runAll calls).2.all = m.all
    rw [ih, all_run]

theorem demand_demand (m : Machine) (a b : Nat) : (m.demand a).demand b = m.demand (max a b) := by
  simp only [demand, Machine.mk.injEq, true_and]
  omega

end Machine

/-- **A stream does as the machine does**: the same sequence and the same place, and of the
sequence as much in the buffer as was asked for. -/
structure Mirrors (s : TokenStream) (m : Machine) : Prop where
  sound : s.Sound
  all_eq : s.all = m.all
  pos_eq : s.pos = m.place
  buffer_eq : s.buffer.toList = m.all.take m.reach
  length_le : m.all.length ≤ s.capacity

variable {s : TokenStream} {m : Machine}

theorem Starts.mirrors {all : List Token} (h : s.Starts all) : s.Mirrors { all } := by
  have hfeed := Feed.yields_iff.1 h.yields
  refine ⟨⟨?_, ?_⟩, ?_, h.pos_eq, ?_, h.length_le⟩
  · rw [h.pos_eq]
    exact Nat.zero_le _
  · intro he
    rw [h.exhausted_eq] at he
    exact absurd he Bool.false_ne_true
  · rw [TokenStream.all, h.buffer_eq, hfeed]
    rfl
  · rw [h.buffer_eq]
    rfl

namespace Mirrors

theorem size_buffer (h : s.Mirrors m) : s.buffer.size = m.seen := by
  rw [← Array.length_toList, h.buffer_eq, List.length_take, Machine.seen, Nat.min_comm]

theorem place_le (h : s.Mirrors m) : m.place ≤ m.all.length := by
  have hpos := h.sound.pos_le
  rw [h.pos_eq, h.size_buffer] at hpos
  exact Nat.le_trans hpos (Nat.min_le_left _ _)

theorem fill (h : s.Mirrors m) (n : Nat) : (s.fill n).Mirrors (m.demand n) := by
  have hpos := h.sound.pos_le
  have hsize := h.size_buffer
  rw [Machine.seen] at hsize
  refine ⟨h.sound.fill n, ?_, ?_, ?_, ?_⟩
  · rw [all_fill, h.all_eq]
    rfl
  · rw [pos_fill, h.pos_eq]
    rfl
  · show (pullMany _ s).buffer.toList = m.all.take (max m.reach (m.place + n))
    rw [toList_buffer_pullMany h.sound, h.all_eq, ← h.pos_eq]
    by_cases hreach : m.reach ≤ m.all.length
    · congr 1
      omega
    · rw [List.take_of_length_le (by omega), List.take_of_length_le (by omega)]
  · have halong : s.Along (s.fill n) := along_pullMany h.sound _
    rw [halong.capacity_eq]
    exact h.length_le

theorem peek (h : s.Mirrors m) (n : Nat) :
    (s.peek n).1 = m.all[m.place + n]? ∧ (s.peek n).2.Mirrors (m.demand (n + 1)) := by
  refine ⟨?_, h.fill (n + 1)⟩
  rw [fst_peek h.sound, h.all_eq, h.pos_eq]

theorem read (h : s.Mirrors m) (n : Nat) :
    (s.read n).1 = m.ahead.take n ∧ (s.read n).2.Mirrors (m.demand n) := by
  have hfill := h.fill n
  refine ⟨?_, hfill⟩
  show ((s.fill n).buffer.toList.drop (s.fill n).pos).take n = m.ahead.take n
  rw [hfill.buffer_eq, hfill.pos_eq]
  show ((m.all.take (max m.reach (m.place + n))).drop m.place).take n = (m.all.drop m.place).take n
  rw [List.drop_take, List.take_take, Nat.min_eq_left (by omega)]

theorem move (h : s.Mirrors m) {i : Nat} (hi : i ≤ m.seen) :
    Mirrors { s with pos := i } { m with place := i } := by
  refine ⟨⟨?_, h.sound.feed_nil⟩, h.all_eq, rfl, h.buffer_eq, h.length_le⟩
  show i ≤ s.buffer.size
  rw [h.size_buffer]
  exact hi

theorem next (h : s.Mirrors m) :
    s.next.1 = m.all[m.place]? ∧ s.next.2.Mirrors
      { m.demand 1 with place := if m.place = m.all.length then m.place else m.place + 1 } := by
  obtain ⟨hlook, hrest⟩ := h.peek 0
  have hle := h.place_le
  unfold TokenStream.next
  rcases hp : s.peek 0 with ⟨_ | t, s'⟩
  · rw [hp] at hlook hrest
    have hend := List.getElem?_eq_none_iff.1 hlook.symm
    refine ⟨hlook, ?_⟩
    rw [if_pos (by omega)]
    exact hrest
  · rw [hp] at hlook hrest
    obtain ⟨hlt, -⟩ := List.getElem?_eq_some_iff.1 hlook.symm
    refine ⟨hlook, ?_⟩
    rw [if_neg (by omega)]
    have hpos : s'.pos = m.place := hrest.pos_eq
    have hmove := hrest.move (i := m.place + 1) (by
      simp only [Machine.seen, Machine.demand]
      omega)
    rw [← hpos] at hmove ⊢
    exact hmove

theorem reset (h : s.Mirrors m) (i : Int) :
    s.reset i = if i < 0 ∨ m.seen < i then none else some { s with pos := i.toNat } := by
  rw [TokenStream.reset, h.size_buffer]
  by_cases hi : 0 ≤ i ∧ i ≤ m.seen
  · rw [if_pos hi, if_neg (by omega)]
  · rw [if_neg hi, if_pos (by omega)]

theorem drain (h : s.Mirrors m) (fuel : Nat) (hfuel : m.ahead.length < fuel) :
    (TokenStream.drain fuel s).1 = m.ahead ∧ (TokenStream.drain fuel s).2.Mirrors
      { m.demand (m.ahead.length + 1) with place := m.all.length } := by
  induction fuel generalizing s m with
  | zero => omega
  | succ fuel ih =>
    obtain ⟨hnext, hrest⟩ := h.next
    have hle := h.place_le
    unfold TokenStream.drain
    rcases hs : s.next with ⟨_ | t, s'⟩
    · rw [hs] at hnext hrest
      have hend := List.getElem?_eq_none_iff.1 hnext.symm
      have hahead : m.ahead = [] := List.drop_of_length_le hend
      have hplace : m.place = m.all.length := by omega
      rw [if_pos hplace] at hrest
      rw [hahead, ← hplace]
      exact ⟨rfl, hrest⟩
    · rw [hs] at hnext hrest
      obtain ⟨hlt, ht⟩ := List.getElem?_eq_some_iff.1 hnext.symm
      have hahead : m.ahead = t :: m.all.drop (m.place + 1) := by
        rw [Machine.ahead, List.drop_eq_getElem_cons hlt, ht]
      rw [if_neg (by omega)] at hrest
      have hlen : m.ahead.length = (m.all.drop (m.place + 1)).length + 1 := by
        rw [hahead, List.length_cons]
      obtain ⟨hts, hmirrors⟩ := ih hrest (by
        simp only [Machine.ahead, Machine.demand]
        omega)
      refine ⟨?_, ?_⟩
      · show t :: (TokenStream.drain fuel s').1 = m.ahead
        rw [hts, hahead]
        rfl
      · have hdemand : max (max m.reach (m.place + 1))
            (m.place + 1 + ((m.all.drop (m.place + 1)).length + 1))
            = max m.reach (m.place + (m.ahead.length + 1)) := by
          omega
        simp only [Machine.demand, Machine.ahead] at hmirrors hdemand ⊢
        rw [← hdemand]
        exact hmirrors

/-- **Looking for a token that is no blank.**  All tokens up to the first such are asked for, and a
look for `n` more goes on behind it.  If there is none, the look beyond the last token is asked for,
too. -/
theorem seek (h : s.Mirrors m) (fuel i : Nat) {ts : List Token}
    (hts : m.all.drop (m.place + i) = ts) (hfuel : ts.length < fuel) :
    ((TokenStream.seek fuel i s).1 = none ∧ ts.filter Token.counts = []
        ∧ (∀ n, Machine.looks (n + 1) ts = ts.length + 1)
        ∧ (TokenStream.seek fuel i s).2.Mirrors (m.demand (i + (ts.length + 1))))
      ∨ ∃ j t, (TokenStream.seek fuel i s).1 = some (j, t) ∧ i ≤ j
        ∧ ts.filter Token.counts = t :: (m.all.drop (m.place + (j + 1))).filter Token.counts
        ∧ (∀ n, i + Machine.looks (n + 1) ts
          = j + 1 + Machine.looks n (m.all.drop (m.place + (j + 1))))
        ∧ (TokenStream.seek fuel i s).2.Mirrors (m.demand (j + 1)) := by
  induction ts generalizing fuel i s m with
  | nil =>
    obtain ⟨fuel, rfl⟩ : ∃ k, fuel = k + 1 := ⟨fuel - 1, by omega⟩
    obtain ⟨hlook, hrest⟩ := h.peek i
    have hend := List.drop_eq_nil_iff.1 hts
    rw [List.getElem?_eq_none_iff.2 hend] at hlook
    rw [TokenStream.seek]
    rcases hp : s.peek i with ⟨found, s'⟩
    rw [hp] at hlook hrest
    obtain rfl : found = none := hlook
    refine .inl ⟨rfl, rfl, fun n => rfl, hrest⟩
  | cons t ts ih =>
    rw [List.length_cons] at hfuel
    obtain ⟨fuel, rfl⟩ : ∃ k, fuel = k + 1 := ⟨fuel - 1, by omega⟩
    obtain ⟨hlook, hrest⟩ := h.peek i
    have hnext : m.all.drop (m.place + (i + 1)) = ts := by
      rw [← Nat.add_assoc, ← List.drop_drop, hts]
      rfl
    have hhead : m.all[m.place + i]? = some t := by
      rw [← List.head?_drop, hts, List.head?_cons]
    rw [hhead] at hlook
    rw [TokenStream.seek]
    rcases hp : s.peek i with ⟨found, s'⟩
    rw [hp] at hlook hrest
    obtain rfl : found = some t := hlook
    by_cases ht : t.isWhitespace = true
    · have hcounts : ¬ t.counts = true := by simp [Token.counts, ht]
      have hgo := ih hrest fuel (i + 1) hnext (by omega)
      simp only [if_pos ht, List.filter_cons_of_neg hcounts, Machine.looks, Machine.demand_demand]
        at hgo ⊢
      rcases hgo with ⟨hnone, hfilter, hlooks, hmirrors⟩
        | ⟨j, u, hsome, hle, hfilter, hlooks, hmirrors⟩
      · refine .inl ⟨hnone, hfilter, fun n => by rw [hlooks n, List.length_cons]; omega, ?_⟩
        have hmax : max (i + 1) (i + 1 + (ts.length + 1)) = i + ((t :: ts).length + 1) := by
          rw [List.length_cons]
          omega
        rw [← hmax]
        exact hmirrors
      · refine .inr ⟨j, u, hsome, by omega, hfilter, fun n => ?_, ?_⟩
        · have hn := hlooks n
          simp only [Machine.demand] at hn
          omega
        · have hmax : max (i + 1) (j + 1) = j + 1 := by omega
          rw [hmax] at hmirrors
          exact hmirrors
    · have hcounts : t.counts = true := by simpa [Token.counts] using ht
      simp only [if_neg ht, List.filter_cons_of_pos hcounts, Machine.looks]
      refine .inr ⟨i, t, rfl, Nat.le_refl _, by rw [hnext], fun n => ?_, hrest⟩
      rw [hnext]
      omega

theorem significantFrom (h : s.Mirrors m) (n : Nat) {i : Nat} (hi : m.place + i ≤ m.reach) :
    (TokenStream.significantFrom n i s).1
        = (((m.all.drop (m.place + i)).filter Token.counts).take n).map Token.kind
      ∧ (TokenStream.significantFrom n i s).2.Mirrors
        (m.demand (i + Machine.looks n (m.all.drop (m.place + i)))) := by
  induction n generalizing i s m with
  | zero =>
    have hsame : m.demand (i + Machine.looks 0 (m.all.drop (m.place + i))) = m := by
      simp only [Machine.demand, Machine.looks]
      rw [Nat.max_eq_left (by omega)]
    rw [hsame]
    exact ⟨rfl, h⟩
  | succ n ih =>
    have hlen := h.length_le
    have hseek := h.seek (s.capacity + 1) i rfl (by rw [List.length_drop]; omega)
    rw [TokenStream.significantFrom]
    rcases hs : TokenStream.seek (s.capacity + 1) i s with ⟨_ | ⟨j, t⟩, s'⟩
    · rw [hs] at hseek
      rcases hseek with ⟨-, hfilter, hlooks, hmirrors⟩ | ⟨_, _, hsome, -⟩
      · rw [hfilter, hlooks]
        exact ⟨rfl, hmirrors⟩
      · exact absurd hsome (by simp)
    · rw [hs] at hseek
      rcases hseek with ⟨hnone, -⟩ | ⟨j', t', hsome, -, hfilter, hlooks, hmirrors⟩
      · exact absurd hnone (by simp)
      · obtain ⟨rfl, rfl⟩ : j = j' ∧ t = t' := by simpa using hsome
        obtain ⟨hkinds, hrest⟩ := ih hmirrors (i := j + 1) (by simp only [Machine.demand]; omega)
        refine ⟨?_, ?_⟩
        · show t.kind :: (TokenStream.significantFrom n (j + 1) s').1 = _
          rw [hkinds, hfilter]
          rfl
        · rw [Machine.demand_demand, Nat.max_eq_right (by omega)] at hrest
          rw [hlooks]
          exact hrest

theorem significant (h : s.Mirrors m) (n : Nat) :
    (s.significant n).1 = m.kinds n ∧ (s.significant n).2.Mirrors (m.look n) := by
  have hpos := h.sound.pos_le
  rw [h.pos_eq, h.size_buffer, Machine.seen] at hpos
  have hspec := h.significantFrom n (i := 0) (by omega)
  rw [Nat.zero_add] at hspec
  exact hspec

theorem startsWith (h : s.Mirrors m) (ks : List TokenKind) :
    .flag (s.startsWith ks).1 = (m.starts ks).1 ∧ (s.startsWith ks).2.Mirrors (m.starts ks).2 := by
  obtain ⟨hkinds, hrest⟩ := h.significant ks.length
  refine ⟨?_, hrest⟩
  show Answer.flag (decide ((s.significant ks.length).1 = ks)) = .flag (decide (_ = ks))
  rw [hkinds]

/-- **One call.**  The stream answers as the machine does, and goes on doing as it does. -/
theorem run (h : s.Mirrors m) {call : Call} (hcall : call.isForward = true) :
    (call.run s).1 = (m.run call).1 ∧ (call.run s).2.Mirrors (m.run call).2 := by
  cases call with
  | fill n => exact ⟨rfl, h.fill n.toNat⟩
  | read n =>
    rw [Call.run, if_pos (of_decide_eq_true hcall)]
    obtain ⟨hts, hrest⟩ := h.read n.toNat
    exact ⟨congrArg Answer.tokens hts, hrest⟩
  | peek n =>
    rw [Call.run, if_pos (of_decide_eq_true hcall)]
    obtain ⟨ht, hrest⟩ := h.peek n.toNat
    exact ⟨congrArg Answer.token ht, hrest⟩
  | next =>
    obtain ⟨ht, hrest⟩ := h.next
    exact ⟨congrArg Answer.token ht, hrest⟩
  | rest =>
    have hlen := h.length_le
    obtain ⟨hts, hrest⟩ := h.drain (s.capacity + 1) (by
      rw [Machine.ahead, List.length_drop]
      omega)
    exact ⟨congrArg Answer.tokens hts, hrest⟩
  | mark => exact ⟨congrArg Answer.place h.pos_eq, h⟩
  | reset i =>
    rw [Call.run, h.reset, Machine.run]
    by_cases hi : i < 0 ∨ m.seen < i
    · rw [if_pos hi, if_pos hi]
      exact ⟨rfl, h⟩
    · rw [if_neg hi, if_neg hi]
      exact ⟨rfl, h.move (by omega)⟩
  | significant n =>
    obtain ⟨hkinds, hrest⟩ := h.significant n.toNat
    exact ⟨congrArg Answer.kinds hkinds, hrest⟩
  | startsWith ks => exact h.startsWith ks
  | startsWithLet => exact h.startsWith [.letWord]
  | startsDeclaration => exact h.startsWith [.letWord, .ident, .semi]
  | startsInitialization => exact h.startsWith [.letWord, .ident, .equals]
  | startsAssignment => exact h.startsWith [.ident, .equals]

theorem runCalls {calls : List Call} (h : s.Mirrors m)
    (hcalls : ∀ call ∈ calls, call.isForward = true) :
    (s.runCalls calls).1 = (m.runAll calls).1
      ∧ (s.runCalls calls).2.Mirrors (m.runAll calls).2 := by
  induction calls generalizing s m with
  | nil => exact ⟨rfl, h⟩
  | cons call calls ih =>
    obtain ⟨hanswer, hnext⟩ := h.run (hcalls call List.mem_cons_self)
    obtain ⟨hanswers, hend⟩ := ih hnext (fun c hc => hcalls c (List.mem_cons_of_mem call hc))
    refine ⟨?_, hend⟩
    show (call.run s).1 :: ((call.run s).2.runCalls calls).1 = _
    rw [hanswer, hanswers]
    rfl

end Mirrors

/-- **A lazy stream is a list with an index.**  From the start of a stream whose feed yields `all`,
calls that look ahead have the same answers as from the machine over `all`, and leave the stream at
the machine's place.  In the buffer is the first part of `all`, as long as the largest sum of a
place and a demand so far, or all of it; the place is in it; and a place to go back to is refused,
with nothing changed, exactly if it is not in it. -/
theorem runCalls_eq_runAll {s : TokenStream} {all : List Token} (hs : s.Starts all)
    {calls : List Call} (hcalls : ∀ call ∈ calls, call.isForward = true) :
    ∃ answers s' m, s.runCalls calls = (answers, s')
      ∧ Machine.runAll { all } calls = (answers, m)
      ∧ s'.pos = m.place
      ∧ s'.buffer.toList = all.take (min all.length m.reach)
      ∧ s'.buffer.size = min all.length m.reach
      ∧ s'.pos ≤ s'.buffer.size
      ∧ ∀ i : Int, (Call.reset i).run s' = (.refused i, s') ↔ i < 0 ∨ s'.buffer.size < i := by
  obtain ⟨hanswers, hend⟩ := hs.mirrors.runCalls hcalls
  have hall : (Machine.runAll { all } calls).2.all = all := Machine.all_runAll { all } calls
  have hsize := hend.size_buffer
  rw [Machine.seen, hall] at hsize
  refine ⟨_, _, (Machine.runAll { all } calls).2, rfl, Prod.ext hanswers.symm rfl, hend.pos_eq, ?_,
    hsize, hend.sound.pos_le, fun i => ?_⟩
  · rw [hend.buffer_eq, hall, List.take_eq_take_min, Nat.min_comm]
  · rw [Call.run, hend.reset, ← hend.size_buffer]
    by_cases hi : i < 0 ∨ (s.runCalls calls).2.buffer.size < i
    · rw [if_pos hi]
      exact iff_of_true rfl hi
    · rw [if_neg hi]
      exact iff_of_false (by simp) hi

/-- Two looks ahead, a step, a way on that is refused, one back that is not, and a read beyond the
end. -/
def interleaved : List Call :=
  [.peek 1, .next, .significant 2, .reset 4, .reset 0, .read 9]

/-- Calls on the tokens `1 2 + ;` and the end mark, which a resolver makes of `1+2;` on the way. -/
theorem runCalls_eq_runAll_interleaved :
    (ofSource "1+2;" .byPrecedence).Starts (resolve (tokenize "1+2;"))
      ∧ (∀ call ∈ interleaved, call.isForward = true)
      ∧ ∃ answers s' m, (ofSource "1+2;" .byPrecedence).runCalls interleaved = (answers, s')
        ∧ Machine.runAll { all := resolve (tokenize "1+2;") } interleaved = (answers, m)
        ∧ s'.pos = m.place
        ∧ s'.buffer.toList
          = (resolve (tokenize "1+2;")).take (min (resolve (tokenize "1+2;")).length m.reach)
        ∧ s'.buffer.size = min (resolve (tokenize "1+2;")).length m.reach
        ∧ s'.pos ≤ s'.buffer.size
        ∧ ∀ i : Int, (Call.reset i).run s' = (.refused i, s') ↔ i < 0 ∨ s'.buffer.size < i :=
  ⟨starts_ofSource _ _, by decide, runCalls_eq_runAll (starts_ofSource _ _) (by decide)⟩

example : ((ofSource "1+2;" .byPrecedence).runCalls interleaved).1
    = [.token (some (.of .number "2")), .token (some (.of .number "1")), .kinds [.number, .plus],
        .refused 4, .done, .tokens [.of .number "1", .of .number "2", .of .plus "+", .of .semi ";",
          .endMark]] := by
  decide

end TokenStream

end BlockLang
