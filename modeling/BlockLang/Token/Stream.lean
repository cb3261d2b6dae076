import BlockLang.Token.Lexer
import BlockLang.Token.Resolver

/-!
# Token streams

A token stream is read from the front with any depth of lookahead, and can be moved
back to any place already seen.  Tokens are pulled from their feed only when they
are asked for, and stay in a buffer, so that looking again costs nothing.

`TokenStream.all` is the whole sequence, what is buffered and what is still to be
pulled; no operation changes it.  Seen through it, a sound stream, one whose place is
in its buffer and that is exhausted only when its feed is empty, is a list with an
index:

    (s.peek n).1 = s.all[s.pos + n]?.
-/

namespace BlockLang

/-- How operations group: by the ranks of their operators, or to the right. -/
inductive Grouping where
  | byPrecedence
  | rightward
  deriving Repr, DecidableEq, Inhabited

/-- Where a stream's tokens come from: a list as it stands, or a resolver. -/
inductive Feed where
  | plain (rest : List Token)
  | resolved (r : Resolver)
  deriving Repr, DecidableEq

namespace Feed

/-- Everything that is still to come. -/
def toList : Feed → List Token
  | plain rest => rest
  | resolved r => r.toList

/-- The next token, if there is one. -/
def pull : Feed → Option Token × Feed
  | plain [] => (none, plain [])
  | plain (t :: rest) => (some t, plain rest)
  | resolved r => (r.next.1, resolved r.next.2)

theorem fst_pull (f : Feed) : f.pull.1 = f.toList.head? := by
  match f with
  | plain [] => rfl
  | plain (_ :: _) => rfl
  | resolved r => exact r.fst_next

theorem toList_snd_pull (f : Feed) : f.pull.2.toList = f.toList.tail := by
  match f with
  | plain [] => rfl
  | plain (_ :: _) => rfl
  | resolved r => exact r.toList_snd_next

end Feed

/-- A stream of tokens: the feed, the tokens pulled so far, the place of the next token among
them, and whether the feed was found empty.  `capacity` is the number of tokens of the whole
sequence, which bounds every search through it. -/
structure TokenStream where
  feed : Feed
  buffer : Array Token := #[]
  pos : Nat := 0
  exhausted : Bool := false
  capacity : Nat
  deriving Repr, DecidableEq

namespace TokenStream

/-- A stream over a list of tokens. -/
def ofTokens (ts : List Token) : TokenStream :=
  { feed := .plain ts, capacity := ts.length }

/-- A stream over the resolution of a list of tokens. -/
def ofResolver (ts : List Token) : TokenStream :=
  { feed := .resolved { pending := ts }, capacity := ts.length }

/-- A stream over the tokens of a source, with the operators behind their operands if they group
by precedence. -/
def ofSource (source : String) : Grouping → TokenStream
  | .byPrecedence => ofResolver (tokenize source)
  | .rightward => ofTokens (tokenize source)

/-- The whole sequence, pulled or not. -/
def all (s : TokenStream) : List Token :=
  s.buffer.toList ++ s.feed.toList

/-- Pulls one token, or finds that there is none. -/
def pull (s : TokenStream) : TokenStream :=
  match s.feed.pull with
  | (some t, feed) => { s with feed, buffer := s.buffer.push t }
  | (none, feed) => { s with feed, exhausted := true }

/-- Pulls at most `n` tokens. -/
def pullMany : Nat → TokenStream → TokenStream
  | 0, s => s
  | n + 1, s => if s.exhausted then s else pullMany n s.pull

/-- Makes sure that `n` tokens from the current place on are buffered, if there are so many. -/
def fill (s : TokenStream) (n : Nat) : TokenStream :=
  pullMany (n - (s.buffer.size - s.pos)) s

/-- The next `n` tokens, or as many as there are. -/
def read (s : TokenStream) (n : Nat) : List Token × TokenStream :=
  let s := s.fill n
  ((s.buffer.toList.drop s.pos).take n, s)

/-- The token `n` places ahead; `0` is the next one. -/
def peek (s : TokenStream) (n : Nat) : Option Token × TokenStream :=
  let s := s.fill (n + 1)
  (s.buffer[s.pos + n]?, s)

/-- Steps over the next token. -/
def next (s : TokenStream) : Option Token × TokenStream :=
  match s.peek 0 with
  | (some t, s) => (some t, { s with pos := s.pos + 1 })
  | (none, s) => (none, s)

/-- Moves to a place already seen; any other place is refused. -/
def reset (s : TokenStream) (mark : Int) : Option TokenStream :=
  if 0 ≤ mark ∧ mark ≤ s.buffer.size then some { s with pos := mark.toNat } else none

/-- The complaint about a place that the stream has not seen. -/
def refusedMessage (place : Int) : String :=
  "invalid stream mark " ++ toString place

/-- The first token that is no blank, at least `i` places ahead, with its distance.  At most
`fuel` places are looked at. -/
def seek : Nat → Nat → TokenStream → Option (Nat × Token) × TokenStream
  | 0, _, s => (none, s)
  | fuel + 1, i, s =>
    match s.peek i with
    | (none, s) => (none, s)
    | (some t, s) => if t.isWhitespace then seek fuel (i + 1) s else (some (i, t), s)

/-- The next token that is no blank. -/
def peekSignificant (s : TokenStream) : Option Token × TokenStream :=
  let (found, s) := seek (s.capacity + 1) 0 s
  (found.map Prod.snd, s)

/-- The kinds of the next `n` tokens that are no blanks, from `i` places ahead on. -/
def significantFrom : Nat → Nat → TokenStream → List TokenKind × TokenStream
  | 0, _, s => ([], s)
  | n + 1, i, s =>
    match seek (s.capacity + 1) i s with
    | (none, s) => ([], s)
    | (some (j, t), s) =>
      let (kinds, s) := significantFrom n (j + 1) s
      (t.kind :: kinds, s)

/-- The kinds of the next `n` tokens that are no blanks. -/
def significant (s : TokenStream) (n : Nat) : List TokenKind × TokenStream :=
  significantFrom n 0 s

/-- Whether the next tokens that are no blanks are of the given kinds. -/
def startsWith (s : TokenStream) (kinds : List TokenKind) : Bool × TokenStream :=
  let (found, s) := s.significant kinds.length
  (found = kinds, s)

/-- Whether `let` comes next. -/
def startsWithLet (s : TokenStream) : Bool × TokenStream :=
  s.startsWith [.letWord]

/-- Whether `let <name> ;` comes next. -/
def startsDeclaration (s : TokenStream) : Bool × TokenStream :=
  s.startsWith [.letWord, .ident, .semi]

/-- Whether `let <name> =` comes next. -/
def startsInitialization (s : TokenStream) : Bool × TokenStream :=
  s.startsWith [.letWord, .ident, .equals]

/-- Whether `<name> =` comes next. -/
def startsAssignment (s : TokenStream) : Bool × TokenStream :=
  s.startsWith [.ident, .equals]

/-- Steps over at most `fuel` tokens. -/
def drain : Nat → TokenStream → List Token × TokenStream
  | 0, s => ([], s)
  | fuel + 1, s =>
    match s.next with
    | (none, s) => ([], s)
    | (some t, s) =>
      let (ts, s) := drain fuel s
      (t :: ts, s)

/-- Steps over all the tokens that are left. -/
def rest (s : TokenStream) : List Token × TokenStream :=
  drain (s.capacity + 1) s

/-! ### What the operations do to the whole sequence -/

@[simp] theorem all_ofResolver (ts : List Token) : (ofResolver ts).all = resolve ts := rfl

/-- Pulling moves a token from the feed to the buffer. -/
@[simp] theorem all_pull (s : TokenStream) : s.pull.all = s.all := by
  have h1 := s.feed.fst_pull
  have h2 := s.feed.toList_snd_pull
  unfold pull all
  rcases h : s.feed.pull with ⟨t, f⟩
  rw [h] at h1 h2
  cases ht : s.feed.toList with
  | nil => rw [ht] at h1 h2; subst h1; simp_all
  | cons u r => rw [ht] at h1 h2; subst h1; simp_all

@[simp] theorem pos_pull (s : TokenStream) : s.pull.pos = s.pos := by
  unfold pull; split <;> rfl

@[simp] theorem all_pullMany (n : Nat) (s : TokenStream) : (pullMany n s).all = s.all := by
  induction n generalizing s with
  | zero => rfl
  | succ n ih => unfold pullMany; split <;> simp [ih]

@[simp] theorem pos_pullMany (n : Nat) (s : TokenStream) : (pullMany n s).pos = s.pos := by
  induction n generalizing s with
  | zero => rfl
  | succ n ih => unfold pullMany; split <;> simp [ih]

@[simp] theorem all_fill (s : TokenStream) (n : Nat) : (s.fill n).all = s.all :=
  all_pullMany ..

@[simp] theorem pos_fill (s : TokenStream) (n : Nat) : (s.fill n).pos = s.pos :=
  pos_pullMany ..

@[simp] theorem all_snd_peek (s : TokenStream) (n : Nat) : (s.peek n).2.all = s.all :=
  all_fill ..

@[simp] theorem pos_snd_peek (s : TokenStream) (n : Nat) : (s.peek n).2.pos = s.pos :=
  pos_fill ..

/-- **Sound.**  The place is in the buffer, and the feed of an exhausted stream is empty. -/
structure Sound (s : TokenStream) : Prop where
  pos_le : s.pos ≤ s.buffer.size
  feed_nil : s.exhausted = true → s.feed.toList = []

theorem sound_ofTokens (ts : List Token) : (ofTokens ts).Sound :=
  ⟨Nat.le_refl _, fun h => by simp [ofTokens] at h⟩

theorem sound_ofResolver (ts : List Token) : (ofResolver ts).Sound :=
  ⟨Nat.le_refl _, fun h => by simp [ofResolver] at h⟩

/-- A stream over a source is sound, however its operations group. -/
theorem sound_ofSource (source : String) (g : Grouping) : (ofSource source g).Sound := by
  cases g
  · exact sound_ofResolver _
  · exact sound_ofTokens _

/-- What pulling one token does: it is at the end of the buffer, or there was none. -/
theorem pull_eq (s : TokenStream) :
    (∃ t rest, s.feed.toList = t :: rest ∧ s.pull.buffer = s.buffer.push t
        ∧ s.pull.feed.toList = rest ∧ s.pull.exhausted = s.exhausted)
      ∨ (s.feed.toList = [] ∧ s.pull.buffer = s.buffer ∧ s.pull.feed.toList = []) := by
  have h1 := s.feed.fst_pull
  have h2 := s.feed.toList_snd_pull
  unfold pull
  rcases h : s.feed.pull with ⟨t, f⟩
  rw [h] at h1 h2
  cases ht : s.feed.toList with
  | nil => rw [ht] at h1 h2; subst h1; exact Or.inr ⟨rfl, rfl, h2⟩
  | cons u r => rw [ht] at h1 h2; subst h1; exact Or.inl ⟨u, r, rfl, rfl, h2, rfl⟩

theorem Sound.pull {s : TokenStream} (hs : s.Sound) : s.pull.Sound := by
  refine ⟨?_, ?_⟩
  · rw [pos_pull]
    rcases s.pull_eq with ⟨t, rest, _, hb, _, _⟩ | ⟨_, hb, _⟩
    · rw [hb, Array.size_push]; exact Nat.le_succ_of_le hs.pos_le
    · rw [hb]; exact hs.pos_le
  · intro he
    rcases s.pull_eq with ⟨t, rest, hf, _, _, hx⟩ | ⟨_, _, hf⟩
    · rw [hx] at he; rw [hs.feed_nil he] at hf; exact absurd hf (by simp)
    · exact hf

theorem Sound.pullMany {s : TokenStream} (hs : s.Sound) (n : Nat) : (pullMany n s).Sound := by
  induction n generalizing s with
  | zero => exact hs
  | succ n ih =>
    unfold TokenStream.pullMany
    split
    · exact hs
    · exact ih hs.pull

theorem Sound.fill {s : TokenStream} (hs : s.Sound) (n : Nat) : (s.fill n).Sound :=
  hs.pullMany _

/-- The buffer is a first part of the whole sequence, and all of it where the feed is empty. -/
theorem toList_buffer_of_feed_nil {s : TokenStream} (h : s.feed.toList = []) :
    s.buffer.toList = s.all := by
  rw [all, h, List.append_nil]

/-- **The buffer after pulling** is the first part of the sequence, longer by as many tokens as
were asked for, if there are so many. -/
theorem toList_buffer_pullMany {s : TokenStream} (hs : s.Sound) (n : Nat) :
    (TokenStream.pullMany n s).buffer.toList = s.all.take (s.buffer.size + n) := by
  induction n generalizing s with
  | zero => simp [TokenStream.pullMany, all, ← Array.length_toList]
  | succ n ih =>
    have hfull : s.feed.toList = [] → s.buffer.toList = s.all.take (s.buffer.size + (n + 1)) := by
      intro h
      rw [← toList_buffer_of_feed_nil h, List.take_of_length_le (by simp)]
    unfold TokenStream.pullMany
    split
    · exact hfull (hs.feed_nil (by assumption))
    · rw [ih hs.pull, all_pull]
      rcases s.pull_eq with ⟨t, rest, _, hb, _, _⟩ | ⟨hf, hb, _⟩
      · rw [hb, Array.size_push, Nat.add_right_comm, Nat.add_assoc]
      · rw [hb, ← hfull hf, ← toList_buffer_of_feed_nil hf, List.take_of_length_le (by simp)]

/-- **A list with an index.**  Looking `n` places ahead gives the token that far from the place. -/
theorem fst_peek {s : TokenStream} (hs : s.Sound) (n : Nat) : (s.peek n).1 = s.all[s.pos + n]? := by
  have hpos := hs.pos_le
  simp only [TokenStream.peek, TokenStream.fill, pos_pullMany]
  rw [← Array.getElem?_toList, toList_buffer_pullMany hs, List.getElem?_take]
  rw [if_pos (by omega)]

end TokenStream

end BlockLang
