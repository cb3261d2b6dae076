import BlockLang.Text.Apart
import BlockLang.Text.Numeric
import BlockLang.Token

/-!
# From source text to tokens

Each step takes one token from the front of the source, the longest that its first
character allows:

* blanks, a run of them;
* digits `0` to `9`, a run of them;
* a letter or `_`, then letters, numeric characters and `_`: a name, or the word
  `let`;
* a double quote, then everything up to and including the next one, or up to the
  end when there is none;
* any other character alone, as punctuation or as an unknown.

`tokenize` repeats this to the end and closes with the end mark.  It never fails:
a character of no class is a token too.

A step finds the index at which the token stops, and the token is the slice up to
there.  Which characters are blanks or letters is left open, `CharClasses`; the lexer
of the language reads the classes of the wider code space, `unicode`.
-/

namespace BlockLang

open BlockLang.Text

namespace Lexer

/-- The digits that make up a number. -/
def isDigit (c : Char) : Bool :=
  '0' ≤ c && c ≤ '9'

/-- Whether a character does not end a string. -/
def isUnquoted (c : Char) : Bool :=
  c ≠ '"'

/-- A name's kind: `let` is a word of the language and no name. -/
def nameKind (cs : List Char) : TokenKind :=
  if cs = ['l', 'e', 't'] then .letWord else .ident

/-- The index behind the run of characters that begins at an index. -/
def runStop (p : Char → Bool) (cs : List Char) (start : Nat) : Nat :=
  start + ((cs.drop start).takeWhile p).length

/-- A source cut after its first token: the token's kind, length and characters, and what
follows. -/
structure Cut where
  kind : TokenKind
  length : Nat
  chars : List Char
  after : List Char

/-- The token that was cut off. -/
def Cut.token (cut : Cut) : Token :=
  { kind := cut.kind, text := String.ofList cut.chars, length := cut.length }

/-- A source cut where a token of a kind stops. -/
def Cut.upTo (kind : TokenKind) (stop : Nat) (source : List Char) : Cut :=
  { kind, length := stop, chars := source.take stop, after := source.drop stop }

/-- A source cut behind the characters of a token, of which the length is their number. -/
def Cut.of (kind : TokenKind) (chars after : List Char) : Cut :=
  { kind, length := chars.length, chars, after }

@[simp] theorem Cut.after_of (kind : TokenKind) (chars after : List Char) :
    (Cut.of kind chars after).after = after := rfl

@[simp] theorem Cut.token_of (kind : TokenKind) (chars after : List Char) :
    (Cut.of kind chars after).token = { kind, text := String.ofList chars } := by
  rw [Cut.token, Cut.of, String.length_ofList]

/-- A source is cut behind the characters in front. -/
theorem Cut.upTo_length {source chars after : List Char} (h : source = chars ++ after)
    (kind : TokenKind) : Cut.upTo kind chars.length source = .of kind chars after := by
  rw [h, Cut.upTo, Cut.of, List.take_left, List.drop_left]

theorem runStop_cons (p : Char → Bool) (c : Char) (rest : List Char) :
    runStop p (c :: rest) 1 = (c :: rest.takeWhile p).length := by
  rw [runStop, List.drop_succ_cons, List.drop_zero, List.length_cons, Nat.add_comm]

/-- A run that the first character belongs to goes on behind it. -/
theorem runStop_zero {p : Char → Bool} {c : Char} (hc : p c = true) (rest : List Char) :
    runStop p (c :: rest) 0 = runStop p (c :: rest) 1 := by
  rw [runStop_cons, runStop, List.drop_zero, List.takeWhile_cons_of_pos hc, Nat.zero_add]

/-- **A run of characters** is cut off. -/
theorem Cut.upTo_runStop (kind : TokenKind) (p : Char → Bool) (c : Char) (rest : List Char) :
    Cut.upTo kind (runStop p (c :: rest) 1) (c :: rest)
      = .of kind (c :: rest.takeWhile p) (rest.dropWhile p) := by
  have hsource : c :: rest = (c :: rest.takeWhile p) ++ rest.dropWhile p := by
    rw [List.cons_append, List.takeWhile_append_dropWhile]
  rw [runStop_cons]
  exact upTo_length hsource kind

/-- **A string** is cut off with its closing quote, or at the end of the source. -/
theorem Cut.upTo_quoted (c : Char) (rest : List Char) :
    Cut.upTo .string (min (runStop isUnquoted (c :: rest) 1 + 1) (c :: rest).length) (c :: rest)
      = .of .string (c :: (rest.takeWhile isUnquoted ++ (rest.dropWhile isUnquoted).take 1))
          ((rest.dropWhile isUnquoted).drop 1) := by
  have hsource : c :: rest = (c :: (rest.takeWhile isUnquoted ++ (rest.dropWhile isUnquoted).take 1))
      ++ (rest.dropWhile isUnquoted).drop 1 := by
    rw [List.cons_append, List.append_assoc, List.take_append_drop,
      List.takeWhile_append_dropWhile]
  have hlength := congrArg List.length (List.takeWhile_append_dropWhile (p := isUnquoted) (l := rest))
  have hstop : min (runStop isUnquoted (c :: rest) 1 + 1) (c :: rest).length
      = (c :: (rest.takeWhile isUnquoted ++ (rest.dropWhile isUnquoted).take 1)).length := by
    rw [List.length_append] at hlength
    rw [runStop_cons]
    simp only [List.length_cons, List.length_append, List.length_take]
    omega
  rw [hstop]
  exact upTo_length hsource .string

theorem length_dropWhile_le {α : Type} (p : α → Bool) (l : List α) :
    (l.dropWhile p).length ≤ l.length :=
  (List.dropWhile_suffix p).length_le

/-- No blank is a digit. -/
theorem isDigit_of_isBlank {c : Char} (h : isBlank c = true) : isDigit c = false := by
  rw [← Bool.not_eq_true]
  intro hd
  simp only [isDigit, Bool.and_eq_true, decide_eq_true_eq] at hd
  rw [isBlank_eq_false_of_digit hd.1 hd.2] at h
  exact Bool.false_ne_true h

/-- A name begins with neither a blank nor a digit. -/
theorem isBlank_of_startsName {c : Char} (h : (c = '_' || isLetter c) = true) :
    isBlank c = false ∧ isDigit c = false := by
  simp only [Bool.or_eq_true, decide_eq_true_eq] at h
  rcases h with rfl | h
  · exact ⟨by decide, by decide⟩
  · constructor
    · rw [← Bool.not_eq_true]
      intro hb
      rw [isLetter_eq_false_of_isBlank hb] at h
      exact Bool.false_ne_true h
    · rw [← Bool.not_eq_true]
      intro hd
      simp only [isDigit, Bool.and_eq_true, decide_eq_true_eq] at hd
      rw [isLetter_eq_false List.mem_cons_self hd.1 hd.2] at h
      exact Bool.false_ne_true h

end Lexer

/-- **The classes of characters** that the lexer tells apart: the blanks, the letters, and those
that carry a name on.  The digits, the quote and the punctuation are fixed, and a character is in
one class at most. -/
structure CharClasses where
  blank : Char → Bool
  letter : Char → Bool
  alnum : Char → Bool
  disjoint : ∀ c, [blank c, Lexer.isDigit c, c = '_' || letter c, c = '"',
    (TokenKind.ofPunctuation? c).isSome].count true ≤ 1

namespace CharClasses

open Lexer

variable (k : CharClasses)

/-- The characters that begin a name. -/
def startsName (c : Char) : Bool :=
  c = '_' || k.letter c

/-- The characters that carry a name on. -/
def extendsName (c : Char) : Bool :=
  c = '_' || k.alnum c

/-- **One token.**  Cuts a source that begins with `c` after its first token. -/
def cut (c : Char) (rest : List Char) : Cut :=
  let source := c :: rest
  if k.blank c then .upTo .whitespace (runStop k.blank source 0) source
  else if isDigit c then .upTo .number (runStop isDigit source 0) source
  else if k.startsName c then
    let stop := runStop k.extendsName source 1
    .upTo (nameKind (source.take stop)) stop source
  else if c = '"' then
    .upTo .string (min (runStop isUnquoted source 1 + 1) source.length) source
  else .upTo ((TokenKind.ofPunctuation? c).getD .unknown) 1 source

/-- **The length of a token is the number of its characters**, which are a run up to the first that
does not carry it on. -/
theorem cut_eq (c : Char) (rest : List Char) :
    k.cut c rest =
      if k.blank c then .of .whitespace (c :: rest.takeWhile k.blank) (rest.dropWhile k.blank)
      else if isDigit c then .of .number (c :: rest.takeWhile isDigit) (rest.dropWhile isDigit)
      else if k.startsName c then
        .of (nameKind (c :: rest.takeWhile k.extendsName)) (c :: rest.takeWhile k.extendsName)
          (rest.dropWhile k.extendsName)
      else if c = '"' then
        .of .string (c :: (rest.takeWhile isUnquoted ++ (rest.dropWhile isUnquoted).take 1))
          ((rest.dropWhile isUnquoted).drop 1)
      else .of ((TokenKind.ofPunctuation? c).getD .unknown) [c] rest := by
  unfold cut
  dsimp only
  split
  next hblank => rw [runStop_zero hblank, Cut.upTo_runStop]
  next =>
    split
    next hdigit => rw [runStop_zero hdigit, Cut.upTo_runStop]
    next =>
      split
      next =>
        have hname := Cut.upTo_runStop (nameKind (c :: rest.takeWhile k.extendsName)) k.extendsName
          c rest
        have hchars : (c :: rest).take (runStop k.extendsName (c :: rest) 1)
            = c :: rest.takeWhile k.extendsName := congrArg Cut.chars hname
        rw [hchars, hname]
      next =>
        split
        next => exact Cut.upTo_quoted c rest
        next => rfl

/-- **The stored length** of a token that is cut off is that of its text. -/
theorem length_token_cut (c : Char) (rest : List Char) :
    (k.cut c rest).token.length = (k.cut c rest).token.text.length := by
  have hof : ∀ (kind : TokenKind) (chars after : List Char),
      (Cut.of kind chars after).token.length = (Cut.of kind chars after).token.text.length := by
    intro kind chars after
    rw [Cut.token_of]
  rw [cut_eq]
  split
  · exact hof ..
  · split
    · exact hof ..
    · split
      · exact hof ..
      · split
        · exact hof ..
        · exact hof ..

/-- What follows a token is no longer than what followed its first character. -/
theorem length_after_le (c : Char) (rest : List Char) :
    (k.cut c rest).after.length ≤ rest.length := by
  rw [cut_eq]
  split
  · exact length_dropWhile_le ..
  · split
    · exact length_dropWhile_le ..
    · split
      · exact length_dropWhile_le ..
      · split
        · have hle := length_dropWhile_le isUnquoted rest
          simp only [Cut.after_of, List.length_drop]
          omega
        · exact Nat.le_refl _

/-- **Induction along the tokens**: a source with a first token, and what follows it. -/
@[elab_as_elim]
theorem cut_induction {P : List Char → Prop} (nil : P [])
    (cons : ∀ c rest, P (k.cut c rest).after → P (c :: rest)) : ∀ cs, P cs
  | [] => nil
  | c :: rest => cons c rest (cut_induction nil cons (k.cut c rest).after)
termination_by cs => cs.length
decreasing_by exact Nat.lt_succ_of_le (k.length_after_le c rest)

/-- **Nothing is lost.**  A token's characters and what follows it are the source. -/
theorem chars_append_after (c : Char) (rest : List Char) :
    (k.cut c rest).chars ++ (k.cut c rest).after = c :: rest := by
  have hsplit : ∀ (kind : TokenKind) (stop : Nat), (Cut.upTo kind stop (c :: rest)).chars
      ++ (Cut.upTo kind stop (c :: rest)).after = c :: rest :=
    fun kind stop => List.take_append_drop stop (c :: rest)
  unfold cut
  dsimp only
  split
  · exact hsplit ..
  · split
    · exact hsplit ..
    · split
      · exact hsplit ..
      · split
        · exact hsplit ..
        · exact hsplit ..

/-- The tokens of `cs`, at most `fuel` of them. -/
def run : Nat → List Char → List Token
  | 0, _ => []
  | _ + 1, [] => []
  | fuel + 1, c :: rest => (k.cut c rest).token :: run fuel (k.cut c rest).after

/-- The tokens of a list of characters, without the end mark. -/
def tokens (cs : List Char) : List Token :=
  k.run cs.length cs

/-- The tokens of a source, with the end mark at the end. -/
def tokenize (source : String) : List Token :=
  k.tokens source.toList ++ [Token.endMark]

theorem run_nil (fuel : Nat) : k.run fuel [] = [] := by
  cases fuel <;> rfl

/-- **Fuel is no limit.**  As many steps as there are characters are enough. -/
theorem run_eq_tokens : ∀ (fuel : Nat) (cs : List Char), cs.length ≤ fuel →
    k.run fuel cs = k.tokens cs := by
  intro fuel
  induction fuel using Nat.strongRecOn with
  | _ fuel ih =>
    intro cs h
    cases cs with
    | nil => rw [tokens, run_nil, run_nil]
    | cons c rest =>
      cases fuel with
      | zero => simp at h
      | succ fuel =>
        have hle := k.length_after_le c rest
        simp only [List.length_cons] at h
        simp only [tokens, List.length_cons, run]
        rw [ih fuel (by omega) _ (by omega), ih rest.length (by omega) _ hle]

@[simp] theorem tokens_nil : k.tokens [] = [] := rfl

/-- **The tokens of a source are its first token and the tokens of what follows.** -/
theorem tokens_cons (c : Char) (rest : List Char) :
    k.tokens (c :: rest) = (k.cut c rest).token :: k.tokens (k.cut c rest).after := by
  rw [tokens, List.length_cons, run, k.run_eq_tokens _ _ (k.length_after_le c rest)]

/-- The classes of the wider code space. -/
def unicode : CharClasses where
  blank := isBlank
  letter := isLetter
  alnum c := isLetter c || isNumeric c
  disjoint c := by
    have hone : ∀ b d s q p : Bool, (b = true → d = false) → (s = true → b = false ∧ d = false) →
        (q = true → b = false ∧ d = false ∧ s = false) →
        (p = true → b = false ∧ d = false ∧ s = false ∧ q = false) →
        [b, d, s, q, p].count true ≤ 1 := by decide
    refine hone _ _ _ _ _ isDigit_of_isBlank isBlank_of_startsName ?_ ?_
    · rw [decide_eq_true_eq]
      rintro rfl
      decide
    · intro hp
      obtain ⟨kind, hkind⟩ := Option.isSome_iff_exists.1 hp
      unfold TokenKind.ofPunctuation? at hkind
      split at hkind <;> simp only [Option.some.injEq, reduceCtorEq] at hkind <;> decide

end CharClasses

namespace Lexer

/-- The characters that begin a name. -/
def startsName (c : Char) : Bool :=
  CharClasses.unicode.startsName c

/-- The characters that carry a name on. -/
def extendsName (c : Char) : Bool :=
  CharClasses.unicode.extendsName c

/-- Cuts a source that begins with `c` after its first token. -/
def cut (c : Char) (rest : List Char) : Cut :=
  CharClasses.unicode.cut c rest

/-- The tokens of a list of characters, without the end mark. -/
def tokens (cs : List Char) : List Token :=
  CharClasses.unicode.tokens cs

theorem cut_eq (c : Char) (rest : List Char) :
    cut c rest =
      if isBlank c then .of .whitespace (c :: rest.takeWhile isBlank) (rest.dropWhile isBlank)
      else if isDigit c then .of .number (c :: rest.takeWhile isDigit) (rest.dropWhile isDigit)
      else if startsName c then
        .of (nameKind (c :: rest.takeWhile extendsName)) (c :: rest.takeWhile extendsName)
          (rest.dropWhile extendsName)
      else if c = '"' then
        .of .string (c :: (rest.takeWhile isUnquoted ++ (rest.dropWhile isUnquoted).take 1))
          ((rest.dropWhile isUnquoted).drop 1)
      else .of ((TokenKind.ofPunctuation? c).getD .unknown) [c] rest :=
  CharClasses.unicode.cut_eq c rest

theorem length_after_le (c : Char) (rest : List Char) : (cut c rest).after.length ≤ rest.length :=
  CharClasses.unicode.length_after_le c rest

@[elab_as_elim]
theorem cut_induction {P : List Char → Prop} (nil : P [])
    (cons : ∀ c rest, P (cut c rest).after → P (c :: rest)) (cs : List Char) : P cs :=
  CharClasses.unicode.cut_induction nil cons cs

@[simp] theorem tokens_nil : tokens [] = [] := rfl

theorem tokens_cons (c : Char) (rest : List Char) :
    tokens (c :: rest) = (cut c rest).token :: tokens (cut c rest).after :=
  CharClasses.unicode.tokens_cons c rest

end Lexer

/-- The tokens of a source, with the end mark at the end. -/
def tokenize (source : String) : List Token :=
  CharClasses.unicode.tokenize source

theorem tokenize_eq (source : String) :
    tokenize source = Lexer.tokens source.toList ++ [Token.endMark] :=
  rfl

/-- The first token of a text, which is the end mark when the text is empty. -/
def Token.first (source : String) : Token :=
  match source.toList with
  | [] => endMark
  | c :: rest => (Lexer.cut c rest).token

/-- A source's tokens begin with its first token. -/
theorem head?_tokenize (source : String) : (tokenize source).head? = some (Token.first source) := by
  rw [tokenize_eq]
  unfold Token.first
  cases source.toList with
  | nil => rfl
  | cons c rest => rw [Lexer.tokens_cons]; rfl

/-- The number of opening braces of a text less that of its closing braces.  A brace inside a
string is part of the string and does not count. -/
def openBraces (source : String) : Int :=
  (tokenize source).foldl (fun n t =>
    match t.kind with
    | .openBrace => n + 1
    | .closeBrace => n - 1
    | _ => n) 0

end BlockLang
