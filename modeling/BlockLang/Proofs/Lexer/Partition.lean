import BlockLang.Proofs.Lexer.Blank
import Mathlib.Data.List.Chain

/-!
# The longest-match partition

A source can be laid out as tokens in many ways.  One of them is singled out by what its
tokens look like: every text has the form of its kind, only the last may be a string
without its closing quote, and no blanks, number or name is followed by a character that
could carry it on.  Such a list is a partition of the source, `IsPartition`, and the lexer
finds it:

    IsPartition source ts ↔ k.tokenize source = ts ++ [endMark].

Nothing here asks which characters are letters or blanks: it holds over any classes of
characters, `CharClasses`, of which none is in two.
-/

namespace BlockLang

open BlockLang.Text

namespace CharClasses

open Lexer

variable (k : CharClasses)

/-! ### What a partition is -/

/-- The characters of a name. -/
def IsName (cs : List Char) : Prop :=
  ∃ c rest, cs = c :: rest ∧ k.startsName c = true ∧ ∀ d ∈ rest, k.extendsName d = true

/-- A character of no class. -/
def IsForeign (c : Char) : Prop :=
  k.blank c = false ∧ isDigit c = false ∧ k.startsName c = false ∧ c ≠ '"'
    ∧ TokenKind.ofPunctuation? c = none

/-- The form that the texts of a kind have. -/
def HasForm : TokenKind → List Char → Prop
  | .whitespace, cs => cs ≠ [] ∧ ∀ c ∈ cs, k.blank c = true
  | .number, cs => cs ≠ [] ∧ ∀ c ∈ cs, isDigit c = true
  | .letWord, cs => k.IsName cs ∧ cs = ['l', 'e', 't']
  | .ident, cs => k.IsName cs ∧ cs ≠ ['l', 'e', 't']
  | .string, cs => ∃ body, '"' ∉ body ∧ cs = '"' :: (body ++ ['"'])
  | .unknown, cs => ∃ c, cs = [c] ∧ k.IsForeign c
  | .eof, _ => False
  | kind, cs => ∃ c, cs = [c] ∧ TokenKind.ofPunctuation? c = some kind

/-- A string without its closing quote. -/
def IsOpen (t : Token) : Prop :=
  t.kind = .string ∧ ∃ body, '"' ∉ body ∧ t.text.toList = '"' :: body

/-- Whether a character could carry a text of a kind on. -/
def carriesOn : TokenKind → Char → Bool
  | .whitespace, c => k.blank c
  | .number, c => isDigit c
  | .ident, c => k.extendsName c
  | .letWord, c => k.extendsName c
  | _, _ => false

/-- **A longest-match partition** of a source: texts that are not empty and make up the source, of
the form of their kinds, but for a last string that may be open, and none of them cut short. -/
structure IsPartition (source : String) (ts : List Token) : Prop where
  text_ne : ∀ t ∈ ts, t.text ≠ ""
  join_texts : String.join (ts.map Token.text) = source
  length_eq : ∀ t ∈ ts, t.length = t.text.length
  form : ∀ t ∈ ts.dropLast, k.HasForm t.kind t.text.toList
  form_last : ∀ t ∈ ts.getLast?, k.HasForm t.kind t.text.toList ∨ IsOpen t
  longest : ts.IsChain fun t u => ∀ c ∈ u.text.toList.head?, k.carriesOn t.kind c = false

/-- What a token is in front of the rest of a source: as long as its text, which is of the form of
its kind and not cut short, or an open string with nothing behind it. -/
def Fits (t : Token) (rest : List Char) : Prop :=
  t.length = t.text.length
    ∧ ((k.HasForm t.kind t.text.toList ∧ ∀ c ∈ rest.head?, k.carriesOn t.kind c = false)
      ∨ rest = [] ∧ IsOpen t)

/-! ### A text of its form is cut off -/

variable {k}

/-- **A character is in one class at most.** -/
theorem exclusive (c : Char) :
    (isDigit c = true → k.blank c = false)
      ∧ (k.startsName c = true → k.blank c = false ∧ isDigit c = false)
      ∧ (c = '"' → k.blank c = false ∧ isDigit c = false ∧ k.startsName c = false)
      ∧ ((TokenKind.ofPunctuation? c).isSome = true → k.blank c = false ∧ isDigit c = false
        ∧ k.startsName c = false ∧ c ≠ '"') := by
  have hone : ∀ b d s q p : Bool, [b, d, s, q, p].count true ≤ 1 →
      (d = true → b = false) ∧ (s = true → b = false ∧ d = false)
        ∧ (q = true → b = false ∧ d = false ∧ s = false)
        ∧ (p = true → b = false ∧ d = false ∧ s = false ∧ q = false) := by decide
  have h := hone _ _ _ _ _ (k.disjoint c)
  rw [decide_eq_true_eq, decide_eq_false_iff_not] at h
  exact h

theorem span_of_stop {p : Char → Bool} {cs rest : List Char} (hcs : ∀ c ∈ cs, p c = true)
    (hrest : ∀ c ∈ rest.head?, p c = false) :
    (cs ++ rest).takeWhile p = cs ∧ (cs ++ rest).dropWhile p = rest := by
  rw [List.takeWhile_append_of_pos hcs, List.dropWhile_append_of_pos hcs]
  cases rest with
  | nil => exact ⟨List.append_nil cs, rfl⟩
  | cons c rest =>
    have hc : ¬ p c = true := by rw [hrest c rfl]; exact Bool.false_ne_true
    rw [List.takeWhile_cons_of_neg hc, List.dropWhile_cons_of_neg hc, List.append_nil]
    exact ⟨rfl, rfl⟩

theorem run_spec (p : Char → Bool) (rest : List Char) :
    (∀ c ∈ rest.takeWhile p, p c = true) ∧ ∀ c ∈ (rest.dropWhile p).head?, p c = false := by
  refine ⟨List.all_eq_true.1 List.all_takeWhile, fun c hc => ?_⟩
  have h := List.head?_dropWhile_not p rest
  rw [Option.mem_def] at hc
  rwa [hc] at h

theorem not_mem_of_isUnquoted {cs : List Char} (h : ∀ c ∈ cs, isUnquoted c = true) : '"' ∉ cs :=
  fun hq => absurd (h _ hq) (by decide)

theorem isUnquoted_of_not_mem {cs : List Char} (h : '"' ∉ cs) : ∀ c ∈ cs, isUnquoted c = true := by
  intro c hc
  have hne : c ≠ '"' := fun he => h (he ▸ hc)
  simpa [isUnquoted] using hne

theorem hasForm_of_ofPunctuation? {c : Char} {kind : TokenKind}
    (h : TokenKind.ofPunctuation? c = some kind) :
    k.HasForm kind [c] ∧ ∀ d, k.carriesOn kind d = false := by
  have hform : ∃ d, [c] = [d] ∧ TokenKind.ofPunctuation? d = some kind := ⟨c, rfl, h⟩
  unfold TokenKind.ofPunctuation? at h
  split at h <;> simp only [Option.some.injEq, reduceCtorEq] at h <;> subst h <;>
    exact ⟨hform, fun _ => rfl⟩

/-- **The first token has the form of its kind** and is not cut short, or it is an open string up
to the end. -/
theorem hasForm_cut (c : Char) (rest : List Char) :
    (k.HasForm (k.cut c rest).kind (k.cut c rest).chars
        ∧ ∀ d ∈ (k.cut c rest).after.head?, k.carriesOn (k.cut c rest).kind d = false)
      ∨ (k.cut c rest).after = [] ∧ IsOpen (k.cut c rest).token := by
  rw [cut_eq]
  split
  next hb =>
    obtain ⟨hrun, hstop⟩ := run_spec k.blank rest
    exact .inl ⟨⟨List.cons_ne_nil _ _, List.forall_mem_cons.2 ⟨hb, hrun⟩⟩, hstop⟩
  next hb =>
    split
    next hd =>
      obtain ⟨hrun, hstop⟩ := run_spec isDigit rest
      exact .inl ⟨⟨List.cons_ne_nil _ _, List.forall_mem_cons.2 ⟨hd, hrun⟩⟩, hstop⟩
    next hd =>
      split
      next hn =>
        obtain ⟨hrun, hstop⟩ := run_spec k.extendsName rest
        have hname : k.IsName (c :: rest.takeWhile k.extendsName) := ⟨_, _, rfl, hn, hrun⟩
        refine .inl ?_
        by_cases hlet : c :: rest.takeWhile k.extendsName = ['l', 'e', 't']
        · simp only [nameKind, if_pos hlet]
          exact ⟨⟨hname, hlet⟩, hstop⟩
        · simp only [nameKind, if_neg hlet]
          exact ⟨⟨hname, hlet⟩, hstop⟩
      next hn =>
        split
        next hq =>
          subst hq
          obtain ⟨hrun, hstop⟩ := run_spec isUnquoted rest
          have hbody := not_mem_of_isUnquoted hrun
          rcases hdrop : rest.dropWhile isUnquoted with _ | ⟨q, after⟩
          · refine .inr ⟨rfl, rfl, _, hbody, ?_⟩
            rw [Cut.token_of, String.toList_ofList, List.take_nil, List.append_nil]
          · rw [hdrop] at hstop
            have hquote : q = '"' := by
              have hq := hstop q rfl
              simpa [isUnquoted] using hq
            subst hquote
            exact .inl ⟨⟨_, hbody, rfl⟩, fun _ _ => rfl⟩
        next hq =>
          refine .inl ?_
          rcases hp : TokenKind.ofPunctuation? c with _ | kind
          · refine ⟨⟨c, rfl, ?_⟩, fun _ _ => rfl⟩
            exact ⟨by simpa using hb, by simpa using hd, by simpa using hn, hq, hp⟩
          · obtain ⟨hform, hcarries⟩ := hasForm_of_ofPunctuation? hp
            exact ⟨hform, fun d _ => hcarries d⟩

theorem cut_of_isName {c : Char} {body rest : List Char} (h : k.IsName (c :: body))
    (hrest : ∀ d ∈ rest.head?, k.extendsName d = false) :
    k.cut c (body ++ rest) = .of (nameKind (c :: body)) (c :: body) rest := by
  obtain ⟨d, body', hchars, hd, hbody⟩ := h
  obtain ⟨rfl, rfl⟩ := List.cons.inj hchars
  obtain ⟨hblank, hdigit⟩ := (exclusive c).2.1 hd
  obtain ⟨htake, hdrop⟩ := span_of_stop hbody hrest
  simp [cut_eq, hblank, hdigit, hd, htake, hdrop]

theorem cut_of_quoted {body after : List Char} (h : '"' ∉ body)
    (hafter : ∀ q ∈ after.head?, q = '"') :
    k.cut '"' (body ++ after) = .of .string ('"' :: (body ++ after.take 1)) (after.drop 1) := by
  obtain ⟨hblank, hdigit, hname⟩ := (exclusive (k := k) '"').2.2.1 rfl
  have hstop : ∀ q ∈ after.head?, isUnquoted q = false := by
    intro q hq
    rw [hafter q hq]
    decide
  obtain ⟨htake, hdrop⟩ := span_of_stop (isUnquoted_of_not_mem h) hstop
  simp [cut_eq, hblank, hdigit, hname, htake, hdrop]

theorem cut_of_punctuation {c : Char} {kind : TokenKind}
    (h : TokenKind.ofPunctuation? c = some kind) (rest : List Char) :
    k.cut c rest = .of kind [c] rest := by
  obtain ⟨hblank, hdigit, hname, hquote⟩ := (exclusive (k := k) c).2.2.2 (by rw [h]; rfl)
  simp [cut_eq, hblank, hdigit, hname, hquote, h]

theorem cut_of_hasForm {kind : TokenKind} {c : Char} {body rest : List Char}
    (h : k.HasForm kind (c :: body)) (hrest : ∀ d ∈ rest.head?, k.carriesOn kind d = false) :
    k.cut c (body ++ rest) = .of kind (c :: body) rest := by
  cases kind with
  | whitespace =>
    obtain ⟨hc, hbody⟩ := List.forall_mem_cons.1 h.2
    obtain ⟨htake, hdrop⟩ := span_of_stop hbody hrest
    rw [cut_eq, if_pos hc, htake, hdrop]
  | number =>
    obtain ⟨hc, hbody⟩ := List.forall_mem_cons.1 h.2
    obtain ⟨htake, hdrop⟩ := span_of_stop hbody hrest
    simp [cut_eq, (exclusive c).1 hc, hc, htake, hdrop]
  | letWord =>
    rw [cut_of_isName h.1 hrest, nameKind, if_pos h.2]
  | ident =>
    rw [cut_of_isName h.1 hrest, nameKind, if_neg h.2]
  | string =>
    obtain ⟨body', hbody, hchars⟩ := h
    obtain ⟨rfl, rfl⟩ := List.cons.inj hchars
    rw [List.append_assoc, List.singleton_append, cut_of_quoted hbody (by simp)]
    rfl
  | unknown =>
    obtain ⟨d, hchars, hblank, hdigit, hname, hquote, hp⟩ := h
    obtain ⟨rfl, rfl⟩ := List.cons.inj hchars
    simp [cut_eq, hblank, hdigit, hname, hquote, hp]
  | eof => exact h.elim
  | openParen | closeParen | openBrace | closeBrace | openBracket | closeBracket | semi | equals
  | plus | minus | star | slash | percent =>
    obtain ⟨d, hchars, hp⟩ := h
    obtain ⟨rfl, rfl⟩ := List.cons.inj hchars
    exact cut_of_punctuation hp rest

/-! ### One partition -/

theorem HasForm.ne_nil {kind : TokenKind} {cs : List Char} (h : k.HasForm kind cs) : cs ≠ [] := by
  rintro rfl
  cases kind with
  | whitespace | number => exact h.1 rfl
  | letWord | ident =>
    obtain ⟨c, rest, hnil, -⟩ := h.1
    exact List.cons_ne_nil c rest hnil.symm
  | string =>
    obtain ⟨body, -, hnil⟩ := h
    exact List.cons_ne_nil _ _ hnil.symm
  | eof => exact h.elim
  | unknown | openParen | closeParen | openBrace | closeBrace | openBracket | closeBracket | semi
  | equals | plus | minus | star | slash | percent =>
    obtain ⟨c, hnil, -⟩ := h
    exact List.cons_ne_nil c [] hnil.symm

theorem Fits.ne_nil {t : Token} {rest : List Char} (h : k.Fits t rest) : t.text.toList ≠ [] := by
  rcases h.2 with ⟨hform, -⟩ | ⟨-, -, body, -, htext⟩
  · exact hform.ne_nil
  · rw [htext]
    exact List.cons_ne_nil _ _

theorem fits_cut (c : Char) (rest : List Char) :
    k.Fits (k.cut c rest).token (k.cut c rest).after := by
  refine ⟨k.length_token_cut c rest, ?_⟩
  rw [Cut.token, String.toList_ofList]
  exact hasForm_cut c rest

/-- **A token that fits is the one cut off.** -/
theorem cut_of_fits {t : Token} {c : Char} {body rest : List Char}
    (htext : t.text.toList = c :: body) (h : k.Fits t rest) :
    (k.cut c (body ++ rest)).token = t ∧ (k.cut c (body ++ rest)).after = rest := by
  obtain ⟨hlength, hfits⟩ := h
  have htoken : ({ kind := t.kind, text := String.ofList (c :: body) } : Token) = t := by
    rw [← htext, String.ofList_toList, ← hlength]
  rcases hfits with ⟨hform, hrest⟩ | ⟨rfl, hkind, body', hbody, hchars⟩
  · rw [htext] at hform
    rw [cut_of_hasForm hform hrest, Cut.token_of]
    exact ⟨htoken, rfl⟩
  · rw [htext] at hchars
    obtain ⟨rfl, rfl⟩ := List.cons.inj hchars
    rw [hkind] at htoken
    rw [cut_of_quoted hbody (by simp), Cut.token_of, List.take_nil, List.append_nil]
    exact ⟨htoken, rfl⟩

theorem isPartition_nil {source : String} : k.IsPartition source [] ↔ source = "" := by
  constructor
  · exact fun h => h.join_texts.symm
  · rintro rfl
    exact ⟨by simp, rfl, by simp, by simp, by simp, .nil⟩

theorem IsPartition.head?_toList {rest : String} {ts : List Token} (h : k.IsPartition rest ts) :
    rest.toList.head? = ts.head?.bind fun t => t.text.toList.head? := by
  rw [← h.join_texts]
  cases ts with
  | nil => rfl
  | cons t ts =>
    have hne : t.text.toList ≠ [] := fun hnil =>
      h.text_ne t List.mem_cons_self (String.toList_inj.1 hnil)
    rw [List.map_cons, String.join_cons, String.toList_append, List.head?_append_of_ne_nil _ hne]
    rfl

/-- A token in front of another one is no open string. -/
theorem Fits.of_cons {t u : Token} {rest : String} {ts : List Token} (h : k.Fits t rest.toList)
    (hrest : k.IsPartition rest (u :: ts)) :
    k.HasForm t.kind t.text.toList ∧ ∀ c ∈ u.text.toList.head?, k.carriesOn t.kind c = false := by
  have hhead : rest.toList.head? = u.text.toList.head? := hrest.head?_toList
  rcases h.2 with ⟨hform, hcarries⟩ | ⟨hnil, -⟩
  · exact ⟨hform, hhead ▸ hcarries⟩
  · rw [hnil, List.head?_nil, eq_comm, List.head?_eq_none_iff] at hhead
    exact absurd (String.toList_inj.1 hhead) (hrest.text_ne u List.mem_cons_self)

/-- **A partition is a token that fits and a partition of the rest.** -/
theorem isPartition_cons {source : String} {t : Token} {ts : List Token} :
    k.IsPartition source (t :: ts)
      ↔ ∃ rest, source = t.text ++ rest ∧ k.Fits t rest.toList ∧ k.IsPartition rest ts := by
  constructor
  · intro h
    have hrest : k.IsPartition (String.join (ts.map Token.text)) ts := by
      refine ⟨fun u hu => h.text_ne u (List.mem_cons_of_mem t hu), rfl,
        fun u hu => h.length_eq u (List.mem_cons_of_mem t hu), ?_, ?_, h.longest.tail⟩
      · cases ts with
        | nil => exact fun u hu => absurd hu List.not_mem_nil
        | cons u ts => exact fun v hv => h.form v (List.mem_cons_of_mem t hv)
      · cases ts with
        | nil => exact fun u hu => absurd hu (by simp)
        | cons u ts => exact fun v hv => h.form_last v (by rwa [List.getLast?_cons_cons])
    refine ⟨_, ?_, ?_, hrest⟩
    · rw [← h.join_texts, List.map_cons, String.join_cons]
    · refine ⟨h.length_eq t List.mem_cons_self, ?_⟩
      cases ts with
      | nil =>
        rcases h.form_last t rfl with hform | hopen
        · exact .inl ⟨hform, fun c hc => absurd hc (by simp)⟩
        · exact .inr ⟨rfl, hopen⟩
      | cons u ts =>
        refine .inl ⟨h.form t List.mem_cons_self, ?_⟩
        rw [hrest.head?_toList]
        exact (List.isChain_cons_cons.1 h.longest).1
  · rintro ⟨rest, rfl, hfits, hrest⟩
    refine ⟨?_, ?_, List.forall_mem_cons.2 ⟨hfits.1, hrest.length_eq⟩, ?_, ?_, ?_⟩
    · refine List.forall_mem_cons.2 ⟨fun he => hfits.ne_nil ?_, hrest.text_ne⟩
      rw [he]
      rfl
    · rw [List.map_cons, String.join_cons, hrest.join_texts]
    · cases ts with
      | nil => exact fun u hu => absurd hu List.not_mem_nil
      | cons u ts => exact List.forall_mem_cons.2 ⟨(hfits.of_cons hrest).1, hrest.form⟩
    · cases ts with
      | nil =>
        rintro u hu
        obtain rfl : t = u := by simpa using hu
        exact hfits.2.imp And.left And.right
      | cons u ts =>
        rw [List.getLast?_cons_cons]
        exact hrest.form_last
    · cases ts with
      | nil => exact .singleton t
      | cons u ts => exact .cons_cons (hfits.of_cons hrest).2 hrest.longest

theorem isPartition_tokens (cs : List Char) : k.IsPartition (String.ofList cs) (k.tokens cs) := by
  induction cs using k.cut_induction with
  | nil => exact isPartition_nil.2 rfl
  | cons c rest ih =>
    rw [tokens_cons]
    refine isPartition_cons.2 ⟨_, ?_, ?_, ih⟩
    · rw [Cut.token, ← String.ofList_append, chars_append_after]
    · rw [String.toList_ofList]
      exact fits_cut c rest

/-- **Any partition of a source is its tokens.** -/
theorem IsPartition.eq_tokens {source : String} {ts : List Token} (h : k.IsPartition source ts) :
    ts = k.tokens source.toList := by
  induction ts generalizing source with
  | nil =>
    rw [isPartition_nil.1 h, String.toList_empty, tokens_nil]
  | cons t ts ih =>
    obtain ⟨rest, rfl, hfits, hrest⟩ := isPartition_cons.1 h
    obtain ⟨c, body, htext⟩ := List.exists_cons_of_ne_nil hfits.ne_nil
    obtain ⟨htoken, hafter⟩ := cut_of_fits htext hfits
    rw [String.toList_append, htext, List.cons_append, tokens_cons, htoken, hafter, ← ih hrest]

/-- **The lexer computes the one longest-match partition.**  Its tokens, up to the end mark, are a
partition of the source, and no other list of tokens is. -/
theorem tokenize_eq_partition (source : String) :
    ∃ ts, k.tokenize source = ts ++ [Token.endMark]
      ∧ k.IsPartition source ts ∧ (∀ us, k.IsPartition source us → us = ts)
      ∧ Token.endMark.kind = .eof ∧ Token.endMark.text = "" ∧ Token.endMark.length = 0
      ∧ unicode.tokenize = BlockLang.tokenize := by
  refine ⟨k.tokens source.toList, rfl, ?_, fun us hus => hus.eq_tokens, rfl, rfl, rfl, rfl⟩
  have h := isPartition_tokens (k := k) source.toList
  rwa [String.ofList_toList] at h

end CharClasses

end BlockLang
