import BlockLang.Proofs.Lexer.Partition
import BlockLang.Text.Slice
import Mathlib

/-!
# Token boundaries

A source may be cut wherever one of its tokens ends.  Each of the two parts has the tokens
that it has in the whole, so that with no more than the first end mark taken away

    tokenize (front ++ back) = (tokenize front).dropLast ++ tokenize back.

This is read off the partition.  What a token has to be in front of the rest of a source
is no less true of it in front of a first part of that rest: the character behind it is
the same, or there is none.  So both parts of a partition are partitions, and a source has
no other one than its tokens.
-/

namespace BlockLang

open BlockLang.Text

/-- The number of characters that some tokens cover. -/
def extent (ts : List Token) : Nat :=
  (ts.map Token.length).sum

theorem extent_append (ts us : List Token) : extent (ts ++ us) = extent ts + extent us := by
  rw [extent, List.map_append, List.sum_append, extent, extent]

theorem length_join_texts {ts : List Token} (h : ∀ t ∈ ts, t.length = t.text.length) :
    (String.join (ts.map Token.text)).length = extent ts := by
  induction ts with
  | nil => rfl
  | cons t ts ih =>
    obtain ⟨ht, hts⟩ := List.forall_mem_cons.1 h
    rw [List.map_cons, String.join_cons, String.length_append, ih hts, extent, extent,
      List.map_cons, List.sum_cons, ht]

theorem slices_append (s t : String) :
    sliceTo (s ++ t) s.length = s ∧ sliceFrom (s ++ t) s.length = t := by
  have hplace : place (s ++ t).length s.length = s.toList.length := by
    rw [place, String.length_append, String.length_toList, if_neg (by omega)]
    omega
  rw [sliceTo, sliceFrom, hplace, String.toList_append, List.take_left, List.drop_left,
    String.ofList_toList, String.ofList_toList]
  exact ⟨rfl, rfl⟩

namespace CharClasses

variable {k : CharClasses}

theorem Fits.of_append {t : Token} {cs ds : List Char} (h : k.Fits t (cs ++ ds)) :
    k.Fits t cs := by
  refine ⟨h.1, ?_⟩
  rcases h.2 with ⟨hform, hcarries⟩ | ⟨hnil, hopen⟩
  · refine .inl ⟨hform, fun c hc => hcarries c ?_⟩
    rw [List.head?_append, hc]
    rfl
  · exact .inr ⟨(List.append_eq_nil_iff.1 hnil).1, hopen⟩

theorem IsPartition.of_append {source : String} {ts us : List Token}
    (h : k.IsPartition source (ts ++ us)) :
    k.IsPartition (String.join (ts.map Token.text)) ts
      ∧ k.IsPartition (String.join (us.map Token.text)) us := by
  induction ts generalizing source with
  | nil =>
    rw [List.nil_append] at h
    refine ⟨isPartition_nil.2 rfl, ?_⟩
    rw [h.join_texts]
    exact h
  | cons t ts ih =>
    rw [List.cons_append] at h
    obtain ⟨rest, -, hfits, hrest⟩ := isPartition_cons.1 h
    obtain ⟨hfront, hback⟩ := ih hrest
    refine ⟨isPartition_cons.2 ⟨_, ?_, ?_, hfront⟩, hback⟩
    · rw [List.map_cons, String.join_cons]
    · rw [← hrest.join_texts, List.map_append, String.join_append, String.toList_append] at hfits
      exact hfits.of_append

theorem isPartition_tokens_toList (source : String) :
    k.IsPartition source (k.tokens source.toList) := by
  have h := isPartition_tokens (k := k) source.toList
  rwa [String.ofList_toList] at h

/-- A partition that is cut in two is the tokens of the two texts. -/
theorem tokens_join_of_append {source : String} {ts us : List Token}
    (h : k.tokens source.toList = ts ++ us) :
    k.tokens (String.join (ts.map Token.text)).toList = ts
      ∧ k.tokens (String.join (us.map Token.text)).toList = us := by
  have hall : k.IsPartition source (ts ++ us) := h ▸ isPartition_tokens_toList source
  obtain ⟨hfront, hback⟩ := hall.of_append
  exact ⟨hfront.eq_tokens.symm, hback.eq_tokens.symm⟩

end CharClasses

/-- **The tokens of two texts.**  Where the tokens of a source are cut in two, each part is the
tokens of its own text. -/
theorem tokenize_join_of_append {source : String} {ts us : List Token}
    (h : (tokenize source).dropLast = ts ++ us) :
    tokenize (String.join (ts.map Token.text)) = ts ++ [.endMark]
      ∧ tokenize (String.join (us.map Token.text)) = us ++ [.endMark] := by
  rw [dropLast_tokenize] at h
  obtain ⟨hfront, hback⟩ := CharClasses.tokens_join_of_append h
  rw [tokenize_eq, tokenize_eq, Lexer.tokens, Lexer.tokens, hfront, hback]
  exact ⟨rfl, rfl⟩

theorem isPartition_dropLast_tokenize (source : String) :
    CharClasses.unicode.IsPartition source (tokenize source).dropLast := by
  rw [dropLast_tokenize]
  exact CharClasses.isPartition_tokens_toList source

theorem extent_take_tokenize (source : String) (n : Nat) :
    extent ((tokenize source).take n) = extent ((tokenize source).dropLast.take n) := by
  have hmark : ∀ m, extent (([.endMark] : List Token).take m) = 0 := by
    intro m
    cases m with
    | zero => rfl
    | succ m => rw [List.take_succ_cons, List.take_nil]; rfl
  have hsplit : tokenize source = (tokenize source).dropLast ++ [.endMark] := by
    rw [dropLast_tokenize, tokenize_eq]
  conv_lhs => rw [hsplit, List.take_append, extent_append, hmark, Nat.add_zero]

theorem slices_eq_join (source : String) (n : Nat) :
    sliceTo source (extent ((tokenize source).take n))
        = String.join (((tokenize source).dropLast.take n).map Token.text)
      ∧ sliceFrom source (extent ((tokenize source).take n))
        = String.join (((tokenize source).dropLast.drop n).map Token.text) := by
  have hsource : String.join (((tokenize source).dropLast.take n).map Token.text)
      ++ String.join (((tokenize source).dropLast.drop n).map Token.text) = source := by
    rw [← String.join_append, ← List.map_append, List.take_append_drop]
    exact (isPartition_dropLast_tokenize source).join_texts
  have hextent : (String.join (((tokenize source).dropLast.take n).map Token.text)).length
      = extent ((tokenize source).take n) := by
    rw [extent_take_tokenize]
    exact length_join_texts (fun t ht =>
      (isPartition_dropLast_tokenize source).length_eq t (List.mem_of_mem_take ht))
  have hslices := slices_append (String.join (((tokenize source).dropLast.take n).map Token.text))
    (String.join (((tokenize source).dropLast.drop n).map Token.text))
  rw [hsource, hextent] at hslices
  exact hslices

theorem tokenize_text {source : String} {t : Token} (h : t ∈ (tokenize source).dropLast) :
    tokenize t.text = [t, .endMark] := by
  obtain ⟨ts, us, hsplit⟩ := List.append_of_mem h
  have hrest := (tokenize_join_of_append hsplit).2
  have hdrop : (tokenize (String.join ((t :: us).map Token.text))).dropLast = [t] ++ us := by
    rw [hrest, List.dropLast_concat]
    rfl
  have hfront := (tokenize_join_of_append hdrop).1
  rw [List.map_singleton, String.join_cons, String.join_nil, String.append_empty] at hfront
  exact hfront

/-- **A source can be cut at any token boundary.**  Cut behind any number of its tokens, the end
mark among them or not, its two parts have its tokens, with the end mark of the first part left out.
In particular every token but the end mark is the only one of its own text, and the first. -/
theorem tokenize_slices (source : String) (n : Nat) :
    (tokenize (sliceTo source (extent ((tokenize source).take n)))).dropLast
        ++ tokenize (sliceFrom source (extent ((tokenize source).take n))) = tokenize source
      ∧ ∀ t ∈ tokenize source, t.kind ≠ .eof →
        tokenize t.text = [t, .endMark] ∧ Token.first t.text = t := by
  have hmark : tokenize source = (tokenize source).dropLast ++ [.endMark] := by
    rw [dropLast_tokenize, tokenize_eq]
  refine ⟨?_, fun t ht hkind => ?_⟩
  · obtain ⟨hto, hfrom⟩ := slices_eq_join source n
    obtain ⟨hfront, hback⟩ := tokenize_join_of_append (List.take_append_drop n _).symm
    rw [hto, hfrom, hfront, hback, List.dropLast_concat, ← List.append_assoc,
      List.take_append_drop, ← hmark]
  · have hmem : t ∈ (tokenize source).dropLast := by
      rw [hmark] at ht
      rcases List.mem_append.1 ht with ht | ht
      · exact ht
      · rw [List.mem_singleton.1 ht] at hkind
        exact absurd rfl hkind
    have htext := tokenize_text hmem
    have hfirst := head?_tokenize t.text
    rw [htext] at hfirst
    exact ⟨htext, (Option.some.inj hfirst).symm⟩

/-- `x1 "a b` may be cut in front of its open string, which stays one token. -/
theorem tokenize_slices_unclosed :
    (tokenize (sliceTo "x1 \"a b" 3)).dropLast ++ tokenize (sliceFrom "x1 \"a b" 3)
        = tokenize "x1 \"a b"
      ∧ (.of .string "\"a b" : Token) ∈ tokenize "x1 \"a b" ∧ TokenKind.string ≠ .eof
      ∧ tokenize "\"a b" = [.of .string "\"a b", .endMark]
      ∧ Token.first "\"a b" = .of .string "\"a b" := by
  obtain ⟨hcut, htext⟩ := tokenize_slices "x1 \"a b" 2
  have hextent : extent ((tokenize "x1 \"a b").take 2) = 3 := by decide
  have hmem : (.of .string "\"a b" : Token) ∈ tokenize "x1 \"a b" := by decide
  rw [hextent] at hcut
  exact ⟨hcut, hmem, TokenKind.noConfusion, htext _ hmem TokenKind.noConfusion⟩

end BlockLang
