import BlockLang.Proofs.Resolver.Depth
import Mathlib.Data.List.NodupEquivFin

/-!
# A resolver only delays operators

What comes out of a resolver is what went in, with some operators moved back.  Said of
single tokens: let `place i` be the place at which the `i`-th token comes out.  Then

* a token that is no operator comes out before everything that stood behind it, so that
  all such tokens keep their order, and no operator comes out before one of them that
  stood in front of it;
* an operator comes out before the next token outside the blocks that were opened behind
  it, unless that token is an operand, a blank, an operator or an opening brace.

This holds of every token list, with braces that do not match and end marks anywhere.
Equal tokens cannot be told apart in what comes out.  But a resolver looks at nothing but
kinds, so that the tokens may be numbered first, and then each of them has one place.
-/

namespace BlockLang

/-- Whether a token of a kind lets out the operators that are held above the innermost barrier. -/
def TokenKind.letsOut (k : TokenKind) : Bool :=
  !(k.isOperand || k.isOperator || k = .whitespace || k = .openBrace)

namespace Resolver

/-! ### What comes out one by one -/

/-- **Run to exhaustion**: the tokens that a resolver gives one by one, up to the end. -/
inductive Yields : Resolver → List Token → Prop
  | done {r r' : Resolver} (h : r.next = (none, r')) : Yields r []
  | more {r r' : Resolver} {t : Token} {ts : List Token} (h : r.next = (some t, r'))
      (hrest : Yields r' ts) : Yields r (t :: ts)

theorem yields_iff {r : Resolver} {ts : List Token} : r.Yields ts ↔ ts = r.toList := by
  constructor
  · intro h
    induction h with
    | @done r r' h =>
      have hhead := r.fst_next
      rw [h] at hhead
      exact (List.head?_eq_none_iff.1 hhead.symm).symm
    | @more r r' t ts h _ ih =>
      have hhead := r.fst_next
      have htail := r.toList_snd_next
      rw [h] at hhead htail
      obtain ⟨rest, hrest⟩ := List.head?_eq_some_iff.1 hhead.symm
      rw [ih, htail, hrest, List.tail_cons]
  · intro h
    induction ts generalizing r with
    | nil =>
      have hhead := r.fst_next
      rw [← h, List.head?_nil] at hhead
      exact .done (Prod.ext hhead rfl)
    | cons t ts ih =>
      have hhead := r.fst_next
      have htail := r.toList_snd_next
      rw [← h, List.head?_cons] at hhead
      rw [← h, List.tail_cons] at htail
      exact .more (Prod.ext hhead rfl) (ih htail.symm)

/-! ### Tokens that are no operators -/

/-- What a step lets out besides operators is the token itself, if it is none. -/
theorem Stack.filter_shift {held : List Token} (h : Stack held) (t : Token) :
    (Resolver.shift held t).1.filter (fun u => !u.isOperator)
      = [t].filter (fun u => !u.isOperator) := by
  have hnone : ∀ {out : List Token}, (∀ u ∈ out, u ∈ held ∧ isBarrier u = false) →
      out.filter (fun u => !u.isOperator) = [] := by
    intro out hout
    refine List.filter_eq_nil_iff.2 (fun u hu => ?_)
    simp [h.isOperator (hout u hu).1 (hout u hu).2]
  have habove : (aboveBarrier held).filter (fun u => !u.isOperator) = [] := by
    refine hnone (fun u hu => ⟨(List.takeWhile_sublist _).subset hu, ?_⟩)
    simpa using List.all_eq_true.1 List.all_takeWhile u hu
  have hall : (operators held).filter (fun u => !u.isOperator) = [] := by
    refine hnone (fun u hu => ⟨(List.mem_filter.1 hu).1, ?_⟩)
    simpa using (List.mem_filter.1 hu).2
  have hhold : ∀ p, t.isOperator = true → (hold p t held).1.filter (fun u => !u.isOperator)
      = [t].filter (fun u => !u.isOperator) := by
    intro p ht
    rw [List.filter_cons_of_neg (by simp [ht]), List.filter_nil]
    refine hnone (fun u hu => ⟨(List.takeWhile_sublist _).subset hu, ?_⟩)
    exact isBarrier_of_yieldsTo (List.all_eq_true.1 List.all_takeWhile u hu)
  unfold Resolver.shift
  rcases hk : t.kind
  case number | ident | string | whitespace | openBrace => rfl
  case plus | minus => exact hhold 1 (by simp [Token.isOperator, hk, TokenKind.isOperator])
  case star | slash | percent =>
    exact hhold 2 (by simp [Token.isOperator, hk, TokenKind.isOperator])
  case eof => rw [List.filter_append, hall, List.nil_append]
  all_goals rw [List.filter_append, habove, List.nil_append]

/-- **Tokens that are no operators** come out in the order in which they went in. -/
theorem Stack.filter_resolveFrom {held : List Token} (h : Stack held) (ts : List Token) :
    (resolveFrom held ts).filter (fun u => !u.isOperator)
      = ts.filter (fun u => !u.isOperator) := by
  induction ts generalizing held with
  | nil =>
    refine List.filter_eq_nil_iff.2 (fun u hu => ?_)
    have hu := List.mem_filter.1 hu
    simp [h.isOperator hu.1 (by simpa using hu.2)]
  | cons t ts ih =>
    rw [resolveFrom, List.filter_append, h.filter_shift, ih (h.shift t 0).1, ← List.filter_append,
      List.singleton_append]

theorem pair_sublist_of_not_isOperator {t u : Token} (ht : t.isOperator = false)
    {ts : List Token} (h : [t, u].Sublist ts) (held : List Token) :
    [t, u].Sublist (resolveFrom held ts) := by
  induction ts generalizing held with
  | nil => exact absurd h.length_le (by simp)
  | cons v ts ih =>
    rw [resolveFrom]
    rcases List.cons_sublist_cons'.1 h with hrest | ⟨rfl, hrest⟩
    · exact (ih hrest _).trans (List.sublist_append_right ..)
    · have hu : u ∈ resolveFrom (shift held t).2 ts :=
        (resolveFrom_perm _ ts).mem_iff.2
          (List.mem_append_right _ (List.singleton_sublist.1 hrest))
      obtain ⟨front, hfront⟩ := exists_shift_of_not_isOperator ht held
      have htout : t ∈ (shift held t).1 := by rw [hfront]; simp
      exact (List.singleton_sublist.2 htout).append (List.singleton_sublist.2 hu)

/-! ### Operators -/

/-- Letting tokens out from the top of a stack lets `o` out, or stops above it; and it stops
strictly above it where `o` could go too. -/
theorem dropWhile_above (p : Token → Bool) (above : List Token) (o : Token) (below : List Token) :
    o ∈ (above ++ o :: below).takeWhile p
      ∨ (above ++ o :: below).dropWhile p = above.dropWhile p ++ o :: below
        ∧ (p o = true → above.dropWhile p ≠ []) := by
  induction above with
  | nil =>
    by_cases ho : p o = true
    · exact .inl (by simp [ho])
    · exact .inr ⟨by simp [ho], fun h => absurd h ho⟩
  | cons t above ih =>
    by_cases ht : p t = true
    · simp only [List.cons_append, List.takeWhile_cons_of_pos ht, List.dropWhile_cons_of_pos ht]
      exact ih.imp_left (List.mem_cons_of_mem t)
    · refine .inr ⟨?_, fun _ => ?_⟩
      · simp only [List.cons_append, List.dropWhile_cons_of_neg ht]
      · rw [List.dropWhile_cons_of_neg ht]
        exact List.cons_ne_nil _ _

/-- **One step** lets a held operator out, or keeps it, with one barrier above it for each brace
that is open. -/
theorem shift_above {o : Token} (ho : isBarrier o = false) (above below : List Token) (t : Token) :
    o ∈ (shift (above ++ o :: below) t).1
      ∨ ∃ above', (shift (above ++ o :: below) t).2 = above' ++ o :: below
        ∧ barriers above' = t.deepen (barriers above) := by
  have hhold : ∀ p, isBarrier t = false → o ∈ (hold p t (above ++ o :: below)).1
      ∨ ∃ above', (hold p t (above ++ o :: below)).2 = above' ++ o :: below
        ∧ barriers above' = barriers above := by
    intro p ht
    refine (dropWhile_above (yieldsTo p) above o below).imp_right (fun h => ?_)
    refine ⟨t :: above.dropWhile (yieldsTo p), congrArg (t :: ·) h.1, ?_⟩
    rw [barriers, List.countP_cons_of_neg (by rw [ht]; exact Bool.false_ne_true)]
    exact barriers_dropWhile (fun _ => isBarrier_of_yieldsTo) above
  have hflush : o ∈ aboveBarrier (above ++ o :: below)
      ∨ fromBarrier (above ++ o :: below) = fromBarrier above ++ o :: below
        ∧ fromBarrier above ≠ [] :=
    (dropWhile_above _ above o below).imp_right (fun h => ⟨h.1, h.2 (by simp [ho])⟩)
  unfold shift Token.deepen
  rcases hk : t.kind
  case number | ident | string | whitespace => exact .inr ⟨above, rfl, rfl⟩
  case plus | minus => exact hhold 1 (by simp [isBarrier, hk])
  case star | slash | percent => exact hhold 2 (by simp [isBarrier, hk])
  case openBrace =>
    exact .inr ⟨t :: above, rfl, List.countP_cons_of_pos (by simp [isBarrier, hk])⟩
  case closeBrace =>
    refine hflush.imp (List.mem_append_left _) ?_
    rintro ⟨hdrop, hne⟩
    obtain ⟨b, rest, hb, hbarrier⟩ := (fromBarrier_eq above).resolve_left hne
    have hcount := barriers_fromBarrier above
    rw [hb, barriers, List.countP_cons_of_pos hbarrier] at hcount
    refine ⟨rest, ?_, ?_⟩
    · rw [hdrop, hb]
      rfl
    · rw [← hcount]
      rfl
  case eof =>
    refine .inl (List.mem_append_left _ (List.mem_filter.2 ⟨?_, by simp [ho]⟩))
    exact List.mem_append_right _ List.mem_cons_self
  all_goals
    exact hflush.imp (List.mem_append_left _)
      (fun h => ⟨fromBarrier above, h.1, barriers_fromBarrier above⟩)

/-- A token that lets operators out comes out behind those above the innermost barrier. -/
theorem pair_sublist_shift {o u : Token} {held : List Token} (hu : u.kind.letsOut = true)
    (ho : o ∈ aboveBarrier held) : [o, u].Sublist (shift held u).1 := by
  have hpair : ∀ {out : List Token}, o ∈ out → [o, u].Sublist (out ++ [u]) := fun h =>
    (List.singleton_sublist.2 h).append (List.Sublist.refl [u])
  have hmem : o ∈ operators held := by
    rw [operators_eq]
    exact List.mem_append_left _ ho
  obtain ⟨k, s⟩ := u
  cases k
  case eof => exact hpair hmem
  case letWord | openParen | closeParen | closeBrace | openBracket | closeBracket | semi | equals
      | unknown => exact hpair ho
  all_goals exact absurd hu Bool.false_ne_true

/-- **A held operator comes out** before the next token outside the blocks opened behind it that
lets operators out. -/
theorem pair_sublist_of_held {o u : Token} (ho : isBarrier o = false)
    (hu : u.kind.letsOut = true) (post below : List Token) (mid above : List Token)
    (hdepth : depthFrom (barriers above) mid = 0) :
    [o, u].Sublist (resolveFrom (above ++ o :: below) (mid ++ u :: post)) := by
  induction mid generalizing above with
  | nil =>
    have hnone : ∀ t ∈ above, isBarrier t = false := fun t ht =>
      Bool.eq_false_iff.2 (List.countP_eq_zero.1 hdepth t ht)
    have hmem : o ∈ aboveBarrier (above ++ o :: below) := by
      rw [aboveBarrier, List.takeWhile_append_of_pos (fun t ht => by simp [hnone t ht])]
      exact List.mem_append_right _ (by simp [ho])
    exact (pair_sublist_shift hu hmem).trans (List.sublist_append_left ..)
  | cons t mid ih =>
    rw [List.cons_append, resolveFrom]
    rcases shift_above ho above below t with hout | ⟨above', hheld, hbarriers⟩
    · have hmem : u ∈ resolveFrom (shift (above ++ o :: below) t).2 (mid ++ u :: post) :=
        (resolveFrom_perm ..).mem_iff.2 (by simp)
      exact (List.singleton_sublist.2 hout).append (List.singleton_sublist.2 hmem)
    · rw [hheld]
      refine (ih above' ?_).trans (List.sublist_append_right ..)
      rw [hbarriers]
      exact hdepth

theorem exists_shift_of_isOperator {o : Token} (ho : o.isOperator = true) (held : List Token) :
    ∃ below, (shift held o).2 = o :: below := by
  obtain ⟨k, s⟩ := o
  cases k
  case plus | minus | star | slash | percent => exact ⟨_, rfl⟩
  all_goals exact absurd ho Bool.false_ne_true

/-- An operator comes out before the next token outside the blocks opened behind it that lets
operators out. -/
theorem pair_sublist_of_isOperator {o u : Token} (ho : o.isOperator = true)
    (hu : u.kind.letsOut = true) (pre : List Token) {mid : List Token}
    (hdepth : depthFrom 0 mid = 0) (post : List Token) :
    [o, u].Sublist (resolve (pre ++ o :: (mid ++ u :: post))) := by
  have hbarrier := isBarrier_of_isOperator ho
  obtain ⟨below, hbelow⟩ := exists_shift_of_isOperator ho (heldAfter [] pre)
  rw [resolve, resolveFrom_append, resolveFrom, hbelow]
  refine List.Sublist.trans ?_ (List.sublist_append_right ..)
  exact (pair_sublist_of_held hbarrier hu post below mid [] hdepth).trans
    (List.sublist_append_right ..)

/-! ### Tokens under other names -/

theorem shift_map {f : Token → Token} (hf : ∀ t, (f t).kind = t.kind) (held : List Token)
    (t : Token) :
    shift (held.map f) (f t) = ((shift held t).1.map f, (shift held t).2.map f) := by
  have hbarrier : (fun t => !isBarrier t) ∘ f = fun t => !isBarrier t :=
    funext fun t => by simp [isBarrier, hf]
  have hyield : ∀ p, yieldsTo p ∘ f = yieldsTo p := fun p =>
    funext fun t => by simp [yieldsTo, isBarrier, hf]
  have habove : aboveBarrier (held.map f) = (aboveBarrier held).map f := by
    rw [aboveBarrier, List.takeWhile_map, hbarrier, aboveBarrier]
  have hfrom : fromBarrier (held.map f) = (fromBarrier held).map f := by
    rw [fromBarrier, List.dropWhile_map, hbarrier, fromBarrier]
  have hall : operators (held.map f) = (operators held).map f := by
    rw [operators, List.filter_map, hbarrier, operators]
  have hhold : ∀ p, hold p (f t) (held.map f)
      = ((hold p t held).1.map f, (hold p t held).2.map f) := by
    intro p
    simp only [hold, List.takeWhile_map, List.dropWhile_map, hyield, List.map_cons]
  unfold shift
  rw [hf]
  rcases t.kind <;>
    simp only [habove, hfrom, hall, hhold, List.map_append, List.map_cons, List.map_nil,
      List.map_drop]

theorem resolveFrom_map {f : Token → Token} (hf : ∀ t, (f t).kind = t.kind)
    (held ts : List Token) :
    resolveFrom (held.map f) (ts.map f) = (resolveFrom held ts).map f := by
  induction ts generalizing held with
  | nil =>
    have hbarrier : (fun t => !isBarrier t) ∘ f = fun t => !isBarrier t :=
      funext fun t => by simp [isBarrier, hf]
    simp only [List.map_nil, resolveFrom, operators, List.filter_map, hbarrier]
  | cons t ts ih =>
    rw [List.map_cons, resolveFrom, shift_map hf, ih, resolveFrom, List.map_append]

end Resolver

theorem depthFrom_map {f : Token → Token} (hf : ∀ t, (f t).kind = t.kind) (n : Nat)
    (ts : List Token) : depthFrom n (ts.map f) = depthFrom n ts := by
  induction ts generalizing n with
  | nil => rfl
  | cons t ts ih =>
    have hsame : (f t).deepen n = t.deepen n := by rw [Token.deepen, hf, Token.deepen]
    rw [List.map_cons, depthFrom_cons, hsame, ih, depthFrom_cons]

/-- **Tokens can be numbered**: every list comes from one without repetitions by changing texts and
lengths. -/
theorem exists_nodup_map (ts : List Token) :
    ∃ (us : List Token) (f : Token → Token), us.Nodup ∧ (∀ t, (f t).kind = t.kind)
      ∧ us.map f = ts := by
  let number : Nat → Token → Token := fun i t => { t with length := i }
  refine ⟨ts.mapIdx number, fun u => { ts[u.length]?.getD u with kind := u.kind }, ?_,
    fun _ => rfl, ?_⟩
  · refine List.nodup_iff_injective_get.2 (fun i j hij => Fin.ext ?_)
    simp only [List.get_eq_getElem, List.getElem_mapIdx] at hij
    exact congrArg Token.length hij
  · refine List.ext_getElem (by simp) (fun i h₁ h₂ => ?_)
    have hi : i < ts.length := h₂
    simp only [List.getElem_map, List.getElem_mapIdx, number, List.getElem?_eq_getElem hi,
      Option.getD_some]

/-- The tokens strictly between two places. -/
def tokensBetween (ts : List Token) (i j : Nat) : List Token :=
  (ts.take j).drop (i + 1)

theorem eq_append_tokensBetween {ts : List Token} {i j : Fin ts.length} (hij : i < j) :
    ts = ts.take i ++ ts[i] :: (tokensBetween ts i j ++ ts[j] :: ts.drop (j + 1)) := by
  have hfront : ts.take j = ts.take i ++ ts[i] :: tokensBetween ts i j := by
    have hlt : i.val < j.val := hij
    have hi : i.val < (ts.take j).length := by rw [List.length_take]; omega
    have hsplit := (List.take_append_drop i (ts.take j)).symm
    rw [List.drop_eq_getElem_cons hi, List.take_take, Nat.min_eq_left (Nat.le_of_lt hlt),
      List.getElem_take] at hsplit
    exact hsplit
  have hsplit : ts = ts.take j ++ ts[j] :: ts.drop (j + 1) := by
    have hsplit := (List.take_append_drop j ts).symm
    rw [List.drop_eq_getElem_cons j.isLt] at hsplit
    exact hsplit
  conv_lhs => rw [hsplit, hfront]
  rw [List.append_assoc, List.cons_append]

/-- **Only operators are delayed.**  With `place i` the place at which the `i`-th token comes out:
it comes out as it is; one that is no operator comes out before all behind it; and an operator comes
out before the next token that is outside the blocks opened behind it and lets operators out. -/
structure OnlyDelays (ts out : List Token) (place : Fin ts.length ≃ Fin out.length) : Prop where
  token_eq : ∀ i, out[place i] = ts[i]
  passes : ∀ i j, i < j → ts[i].isOperator = false → place i < place j
  released : ∀ i j : Fin ts.length, i < j → ts[i].isOperator = true → ts[j].kind.letsOut = true →
    depthFrom 0 (tokensBetween ts i j) = 0 → place i < place j

theorem lt_of_pair_sublist {ts : List Token} (h : ts.Nodup) {i j : Fin ts.length}
    (hpair : [ts[i], ts[j]].Sublist ts) : i < j := by
  obtain ⟨f, hf⟩ := List.sublist_iff_exists_fin_orderEmbedding_get_eq.1 hpair
  have hi : f 0 = i := h.get_inj_iff.1 (hf 0).symm
  have hj : f 1 = j := h.get_inj_iff.1 (hf 1).symm
  rw [← hi, ← hj]
  exact f.strictMono Nat.zero_lt_one

/-- Tokens that can be told apart are only delayed. -/
theorem exists_onlyDelays_of_nodup {ts : List Token} (h : ts.Nodup) :
    ∃ place, OnlyDelays ts (resolve ts) place := by
  have hperm := resolve_perm ts
  have hnodup : (resolve ts).Nodup := hperm.nodup_iff.2 h
  let place : Fin ts.length ≃ Fin (resolve ts).length :=
    (h.getEquiv ts).trans ((Equiv.subtypeEquivRight fun _ => hperm.mem_iff.symm).trans
      (hnodup.getEquiv (resolve ts)).symm)
  have htoken : ∀ i, (resolve ts)[place i] = ts[i] := fun i =>
    List.getElem_idxOf (List.idxOf_lt_length_iff.2 (hperm.mem_iff.2 (List.getElem_mem i.2)))
  -- a pair that comes out in its order has its places in this order
  have hbefore : ∀ i j, [ts[i], ts[j]].Sublist (resolve ts) → place i < place j := by
    intro i j hpair
    rw [← htoken i, ← htoken j] at hpair
    exact lt_of_pair_sublist hnodup hpair
  refine ⟨place, htoken, fun i j hij hi => ?_, fun i j hij hi hj hdepth => ?_⟩
  · have hpair : [ts[i], ts[j]].Sublist ts := by
      conv => rhs; rw [eq_append_tokensBetween hij]
      refine List.Sublist.trans ?_ (List.sublist_append_right ..)
      refine List.Sublist.cons_cons _ (List.singleton_sublist.2 ?_)
      exact List.mem_append_right _ List.mem_cons_self
    exact hbefore i j (Resolver.pair_sublist_of_not_isOperator hi hpair [])
  · have hpair := Resolver.pair_sublist_of_isOperator hi hj (ts.take i) hdepth (ts.drop (j + 1))
    rw [← eq_append_tokensBetween hij] at hpair
    exact hbefore i j hpair

theorem OnlyDelays.map {f : Token → Token} (hf : ∀ t, (f t).kind = t.kind) {ts out : List Token}
    {place : Fin ts.length ≃ Fin out.length} (h : OnlyDelays ts out place) :
    OnlyDelays (ts.map f) (out.map f)
      ((finCongr (List.length_map f)).trans
        (place.trans (finCongr (List.length_map f).symm))) := by
  have hget : ∀ i : Fin (ts.map f).length, (ts.map f)[i] = f ts[finCongr (List.length_map f) i] :=
    fun i => List.getElem_map ..
  refine ⟨fun i => ?_, fun i j hij hi => ?_, fun i j hij hi hj hdepth => ?_⟩
  · rw [hget, ← h.token_eq]
    exact List.getElem_map ..
  · rw [hget, Token.isOperator, hf] at hi
    exact h.passes _ _ hij hi
  · rw [hget, Token.isOperator, hf] at hi
    rw [hget, hf] at hj
    rw [tokensBetween, ← List.map_take, ← List.map_drop, depthFrom_map hf] at hdepth
    exact h.released _ _ hij hi hj hdepth

/-- **The resolver only delays operators.**  Run to exhaustion over any tokens, it gives one list,
which is a permutation of the tokens, with the same tokens that are no operators in the same order,
the opening braces among them; and each token has a place in it, such that only operators are
delayed. -/
theorem resolver_only_delays (ts : List Token) :
    ∃ out, (∀ out', Resolver.Yields { pending := ts } out' ↔ out' = out) ∧ out.Perm ts
      ∧ out.filter (fun t => !t.isOperator) = ts.filter (fun t => !t.isOperator)
      ∧ out.filter Resolver.isBarrier = ts.filter Resolver.isBarrier
      ∧ ∃ place, OnlyDelays ts out place := by
  have hothers := Resolver.Stack.filter_resolveFrom (fun _ h => absurd h List.not_mem_nil) ts
  refine ⟨resolve ts, fun out' => Resolver.yields_iff, resolve_perm ts, hothers, ?_, ?_⟩
  · have hbrace : ∀ t : Token, (Resolver.isBarrier t && !t.isOperator) = Resolver.isBarrier t := by
      rintro ⟨k, s⟩
      cases k <;> rfl
    have hbraces := congrArg (List.filter Resolver.isBarrier) hothers
    simp only [List.filter_filter, hbrace] at hbraces
    exact hbraces
  · obtain ⟨us, f, hnodup, hf, rfl⟩ := exists_nodup_map ts
    obtain ⟨place, hplace⟩ := exists_onlyDelays_of_nodup hnodup
    have hmap : resolve (us.map f) = (resolve us).map f := Resolver.resolveFrom_map hf [] us
    rw [hmap]
    exact ⟨_, hplace.map hf⟩

end BlockLang
