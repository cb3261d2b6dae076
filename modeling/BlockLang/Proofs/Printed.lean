import BlockLang.Proofs.Lexer.Partition
import BlockLang.Proofs.RoundTrip
import BlockLang.Tree.Printer

/-!
# A printed tree tells the tree

No two trees are printed alike, if their names, texts and numbers can be spelled.  What is
printed is read in two steps.  It has the tokens of the tree and blanks only, since a space,
a `)` or a `;` stands behind every name and number:

    significantTokens t.source = t.printed.

And these tokens show where they end, whatever stands behind them: operations and blocks
have their marks, bindings end with `;`, and a name is an expression unless a `=` comes
next, which comes behind no other tree.  So token lists that begin with the tokens of two
trees are the same only if the trees are, and the rests.
-/

namespace BlockLang

namespace Tree

mutual

/-- **Whether everything in a tree can be spelled**: its names, its texts and its numbers. -/
@[simp] def isSpelled : Tree → Bool
  | number v => 0 ≤ v && v ≤ greatestNumber
  | text s => !s.toList.contains '"'
  | name x | declaration x => isName x
  | operation l r _ => l.isSpelled && r.isSpelled
  | block stmts => areSpelled stmts
  | initialization x value | assignment x value => isName x && value.isSpelled
  | foreign _ => false

/-- Whether everything in the trees of a list can be spelled. -/
@[simp] def areSpelled : List Tree → Bool
  | [] => true
  | t :: ts => t.isSpelled && areSpelled ts

end

mutual

/-- The tokens of a tree as it is printed, with parentheses around every operation. -/
@[simp] def printed : Tree → List Token
  | number v => [{ kind := .number, text := toString v }]
  | text s => [{ kind := .string, text := "\"" ++ s ++ "\"" }]
  | name x => [.ofName x]
  | operation l r op =>
    .fixed .openParen :: (l.printed ++ op.token :: (r.printed ++ [.fixed .closeParen]))
  | block stmts => .fixed .openBrace :: (printedAll stmts ++ [.fixed .closeBrace])
  | declaration x => [.fixed .letWord, .ofName x, .fixed .semi]
  | initialization x v =>
    .fixed .letWord :: .ofName x :: .fixed .equals :: (v.printed ++ [.fixed .semi])
  | assignment x v => .ofName x :: .fixed .equals :: (v.printed ++ [.fixed .semi])
  | foreign _ => []

/-- The tokens of the trees of a list as they are printed. -/
@[simp] def printedAll : List Tree → List Token
  | [] => []
  | t :: ts => t.printed ++ printedAll ts

end

theorem isNormal_of_token? {e : Tree} {t : Token} (ht : e.token? = some t)
    (he : e.isSpelled = true) : e.isNormal = true := by
  cases e with
  | number | text | name => exact he
  | operation | block | declaration | initialization | assignment | «foreign» =>
    exact absurd ht (by simp [token?])

end Tree

/-! ### The tokens of a printed tree -/

open Lexer CharClasses

/-- A token that stands by itself is as long as its text, which has the form of its kind. -/
theorem Lexer.Stands.hasForm {t : Token} (h : Stands t) :
    t.length = t.text.length ∧ unicode.HasForm t.kind t.text.toList := by
  obtain ⟨c, cs, -, -, -, hcut⟩ := h
  obtain ⟨htoken, hafter⟩ := hcut [' '] (fun d hd => (Option.some.inj hd).symm)
  have hfits : unicode.Fits (cut c (cs ++ [' '])).token (cut c (cs ++ [' '])).after :=
    fits_cut c (cs ++ [' '])
  rw [htoken, hafter] at hfits
  rcases hfits.2 with ⟨hform, -⟩ | ⟨hnil, -⟩
  · exact ⟨hfits.1, hform⟩
  · exact absurd hnil (List.cons_ne_nil _ _)

/-- **A token that nothing carries on** is the first of its text and of what stands behind it. -/
theorem Lexer.Stands.significantTokens_append {t : Token} (h : Stands t) {rest : String}
    (hrest : ∀ d ∈ rest.toList.head?, unicode.carriesOn t.kind d = false) :
    significantTokens (t.text ++ rest) = t :: significantTokens rest := by
  obtain ⟨hlength, hform⟩ := h.hasForm
  obtain ⟨c, cs, htext, -, hcounts, -⟩ := h
  obtain ⟨htoken, hafter⟩ : (cut c (cs ++ rest.toList)).token = t
      ∧ (cut c (cs ++ rest.toList)).after = rest.toList :=
    cut_of_fits htext ⟨hlength, .inl ⟨hform, hrest⟩⟩
  rw [significantTokens_eq, significantTokens_eq, String.toList_append, htext, List.cons_append,
    tokens_cons, htoken, hafter, List.filter_cons_of_pos hcounts]

/-- What stands behind a printed tree: a space, a `)`, a `;` or nothing. -/
def Closes (rest : String) : Prop :=
  ∀ d ∈ rest.toList.head?, d = ' ' ∨ d = ')' ∨ d = ';'

theorem closes_append {s : String} (hs : s ≠ "") (h : Closes s) (rest : String) :
    Closes (s ++ rest) := by
  have hne : s.toList ≠ [] := fun hnil => hs (String.toList_inj.1 hnil)
  rw [Closes, String.toList_append, List.head?_append_of_ne_nil _ hne]
  exact h

theorem closes_space (rest : String) : Closes (" " ++ rest) :=
  closes_append (by decide) (by simp [Closes]) rest

/-- No name and no number goes on with what stands behind a printed tree. -/
theorem Closes.carriesOn {rest : String} (h : Closes rest) {kind : TokenKind}
    (hkind : kind ≠ .whitespace) : ∀ d ∈ rest.toList.head?, unicode.carriesOn kind d = false := by
  intro d hd
  rcases h d hd with rfl | rfl | rfl <;> cases kind <;>
    first | exact absurd rfl hkind | decide

theorem significantTokens_append_of_closes {t : Token} (h : Stands t) {rest : String}
    (hrest : Closes rest) : significantTokens (t.text ++ rest) = t :: significantTokens rest := by
  refine h.significantTokens_append (hrest.carriesOn (fun hkind => ?_))
  obtain ⟨-, -, -, -, hcounts, -⟩ := h
  simp [Token.counts, Token.isWhitespace, hkind] at hcounts

theorem significantTokens_punctuation {k : TokenKind} (h : k.isFixed = true) (hlet : k ≠ .letWord)
    (rest : String) :
    significantTokens (k.describe ++ rest) = .fixed k :: significantTokens rest := by
  refine (stands_fixed h).significantTokens_append (fun d _ => ?_)
  cases k <;> first | rfl | exact absurd rfl hlet | exact absurd h Bool.false_ne_true

theorem significantTokens_space (rest : String) :
    significantTokens (" " ++ rest) = significantTokens rest := by
  rw [significantTokens_eq, significantTokens_eq, String.toList_append]
  exact filter_tokens_cons (by decide) rest.toList

theorem significantTokens_let (rest : String) :
    significantTokens ("let " ++ rest) = .fixed .letWord :: significantTokens rest := by
  calc significantTokens ("let " ++ rest)
    _ = significantTokens ((Token.fixed .letWord).text ++ (" " ++ rest)) := by
      rw [← String.append_assoc]
      rfl
    _ = .fixed .letWord :: significantTokens rest := by
      rw [significantTokens_append_of_closes (stands_fixed rfl) (closes_space rest),
        significantTokens_space]

theorem closes_punctuation {k : TokenKind} (h : k = .closeParen ∨ k = .semi) (rest : String) :
    Closes (k.describe ++ rest) := by
  rcases h with rfl | rfl
  · exact closes_append (by decide) (by simp [Closes, TokenKind.describe]) rest
  · exact closes_append (by decide) (by simp [Closes, TokenKind.describe]) rest

theorem closes_sourcesAfter (ts : List Tree) {rest : String} (h : Closes rest) :
    Closes (Tree.sourcesAfter ts ++ rest) := by
  cases ts with
  | nil =>
    rw [Tree.sourcesAfter, String.empty_append]
    exact h
  | cons t ts =>
    rw [Tree.sourcesAfter, String.append_assoc, String.append_assoc]
    exact closes_space _

namespace Tree

/-- A tree that is printed with its tokens, whatever closes it. -/
def PrintsTokens (t : Tree) : Prop :=
  ∀ rest, Closes rest → significantTokens (t.source ++ rest) = t.printed ++ significantTokens rest

theorem printsTokens_leaf {e : Tree} {t : Token} (ht : e.token? = some t)
    (he : e.isSpelled = true) : e.PrintsTokens := by
  intro rest hrest
  have hleaf := significantTokens_append_of_closes
    (stands_of_token? ht (isNormal_of_token? ht he)) hrest
  cases e with
  | number | text | name =>
    rw [← Option.some.inj ht] at hleaf
    rw [source]
    exact hleaf
  | operation | block | declaration | initialization | assignment | «foreign» =>
    exact absurd ht (by simp [token?])

theorem significantTokens_binding {x : String} {v : Tree} (hx : isName x = true)
    (hv : v.PrintsTokens) (rest : String) :
    significantTokens (x ++ " = " ++ v.source ++ ";" ++ rest)
      = .ofName x :: .fixed .equals :: (v.printed ++ .fixed .semi :: significantTokens rest) := by
  calc significantTokens (x ++ " = " ++ v.source ++ ";" ++ rest)
    _ = significantTokens ((Token.ofName x).text ++ (" " ++ (TokenKind.equals.describe ++ (" " ++
          (v.source ++ (TokenKind.semi.describe ++ rest)))))) := by
      simp only [String.append_assoc]
      rfl
    _ = .ofName x :: .fixed .equals :: (v.printed ++ .fixed .semi :: significantTokens rest) := by
      rw [significantTokens_append_of_closes (stands_ofName hx) (closes_space _),
        significantTokens_space, significantTokens_punctuation rfl TokenKind.noConfusion,
        significantTokens_space, hv _ (closes_punctuation (.inr rfl) rest),
        significantTokens_punctuation rfl TokenKind.noConfusion]

theorem printsTokens_operation {l r : Tree} (hl : l.PrintsTokens) (hr : r.PrintsTokens)
    (op : Operator) : (operation l r op).PrintsTokens := by
  intro rest _
  have hop : op.kind.isFixed = true ∧ op.kind ≠ .letWord := by cases op <;> decide
  calc significantTokens ((operation l r op).source ++ rest)
    _ = significantTokens (TokenKind.openParen.describe ++ (l.source ++ (" " ++
          (op.kind.describe ++ (" " ++ (r.source ++
            (TokenKind.closeParen.describe ++ rest))))))) := by
      rw [source]
      simp only [String.append_assoc]
      cases op <;> rfl
    _ = .fixed .openParen :: (l.printed ++ op.token ::
          (r.printed ++ .fixed .closeParen :: significantTokens rest)) := by
      rw [significantTokens_punctuation rfl TokenKind.noConfusion, hl _ (closes_space _),
        significantTokens_space, significantTokens_punctuation hop.1 hop.2,
        significantTokens_space, hr _ (closes_punctuation (.inl rfl) rest),
        significantTokens_punctuation rfl TokenKind.noConfusion]
      rfl
    _ = (operation l r op).printed ++ significantTokens rest := by simp

theorem printsTokens_block {stmts : List Tree} (hstmts : ∀ rest, Closes rest →
    significantTokens (sourcesAfter stmts ++ rest) = printedAll stmts ++ significantTokens rest) :
    (block stmts).PrintsTokens := by
  intro rest _
  cases stmts with
  | nil =>
    calc significantTokens ((block []).source ++ rest)
      _ = significantTokens (TokenKind.openBrace.describe ++ (TokenKind.closeBrace.describe ++
            rest)) := rfl
      _ = (block []).printed ++ significantTokens rest := by
        rw [significantTokens_punctuation rfl TokenKind.noConfusion,
          significantTokens_punctuation rfl TokenKind.noConfusion]
        rfl
  | cons t ts =>
    -- the space behind the opening brace is the one in front of the first tree
    calc significantTokens ((block (t :: ts)).source ++ rest)
      _ = significantTokens (TokenKind.openBrace.describe ++ (sourcesAfter (t :: ts) ++
            (" " ++ (TokenKind.closeBrace.describe ++ rest)))) := by
        rw [source, sourcesAfter]
        simp only [String.append_assoc]
        rfl
      _ = (block (t :: ts)).printed ++ significantTokens rest := by
        rw [significantTokens_punctuation rfl TokenKind.noConfusion, hstmts _ (closes_space _),
          significantTokens_space, significantTokens_punctuation rfl TokenKind.noConfusion]
        simp

theorem printsTokens_declaration {x : String} (hx : isName x = true) :
    (declaration x).PrintsTokens := by
  intro rest _
  calc significantTokens ((declaration x).source ++ rest)
    _ = significantTokens ("let " ++ ((Token.ofName x).text ++ (TokenKind.semi.describe ++
          rest))) := by
      rw [source]
      simp only [String.append_assoc]
      rfl
    _ = (declaration x).printed ++ significantTokens rest := by
      rw [significantTokens_let, significantTokens_append_of_closes (stands_ofName hx)
          (closes_punctuation (.inr rfl) rest),
        significantTokens_punctuation rfl TokenKind.noConfusion]
      rfl

theorem printsTokens_initialization {x : String} {v : Tree} (hx : isName x = true)
    (hv : v.PrintsTokens) : (initialization x v).PrintsTokens := by
  intro rest _
  have hsource : (initialization x v).source ++ rest
      = "let " ++ (x ++ " = " ++ v.source ++ ";" ++ rest) := by
    rw [source]
    simp only [String.append_assoc]
  rw [hsource, significantTokens_let, significantTokens_binding hx hv]
  simp

theorem printsTokens_assignment {x : String} {v : Tree} (hx : isName x = true)
    (hv : v.PrintsTokens) : (assignment x v).PrintsTokens := by
  intro rest _
  rw [source, significantTokens_binding hx hv]
  simp

mutual

/-- **A tree is printed with its tokens**, whatever closes it. -/
theorem printsTokens : ∀ t : Tree, t.isSpelled = true → t.PrintsTokens
  | .number _, h => printsTokens_leaf rfl h
  | .text _, h => printsTokens_leaf rfl h
  | .name _, h => printsTokens_leaf rfl h
  | .operation l r op, h => by
    rw [isSpelled, Bool.and_eq_true] at h
    exact printsTokens_operation (printsTokens l h.1) (printsTokens r h.2) op
  | .block stmts, h => by
    rw [isSpelled] at h
    exact printsTokens_block (significantTokens_sourcesAfter_append stmts h)
  | .declaration x, h => by
    rw [isSpelled] at h
    exact printsTokens_declaration h
  | .initialization x v, h => by
    rw [isSpelled, Bool.and_eq_true] at h
    exact printsTokens_initialization h.1 (printsTokens v h.2)
  | .assignment x v, h => by
    rw [isSpelled, Bool.and_eq_true] at h
    exact printsTokens_assignment h.1 (printsTokens v h.2)
  | .foreign _, h => absurd h (by simp)

theorem significantTokens_sourcesAfter_append : ∀ (ts : List Tree), areSpelled ts = true →
    ∀ rest, Closes rest →
      significantTokens (sourcesAfter ts ++ rest) = printedAll ts ++ significantTokens rest
  | [], _, rest, _ => by
    rw [sourcesAfter, String.empty_append, printedAll, List.nil_append]
  | t :: ts, h, rest, hrest => by
    rw [areSpelled, Bool.and_eq_true] at h
    rw [sourcesAfter, String.append_assoc, String.append_assoc, significantTokens_space,
      printsTokens t h.1 _ (closes_sourcesAfter ts hrest),
      significantTokens_sourcesAfter_append ts h.2 rest hrest, printedAll, List.append_assoc]

end

theorem significantTokens_source {t : Tree} (h : t.isSpelled = true) :
    significantTokens t.source = t.printed := by
  have hnil : significantTokens "" = [] := rfl
  have hsource := t.printsTokens h "" (fun d hd => absurd hd (by simp))
  rwa [String.append_empty, hnil, List.append_nil] at hsource

/-! ### Where the tokens of a tree end -/

/-- The kind of token that a printed tree begins with. -/
def lead : Tree → TokenKind
  | number _ => .number
  | text _ => .string
  | name _ | assignment .. => .ident
  | operation .. => .openParen
  | block _ => .openBrace
  | declaration _ | initialization .. => .letWord
  | foreign _ => .eof

theorem exists_printed {t : Tree} (h : t.isSpelled = true) :
    ∃ u us, t.printed = u :: us ∧ u.kind = t.lead := by
  cases t with
  | «foreign» => exact absurd h (by simp)
  | number | text | name | operation | block | declaration | initialization | assignment =>
    rw [printed]
    exact ⟨_, _, rfl, rfl⟩

/-- Tokens in front of which a name is an expression: no `=` comes first. -/
def LeavesName (us : List Token) : Prop :=
  ∀ u ∈ us.head?, u.kind ≠ .equals

theorem leavesName_cons {u : Token} (h : u.kind ≠ .equals) (us : List Token) :
    LeavesName (u :: us) := by
  intro v hv
  rw [← Option.some.inj hv]
  exact h

theorem leavesName_printedAll {ts : List Tree} (h : areSpelled ts = true) {us : List Token}
    (hus : LeavesName us) : LeavesName (printedAll ts ++ us) := by
  cases ts with
  | nil => exact hus
  | cons t ts =>
    rw [areSpelled, Bool.and_eq_true] at h
    obtain ⟨u, rest, hprinted, hkind⟩ := exists_printed h.1
    rw [printedAll, hprinted]
    refine leavesName_cons ?_ _
    rw [hkind]
    cases t <;> exact TokenKind.noConfusion

/-- Trees that are printed with the same tokens at the front begin with the same kind of token. -/
theorem lead_eq {t t' : Tree} {us us' : List Token} (h : t.isSpelled = true)
    (h' : t'.isSpelled = true) (heq : t.printed ++ us = t'.printed ++ us') : t.lead = t'.lead := by
  obtain ⟨u, rest, hprinted, hkind⟩ := exists_printed h
  obtain ⟨u', rest', hprinted', hkind'⟩ := exists_printed h'
  rw [hprinted, hprinted', List.cons_append, List.cons_append] at heq
  rw [← hkind, ← hkind', (List.cons.inj heq).1]

theorem printed_append_ne_closeBrace {t : Tree} (h : t.isSpelled = true) (us us' : List Token) :
    t.printed ++ us ≠ .fixed .closeBrace :: us' := by
  obtain ⟨u, rest, hprinted, hkind⟩ := exists_printed h
  intro heq
  rw [hprinted, List.cons_append] at heq
  rw [(List.cons.inj heq).1] at hkind
  cases t <;> exact TokenKind.noConfusion hkind

theorem not_leavesName_equals (us : List Token) : ¬ LeavesName (.fixed .equals :: us) :=
  fun h => h _ rfl rfl

theorem ofName_inj {x x' : String} : Token.ofName x = Token.ofName x' ↔ x = x' :=
  ⟨congrArg Token.text, congrArg Token.ofName⟩

theorem token_inj {op op' : Operator} : op.token = op'.token ↔ op = op' := by
  cases op <;> cases op' <;> decide

/-- A tree whose tokens show where they end: whatever stands behind it and another tree, if the
tokens are the same then so are the trees, and so is what stands behind them. -/
def ShowsEnd (t : Tree) : Prop :=
  ∀ (t' : Tree) (us us' : List Token), t'.isSpelled = true → LeavesName us → LeavesName us' →
    t.printed ++ us = t'.printed ++ us' → t = t' ∧ us = us'

theorem leaf_append_inj {e e' : Tree} {t t' : Token} {us us' : List Token}
    (ht : e.token? = some t) (ht' : e'.token? = some t') (h : e.isSpelled = true)
    (h' : e'.isSpelled = true) (heq : t :: us = t' :: us') : e = e' ∧ us = us' := by
  obtain ⟨rfl, hus⟩ := List.cons.inj heq
  have he := leaf?_of_token? ht (isNormal_of_token? ht h)
  have he' := leaf?_of_token? ht' (isNormal_of_token? ht' h')
  exact ⟨Option.some.inj (he.symm.trans he'), hus⟩

theorem binding_append_inj {x x' : String} {v v' : Tree} (hv : v.ShowsEnd)
    (hv' : v'.isSpelled = true) {us us' : List Token}
    (heq : Token.ofName x :: .fixed .equals :: (v.printed ++ .fixed .semi :: us)
      = .ofName x' :: .fixed .equals :: (v'.printed ++ .fixed .semi :: us')) :
    x = x' ∧ v = v' ∧ us = us' := by
  have hsemi : ∀ us, LeavesName (.fixed .semi :: us) := leavesName_cons TokenKind.noConfusion
  obtain ⟨hname, heq⟩ := List.cons.inj heq
  obtain ⟨hvalue, hend⟩ := hv v' _ _ hv' (hsemi us) (hsemi us') (List.cons.inj heq).2
  exact ⟨ofName_inj.1 hname, hvalue, (List.cons.inj hend).2⟩

theorem showsEnd_number {n : Int} (h : (number n).isSpelled = true) : (number n).ShowsEnd := by
  intro t' us us' h' _ _ heq
  have hlead := lead_eq h h' heq
  cases t' with
  | number n' =>
    rw [printed, printed] at heq
    exact leaf_append_inj rfl rfl h h' heq
  | _ => exact TokenKind.noConfusion hlead

theorem showsEnd_text {s : String} (h : (text s).isSpelled = true) : (text s).ShowsEnd := by
  intro t' us us' h' _ _ heq
  have hlead := lead_eq h h' heq
  cases t' with
  | text s' =>
    rw [printed, printed] at heq
    exact leaf_append_inj rfl rfl h h' heq
  | _ => exact TokenKind.noConfusion hlead

/-- A name and an assignment begin alike, but a `=` comes next in the one only. -/
theorem showsEnd_name {x : String} (h : (name x).isSpelled = true) : (name x).ShowsEnd := by
  intro t' us us' h' hus _ heq
  have hlead := lead_eq h h' heq
  cases t' with
  | name x' =>
    rw [printed, printed] at heq
    exact leaf_append_inj rfl rfl h h' heq
  | assignment x' v' =>
    rw [printed, printed, List.singleton_append, List.cons_append, List.cons_append] at heq
    exact absurd ((List.cons.inj heq).2 ▸ hus) (not_leavesName_equals _)
  | _ => exact TokenKind.noConfusion hlead

theorem showsEnd_operation {l r : Tree} {op : Operator}
    (h : (operation l r op).isSpelled = true) (hl : l.ShowsEnd) (hr : r.ShowsEnd) :
    (operation l r op).ShowsEnd := by
  intro t' us us' h' _ _ heq
  have hlead := lead_eq h h' heq
  cases t' with
  | operation l' r' op' =>
    rw [isSpelled, Bool.and_eq_true] at h'
    have hsign : ∀ (op : Operator) us, LeavesName (op.token :: us) :=
      fun op => leavesName_cons (by cases op <;> exact TokenKind.noConfusion)
    have hparen : ∀ us, LeavesName (.fixed .closeParen :: us) :=
      leavesName_cons TokenKind.noConfusion
    simp only [printed, List.cons_append, List.append_assoc, List.nil_append] at heq
    obtain ⟨rfl, hright⟩ := hl l' _ _ h'.1 (hsign op _) (hsign op' _) (List.cons.inj heq).2
    obtain ⟨hop, hright⟩ := List.cons.inj hright
    obtain ⟨rfl, hend⟩ := hr r' _ _ h'.2 (hparen us) (hparen us') hright
    rw [token_inj.1 hop]
    exact ⟨rfl, (List.cons.inj hend).2⟩
  | _ => exact TokenKind.noConfusion hlead

theorem showsEnd_block {stmts : List Tree} (h : (block stmts).isSpelled = true)
    (hstmts : ∀ (stmts' : List Tree) (us us' : List Token), areSpelled stmts' = true →
      printedAll stmts ++ .fixed .closeBrace :: us
        = printedAll stmts' ++ .fixed .closeBrace :: us' → stmts = stmts' ∧ us = us') :
    (block stmts).ShowsEnd := by
  intro t' us us' h' _ _ heq
  have hlead := lead_eq h h' heq
  cases t' with
  | block stmts' =>
    rw [isSpelled] at h'
    simp only [printed, List.cons_append, List.append_assoc, List.nil_append] at heq
    obtain ⟨rfl, hus⟩ := hstmts stmts' us us' h' (List.cons.inj heq).2
    exact ⟨rfl, hus⟩
  | _ => exact TokenKind.noConfusion hlead

/-- A declaration and an initialization begin alike, up to the `;` and the `=`. -/
theorem showsEnd_declaration {x : String} (h : (declaration x).isSpelled = true) :
    (declaration x).ShowsEnd := by
  intro t' us us' h' _ _ heq
  have hlead := lead_eq h h' heq
  cases t' with
  | declaration x' =>
    simp only [printed, List.cons_append, List.nil_append, List.cons.injEq, true_and,
      ofName_inj] at heq
    rw [heq.1]
    exact ⟨rfl, heq.2⟩
  | initialization x' v' =>
    simp only [printed, List.cons_append, List.nil_append, List.cons.injEq, true_and] at heq
    exact absurd heq.2.1 (by decide)
  | _ => exact TokenKind.noConfusion hlead

theorem showsEnd_initialization {x : String} {v : Tree}
    (h : (initialization x v).isSpelled = true) (hv : v.ShowsEnd) :
    (initialization x v).ShowsEnd := by
  intro t' us us' h' hus hus' heq
  have hlead := lead_eq h h' heq
  cases t' with
  | declaration x' =>
    exact (showsEnd_declaration h' _ us' us h hus' hus heq.symm).imp Eq.symm Eq.symm
  | initialization x' v' =>
    rw [isSpelled, Bool.and_eq_true] at h'
    simp only [printed, List.cons_append, List.append_assoc, List.nil_append] at heq
    obtain ⟨rfl, rfl, hus⟩ := binding_append_inj hv h'.2 (List.cons.inj heq).2
    exact ⟨rfl, hus⟩
  | _ => exact TokenKind.noConfusion hlead

theorem showsEnd_assignment {x : String} {v : Tree} (h : (assignment x v).isSpelled = true)
    (hv : v.ShowsEnd) : (assignment x v).ShowsEnd := by
  intro t' us us' h' hus hus' heq
  have hlead := lead_eq h h' heq
  cases t' with
  | name x' =>
    exact (showsEnd_name h' _ us' us h hus' hus heq.symm).imp Eq.symm Eq.symm
  | assignment x' v' =>
    rw [isSpelled, Bool.and_eq_true] at h'
    simp only [printed, List.cons_append, List.append_assoc, List.nil_append] at heq
    obtain ⟨rfl, rfl, hus⟩ := binding_append_inj hv h'.2 heq
    exact ⟨rfl, hus⟩
  | _ => exact TokenKind.noConfusion hlead

mutual

/-- **The tokens of a tree show where they end.** -/
theorem showsEnd : ∀ t : Tree, t.isSpelled = true → t.ShowsEnd
  | .number _, h => showsEnd_number h
  | .text _, h => showsEnd_text h
  | .name _, h => showsEnd_name h
  | .operation l r op, h => by
    have hparts := h
    rw [isSpelled, Bool.and_eq_true] at hparts
    exact showsEnd_operation h (showsEnd l hparts.1) (showsEnd r hparts.2)
  | .block stmts, h => by
    have hparts := h
    rw [isSpelled] at hparts
    exact showsEnd_block h (printedAll_append_inj stmts hparts)
  | .declaration _, h => showsEnd_declaration h
  | .initialization x v, h => by
    have hparts := h
    rw [isSpelled, Bool.and_eq_true] at hparts
    exact showsEnd_initialization h (showsEnd v hparts.2)
  | .assignment x v, h => by
    have hparts := h
    rw [isSpelled, Bool.and_eq_true] at hparts
    exact showsEnd_assignment h (showsEnd v hparts.2)
  | .foreign _, h => absurd h (by simp)

/-- So do those of the trees in a block, of which the last ends in front of the brace. -/
theorem printedAll_append_inj : ∀ (ts : List Tree), areSpelled ts = true →
    ∀ (ts' : List Tree) (us us' : List Token), areSpelled ts' = true →
    printedAll ts ++ .fixed .closeBrace :: us = printedAll ts' ++ .fixed .closeBrace :: us' →
    ts = ts' ∧ us = us'
  | [], _, [], _, _, _, heq => ⟨rfl, (List.cons.inj heq).2⟩
  | [], _, t' :: ts', us, us', h', heq => by
    rw [areSpelled, Bool.and_eq_true] at h'
    rw [printedAll, printedAll, List.append_assoc] at heq
    exact absurd heq.symm (printed_append_ne_closeBrace h'.1 _ _)
  | t :: ts, h, [], us, us', _, heq => by
    rw [areSpelled, Bool.and_eq_true] at h
    rw [printedAll, printedAll, List.append_assoc] at heq
    exact absurd heq (printed_append_ne_closeBrace h.1 _ _)
  | t :: ts, h, t' :: ts', us, us', h', heq => by
    rw [areSpelled, Bool.and_eq_true] at h h'
    have hbrace : ∀ us, LeavesName (.fixed .closeBrace :: us) :=
      leavesName_cons TokenKind.noConfusion
    rw [printedAll, printedAll, List.append_assoc, List.append_assoc] at heq
    obtain ⟨rfl, hrest⟩ := showsEnd t h.1 t' _ _ h'.1 (leavesName_printedAll h.2 (hbrace us))
      (leavesName_printedAll h'.2 (hbrace us')) heq
    obtain ⟨rfl, hus⟩ := printedAll_append_inj ts h.2 ts' us us' h'.2 hrest
    exact ⟨rfl, hus⟩

end

/-- **No two trees are printed alike**, if everything in them can be spelled. -/
theorem source_eq_iff {t t' : Tree} (h : t.isSpelled = true) (h' : t'.isSpelled = true) :
    t.source = t'.source ↔ t = t' := by
  refine ⟨fun heq => ?_, congrArg source⟩
  have hprinted : t.printed ++ [] = t'.printed ++ [] := by
    rw [← significantTokens_source h, ← significantTokens_source h', heq]
  have hnil : LeavesName [] := fun u hu => absurd hu (by simp)
  exact (showsEnd t h t' [] [] h' hnil hnil hprinted).1

/-- A block that ends with an assignment, and one that ends with a name and a text. -/
theorem source_eq_iff_braced :
    let t := block [name "x", assignment "y" (text "\x7d; x")]
    let t' := block [name "x", name "y", text "\x7d; x"]
    t.isSpelled = true ∧ t'.isSpelled = true ∧ t.source ≠ t'.source := by
  intro t t'
  have h : t.isSpelled = true := by decide
  have h' : t'.isSpelled = true := by decide
  exact ⟨h, h', (source_eq_iff h h').not.2 (by simp [t, t'])⟩

end Tree

end BlockLang
