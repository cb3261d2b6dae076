import BlockLang.Scopes

/-!
# Frames by their numbers

The live frames are a list, and a frame is known by its number.  Two lists with the same
frames under the same numbers are the same list, `frames_ext`, so that what an operation
does can be said frame by frame: `Writes` says what binding a name does, and `writes_iff`
that there is just one way to do it.

Scopes are well-formed if every parent is older than its child.  Then a lookup follows
the parents among all live frames,

    lookupIn x s.frames n = the frame's own x, or else that of its parent,

and not only among those behind the frame in the list.
-/

namespace BlockLang

/-- **Binding a name in a list of bindings.**  A name that is there keeps its place, and a new one
comes last. -/
inductive Frame.Rebinds (x : String) (v : Value) :
    List (String × Value) → List (String × Value) → Prop
  | keep (before after : List (String × Value)) (w : Value) (h : x ∉ before.map Prod.fst) :
      Rebinds x v (before ++ (x, w) :: after) (before ++ (x, v) :: after)
  | add (bs : List (String × Value)) (h : x ∉ bs.map Prod.fst) : Rebinds x v bs (bs ++ [(x, v)])

namespace Frame

theorem Rebinds.cons {x y : String} {v w : Value} {bs bs' : List (String × Value)} (hne : x ≠ y)
    (h : Rebinds x v bs bs') : Rebinds x v ((y, w) :: bs) ((y, w) :: bs') := by
  cases h with
  | keep before after u h => exact .keep ((y, w) :: before) after u (by simpa [hne] using h)
  | add _ h => exact .add ((y, w) :: bs) (by simpa [hne] using h)

theorem rebinds_bind (x : String) (v : Value) (bs : List (String × Value)) :
    Rebinds x v bs (bind x v bs) := by
  induction bs with
  | nil => exact .add [] (by simp)
  | cons b bs ih =>
    obtain ⟨y, w⟩ := b
    by_cases h : y = x
    · subst h
      rw [bind, if_pos rfl]
      exact .keep [] bs w (by simp)
    · rw [bind, if_neg h]
      exact ih.cons (Ne.symm h)

/-- There is just one way to bind a name. -/
theorem Rebinds.eq_bind {x : String} {v : Value} {bs bs' : List (String × Value)}
    (h : Rebinds x v bs bs') : bs' = bind x v bs := by
  have hskip : ∀ (before rest : List (String × Value)), x ∉ before.map Prod.fst →
      bind x v (before ++ rest) = before ++ bind x v rest := by
    intro before rest hx
    induction before with
    | nil => rfl
    | cons b before ih =>
      obtain ⟨y, w⟩ := b
      simp only [List.map_cons, List.mem_cons, not_or] at hx
      rw [List.cons_append, bind, if_neg (Ne.symm hx.1), ih hx.2, List.cons_append]
  cases h with
  | keep before after w h => rw [hskip _ _ h, bind, if_pos rfl]
  | add _ h =>
    have hlast := hskip bs [] h
    rw [List.append_nil] at hlast
    rw [hlast, bind]

end Frame

namespace Scopes

variable {fs older : List Frame} {f : Frame} {n m : Nat}

/-! ### Frames in a list -/

@[simp] theorem frameIn_newest (f : Frame) (older : List Frame) :
    frameIn (f :: older) older.length = some f := by
  rw [frameIn, if_pos rfl]

theorem frameIn_older (f : Frame) (h : n ≠ older.length) :
    frameIn (f :: older) n = frameIn older n := by
  rw [frameIn, if_neg h]

theorem exists_frameIn (h : n < fs.length) : ∃ f, frameIn fs n = some f :=
  Option.isSome_iff_exists.1 (isSome_frameIn_iff.2 h)

theorem lt_of_frameIn (h : frameIn fs n = some f) : n < fs.length :=
  isSome_frameIn_iff.1 (by rw [h]; rfl)

theorem frameIn_of_le (h : fs.length ≤ n) : frameIn fs n = none := by
  rw [← Option.not_isSome_iff_eq_none, isSome_frameIn_iff]
  omega

theorem frameIn_modifyIn_self (g : Frame → Frame) (fs : List Frame) (n : Nat) :
    frameIn (modifyIn g fs n) n = (frameIn fs n).map g := by
  induction fs with
  | nil => rfl
  | cons f older ih =>
    by_cases h : n = older.length
    · subst h
      rw [modifyIn, if_pos rfl, frameIn_newest, frameIn_newest, Option.map_some]
    · rw [modifyIn, if_neg h, frameIn_older f h,
        frameIn_older f (by rw [length_modifyIn]; exact h), ih]

theorem frameIn_modifyIn_ne (g : Frame → Frame) (fs : List Frame) (h : m ≠ n) :
    frameIn (modifyIn g fs n) m = frameIn fs m := by
  induction fs with
  | nil => rfl
  | cons f older ih =>
    by_cases hn : n = older.length
    · subst hn
      rw [modifyIn, if_pos rfl, frameIn_older _ h, frameIn_older _ h]
    · rw [modifyIn, if_neg hn]
      by_cases hm : m = older.length
      · rw [frameIn, if_pos (by rw [length_modifyIn]; exact hm), frameIn, if_pos hm]
      · rw [frameIn_older f hm, frameIn_older f (by rw [length_modifyIn]; exact hm), ih]

/-- **Frames are known by their numbers.** -/
theorem frames_ext : ∀ {fs gs : List Frame}, fs.length = gs.length →
    (∀ n, frameIn fs n = frameIn gs n) → fs = gs
  | [], [], _, _ => rfl
  | f :: fs, g :: gs, hlen, h => by
    have hlen : fs.length = gs.length := Nat.succ.inj hlen
    have hnewest := h fs.length
    rw [frameIn_newest, hlen, frameIn_newest] at hnewest
    rw [Option.some.inj hnewest, frames_ext hlen]
    intro n
    by_cases hn : n = fs.length
    · rw [frameIn_of_le (by omega), frameIn_of_le (by omega)]
    · rw [← frameIn_older f hn, h, frameIn_older g (by omega)]

/-! ### Binding a name -/

/-- The scopes with a name bound in a frame. -/
def bound (s : Scopes) (n : Nat) (x : String) (v : Value) : Scopes :=
  { frames := modifyIn (fun f => f.store x v) s.frames n }

/-- **A name is bound in a frame**, and nothing else is different: as many frames, every other
frame the same, and in this one the same parent and the same bindings but for the name. -/
structure Writes (s : Scopes) (n : Nat) (x : String) (v : Value) (s' : Scopes) : Prop where
  size_eq : s'.size = s.size
  other : ∀ m, m ≠ n → frameIn s'.frames m = frameIn s.frames m
  own : ∃ f bs, frameIn s.frames n = some f ∧ Frame.Rebinds x v f.bindings bs
    ∧ frameIn s'.frames n = some { f with bindings := bs }

variable {s s' : Scopes} {x : String} {v : Value}

@[simp] theorem size_bound (s : Scopes) (n : Nat) (x : String) (v : Value) :
    (s.bound n x v).size = s.size :=
  length_modifyIn ..

/-- **There is just one way** to bind a name in a frame. -/
theorem writes_iff : s.Writes n x v s' ↔ n < s.size ∧ s' = s.bound n x v := by
  constructor
  · intro h
    obtain ⟨f, bs, hf, hbs, hf'⟩ := h.own
    refine ⟨lt_of_frameIn hf, ?_⟩
    have hframes : s'.frames = (s.bound n x v).frames := by
      refine frames_ext (h.size_eq.trans (size_bound s n x v).symm) (fun m => ?_)
      by_cases hm : m = n
      · subst hm
        rw [hf', bound, frameIn_modifyIn_self, hf, hbs.eq_bind]
        rfl
      · rw [h.other m hm, bound, frameIn_modifyIn_ne _ _ hm]
    exact congrArg Scopes.mk hframes
  · rintro ⟨hn, rfl⟩
    obtain ⟨f, hf⟩ := exists_frameIn hn
    refine ⟨size_bound s n x v, fun m hm => frameIn_modifyIn_ne _ _ hm,
      f, _, hf, Frame.rebinds_bind x v f.bindings, ?_⟩
    rw [bound, frameIn_modifyIn_self, hf]
    rfl

theorem bound_newest (f : Frame) (older : List Frame) (x : String) (v : Value) :
    bound { frames := f :: older } older.length x v = { frames := f.store x v :: older } := by
  rw [bound, modifyIn, if_pos rfl]

theorem number_natCast (h : n < s.size) : s.number (n : Int) = .ok n := by
  rw [number, Index.place_natCast h]
  rfl

/-! ### Well-formed scopes -/

/-- **Well-formed scopes**: every parent is older than its child. -/
def WellFormed (s : Scopes) : Prop :=
  ∀ n f p, frameIn s.frames n = some f → f.parent = some p → p < n

/-- Whether every parent in a list of frames is older than its child. -/
def parentsOlder : List Frame → Bool
  | [] => true
  | f :: older => f.parent.all (fun p => p < older.length) && parentsOlder older

theorem parentsOlder_iff (s : Scopes) : parentsOlder s.frames = true ↔ s.WellFormed := by
  obtain ⟨fs⟩ := s
  induction fs with
  | nil => simp [parentsOlder, WellFormed, frameIn]
  | cons f older ih =>
    have hall : f.parent.all (fun p => p < older.length) = true
        ↔ ∀ p, f.parent = some p → p < older.length := by
      cases f.parent <;> simp
    rw [parentsOlder, Bool.and_eq_true, ih, hall]
    constructor
    · rintro ⟨hnewest, holder⟩ n g p hg hp
      by_cases hn : n = older.length
      · subst hn
        rw [frameIn_newest] at hg
        exact hnewest p (Option.some.inj hg ▸ hp)
      · rw [frameIn_older f hn] at hg
        exact holder n g p hg hp
    · intro h
      refine ⟨fun p hp => h _ f p (frameIn_newest f older) hp, fun n g p hg hp => ?_⟩
      exact h n g p (by rw [frameIn_older f (Nat.ne_of_lt (lt_of_frameIn hg))]; exact hg) hp

instance (s : Scopes) : Decidable s.WellFormed :=
  decidable_of_iff _ (parentsOlder_iff s)

theorem WellFormed.bound (hs : s.WellFormed) (n : Nat) (x : String) (v : Value) :
    (s.bound n x v).WellFormed := by
  intro m f p hf hp
  by_cases hm : m = n
  · subst hm
    rw [Scopes.bound, frameIn_modifyIn_self] at hf
    obtain ⟨f', hf', rfl⟩ := Option.map_eq_some_iff.1 hf
    exact hs m f' p hf' hp
  · rw [Scopes.bound, frameIn_modifyIn_ne _ _ hm] at hf
    exact hs m f p hf hp

theorem WellFormed.child (hs : s.WellFormed) (hn : n < s.size) (bs : List (String × Value)) :
    WellFormed { frames := { parent := some n, bindings := bs } :: s.frames } := by
  intro m f p hf hp
  by_cases hm : m = s.frames.length
  · subst hm
    rw [frameIn_newest] at hf
    obtain rfl := Option.some.inj hf
    rw [← Option.some.inj hp]
    exact hn
  · rw [frameIn_older _ hm] at hf
    exact hs m f p hf hp

/-- The older frames are well-formed without the newest: none of them has it for a parent. -/
theorem WellFormed.of_cons (hs : WellFormed { frames := f :: older }) :
    WellFormed { frames := older } := by
  intro m g p hg hp
  refine hs m g p ?_ hp
  rw [frameIn_older f (Nat.ne_of_lt (lt_of_frameIn hg))]
  exact hg

/-- **What runs down the list follows the parents.**  What gives for the newest frame something made
from the frame and from what it gives for its parent, and passes every other frame on to the older
ones, does the same for every frame among all that are live. -/
theorem WellFormed.eq_follow {β : Type} (hs : s.WellFormed) (run : List Frame → Nat → β)
    (visit : Nat → Frame → Option β → β)
    (hnewest : ∀ f older,
      run (f :: older) older.length = visit older.length f (f.parent.map (run older)))
    (holder : ∀ f older n, n < older.length → run (f :: older) n = run older n)
    (hf : frameIn s.frames n = some f) :
    run s.frames n = visit n f (f.parent.map (run s.frames)) := by
  obtain ⟨fs⟩ := s
  -- on the way to the frame only newer frames are left out, and no parent is among them
  induction fs with
  | nil => exact absurd hf (by simp [frameIn])
  | cons newest older ih =>
    have hparent : ∀ g : Frame, (∀ p, g.parent = some p → p < older.length) →
        g.parent.map (run older) = g.parent.map (run (newest :: older)) := by
      intro g hg
      cases hp : g.parent with
      | none => rfl
      | some p => rw [Option.map_some, Option.map_some, holder newest older p (hg p hp)]
    by_cases hn : n = older.length
    · subst hn
      rw [frameIn_newest] at hf
      obtain rfl := Option.some.inj hf
      show run (newest :: older) older.length = _
      rw [hnewest, hparent newest (fun p hp => hs _ _ p (frameIn_newest newest older) hp)]
    · rw [frameIn_older newest hn] at hf
      have hlt := lt_of_frameIn hf
      show run (newest :: older) n = _
      rw [holder newest older n hlt, ih hs.of_cons hf, hparent f]
      intro p hp
      exact Nat.lt_trans (hs.of_cons n f p hf hp) hlt

theorem lookupIn_older (x : String) (f : Frame) (h : n < older.length) :
    lookupIn x (f :: older) n = lookupIn x older n := by
  rw [lookupIn, if_neg (by omega)]

/-- **A lookup follows the parents.** -/
theorem WellFormed.lookupIn_eq (hs : s.WellFormed) (x : String)
    (hf : frameIn s.frames n = some f) :
    lookupIn x s.frames n = (f.find? x).or (f.parent.bind (lookupIn x s.frames)) := by
  rw [hs.eq_follow (lookupIn x) (fun _ f found => (f.find? x).or found.join) ?_ ?_ hf]
  · cases f.parent <;> rfl
  · intro f older
    rw [lookupIn, if_pos rfl]
    cases f.find? x with
    | none => cases f.parent <;> rfl
    | some v => rfl
  · intro f older n hn
    exact lookupIn_older x f hn

theorem WellFormed.chainIn_eq (hs : s.WellFormed) (hf : frameIn s.frames n = some f) :
    chainIn s.frames n = n :: (f.parent.map (chainIn s.frames)).getD [] := by
  refine hs.eq_follow chainIn (fun n _ above => n :: above.getD []) ?_ ?_ hf
  · intro f older
    rw [chainIn, if_pos rfl]
    cases f.parent <;> rfl
  · intro f older n hn
    rw [chainIn, if_neg (by omega)]

theorem WellFormed.displayIn_eq (hs : s.WellFormed) (hf : frameIn s.frames n = some f) :
    displayIn s.frames n
      = f.display ++ ((f.parent.map (displayIn s.frames)).map (" < " ++ ·)).getD "" := by
  refine hs.eq_follow displayIn (fun _ f shown => f.display ++ (shown.map (" < " ++ ·)).getD "")
    ?_ ?_ hf
  · intro f older
    rw [displayIn, if_pos rfl]
    cases f.parent with
    | none => exact (String.append_empty ..).symm
    | some p => exact String.append_assoc ..
  · intro f older n hn
    rw [displayIn, if_neg (by omega)]

end Scopes

end BlockLang
