import BlockLang.Proofs.Ends
import BlockLang.Proofs.Scopes
import BlockLang.Scopes.Arena

/-!
# The arena and its frames

The frames of well-formed scopes lie in an arena as `Scopes.layout` says, and the arena does
with its two lists what `Scopes` does with its one:

    an operation on s.layout is refused as on s, and leaves s.layout,
    or it ends with the same result and the layout of what it makes of s.

A question that is asked of the arena has the answer that it has when it is asked of the
scopes.  A question about ancestors is a walk up the parents, `Arena.Climbs`, which ends
because every parent is older than its child.
-/

namespace BlockLang

open StepM

namespace Arena

variable {a : Arena}

theorem ends_checkParent (parent : Option Int) (a : Arena) :
    Ends (checkParent parent) a
      (fun _ a' => a' = a ∧ ∀ p, parent = some p → 0 ≤ p ∧ p < a.size)
      (fun fault a' => a' = a ∧ ∃ p, parent = some p ∧ ¬ (0 ≤ p ∧ p < a.size)
        ∧ fault = .noParent p) := by
  cases parent with
  | none => exact ends_pure.2 ⟨rfl, by simp⟩
  | some p =>
    rw [checkParent, ends_bind, ends_get]
    by_cases hp : 0 ≤ p ∧ p < a.size
    · rw [if_pos hp]
      refine ends_pure.2 ⟨rfl, fun q hq => ?_⟩
      rw [← Option.some.inj hq]
      exact hp
    · rw [if_neg hp]
      exact ends_throw.2 ⟨rfl, p, rfl, hp, rfl⟩

theorem ends_popBindings (bs : List (List (String × Value))) (b : List (String × Value))
    (ps : List (Option Int)) :
    Ends popBindings { bindings := bs ++ [b], parents := ps }
      (fun _ a => a = { bindings := bs, parents := ps }) (fun _ _ => False) := by
  rw [popBindings, ends_bind, ends_get, if_neg (by simp), ends_modify, List.dropLast_concat]

theorem ends_popParent (bs : List (List (String × Value))) (ps : List (Option Int))
    (p : Option Int) :
    Ends popParent { bindings := bs, parents := ps ++ [p] }
      (fun _ a => a = { bindings := bs, parents := ps }) (fun _ _ => False) := by
  rw [popParent, ends_bind, ends_get, if_neg (by simp), ends_modify, List.dropLast_concat]

theorem findAmong_of_some {frame : Int} {bs : List (String × Value)} {x : String} {v : Value}
    (hbs : a.bindingsOf frame = .ok bs) (hx : bs.lookup x = some v) (frames : List Int) :
    a.findAmong x (frame :: frames) = .ok (some v) := by
  rw [findAmong, hbs]
  simp only [bind, Except.bind, hx]
  rfl

theorem findAmong_of_none {frame : Int} {bs : List (String × Value)} {x : String}
    (hbs : a.bindingsOf frame = .ok bs) (hx : bs.lookup x = none) (frames : List Int) :
    a.findAmong x (frame :: frames) = a.findAmong x frames := by
  rw [findAmong, hbs]
  simp only [bind, Except.bind, hx]

/-- A walk without a fault finds what its frames have. -/
theorem find_of_walk {frame : Int} {frames : List Int} {x : String} {found : Option Value}
    (hwalk : a.walk frame = (frames, none)) (hfound : a.findAmong x frames = .ok found) :
    a.find frame x = .ok found := by
  rw [find, hwalk]
  dsimp only
  rw [hfound]
  cases found <;> rfl

theorem Climbs.unique {frame : Int} {frames frames' : List Int}
    {fault fault' : Option ScopeFault} (h : a.Climbs frame frames fault)
    (h' : a.Climbs frame frames' fault') : frames = frames' ∧ fault = fault' := by
  induction h generalizing frames' with
  | root h =>
    cases h' with
    | root h' => exact ⟨rfl, rfl⟩
    | missing h' => cases h.symm.trans h'
    | link h' _ => cases h.symm.trans h'
  | missing h =>
    cases h' with
    | root h' => cases h.symm.trans h'
    | missing h' =>
      obtain rfl := Except.error.inj (h.symm.trans h')
      exact ⟨rfl, rfl⟩
    | link h' _ => cases h.symm.trans h'
  | link h _ ih =>
    cases h' with
    | root h' => cases h.symm.trans h'
    | missing h' => cases h.symm.trans h'
    | link h' hrest =>
      obtain rfl := Option.some.inj (Except.ok.inj (h.symm.trans h'))
      obtain ⟨rfl, rfl⟩ := ih hrest
      exact ⟨rfl, rfl⟩

end Arena

namespace Scopes

variable {s : Scopes} {n : Nat}

/-- Frames are numbered from the oldest. -/
theorem frameIn_eq (fs : List Frame) (n : Nat) : frameIn fs n = fs.reverse[n]? := by
  induction fs with
  | nil => rfl
  | cons f older ih =>
    rw [List.reverse_cons, List.getElem?_append, List.length_reverse]
    by_cases h : n = older.length
    · subst h
      rw [frameIn_newest, if_neg (Nat.lt_irrefl _), Nat.sub_self]
      rfl
    · rw [frameIn_older f h, ih]
      by_cases hlt : n < older.length
      · rw [if_pos hlt]
      · rw [if_neg hlt, List.getElem?_eq_none (by rw [List.length_reverse]; omega),
          List.getElem?_eq_none (by rw [List.length_singleton]; omega)]

@[simp] theorem length_bindings_layout (s : Scopes) : s.layout.bindings.length = s.size := by
  rw [layout, List.length_map, List.length_reverse, size]

@[simp] theorem size_layout (s : Scopes) : s.layout.size = s.size :=
  length_bindings_layout s

@[simp] theorem length_parents_layout (s : Scopes) : s.layout.parents.length = s.size := by
  rw [layout, List.length_map, List.length_reverse, size]

@[simp] theorem scopes_layout (s : Scopes) : s.layout.scopes = s := by
  obtain ⟨frames⟩ := s
  have hframe : ∀ f : Frame,
      Frame.mk ((f.parent.map Int.ofNat).map Int.toNat) f.bindings = f := by
    intro f
    obtain ⟨parent, bindings⟩ := f
    cases parent <;> rfl
  simp only [Arena.scopes, layout, List.zipWith_map, List.zipWith_self, hframe, List.map_id',
    List.reverse_reverse]

/-- The newest frame lies at the end of both lists. -/
theorem layout_cons (f : Frame) (older : List Frame) :
    layout { frames := f :: older }
      = { bindings := (layout { frames := older }).bindings ++ [f.bindings]
          parents := (layout { frames := older }).parents ++ [f.parent.map Int.ofNat] } := by
  simp only [layout, List.reverse_cons, List.map_append, List.map_singleton]

/-! ### Making and releasing frames -/

/-- **Making a frame** puts it at the end of both lists, or is refused as it is among the frames. -/
theorem ends_newFrame_layout (s : Scopes) (parent : Option Int) :
    Ends (Arena.newFrame parent) s.layout
      (fun n a => ∃ s', s.newFrame parent = .ok (n, s') ∧ a = s'.layout)
      (fun fault a => s.newFrame parent = .error fault ∧ a = s.layout) := by
  rw [Arena.newFrame]
  refine (Arena.ends_checkParent parent s.layout).bind ?_ ?_
  · intro _ a hchecked
    obtain ⟨rfl, hlive⟩ := hchecked
    rw [size_layout] at hlive
    rw [ends_bind, ends_modify, ends_bind, ends_modify, ends_bind, ends_get, ends_pure]
    have hsize : (s.layout.bindings ++ [[]]).length - 1 = s.size := by
      rw [List.length_append, length_bindings_layout]
      rfl
    cases parent with
    | none =>
      refine ⟨{ frames := { parent := none } :: s.frames }, ?_, ?_⟩
      · rw [newFrame, Arena.size, hsize]
      · exact (layout_cons { parent := none } s.frames).symm
    | some p =>
      have hp := hlive p rfl
      refine ⟨{ frames := { parent := some p.toNat } :: s.frames }, ?_, ?_⟩
      · rw [newFrame, if_pos hp, Arena.size, hsize]
      · have hnat : some p = (some p.toNat).map Int.ofNat := by
          rw [Option.map_some]
          exact congrArg some (Int.toNat_of_nonneg hp.1).symm
        rw [layout_cons, ← hnat]
  · intro fault a hrefused
    obtain ⟨rfl, p, rfl, hp, rfl⟩ := hrefused
    rw [size_layout] at hp
    exact ⟨by rw [newFrame, if_neg hp], rfl⟩

theorem ends_release_layout (s : Scopes) (frame : Int) :
    Ends (Arena.release frame) s.layout
      (fun _ a => ∃ s', s.release frame = .ok s' ∧ a = s'.layout)
      (fun fault a => s.release frame = .error fault ∧ a = s.layout) := by
  rw [Arena.release, ends_bind, ends_get, size_layout, release]
  by_cases hframe : frame = (s.size : Int) - 1
  · rw [if_pos hframe, if_pos hframe]
    obtain ⟨frames⟩ := s
    cases frames with
    | nil =>
      rw [ends_bind, Arena.popBindings, ends_bind, ends_get]
      exact ends_throw.2 ⟨rfl, rfl⟩
    | cons newest older =>
      rw [layout_cons]
      refine (Arena.ends_popBindings _ _ _).andThen ?_
      intro _ a hbindings
      rw [hbindings]
      exact (Arena.ends_popParent _ _ _).mono (fun _ _ h => ⟨_, rfl, h⟩) (fun _ _ h => h.elim)
  · rw [if_neg hframe, if_neg hframe]
    exact ends_throw.2 ⟨rfl, rfl⟩

theorem reverse_modifyIn (g : Frame → Frame) (fs : List Frame) (n : Nat) :
    (modifyIn g fs n).reverse = fs.reverse.modify n g := by
  apply List.ext_getElem?
  intro m
  rw [← frameIn_eq, List.getElem?_modify, ← frameIn_eq]
  by_cases hm : n = m
  · subst hm
    rw [frameIn_modifyIn_self]
    simp
  · rw [frameIn_modifyIn_ne g fs (Ne.symm hm)]
    simp [hm]

theorem map_modify {α β : Type} (part : α → β) {g : α → α} {g' : β → β}
    (h : ∀ a, part (g a) = g' (part a)) (l : List α) (n : Nat) :
    (l.modify n g).map part = (l.map part).modify n g' := by
  apply List.ext_getElem?
  intro m
  rw [List.getElem?_map, List.getElem?_modify, List.getElem?_modify, List.getElem?_map]
  cases l[m]? with
  | none => rfl
  | some a => by_cases hm : n = m <;> simp [hm, h]

/-- A name is bound in one of the lists, and the other stays as it is. -/
theorem layout_bound (s : Scopes) (n : Nat) (x : String) (v : Value) :
    (s.bound n x v).layout
      = { s.layout with bindings := s.layout.bindings.modify n (Frame.bind x v) } := by
  have hbindings := map_modify Frame.bindings (g := fun f => f.store x v) (fun _ => rfl)
    s.frames.reverse n
  have hparents : (s.frames.reverse.modify n (fun f => f.store x v)).map
        (fun f => f.parent.map Int.ofNat)
      = (s.frames.reverse.map (fun f => f.parent.map Int.ofNat)).modify n id :=
    map_modify (fun f : Frame => f.parent.map Int.ofNat) (fun _ => rfl) s.frames.reverse n
  rw [List.modify_id] at hparents
  simp only [layout, bound, reverse_modifyIn, hbindings, hparents]

theorem ends_store_layout (s : Scopes) (frame : Int) (x : String) (v : Value) :
    Ends (Arena.store frame x v) s.layout
      (fun _ a => ∃ s', s.store frame x v = .ok s' ∧ a = s'.layout)
      (fun fault a => s.store frame x v = .error fault ∧ a = s.layout) := by
  rw [Arena.store, ends_bind, ends_get, length_bindings_layout, store, number]
  cases Index.place s.size frame with
  | error fault => exact ends_throw.2 ⟨rfl, rfl⟩
  | ok n => exact ends_modify.2 ⟨s.bound n x v, rfl, (layout_bound s n x v).symm⟩

/-! ### Questions about a frame -/

/-- **What is asked of a frame in one of the lists** is asked of the frame. -/
theorem get_map_frames {α : Type} (g : Option Frame → α) (s : Scopes) (frame : Int) :
    (Index.get (s.frames.reverse.map (fun f => g (some f))) frame).mapError ScopeFault.noFrame
      = do return g (frameIn s.frames (← s.number frame)) := by
  have hlength : (s.frames.reverse.map (fun f => g (some f))).length = s.size := by
    rw [List.length_map, List.length_reverse, size]
  rw [number]
  cases hplace : Index.place s.size frame with
  | error fault =>
    rw [Index.get_eq_error (hlength ▸ hplace)]
    rfl
  | ok n =>
    obtain ⟨f, hf⟩ := exists_frameIn (Index.lt_of_place? (Index.place_eq_ok_iff.1 hplace))
    rw [Index.get_eq_ok (x := g (some f)) (hlength ▸ hplace)]
    · show Except.ok (g (some f)) = Except.ok (g (frameIn s.frames n))
      rw [hf]
    · rw [List.getElem?_map, ← frameIn_eq, hf]
      rfl

theorem bindingsOf_layout (s : Scopes) (frame : Int) :
    s.layout.bindingsOf frame = s.bindings frame :=
  get_map_frames (fun f => (f.map Frame.bindings).getD []) s frame

theorem parentOf_layout (s : Scopes) (frame : Int) :
    s.layout.parentOf frame = (s.parent frame).map (Option.map Int.ofNat) := by
  have hget := get_map_frames (fun f => (f.bind Frame.parent).map Int.ofNat) s frame
  rw [Arena.parentOf, layout]
  refine hget.trans ?_
  rw [parent]
  cases s.number frame <;> rfl

/-- **A parent in the arena is a number**, and older than its child. -/
theorem WellFormed.parents_layout (hs : s.WellFormed) (n : Nat) (p : Int)
    (h : s.layout.parents[n]? = some (some p)) : 0 ≤ p ∧ p < n := by
  rw [layout, List.getElem?_map, ← frameIn_eq] at h
  obtain ⟨f, hf, hparent⟩ := Option.map_eq_some_iff.1 h
  obtain ⟨q, hq, rfl⟩ := Option.map_eq_some_iff.1 hparent
  have hlt := hs n f q hf hq
  exact ⟨Int.natCast_nonneg q, Int.ofNat_lt.2 hlt⟩

/-! ### Walks up the parents -/

theorem exists_of_number {frame : Int} (h : s.number frame = .ok n) :
    ∃ f, frameIn s.frames n = some f := by
  rw [number] at h
  cases hplace : Index.place s.size frame with
  | error fault =>
    rw [hplace] at h
    cases h
  | ok m =>
    rw [hplace] at h
    obtain rfl := Except.ok.inj h
    exact exists_frameIn (Index.lt_of_place? (Index.place_eq_ok_iff.1 hplace))

theorem bindings_eq {frame : Int} {f : Frame} (hn : s.number frame = .ok n)
    (hf : frameIn s.frames n = some f) : s.layout.bindingsOf frame = .ok f.bindings := by
  rw [bindingsOf_layout, bindings, hn]
  show Except.ok (((frameIn s.frames n).map Frame.bindings).getD []) = _
  rw [hf]
  rfl

theorem parent_eq {frame : Int} {f : Frame} (hn : s.number frame = .ok n)
    (hf : frameIn s.frames n = some f) :
    s.layout.parentOf frame = .ok (f.parent.map Int.ofNat) := by
  rw [parentOf_layout, parent, hn]
  show Except.ok (((frameIn s.frames n).bind Frame.parent).map Int.ofNat) = _
  rw [hf]
  rfl

/-- The frames that a walk comes by, the first as it was asked for. -/
def climbed (s : Scopes) (frame : Int) (n : Nat) : List Int :=
  frame :: ((chainIn s.frames n).drop 1).map Int.ofNat

theorem WellFormed.climbed_eq (hs : s.WellFormed) {f : Frame} (hf : frameIn s.frames n = some f)
    (frame : Int) :
    s.climbed frame n = frame :: (f.parent.map (fun p : Nat => s.climbed p p)).getD [] := by
  rw [climbed, hs.chainIn_eq hf]
  cases hp : f.parent with
  | none => rfl
  | some p =>
    have hlt := hs n f p hf hp
    obtain ⟨f', hf'⟩ := exists_frameIn (Nat.lt_trans hlt (lt_of_frameIn hf))
    rw [Option.map_some, Option.map_some, climbed, hs.chainIn_eq hf']
    rfl

/-- **Along a walk.**  What holds of a frame without a parent, and of a frame whenever it holds of
its parent, holds of every frame that is asked for. -/
theorem WellFormed.along (hs : s.WellFormed) {P : Int → Nat → Prop}
    (hroot : ∀ frame n f, s.number frame = .ok n → frameIn s.frames n = some f →
      f.parent = none → P frame n)
    (hlink : ∀ frame n f p, s.number frame = .ok n → frameIn s.frames n = some f →
      f.parent = some p → P p p → P frame n)
    {frame : Int} (hn : s.number frame = .ok n) : P frame n := by
  induction n using Nat.strongRecOn generalizing frame with
  | ind n ih =>
    obtain ⟨f, hf⟩ := exists_of_number hn
    cases hp : f.parent with
    | none => exact hroot frame n f hn hf hp
    | some p =>
      have hlt := hs n f p hf hp
      exact hlink frame n f p hn hf hp
        (ih p hlt (number_natCast (Nat.lt_trans hlt (lt_of_frameIn hf))))

/-- **A walk up the parents** comes to an end. -/
theorem WellFormed.climbs (hs : s.WellFormed) {frame : Int} (hn : s.number frame = .ok n) :
    s.layout.Climbs frame (s.climbed frame n) none := by
  refine hs.along (P := fun frame n => s.layout.Climbs frame (s.climbed frame n) none) ?_ ?_ hn
  · intro frame n f hn hf hp
    rw [hs.climbed_eq hf, hp]
    exact .root (by rw [parent_eq hn hf, hp]; rfl)
  · intro frame n f p hn hf hp hrest
    rw [hs.climbed_eq hf, hp]
    exact .link (by rw [parent_eq hn hf, hp]; rfl) hrest

/-- **A walk is not broken off**: it takes a step for each frame at most. -/
theorem WellFormed.climb_layout (hs : s.WellFormed) {frame : Int} (hn : s.number frame = .ok n)
    (limit : Nat) (hlimit : n < limit) :
    s.layout.climb limit frame = (s.climbed frame n, none) := by
  refine hs.along (P := fun frame n => ∀ limit, n < limit →
    s.layout.climb limit frame = (s.climbed frame n, none)) ?_ ?_ hn limit hlimit
  · intro frame n f hn hf hp limit hlimit
    obtain ⟨limit, rfl⟩ : ∃ k, limit = k + 1 := ⟨limit - 1, by omega⟩
    rw [Arena.climb, parent_eq hn hf, hs.climbed_eq hf, hp]
    rfl
  · intro frame n f p hn hf hp hrest limit hlimit
    have hlt := hs n f p hf hp
    obtain ⟨limit, rfl⟩ : ∃ k, limit = k + 1 := ⟨limit - 1, by omega⟩
    rw [Arena.climb, parent_eq hn hf, hs.climbed_eq hf, hp]
    show (frame :: (s.layout.climb limit p).1, (s.layout.climb limit p).2) = _
    rw [hrest limit (by omega)]
    rfl

theorem WellFormed.walk_layout (hs : s.WellFormed) (frame : Int) :
    s.layout.walk frame = match s.number frame with
      | .ok n => (s.climbed frame n, none)
      | .error fault => ([frame], some fault) := by
  rw [Arena.walk, size_layout]
  cases hn : s.number frame with
  | error fault =>
    rw [Arena.climb, parentOf_layout, parent, hn]
    rfl
  | ok n =>
    obtain ⟨f, hf⟩ := exists_of_number hn
    have hlt := lt_of_frameIn hf
    exact hs.climb_layout hn _ (Nat.lt_succ_of_lt hlt)

theorem WellFormed.walk_natCast (hs : s.WellFormed) (hn : n < s.size) :
    s.layout.walk (n : Int) = ((chainIn s.frames n).map Int.ofNat, none) := by
  obtain ⟨f, hf⟩ := exists_frameIn hn
  rw [hs.walk_layout, number_natCast hn]
  show ((n : Int) :: ((chainIn s.frames n).drop 1).map Int.ofNat, none) = _
  rw [hs.chainIn_eq hf]
  rfl

/-- **What the walk of an arena is**: the one that the parents lead. -/
theorem WellFormed.climbs_iff (hs : s.WellFormed) {frame : Int} {frames : List Int}
    {fault : Option ScopeFault} :
    s.layout.Climbs frame frames fault ↔ s.layout.walk frame = (frames, fault) := by
  have hwalk : s.layout.Climbs frame (s.layout.walk frame).1 (s.layout.walk frame).2 := by
    rw [hs.walk_layout]
    cases hn : s.number frame with
    | error fault =>
      refine .missing ?_
      rw [parentOf_layout, parent, hn]
      rfl
    | ok n => exact hs.climbs hn
  constructor
  · intro h
    obtain ⟨hframes, hfault⟩ := hwalk.unique h
    exact Prod.ext hframes hfault
  · intro h
    rw [h] at hwalk
    exact hwalk

theorem WellFormed.chain_layout (hs : s.WellFormed) (frame : Int) :
    s.layout.chain frame = s.chain frame := by
  rw [Arena.chain, hs.walk_layout, chain]
  cases s.number frame <;> rfl

theorem WellFormed.findAmong_climbed (hs : s.WellFormed) (x : String) {frame : Int}
    (hn : s.number frame = .ok n) :
    s.layout.findAmong x (s.climbed frame n) = .ok (lookupIn x s.frames n) := by
  refine hs.along (P := fun frame n =>
    s.layout.findAmong x (s.climbed frame n) = .ok (lookupIn x s.frames n)) ?_ ?_ hn
  · intro frame n f hn hf hp
    have hbs := bindings_eq hn hf
    rw [hs.climbed_eq hf, hs.lookupIn_eq x hf, hp]
    cases hx : f.find? x with
    | some v => exact Arena.findAmong_of_some hbs hx []
    | none => exact Arena.findAmong_of_none hbs hx []
  · intro frame n f p hn hf hp hrest
    have hbs := bindings_eq hn hf
    rw [hs.climbed_eq hf, hs.lookupIn_eq x hf, hp]
    cases hx : f.find? x with
    | some v => exact Arena.findAmong_of_some hbs hx _
    | none => exact (Arena.findAmong_of_none hbs hx _).trans hrest

theorem WellFormed.find_layout (hs : s.WellFormed) (frame : Int) (x : String) :
    s.layout.find frame x = s.find frame x := by
  have hwalk := hs.walk_layout frame
  rw [find]
  cases hn : s.number frame with
  | error fault =>
    rw [hn] at hwalk
    rw [Arena.find, hwalk]
    show (s.layout.findAmong x [frame] >>= _) = _
    rw [Arena.findAmong, bindingsOf_layout, bindings, hn]
    rfl
  | ok n =>
    rw [hn] at hwalk
    exact Arena.find_of_walk hwalk (hs.findAmong_climbed x hn)

theorem WellFormed.has_layout (hs : s.WellFormed) (frame : Int) (x : String) :
    s.layout.has frame x = s.has frame x := by
  rw [Arena.has, hs.find_layout, has]

theorem WellFormed.displayEach_climbed (hs : s.WellFormed) {frame : Int}
    (hn : s.number frame = .ok n) :
    ∃ texts, s.layout.displayEach (s.climbed frame n) = .ok texts ∧ texts ≠ []
      ∧ " < ".intercalate texts = displayIn s.frames n := by
  refine hs.along (P := fun frame n => ∃ texts,
    s.layout.displayEach (s.climbed frame n) = .ok texts ∧ texts ≠ []
      ∧ " < ".intercalate texts = displayIn s.frames n) ?_ ?_ hn
  · intro frame n f hn hf hp
    refine ⟨[f.display], ?_, List.cons_ne_nil _ _, ?_⟩
    · rw [hs.climbed_eq hf, hp, Arena.displayEach, bindings_eq hn hf]
      rfl
    · rw [hs.displayIn_eq hf, hp, String.intercalate_singleton]
      exact (String.append_empty ..).symm
  · intro frame n f p hn hf hp hrest
    obtain ⟨texts, htexts, hne, hshown⟩ := hrest
    refine ⟨f.display :: texts, ?_, List.cons_ne_nil _ _, ?_⟩
    · rw [hs.climbed_eq hf, hp, Arena.displayEach, bindings_eq hn hf]
      show (do return Frame.textOf f.bindings :: (← s.layout.displayEach (s.climbed p p))) = _
      rw [htexts]
      rfl
    · rw [String.intercalate_cons_of_ne_nil hne, hshown, hs.displayIn_eq hf, hp]
      exact String.append_assoc ..

theorem WellFormed.display_layout (hs : s.WellFormed) (frame : Int) :
    s.layout.display frame = s.display frame := by
  rw [Arena.display, hs.walk_layout, display]
  cases hn : s.number frame with
  | error fault =>
    show (s.layout.displayEach [frame] >>= _) = _
    rw [Arena.displayEach, bindingsOf_layout, bindings, hn]
    rfl
  | ok n =>
    obtain ⟨texts, htexts, -, hshown⟩ := hs.displayEach_climbed hn
    show (s.layout.displayEach (s.climbed frame n) >>= _) = _
    rw [htexts]
    exact congrArg Except.ok hshown

end Scopes

end BlockLang
