import BlockLang.Proofs.Scopes.Arena
import BlockLang.Scopes.Script
import Mathlib

/-!
# Every chain of parents ends

Handles are bare numbers: they may be made for frames that never were, outlive their
frames, and ask for children and releases all the same.  Whatever is asked, in any order
and whether it is refused or not, every parent is older than its child, so that the way
from a frame to its ancestors goes down and ends at a root, `Arena.Climbs` in the arena
and `Scopes.Descent` in its frames.

The arena keeps the layout of well-formed scopes, `Scene.Sound`.  A step that opens no
block does to it one of the five things that can be done to the scopes, `Scene.Moves`, or
it is refused and does nothing.  A block is the making of a frame, the steps in it and a
release, one after the other, so that what a script with blocks reaches is reached
without them, `Scene.Flat`.
-/

namespace BlockLang.Scopes

open StepM

variable {s s' : Scopes} {n : Nat}

/-! ### Operations on well-formed scopes -/

theorem wellFormed_empty : WellFormed {} := by
  intro m f q hf
  exact absurd hf (by simp [frameIn])

theorem WellFormed.newFrame (hs : s.WellFormed) {parent : Option Int}
    (h : s.newFrame parent = .ok (n, s')) : s'.WellFormed := by
  cases parent with
  | none =>
    obtain ⟨-, rfl⟩ := Prod.mk.inj (Except.ok.inj h)
    intro m f q hf hq
    by_cases hm : m = s.frames.length
    · subst hm
      rw [frameIn_newest] at hf
      rw [← Option.some.inj hf] at hq
      exact absurd hq (by simp)
    · rw [frameIn_older _ hm] at hf
      exact hs m f q hf hq
  | some q =>
    rw [Scopes.newFrame] at h
    by_cases hq : 0 ≤ q ∧ q < s.size
    · rw [if_pos hq] at h
      obtain ⟨-, rfl⟩ := Prod.mk.inj (Except.ok.inj h)
      exact hs.child (by omega) []
    · rw [if_neg hq] at h
      exact absurd h (by simp)

theorem WellFormed.release (hs : s.WellFormed) {frame : Int} (h : s.release frame = .ok s') :
    s'.WellFormed := by
  obtain ⟨frames⟩ := s
  rw [Scopes.release] at h
  split at h
  · cases frames with
    | nil => exact absurd h (by simp)
    | cons newest older =>
      obtain rfl := Except.ok.inj h
      exact hs.of_cons
  · exact absurd h (by simp)

theorem WellFormed.store (hs : s.WellFormed) {frame : Int} {x : String} {v : Value}
    (h : s.store frame x v = .ok s') : s'.WellFormed := by
  rw [Scopes.store] at h
  cases hn : s.number frame with
  | error fault =>
    rw [hn] at h
    exact absurd h (by simp [bind, Except.bind])
  | ok m =>
    rw [hn] at h
    obtain rfl := Except.ok.inj h
    exact hs.bound m x v

/-! ### The way to a root -/

theorem number_eq_ok_iff {m : Nat} : s.number (n : Int) = .ok m ↔ m = n ∧ n < s.size := by
  rw [Scopes.number, Index.place, Index.place?, if_pos (by omega)]
  by_cases hn : n < s.size
  · rw [if_pos (by omega), Int.toNat_natCast]
    constructor
    · intro h
      exact ⟨(Except.ok.inj h).symm, hn⟩
    · intro h
      rw [h.1]
      rfl
  · rw [if_neg (by omega)]
    constructor
    · intro h
      exact absurd h (by simp [Except.mapError])
    · intro h
      exact absurd h.2 hn

/-- What is asked of a frame by its number has an answer exactly if the frame is live. -/
theorem ask_eq_ok_iff {α : Type} {g : Option Frame → α} {a : α} :
    (do return g (frameIn s.frames (← s.number (n : Int)))) = (.ok a : Except ScopeFault α)
      ↔ ∃ f, frameIn s.frames n = some f ∧ g (some f) = a := by
  constructor
  · intro h
    cases hm : s.number (n : Int) with
    | error fault =>
      rw [hm] at h
      exact absurd h (by simp [bind, Except.bind])
    | ok m =>
      rw [hm] at h
      obtain ⟨rfl, hlt⟩ := number_eq_ok_iff.1 hm
      obtain ⟨f, hf⟩ := exists_frameIn hlt
      refine ⟨f, hf, ?_⟩
      rw [← hf]
      exact Except.ok.inj h
  · intro h
    obtain ⟨f, hf, rfl⟩ := h
    rw [number_eq_ok_iff.2 ⟨rfl, lt_of_frameIn hf⟩, ← hf]
    rfl

theorem bindings_eq_ok_iff {bs : List (String × Value)} :
    s.bindings (n : Int) = .ok bs ↔ ∃ f, frameIn s.frames n = some f ∧ f.bindings = bs :=
  ask_eq_ok_iff (g := fun f => (f.map Frame.bindings).getD [])

theorem parent_eq_ok_iff {q : Option Nat} :
    s.parent (n : Int) = .ok q ↔ ∃ f, frameIn s.frames n = some f ∧ f.parent = q :=
  ask_eq_ok_iff (g := fun f => f.bind Frame.parent)

/-- **The way from a frame to a root**: the frame, its parent, which is older, and so on to a frame
without a parent. -/
inductive Descent (s : Scopes) : Nat → List Nat → Prop
  | root {n : Nat} (hn : s.parent n = .ok none) : Descent s n [n]
  | link {n p : Nat} {ns : List Nat} (hn : s.parent n = .ok (some p)) (hlt : p < n)
      (h : Descent s p ns) : Descent s n (n :: ns)

namespace Descent

variable {ns : List Nat}

theorem le (h : s.Descent n ns) : ∀ m ∈ ns, m ≤ n := by
  induction h with
  | root => simp
  | link _ hlt _ ih =>
    intro m hm
    rcases List.mem_cons.1 hm with rfl | hm
    · exact Nat.le_refl m
    · exact Nat.le_trans (ih m hm) (Nat.le_of_lt hlt)

theorem pairwise (h : s.Descent n ns) : ns.Pairwise (fun m m' => m' < m) := by
  induction h with
  | root => exact List.pairwise_singleton _ _
  | link _ hlt hrest ih =>
    refine List.pairwise_cons.2 ⟨fun m hm => ?_, ih⟩
    exact Nat.lt_of_le_of_lt (hrest.le m hm) hlt

theorem live (h : s.Descent n ns) : ∀ m ∈ ns, m < s.size := by
  induction h with
  | root hn =>
    obtain ⟨f, hf, -⟩ := parent_eq_ok_iff.1 hn
    intro m hm
    rw [List.mem_singleton.1 hm]
    exact lt_of_frameIn hf
  | link hn _ _ ih =>
    obtain ⟨f, hf, -⟩ := parent_eq_ok_iff.1 hn
    intro m hm
    rcases List.mem_cons.1 hm with rfl | hm
    · exact lt_of_frameIn hf
    · exact ih m hm

end Descent

/-- **The chain of a live frame** in well-formed scopes goes down to a root. -/
theorem WellFormed.descent (hs : s.WellFormed) (hn : n < s.size) :
    s.Descent n (chainIn s.frames n) := by
  induction n using Nat.strongRecOn with
  | _ n ih =>
    obtain ⟨f, hf⟩ := exists_frameIn hn
    rw [hs.chainIn_eq hf]
    cases hp : f.parent with
    | none => exact .root (parent_eq_ok_iff.2 ⟨f, hf, hp⟩)
    | some p =>
      have hlt := hs n f p hf hp
      exact .link (parent_eq_ok_iff.2 ⟨f, hf, hp⟩) hlt (ih p hlt (Nat.lt_trans hlt hn))

theorem WellFormed.chain_eq (hs : s.WellFormed) (hn : n < s.size) :
    s.chain (n : Int) = .ok ((chainIn s.frames n).map Int.ofNat) := by
  obtain ⟨f, hf⟩ := exists_frameIn hn
  rw [Scopes.chain, number_eq_ok_iff.2 ⟨rfl, hn⟩]
  show Except.ok ((n : Int) :: ((chainIn s.frames n).drop 1).map Int.ofNat) = _
  rw [hs.chainIn_eq hf]
  rfl

/-! ### What a step does -/

/-- Whether a step opens no block. -/
def Step.isPlain : Step → Bool
  | withChild .. => false
  | _ => true

/-- The scene in which frames lie in the arena. -/
def Scene.of (s : Scopes) (handles : List Int) : Scene :=
  { arena := s.layout, handles }

/-- **The arena is that of its frames**, and every parent is older than its child. -/
structure Scene.Sound (scene : Scene) : Prop where
  arena_eq : scene.arena = scene.scopes.layout
  wellFormed : scene.scopes.WellFormed

theorem Scene.sound_of (hs : s.WellFormed) (handles : List Int) : (Scene.of s handles).Sound := by
  have hscopes : (Scene.of s handles).scopes = s := scopes_layout s
  constructor
  · rw [hscopes]
    rfl
  · rw [hscopes]
    exact hs

/-- **What a step can do**: nothing, make a handle, make a frame, with a handle on it or not,
release the newest frame, or bind a name. -/
inductive Scene.Moves (scene : Scene) : Scene → Prop
  | rest : Moves scene scene
  | attach (handles : List Int) : Moves scene { scene with handles }
  | make {parent : Option Int} {n : Nat} {s : Scopes}
      (h : scene.scopes.newFrame parent = .ok (n, s)) (handles : List Int) :
      Moves scene (.of s handles)
  | release {frame : Int} {s : Scopes} (h : scene.scopes.release frame = .ok s) :
      Moves scene (.of s scene.handles)
  | store {frame : Int} {x : String} {v : Value} {s : Scopes}
      (h : scene.scopes.store frame x v = .ok s) : Moves scene (.of s scene.handles)

theorem Scene.Moves.sound {scene scene' : Scene} (h : scene.Moves scene')
    (hscene : scene.Sound) : scene'.Sound := by
  cases h with
  | rest => exact hscene
  | attach handles => exact ⟨hscene.arena_eq, hscene.wellFormed⟩
  | make h handles => exact sound_of (hscene.wellFormed.newFrame h) handles
  | release h => exact sound_of (hscene.wellFormed.release h) scene.handles
  | store h => exact sound_of (hscene.wellFormed.store h) scene.handles

section Steps

variable {scene : Scene} {α : Type}

theorem ends_ask (f : Arena → Except ScopeFault α) :
    Ends (SceneM.ask f) scene (fun _ scene' => scene' = scene)
      (fun _ scene' => scene' = scene) := by
  unfold SceneM.ask
  rw [ends_bind, ends_get]
  cases f scene.arena with
  | ok a => exact ends_pure.2 rfl
  | error fault => exact ends_throw.2 rfl

/-- **An operation on the arena** does what it does to the frames, or nothing. -/
theorem ends_change (hscene : scene.Sound) {op : Arena.ArenaM α} {Q : α → Scopes → Prop}
    {E : ScopeFault → Prop}
    (h : Ends op scene.scopes.layout (fun a arena => ∃ s, Q a s ∧ arena = s.layout)
      (fun fault arena => E fault ∧ arena = scene.scopes.layout)) :
    Ends (SceneM.change op) scene
      (fun a scene' => ∃ s, Q a s ∧ scene' = .of s scene.handles)
      (fun _ scene' => scene' = scene) := by
  unfold SceneM.change
  rw [ends_bind, ends_get]
  rw [← hscene.arena_eq] at h
  rcases ends_iff.1 h with ⟨a, arena, hrun, s, hQ, rfl⟩ | ⟨fault, arena, hrun, -, rfl⟩
  · rw [hrun]
    dsimp only
    rw [ends_bind, ends_set, ends_pure]
    exact ⟨s, hQ, rfl⟩
  · rw [hrun]
    dsimp only
    rw [ends_bind, ends_set, ends_throw]

theorem ends_newFrame (hscene : scene.Sound) (parent : Option Int) :
    Ends (SceneM.change (Arena.newFrame parent)) scene
      (fun n scene' => ∃ s, scene.scopes.newFrame parent = .ok (n, s)
        ∧ scene' = .of s scene.handles)
      (fun _ scene' => scene' = scene) :=
  ends_change hscene (ends_newFrame_layout scene.scopes parent)

theorem ends_frameOf (handle : Int) (scene : Scene) :
    Ends (SceneM.frameOf handle) scene (fun _ scene' => scene' = scene)
      (fun _ scene' => scene' = scene) := by
  unfold SceneM.frameOf
  rw [ends_bind, ends_get]
  cases Index.get scene.handles handle with
  | ok frame => exact ends_pure.2 rfl
  | error fault => exact ends_throw.2 rfl

theorem ends_newHandle (frame : Int) :
    Ends (SceneM.newHandle frame) scene
      (fun _ scene' => scene' = { scene with handles := scene.handles ++ [frame] })
      (fun _ _ => False) := by
  unfold SceneM.newHandle
  rw [ends_bind, ends_get, ends_bind, ends_set, ends_pure]

theorem ends_withFrame {β : Type} {g : Int → SceneM β} {Q : β → Scene → Prop} (handle : Int)
    (h : ∀ frame, Ends (g frame) scene Q (fun _ scene' => scene' = scene)) :
    Ends (SceneM.frameOf handle >>= g) scene Q (fun _ scene' => scene' = scene) := by
  refine (ends_frameOf handle scene).bind ?_ (fun _ _ h => h)
  intro frame scene₁ hsame
  rw [hsame]
  exact h frame

theorem moves_ask (f : Arena → Except ScopeFault α) (g : α → Answer) :
    Ends (do return g (← SceneM.ask f)) scene (fun _ scene' => scene.Moves scene')
      (fun _ scene' => scene' = scene) := by
  refine (ends_ask f).bind ?_ (fun _ _ h => h)
  intro a scene₁ hsame
  rw [hsame]
  exact ends_pure.2 .rest

theorem moves_newHandle (frame : Int) :
    Ends (do return Answer.count (← SceneM.newHandle frame)) scene
      (fun _ scene' => scene.Moves scene') (fun _ scene' => scene' = scene) := by
  refine (ends_newHandle frame).andThen ?_
  intro _ scene₁ hattach
  rw [hattach]
  exact ends_pure.2 (.attach _)

/-- An operation on the arena, and the answer that it was carried out. -/
theorem moves_change (hscene : scene.Sound) {op : Arena.ArenaM α} {Q : α → Scopes → Prop}
    {E : ScopeFault → Prop} (answer : α → Answer)
    (h : Ends op scene.scopes.layout (fun a arena => ∃ s, Q a s ∧ arena = s.layout)
      (fun fault arena => E fault ∧ arena = scene.scopes.layout))
    (hmoves : ∀ a s, Q a s → scene.Moves (.of s scene.handles)) :
    Ends (do return answer (← SceneM.change op)) scene
      (fun _ scene' => scene.Moves scene') (fun _ scene' => scene' = scene) := by
  refine (ends_change hscene h).bind ?_ (fun _ _ h => h)
  intro a scene₁ hchange
  obtain ⟨s, hs, rfl⟩ := hchange
  exact ends_pure.2 (hmoves a s hs)

theorem moves_release (hscene : scene.Sound) (frame : Int) :
    Ends (do
        SceneM.change (Arena.release frame)
        return Answer.done) scene
      (fun _ scene' => scene.Moves scene') (fun _ scene' => scene' = scene) :=
  moves_change hscene (fun _ => .done) (ends_release_layout scene.scopes frame)
    (fun _ _ hs => .release hs)

theorem moves_newFrame_newHandle (hscene : scene.Sound) (parent : Option Int) :
    Ends (do return Answer.count (← SceneM.newHandle (← SceneM.change (Arena.newFrame parent))))
      scene (fun _ scene' => scene.Moves scene') (fun _ scene' => scene' = scene) := by
  refine (ends_newFrame hscene parent).bind ?_ (fun _ _ h => h)
  intro n scene₁ hmake
  obtain ⟨s, hs, rfl⟩ := hmake
  refine (ends_newHandle n).andThen ?_
  intro _ scene₂ hattach
  rw [hattach]
  exact ends_pure.2 (.make hs _)

/-- **A step that opens no block** moves the scene, or it is refused and the scene is as it was. -/
theorem Step.ends_run {step : Step} (h : step.isPlain = true) (hscene : scene.Sound) :
    Ends step.run scene (fun _ scene' => scene.Moves scene') (fun _ scene' => scene' = scene) := by
  cases step with
  | withChild handle steps => exact absurd h Bool.false_ne_true
  | newFrame parent =>
    rw [Step.run]
    exact moves_change hscene .count (ends_newFrame_layout scene.scopes parent)
      (fun _ _ hs => .make hs _)
  | releaseFrame frame =>
    rw [Step.run]
    exact moves_release hscene frame
  | chain frame =>
    rw [Step.run]
    exact moves_ask _ .frames
  | size =>
    rw [Step.run, ends_bind, ends_get]
    exact ends_pure.2 .rest
  | root =>
    rw [Step.run]
    exact moves_newFrame_newHandle hscene none
  | attach frame =>
    rw [Step.run]
    exact moves_newHandle frame
  | child handle =>
    rw [Step.run]
    exact ends_withFrame handle (fun frame => moves_newFrame_newHandle hscene (some frame))
  | store handle x v =>
    rw [Step.run]
    refine ends_withFrame handle (fun frame => ?_)
    exact moves_change hscene (fun _ => .done) (ends_store_layout scene.scopes frame x v)
      (fun _ _ hs => .store hs)
  | release handle =>
    rw [Step.run]
    exact ends_withFrame handle (fun frame => moves_release hscene frame)
  | get handle x =>
    rw [Step.run]
    refine ends_withFrame handle (fun frame => ?_)
    refine (ends_ask _).bind ?_ (fun _ _ h => h)
    intro v scene₁ hsame
    rw [hsame]
    cases v with
    | some v => exact ends_pure.2 .rest
    | none => exact ends_throw.2 rfl
  | find handle x =>
    rw [Step.run]
    exact ends_withFrame handle (fun _ => moves_ask _ .value)
  | has handle x =>
    rw [Step.run]
    exact ends_withFrame handle (fun _ => moves_ask _ .flag)
  | parent handle =>
    rw [Step.run]
    exact ends_withFrame handle
      (fun _ => moves_ask _ (fun q : Option Int => .frame (q.map Int.toNat)))
  | bindings handle =>
    rw [Step.run]
    exact ends_withFrame handle (fun _ => moves_ask _ .bindings)
  | display handle =>
    rw [Step.run]
    exact ends_withFrame handle (fun _ => moves_ask _ .text)

end Steps

/-! ### Scripts -/

namespace Scene

variable {scene scene' scene'' : Scene}

/-- No frame and no handle. -/
def blank : Scene :=
  { arena := {}, handles := [] }

theorem sound_blank : blank.Sound :=
  sound_of wellFormed_empty []

/-- **The scene after a script**, which goes on after a step that is refused. -/
def after (scene : Scene) (steps : List Step) : Scene :=
  steps.foldl (fun scene step => (runFrom step.run scene).2) scene

theorem after_append (scene : Scene) (steps steps' : List Step) :
    scene.after (steps ++ steps') = (scene.after steps).after steps' :=
  List.foldl_append

/-- **Reached without blocks.** -/
def Flat (scene scene' : Scene) : Prop :=
  ∃ steps : List Step, (∀ step ∈ steps, step.isPlain = true) ∧ scene' = scene.after steps

theorem Flat.refl (scene : Scene) : scene.Flat scene :=
  ⟨[], by simp, rfl⟩

theorem Flat.trans (h : scene.Flat scene') (h' : scene'.Flat scene'') : scene.Flat scene'' := by
  obtain ⟨steps, hplain, rfl⟩ := h
  obtain ⟨steps', hplain', rfl⟩ := h'
  refine ⟨steps ++ steps', fun step hstep => ?_, (after_append scene steps steps').symm⟩
  rcases List.mem_append.1 hstep with hstep | hstep
  · exact hplain step hstep
  · exact hplain' step hstep

theorem flat_run (step : Step) (h : step.isPlain = true) (scene : Scene) :
    scene.Flat (runFrom step.run scene).2 :=
  ⟨[step], by simpa using h, rfl⟩

theorem Flat.sound (h : scene.Flat scene') (hscene : scene.Sound) : scene'.Sound := by
  obtain ⟨steps, hplain, rfl⟩ := h
  induction steps generalizing scene with
  | nil => exact hscene
  | cons step steps ih =>
    have hrun := Step.ends_run (hplain step List.mem_cons_self) hscene
    have hnext := ends_snd.1 (hrun.mono (fun _ _ h => h.sound hscene) (fun _ _ h => h ▸ hscene))
    exact ih hnext (fun step' h => hplain step' (List.mem_cons_of_mem step h))

/-- What a step does before it answers, it does. -/
theorem flat_part {α : Type} {p : SceneM α} {answer : α → Answer} (step : Step)
    (hplain : step.isPlain = true) (hrun : step.run = do return answer (← p)) (scene : Scene) :
    Ends p scene (fun _ scene' => scene.Flat scene') (fun _ scene' => scene.Flat scene') := by
  have hflat := flat_run step hplain scene
  rw [hrun, runFrom_bind] at hflat
  rw [ends_snd]
  rcases hp : runFrom p scene with ⟨fault | _, scene'⟩
  · rw [hp] at hflat
    exact hflat
  · rw [hp] at hflat
    exact hflat

theorem flat_open (frame : Int) (scene : Scene) :
    Ends (SceneM.change (Arena.newFrame (some frame))) scene
      (fun _ scene' => scene.Flat scene') (fun _ scene' => scene.Flat scene') :=
  flat_part (.newFrame (some frame)) rfl (by rw [Step.run]) scene

theorem flat_handle (n : Nat) (scene : Scene) :
    Ends (SceneM.newHandle n) scene
      (fun _ scene' => scene.Flat scene') (fun _ scene' => scene.Flat scene') :=
  flat_part (.attach n) rfl (by rw [Step.run]) scene

theorem flat_close (n : Nat) (scene : Scene) :
    Ends (SceneM.change (Arena.release n)) scene
      (fun _ scene' => scene.Flat scene') (fun _ scene' => scene.Flat scene') :=
  flat_part (.releaseFrame n) rfl (by rw [Step.run]) scene

end Scene

open Scene

mutual

/-- **Blocks reach nothing new**: the frame is made, the steps in it are carried out as far as they
go, and the frame is released, if it can be. -/
theorem Step.ends_flat : ∀ (step : Step) (scene : Scene),
    Ends step.run scene (fun _ scene' => scene.Flat scene') (fun _ scene' => scene.Flat scene')
  | .withChild handle steps, scene => by
    rw [Step.run]
    refine (ends_frameOf handle scene).bind ?_ (fun _ _ h => h ▸ .refl scene)
    intro frame _ hsame
    rw [hsame]
    refine (flat_open frame scene).bind ?_ (fun _ _ h => h)
    intro n scene₀ h₀
    refine (flat_handle n scene₀).bind ?_ (fun _ _ h => h₀.trans h)
    intro _ scene₁ h₁
    have hopen : scene.Flat scene₁ := h₀.trans h₁
    -- what stops the steps inside is kept until the frame is released
    have hbody : Ends (tryCatch (do return .ok (← runSteps steps))
          (fun fault => return .error fault) : SceneM (Except StepFault (List Answer))) scene₁
        (fun _ scene' => scene.Flat scene') (fun _ _ => False) := by
      have hsteps := (ends_flat_runSteps steps scene₁).mono (fun _ _ h => hopen.trans h)
        (fun _ _ h => hopen.trans h)
      exact Ends.tryCatch (hsteps.bind (fun _ _ h => ends_pure.2 h) (fun _ _ h => h))
        (fun _ _ h => h) (fun _ _ h => ends_pure.2 h)
    refine hbody.andThen ?_
    intro outcome scene₂ h₂
    refine (flat_close n scene₂).bind ?_ (fun _ _ h => h₂.trans h)
    intro _ scene₃ h₃
    cases outcome with
    | ok answers => exact ends_pure.2 (h₂.trans h₃)
    | error fault => exact ends_throw.2 (h₂.trans h₃)
  | .newFrame _, scene | .releaseFrame _, scene | .chain _, scene | .size, scene | .root, scene
  | .attach _, scene | .child _, scene | .store _ _ _, scene | .find _ _, scene | .get _ _, scene
  | .has _ _, scene | .parent _, scene | .bindings _, scene | .display _, scene
  | .release _, scene => ends_snd.2 (flat_run _ rfl scene)

theorem ends_flat_runSteps : ∀ (steps : List Step) (scene : Scene),
    Ends (runSteps steps) scene (fun _ scene' => scene.Flat scene')
      (fun _ scene' => scene.Flat scene')
  | [], scene => by
    rw [runSteps]
    exact ends_pure.2 (.refl scene)
  | step :: steps, scene => by
    rw [runSteps]
    refine (Step.ends_flat step scene).bind ?_ (fun _ _ h => h)
    intro answer scene₁ h₁
    refine (ends_flat_runSteps steps scene₁).bind ?_ (fun _ _ h => h₁.trans h)
    intro answers scene₂ h₂
    exact ends_pure.2 (h₁.trans h₂)

end

theorem Scene.flat_after (scene : Scene) (steps : List Step) : scene.Flat (scene.after steps) := by
  induction steps generalizing scene with
  | nil => exact .refl scene
  | cons step steps ih =>
    exact (ends_snd.1 (step.ends_flat scene)).trans (ih (runFrom step.run scene).2)

/-- **Every script leaves a sound scene.** -/
theorem Scene.sound_after (steps : List Step) : (blank.after steps).Sound :=
  (flat_after blank steps).sound sound_blank

/-- A block whose frame is refused is not begun. -/
theorem Step.run_withChild_of_error {scene : Scene} (hscene : scene.Sound) {handle : Int}
    {fault : StepFault} (h : (runFrom (Step.child handle).run scene).1 = .error fault)
    (body : List Step) :
    runFrom (Step.withChild handle body).run scene = (.error fault, scene) := by
  rw [Step.run, runFrom_bind] at h
  rw [Step.run, runFrom_bind]
  rcases ends_iff.1 (ends_frameOf handle scene) with
    ⟨frame, _, hframe, rfl⟩ | ⟨_, _, hframe, rfl⟩
  · rw [hframe] at h ⊢
    dsimp only at h ⊢
    rw [runFrom_bind] at h ⊢
    rcases ends_iff.1 (ends_newFrame hscene (some frame)) with
      ⟨n, scene₁, hnew, -⟩ | ⟨_, _, hnew, rfl⟩
    · rw [hnew] at h
      -- the handle on the new frame is never refused
      cases h
    · rw [hnew] at h ⊢
      rw [Except.error.inj h]
  · rw [hframe] at h ⊢
    rw [Except.error.inj h]

/-- **Every chain of parents ends.**  After any script, whatever of it was refused, the two lists of
the arena have the same length; a parent is the number of a frame that is older than its child; and
the walk up from a live frame ends, goes down through live frames to a root, and is the chain of the
frame.  The arena is that of its frames, and they have bindings and a parent, or none, up to the
number of live frames, and no others have.  A step that is refused, a block that cannot be begun
among them, changes nothing, and this goes for the making and the release of a block's frame, too:
they are steps like others. -/
theorem Scene.acyclic_after (steps : List Step) :
    let scene := blank.after steps
    scene.arena.bindings.length = scene.arena.parents.length
      ∧ (∀ (n : Nat) (p : Int), scene.arena.parents[n]? = some (some p) → 0 ≤ p ∧ p < n)
      ∧ (∀ n : Nat, n < scene.arena.bindings.length → ∃ ns : List Nat,
        (∀ frames fault, scene.arena.Climbs n frames fault
          ↔ frames = ns.map Int.ofNat ∧ fault = none)
          ∧ scene.arena.chain n = .ok (ns.map Int.ofNat)
          ∧ ns.Pairwise (fun m m' => m' < m) ∧ ∀ m ∈ ns, m < scene.arena.bindings.length)
      ∧ scene.arena = scene.scopes.layout
      ∧ (∀ n : Nat, ((∃ bs, scene.scopes.bindings n = .ok bs) ↔ n < scene.scopes.size)
        ∧ ((∃ q, scene.scopes.parent n = .ok q) ↔ n < scene.scopes.size))
      ∧ (∀ n p : Nat, scene.scopes.parent n = .ok (some p) → p < n)
      ∧ (∀ n : Nat, n < scene.scopes.size → ∃ ns : List Nat,
        scene.scopes.chain n = .ok (ns.map Int.ofNat) ∧ scene.scopes.Descent n ns
          ∧ ns.Pairwise (fun m m' => m' < m) ∧ ∀ m ∈ ns, m < scene.scopes.size)
      ∧ (∀ (step : Step) fault scene', step.isPlain = true →
        runFrom step.run scene = (.error fault, scene') → scene' = scene)
      ∧ (∀ handle body fault, (runFrom (Step.child handle).run scene).1 = .error fault →
        runFrom (Step.withChild handle body).run scene = (.error fault, scene))
      ∧ ∃ plain : List Step, (∀ step ∈ plain, step.isPlain = true)
        ∧ scene = blank.after plain := by
  intro scene
  have hscene : scene.Sound := sound_after steps
  have hs := hscene.wellFormed
  have harena := hscene.arena_eq
  refine ⟨?_, ?_, ?_, harena, fun n => ⟨?_, ?_⟩, ?_, ?_, ?_, ?_, flat_after blank steps⟩
  · rw [harena, length_bindings_layout, length_parents_layout]
  · rw [harena]
    exact hs.parents_layout
  · intro n hn
    rw [harena] at hn ⊢
    rw [length_bindings_layout] at hn ⊢
    have hdescent := hs.descent hn
    refine ⟨chainIn scene.scopes.frames n, ?_, ?_, hdescent.pairwise, hdescent.live⟩
    · intro frames fault
      rw [hs.climbs_iff, hs.walk_natCast hn, Prod.mk.injEq]
      exact and_congr eq_comm eq_comm
    · rw [hs.chain_layout]
      exact hs.chain_eq hn
  · constructor
    · intro h
      obtain ⟨bs, hbs⟩ := h
      obtain ⟨f, hf, -⟩ := bindings_eq_ok_iff.1 hbs
      exact lt_of_frameIn hf
    · intro hn
      obtain ⟨f, hf⟩ := exists_frameIn hn
      exact ⟨_, bindings_eq_ok_iff.2 ⟨f, hf, rfl⟩⟩
  · constructor
    · intro h
      obtain ⟨q, hq⟩ := h
      obtain ⟨f, hf, -⟩ := parent_eq_ok_iff.1 hq
      exact lt_of_frameIn hf
    · intro hn
      obtain ⟨f, hf⟩ := exists_frameIn hn
      exact ⟨_, parent_eq_ok_iff.2 ⟨f, hf, rfl⟩⟩
  · intro n p hp
    obtain ⟨f, hf, hparent⟩ := parent_eq_ok_iff.1 hp
    exact hs n f p hf hparent
  · intro n hn
    have hdescent := hs.descent hn
    exact ⟨_, hs.chain_eq hn, hdescent, hdescent.pairwise, hdescent.live⟩
  · intro step fault scene' hplain hrun
    exact (Step.ends_run hplain hscene).of_error hrun
  · intro handle body fault hchild
    exact Step.run_withChild_of_error hscene hchild body

/-- **The arena answers as its frames do.**  After any script, what is asked of the two lists about
any frame, one that is not there among them, has the answer that it has in the one list. -/
theorem Scene.answers_after (steps : List Step) :
    let scene := blank.after steps
    (∀ frame, scene.arena.bindingsOf frame = scene.scopes.bindings frame
        ∧ scene.arena.parentOf frame = (scene.scopes.parent frame).map (Option.map Int.ofNat)
        ∧ scene.arena.chain frame = scene.scopes.chain frame
        ∧ scene.arena.display frame = scene.scopes.display frame)
      ∧ ∀ frame x, scene.arena.find frame x = scene.scopes.find frame x
        ∧ scene.arena.has frame x = scene.scopes.has frame x := by
  intro scene
  have hscene : scene.Sound := sound_after steps
  have hs := hscene.wellFormed
  rw [hscene.arena_eq]
  refine ⟨fun frame => ⟨?_, ?_, ?_, ?_⟩, fun frame x => ⟨?_, ?_⟩⟩
  · exact bindingsOf_layout scene.scopes frame
  · exact parentOf_layout scene.scopes frame
  · exact hs.chain_layout frame
  · exact hs.display_layout frame
  · exact hs.find_layout frame x
  · exact hs.has_layout frame x

/-- A handle outlives its frame and sees the next one of that number; a release out of order and a
parent that is not there are refused. -/
example : (blank.after [.root, .child 0, .releaseFrame 0, .release 1, .child 1, .newFrame none,
    .store 1 "a" .unit]).arena
    = { bindings := [[], [("a", .unit)]], parents := [none, none] } := by
  decide

end BlockLang.Scopes
