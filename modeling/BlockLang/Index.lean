/-!
# Indices

An index stands for a place in a sequence.  It counts from the front, and a negative one
counts from the end; an index past either end stands for no place.  The complaint about
one that takes more than 64 bits is of its own.
-/

namespace BlockLang

/-- Why an index stands for no place. -/
inductive IndexFault where
  | outOfRange
  | oversized
  deriving Repr, DecidableEq

namespace IndexFault

/-- The complaint about an index. -/
def message : IndexFault → String
  | outOfRange => "list index out of range"
  | oversized => "cannot fit 'int' into an index-sized integer"

/-- What is wrong with an index that stands for no place. -/
def ofIndex (i : Int) : IndexFault :=
  if -9223372036854775808 ≤ i ∧ i ≤ 9223372036854775807 then outOfRange else oversized

end IndexFault

namespace Index

/-- The place that an index stands for in a sequence of `size` things. -/
def place? (size : Nat) (i : Int) : Option Nat :=
  if 0 ≤ i then
    if i < size then some i.toNat else none
  else if 0 ≤ size + i then some (size + i).toNat
  else none

/-- The place that an index stands for, or the complaint that there is none. -/
def place (size : Nat) (i : Int) : Except IndexFault Nat :=
  match place? size i with
  | some n => .ok n
  | none => .error (.ofIndex i)

/-- A place is in the sequence. -/
theorem lt_of_place? {size n : Nat} {i : Int} (h : place? size i = some n) : n < size := by
  unfold place? at h
  split at h
  · split at h <;> simp at h
    omega
  · split at h <;> simp at h
    omega

/-- The thing that an index stands for in a list, or the complaint that there is none. -/
def get {α : Type} (l : List α) (i : Int) : Except IndexFault α :=
  match h : place? l.length i with
  | some n => .ok (l.get ⟨n, lt_of_place? h⟩)
  | none => .error (.ofIndex i)

theorem place_eq_ok_iff {size n : Nat} {i : Int} :
    place size i = .ok n ↔ place? size i = some n := by
  unfold place
  cases place? size i <;> simp

/-- What an index stands for is at its place. -/
theorem get_eq_ok {α : Type} {l : List α} {i : Int} {n : Nat} {x : α}
    (h : place l.length i = .ok n) (hx : l[n]? = some x) : get l i = .ok x := by
  rw [place_eq_ok_iff] at h
  unfold get
  split
  · next k hk =>
    obtain rfl : n = k := Option.some.inj (h.symm.trans hk)
    obtain ⟨_, rfl⟩ := List.getElem?_eq_some_iff.1 hx
    rfl
  · next hk => exact absurd (h.symm.trans hk) (by simp)

/-- Where there is no place there is nothing. -/
theorem get_eq_error {α : Type} {l : List α} {i : Int} {fault : IndexFault}
    (h : place l.length i = .error fault) : get l i = .error fault := by
  unfold place at h
  unfold get
  split at h
  · cases h
  · next hm =>
    split
    · next k hk => exact absurd (hm.symm.trans hk) (by simp)
    · exact congrArg Except.error (Except.error.inj h)

/-- **Counting from the front**, an index stands for itself. -/
theorem place_natCast {size n : Nat} (h : n < size) : place size n = .ok n := by
  have hn : place? size n = some n := by
    unfold place?
    rw [if_pos (by omega), if_pos (by omega), Int.toNat_natCast]
  rw [place, hn]

end Index

end BlockLang
