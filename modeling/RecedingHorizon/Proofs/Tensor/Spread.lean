import Mathlib.Data.List.Forall2
import Mathlib.Data.List.GetD
import RecedingHorizon.Tensor.Broadcast

/-!
# Writing an array into a place

An array is written into a place whose shape it fits: axes are compared from the last one on, an axis of
length one is repeated, a missing leading axis too, and a leading axis of length one that the place does
not have is left out (`FitsPlace`). Then every entry of the place is the entry of the array at the index that
is left of its own (`fitTo_of_fits`), and otherwise nothing is written (`fits_of_fitTo`).
-/

namespace RecedingHorizon

/-- An array of the first shape can be written into a place of the second shape. -/
inductive FitsPlace : List Nat → List Nat → Prop
  | scalar : FitsPlace [] []
  | missing {s t : List Nat} (m : Nat) : FitsPlace s t → s.length ≤ t.length → FitsPlace s (m :: t)
  | axis {s t : List Nat} {n m : Nat} :
      n = m ∨ n = 1 → FitsPlace s t → s.length = t.length → FitsPlace (n :: s) (m :: t)
  | surplus {s t : List Nat} : FitsPlace s t → t.length ≤ s.length → FitsPlace (1 :: s) t

/-- The index at which an array of a given shape is read for an index of the place that it is written
into. -/
def sourceIndex (index : List Nat) : (shape : List Nat) → List Nat
  | [] => []
  | n :: s => (if n = 1 then 0 else index.reverse.getD s.length 0) :: sourceIndex index s

/-- Only the last axes of an index count. -/
theorem sourceIndex_cons (i : Nat) {index s : List Nat} (short : s.length ≤ index.length) :
    sourceIndex (i :: index) s = sourceIndex index s := by
  induction s with
  | nil => rfl
  | cons n s ih =>
    have inside : s.length < index.reverse.length := by
      rw [List.length_reverse]
      exact short
    rw [sourceIndex, sourceIndex, ih (Nat.le_of_succ_le short), List.reverse_cons,
      List.getD_append _ _ _ _ inside]

theorem sourceIndex_cons_axis (i n : Nat) {index s : List Nat} (same : s.length = index.length) :
    sourceIndex (i :: index) (n :: s) = (if n = 1 then 0 else i) :: sourceIndex index s := by
  have last : (i :: index).reverse.getD s.length 0 = i := by
    rw [List.reverse_cons, List.getD_append_right _ _ _ _ (by simp [same])]
    simp [same]
  rw [sourceIndex, last, sourceIndex_cons i (Nat.le_of_eq same)]

theorem sourceIndex_surplus (index s : List Nat) :
    sourceIndex index (1 :: s) = 0 :: sourceIndex index s := rfl

namespace FitsPlace

variable {s t : List Nat}

theorem nil (t : List Nat) : FitsPlace [] t := by
  induction t with
  | nil => exact .scalar
  | cons m t ih => exact .missing m ih (Nat.zero_le _)

/-- One more last axis. -/
theorem concat (fits : FitsPlace s t) (short : s.length ≤ t.length) {n m : Nat} (suited : n = m ∨ n = 1) :
    FitsPlace (s ++ [n]) (t ++ [m]) := by
  induction fits with
  | scalar => exact .axis suited .scalar rfl
  | missing k _ shorter ih => exact .missing k (ih shorter) (by simpa using shorter)
  | axis agree _ same ih => exact .axis agree (ih (Nat.le_of_eq same)) (by simpa using same)
  | surplus _ longer _ =>
    rw [List.length_cons] at short
    omega

end FitsPlace

namespace Grid

variable {α : Type} {s t : List Nat}

/-- The cells of an array along its first axis. -/
def cells {n : Nat} (x : Grid α (n :: s)) : Vector (Grid α s) n := x

def ofCells {n : Nat} (cells : Vector (Grid α s) n) : Grid α (n :: s) := cells

@[simp] theorem cells_ofCells {n : Nat} (c : Vector (Grid α s) n) : (ofCells c).cells = c := rfl

theorem read_cons {n i : Nat} (x : Grid α (n :: s)) (inside : i < n) (index : List Nat) :
    read (n :: s) x (i :: index) = read s x.cells[i] index :=
  dif_pos inside

theorem stretch?_missing {m : Nat} (short : s.length ≤ t.length) (x : Grid α s) :
    stretch? s (m :: t) x = (stretch? s t x).map fun y => ofCells (Vector.replicate m y) := by
  cases s <;> (rw [stretch?, if_pos short]; rfl)

theorem stretch?_same {n : Nat} (same : s.length = t.length) {g : Grid α s → Grid α t}
    (each : ∀ x, stretch? s t x = some (g x)) (x : Grid α (n :: s)) :
    stretch? (n :: s) (n :: t) x = some (ofCells (x.cells.map g)) := by
  have longer : ¬(n :: s).length ≤ t.length := by
    rw [List.length_cons]
    omega
  have total : (stretch? s t : Grid α s → Option (Grid α t)) = fun x => pure (g x) := funext each
  rw [stretch?, if_neg longer]
  simp only [total]
  exact (dif_pos rfl).trans (Vector.mapM_pure g)

theorem stretch?_single {m : Nat} (same : s.length = t.length) {g : Grid α s → Grid α t}
    (each : ∀ x, stretch? s t x = some (g x)) (x : Grid α (1 :: s)) :
    stretch? (1 :: s) (m :: t) x = some (ofCells (Vector.replicate m (g x.cells[0]))) := by
  by_cases agree : 1 = m
  · subst agree
    refine (stretch?_same same each x).trans (congrArg (fun c => some (ofCells c)) ?_)
    apply Vector.ext
    intro i inside
    obtain rfl : i = 0 := by omega
    rw [Vector.getElem_map, Vector.getElem_replicate]
  · have longer : ¬(1 :: s).length ≤ t.length := by
      rw [List.length_cons]
      omega
    rw [stretch?, if_neg longer]
    refine (dif_neg agree).trans ((dif_pos rfl).trans ?_)
    rw [each]
    rfl

/-- An array that fits a shape with no fewer axes is repeated to it, whatever its entries are. -/
theorem exists_stretch (fits : FitsPlace s t) (short : s.length ≤ t.length) :
    ∃ g : Grid α s → Grid α t, (∀ x, stretch? s t x = some (g x)) ∧
      ∀ x index, List.Forall₂ (· < ·) index t →
        read t (g x) index = read s x (sourceIndex index s) := by
  -- One axis at a time, from the first one on; the last axes of both shapes are already matched.
  induction fits with
  | scalar =>
    refine ⟨id, fun x => rfl, ?_⟩
    rintro x _ ⟨⟩
    rfl
  | @missing s t m _ shorter ih =>
    obtain ⟨g, stretched, reads⟩ := ih shorter
    refine ⟨fun x => ofCells (Vector.replicate m (g x)), fun x => ?_, fun x index within => ?_⟩
    · rw [stretch?_missing shorter, stretched, Option.map_some]
    · cases within with
      | cons inside rest =>
        rw [read_cons _ inside, cells_ofCells, Vector.getElem_replicate, reads x _ rest,
          sourceIndex_cons _ (by rwa [rest.length_eq])]
  | @axis s t n m suited _ same ih =>
    obtain ⟨g, stretched, reads⟩ := ih (Nat.le_of_eq same)
    rcases suited with rfl | rfl
    · refine ⟨fun x => ofCells (x.cells.map g), stretch?_same same stretched,
        fun x index within => ?_⟩
      cases within with
      | @cons i _ rest _ inside later =>
        -- An axis of length one has no other place than the first.
        have place : (if n = 1 then 0 else i) = i := by
          split <;> omega
        rw [sourceIndex_cons_axis _ _ (same.trans later.length_eq.symm), place, read_cons _ inside,
          read_cons _ inside, cells_ofCells, Vector.getElem_map, reads _ _ later]
    · refine ⟨fun x => ofCells (Vector.replicate m (g x.cells[0])), stretch?_single same stretched,
        fun x index within => ?_⟩
      cases within with
      | @cons i _ rest _ inside later =>
        rw [sourceIndex_cons_axis _ _ (same.trans later.length_eq.symm), if_pos rfl,
          read_cons _ inside, read_cons _ Nat.one_pos, cells_ofCells, Vector.getElem_replicate,
          reads _ _ later]
  | surplus _ longer _ =>
    rw [List.length_cons] at short
    omega

end Grid

/-! ### The common shape -/

theorem suited_of_commonReversed? {n m : Nat} {a b : List Nat}
    (common : commonReversed? (n :: a) (m :: b) = some (m :: b)) :
    (n = m ∨ n = 1) ∧ commonReversed? a b = some b := by
  simp only [commonReversed?, bind, Option.bind_eq_some_iff, pure, Option.some.injEq,
    List.cons.injEq] at common
  obtain ⟨length, agreed, rest, later, rfl, rfl⟩ := common
  refine ⟨?_, later⟩
  simp only [commonLength?] at agreed
  grind

theorem fits_of_commonReversed? {a b : List Nat} (common : commonReversed? a b = some b) :
    FitsPlace a.reverse b.reverse ∧ a.length ≤ b.length := by
  induction a generalizing b with
  | nil => exact ⟨.nil _, Nat.zero_le _⟩
  | cons n a ih =>
    cases b with
    | nil => cases common
    | cons m b =>
      obtain ⟨suited, later⟩ := suited_of_commonReversed? common
      obtain ⟨fits, short⟩ := ih later
      rw [List.reverse_cons, List.reverse_cons]
      exact ⟨fits.concat (by simpa using short) suited, Nat.succ_le_succ short⟩

theorem fits_of_commonShape? {s t : List Nat} (common : commonShape? s t = some t) :
    FitsPlace s t ∧ s.length ≤ t.length := by
  obtain ⟨reversed, found, same⟩ := Option.map_eq_some_iff.mp common
  obtain rfl : reversed = t.reverse := by rw [← same, List.reverse_reverse]
  have fits := fits_of_commonReversed? found
  simpa using fits

theorem commonLength?_eq {n m : Nat} (suited : n = m ∨ n = 1) : commonLength? n m = some m := by
  simp only [commonLength?]
  grind

theorem commonReversed?_cons {n m : Nat} (suited : n = m ∨ n = 1) {a b : List Nat}
    (common : commonReversed? a b = some b) :
    commonReversed? (n :: a) (m :: b) = some (m :: b) := by
  rw [commonReversed?, commonLength?_eq suited, common]
  rfl

/-- One more leading axis of the place only. -/
theorem commonReversed?_missing {a b : List Nat} (common : commonReversed? a b = some b) (m : Nat) :
    commonReversed? a (b ++ [m]) = some (b ++ [m]) := by
  induction a generalizing b with
  | nil => rfl
  | cons n a ih =>
    cases b with
    | nil => cases common
    | cons k b =>
      obtain ⟨suited, later⟩ := suited_of_commonReversed? common
      exact commonReversed?_cons suited (ih later)

/-- One more leading axis of both. -/
theorem commonReversed?_axis {a b : List Nat} (common : commonReversed? a b = some b)
    (same : a.length = b.length) {n m : Nat} (suited : n = m ∨ n = 1) :
    commonReversed? (a ++ [n]) (b ++ [m]) = some (b ++ [m]) := by
  induction a generalizing b with
  | nil =>
    obtain rfl : b = [] := List.length_eq_zero_iff.mp same.symm
    exact commonReversed?_cons suited rfl
  | cons k a ih =>
    cases b with
    | nil => cases common
    | cons l b =>
      obtain ⟨agreed, later⟩ := suited_of_commonReversed? common
      exact commonReversed?_cons agreed (ih later (Nat.succ.inj same))

theorem commonShape?_of_fits {s t : List Nat} (fits : FitsPlace s t) (short : s.length ≤ t.length) :
    commonShape? s t = some t := by
  -- Shapes are compared from their last axes on.
  suffices reversed : commonReversed? s.reverse t.reverse = some t.reverse by
    rw [commonShape?, reversed, Option.map_some, List.reverse_reverse]
  induction fits with
  | scalar => rfl
  | missing m _ shorter ih =>
    rw [List.reverse_cons]
    exact commonReversed?_missing (ih shorter) m
  | axis suited _ same ih =>
    rw [List.reverse_cons, List.reverse_cons]
    exact commonReversed?_axis (ih (Nat.le_of_eq same)) (by simpa using same) suited
  | surplus _ longer _ =>
    rw [List.length_cons] at short
    omega

namespace Tensor

variable {α : Type}

/-- The axes of length one that a place does not have are left out. -/
theorem exists_trimmed {s t : List Nat} (fits : FitsPlace s t) (x : Grid α s) :
    ∃ (r : List Nat) (y : Grid α r), fitTo.dropUnits (s.length - t.length) ⟨s, x⟩ = ⟨r, y⟩ ∧
      FitsPlace r t ∧ r.length ≤ t.length ∧ ∀ index, index.length = t.length →
        x.read s (sourceIndex index s) = y.read r (sourceIndex index r) := by
  -- Only a surplus axis is left out: in the other cases the array has no more axes than the place.
  induction fits with
  | scalar => exact ⟨[], x, rfl, .scalar, Nat.le_refl _, fun _ _ => rfl⟩
  | @missing s t m fits shorter _ =>
    have none : s.length - (m :: t).length = 0 := by
      rw [List.length_cons]
      omega
    rw [none]
    exact ⟨s, x, rfl, .missing m fits shorter, Nat.le_succ_of_le shorter, fun _ _ => rfl⟩
  | @axis s t n m suited fits same _ =>
    have none : (n :: s).length - (m :: t).length = 0 := by
      rw [List.length_cons, List.length_cons]
      omega
    rw [none]
    exact ⟨n :: s, x, rfl, .axis suited fits same, by simp [same], fun _ _ => rfl⟩
  | @surplus s t _ longer ih =>
    obtain ⟨r, y, trimmed, fits, short, reads⟩ := ih (x.cells[0])
    have one_more : (1 :: s).length - t.length = s.length - t.length + 1 := by
      rw [List.length_cons]
      omega
    refine ⟨r, y, ?_, fits, short, fun index sized => ?_⟩
    · rw [one_more, ← trimmed]
      rfl
    · rw [sourceIndex_surplus, Grid.read_cons x Nat.one_pos, reads index sized]

/-- What is written into a place of a shape that an array fits: at every index the entry of the array
at the index that is left of it. -/
theorem fitTo_of_fits {t : Tensor α} {shape : List Nat} (fits : FitsPlace t.shape shape) :
    ∃ u, t.fitTo shape = .ok u ∧ u.shape = shape ∧
      ∀ index, List.Forall₂ (· < ·) index shape → u.read index = t.read (sourceIndex index t.shape) := by
  obtain ⟨s, x⟩ := t
  obtain ⟨r, y, trimmed, suited, short, reads⟩ := exists_trimmed fits x
  obtain ⟨g, stretched, spread⟩ := Grid.exists_stretch (α := α) suited short
  refine ⟨⟨shape, g y⟩, ?_, rfl, fun index within => ?_⟩
  · have fitted : stretch? ⟨r, y⟩ shape = some ⟨shape, g y⟩ := by rw [stretch?, stretched, Option.map_some]
    have start : fitTo.dropUnits (Tensor.rank ⟨s, x⟩ - shape.length) ⟨s, x⟩ = ⟨r, y⟩ := trimmed
    simp only [fitTo, start, commonShape?_of_fits suited short, fitted, if_true]
  · exact (spread y index within).trans (reads index within.length_eq).symm

theorem fits_of_dropUnits (count : Nat) {t : Tensor α} {shape : List Nat}
    (fits : FitsPlace (fitTo.dropUnits count t).shape shape)
    (short : (fitTo.dropUnits count t).shape.length ≤ shape.length)
    (counted : count = t.shape.length - shape.length) : FitsPlace t.shape shape := by
  induction count generalizing t with
  | zero => simpa [fitTo.dropUnits] using fits
  | succ count ih =>
    obtain ⟨s, x⟩ := t
    cases s with
    | nil =>
      rw [List.length_nil, Nat.zero_sub] at counted
      cases counted
    | cons n s =>
      rw [List.length_cons] at counted
      by_cases single : n = 1
      · subst single
        exact .surplus (ih (t := ⟨s, x.cells[0]⟩) fits short (by dsimp only; omega)) (by omega)
      · -- The array keeps an axis too many.
        have kept : fitTo.dropUnits (count + 1) (⟨n :: s, x⟩ : Tensor α) = ⟨n :: s, x⟩ :=
          dif_neg single
        rw [kept, List.length_cons] at short
        omega

/-- Nothing but an array that fits is written. -/
theorem fits_of_fitTo {t u : Tensor α} {shape : List Nat} (written : t.fitTo shape = .ok u) :
    FitsPlace t.shape shape := by
  unfold fitTo at written
  dsimp only at written
  split at written
  · next common _ agreed _ =>
    split at written
    · next same =>
      subst same
      obtain ⟨fits, short⟩ := fits_of_commonShape? agreed
      exact fits_of_dropUnits _ fits short rfl
    · cases written
  · cases written

end Tensor

end RecedingHorizon
