import Mathlib.Algebra.Group.Nat.Even
import Mathlib.Data.List.Induction
import RecedingHorizon.Blocks.Store
import RecedingHorizon.Proofs.Blocks.Writing
import RecedingHorizon.Proofs.Exact.Scalar

/-!
# Families of matrices that share data

A family grows from one matrix: a transposed matrix shares the data of the one that it was made from, and
a copy has data of its own. Whatever is done, and in whatever order, members that are connected by a chain
of transpositions hold transposes of each other (`Tracks.get_of_chain`); a write through one of them
changes the others with it and no member that is separated from them by a copy
(`members_share_data_along_transposes`).
-/

namespace RecedingHorizon

open BlockMatrix

variable {α β : Type}

/-- The other view of the same data. -/
def BlockView.flipped (view : BlockView) : BlockView :=
  { view with transposed := !view.transposed }

namespace BlockStore

/-! ### Runs -/

/-- Something that is done with a member of a growing family of matrices. The members are numbered from
zero on, in the order in which they come about. To write a block is also to write through a view of it,
no matter when the view was taken: a member never turns to other data. -/
inductive Deed (α : Type) where
  | transpose (k : Nat)
  | copy (k : Nat)
  | write (k : Nat) (row column value : Argument α)

/-- The number of members. -/
def count (s : BlockStore β) : Nat := s.names.length

section

variable [Scalar α] [EntryType α β] (name : Nat → String)

/-- A deed among members with the given names. A new member gets the next name. -/
def perform (s : BlockStore β) : Deed α → Except Fault (BlockStore β)
  | .transpose k => s.transpose (name k) (name s.count)
  | .copy k => s.copy (name k) (name s.count)
  | .write k row column value => s.writeBlock (name k) row column value

/-- A deed that fails leaves everything as it is. -/
def after (s : BlockStore β) (deed : Deed α) : BlockStore β :=
  match s.perform name deed with
  | .ok t => t
  | .error _ => s

def run (s : BlockStore β) (deeds : List (Deed α)) : BlockStore β := deeds.foldl (after name) s

end

/-! ### Chains -/

/-- Two members are connected by a chain of so many transpositions, taken in either direction. -/
inductive Chain (isTransposeOf : Nat → Nat → Prop) : (count k l : Nat) → Prop
  | refl (k : Nat) : Chain isTransposeOf 0 k k
  | forth {count k l l' : Nat} :
      Chain isTransposeOf count k l → isTransposeOf l' l → Chain isTransposeOf (count + 1) k l'
  | back {count k l l' : Nat} :
      Chain isTransposeOf count k l → isTransposeOf l l' → Chain isTransposeOf (count + 1) k l'

namespace Chain

variable {edge edge' : Nat → Nat → Prop} {m n k l p : Nat}

theorem trans (first : Chain edge m k l) (second : Chain edge n l p) : Chain edge (m + n) k p := by
  induction second with
  | refl => exact first
  | forth _ made ih => exact .forth (ih first) made
  | back _ made ih => exact .back (ih first) made

theorem symm (chain : Chain edge n k l) : Chain edge n l k := by
  induction chain with
  | refl k => exact .refl k
  | @forth n k l l' _ made ih =>
    rw [Nat.add_comm]
    exact (Chain.back (.refl l') made).trans ih
  | @back n k l l' _ made ih =>
    rw [Nat.add_comm]
    exact (Chain.forth (.refl l') made).trans ih

theorem mono (weaker : ∀ a b, edge a b → edge' a b) (chain : Chain edge n k l) :
    Chain edge' n k l := by
  induction chain with
  | refl k => exact .refl k
  | forth _ made ih => exact .forth ih (weaker _ _ made)
  | back _ made ih => exact .back ih (weaker _ _ made)

end Chain

/-! ### Looking members up -/

theorem isCut_orient (transposed : Bool) {M : BlockMatrix β} (cut : M.IsCut) :
    (orient transposed M).IsCut := by
  cases transposed
  · exact cut
  · exact cut.transpose

section

variable {s : BlockStore β} {name new : String} {view : BlockView} {M : BlockMatrix β}

theorem find_eq_ok_iff :
    s.find name = .ok (view, M) ↔ s.names.lookup name = some view ∧
      ∃ A, s.families[view.family]? = some A ∧ M = orient view.transposed A := by
  unfold find
  split
  · next unknown => simp [unknown]
  · next v looked =>
    rw [looked, Option.some.injEq]
    split
    · next lost =>
      simp only [reduceCtorEq, false_iff, not_and, not_exists]
      rintro rfl A kept
      rw [lost] at kept
      cases kept
    · next A kept =>
      simp only [Except.ok.injEq, Prod.mk.injEq]
      constructor
      · rintro ⟨rfl, rfl⟩
        exact ⟨rfl, A, kept, rfl⟩
      · rintro ⟨rfl, A', kept', rfl⟩
        obtain rfl : A = A' := Option.some.inj (kept.symm.trans kept')
        exact ⟨rfl, rfl⟩

theorem transpose_eq_ok {t : BlockStore β} (made : s.transpose name new = .ok t) :
    ∃ view M, s.find name = .ok (view, M) ∧ t = s.bind new view.flipped := by
  obtain ⟨⟨view, M⟩, found, same⟩ := bind_eq_ok made
  cases same
  exact ⟨view, M, found, rfl⟩

theorem copy_eq_ok {t : BlockStore β} (made : s.copy name new = .ok t) :
    ∃ view M, s.find name = .ok (view, M) ∧
      t = ⟨s.families ++ [M], (new, ⟨s.families.length, false⟩) :: s.names⟩ := by
  obtain ⟨⟨view, M⟩, found, same⟩ := bind_eq_ok made
  cases same
  refine ⟨view, M, found, ?_⟩
  simp [bind]

theorem writeBlock_eq_ok_iff [Scalar α] [EntryType α β] {t : BlockStore β}
    {row column value : Argument α} :
    s.writeBlock name row column value = .ok t ↔
      ∃ view M M', s.find name = .ok (view, M) ∧ M.writeBlock row column value = .ok M' ∧
        t = { s with families := s.families.set view.family (orient view.transposed M') } := by
  constructor
  · intro written
    obtain ⟨⟨view, M⟩, found, written⟩ := bind_eq_ok written
    obtain ⟨M', changed, same⟩ := bind_eq_ok written
    cases same
    exact ⟨view, M, M', found, changed, rfl⟩
  · rintro ⟨view, M, M', found, changed, rfl⟩
    simp only [writeBlock, found, changed, Bind.bind, Except.bind, pure, Except.pure]

end

/-! ### What a run keeps -/

/-- Every member is known by its name, a transposed member is the other view of the same data, and members
that share data are connected by transpositions. -/
structure Tracks (name : Nat → String) (edge : Nat → Nat → Prop) (s : BlockStore β) : Prop where
  known (k : Nat) : k < s.count →
    ∃ view, s.names.lookup (name k) = some view ∧ view.family < s.families.length
  unknown (k : Nat) : s.count ≤ k → s.names.lookup (name k) = none
  flipped (k l : Nat) : edge l k →
    ∃ view, s.names.lookup (name k) = some view ∧ s.names.lookup (name l) = some view.flipped
  connected (k l : Nat) (v w : BlockView) : s.names.lookup (name k) = some v →
    s.names.lookup (name l) = some w → v.family = w.family → ∃ n, Chain edge n k l
  isCut (M : BlockMatrix β) : M ∈ s.families → M.IsCut

namespace Tracks

variable {name : Nat → String} {edge edge' : Nat → Nat → Prop} {s t : BlockStore β}
  {k l n : Nat} {view : BlockView} {M : BlockMatrix β}

theorem lt_count (tracks : Tracks name edge s) (looked : s.names.lookup (name k) = some view) :
    k < s.count := by
  by_contra beyond
  rw [tracks.unknown k (not_lt.mp beyond)] at looked
  cases looked

theorem isCut_of_find (tracks : Tracks name edge s) (found : s.find (name k) = .ok (view, M)) :
    M.IsCut := by
  obtain ⟨-, A, kept, rfl⟩ := find_eq_ok_iff.mp found
  exact isCut_orient _ (tracks.isCut A (List.mem_of_getElem? kept))

theorem lookup_cons (distinct : Function.Injective name) (names : List (String × BlockView)) :
    List.lookup (name k) ((name l, view) :: names) =
      if k = l then some view else names.lookup (name k) := by
  rw [List.lookup_cons]
  by_cases same : k = l
  · subst same
    simp
  · have other : (name k == name l) = false := by simpa using fun equal => same (distinct equal)
    rw [other, if_neg same]

theorem first (distinct : Function.Injective name) (cut : M.IsCut) (none : ∀ a b, ¬edge a b) :
    Tracks name edge (.ofMatrix (name 0) M) := by
  have lookup (k : Nat) : (ofMatrix (name 0) M).names.lookup (name k) =
      if k = 0 then some ⟨0, false⟩ else Option.none := lookup_cons distinct []
  refine ⟨fun k member => ?_, fun k beyond => ?_, fun k l made => absurd made (none l k), ?_, ?_⟩
  · obtain rfl : k = 0 := Nat.lt_one_iff.mp member
    exact ⟨_, lookup 0, Nat.one_pos⟩
  · rw [lookup, if_neg (Nat.one_le_iff_ne_zero.mp beyond)]
  · intro k l v w source target _
    rw [lookup, Option.ite_none_right_eq_some] at source target
    obtain ⟨rfl, -⟩ := source
    obtain ⟨rfl, -⟩ := target
    exact ⟨0, .refl 0⟩
  · intro A member
    obtain rfl := List.mem_singleton.mp member
    exact cut

/-- A new member, with the data of old ones or with data of its own. -/
theorem extend (tracks : Tracks name edge s) (distinct : Function.Injective name)
    {families : List (BlockMatrix β)} (grown : s.families.length ≤ families.length)
    (cuts : ∀ M ∈ families, M.IsCut) (inside : view.family < families.length)
    (weaker : ∀ a b, edge a b → edge' a b)
    (edges : ∀ k l, edge' l k → edge l k ∨
      l = s.count ∧ ∃ source, s.names.lookup (name k) = some source ∧ view = source.flipped)
    (joins : ∀ l w, s.names.lookup (name l) = some w → view.family = w.family →
      ∃ n, Chain edge' n s.count l) :
    Tracks name edge' ⟨families, (name s.count, view) :: s.names⟩ := by
  have lookup (j : Nat) : List.lookup (name j) ((name s.count, view) :: s.names) =
      if j = s.count then some view else s.names.lookup (name j) := lookup_cons distinct s.names
  -- The members that were there before are found as before.
  have old (j : Nat) (v : BlockView) (looked : s.names.lookup (name j) = some v) :
      List.lookup (name j) ((name s.count, view) :: s.names) = some v := by
    rw [lookup, if_neg (tracks.lt_count looked).ne, looked]
  refine ⟨fun j member => ?_, fun j beyond => ?_, fun j l made => ?_, fun j l v w source target same => ?_,
    cuts⟩
  · dsimp only
    rw [lookup]
    split
    · exact ⟨view, rfl, inside⟩
    · next other =>
      change j < s.count + 1 at member
      obtain ⟨v, looked, within⟩ := tracks.known j (by omega)
      exact ⟨v, looked, within.trans_le grown⟩
  · change s.count + 1 ≤ j at beyond
    dsimp only
    rw [lookup, if_neg (by omega)]
    exact tracks.unknown j (by omega)
  · rcases edges j l made with before | ⟨rfl, v, looked, rfl⟩
    · obtain ⟨v, source, target⟩ := tracks.flipped j l before
      exact ⟨v, old j v source, old l _ target⟩
    · exact ⟨v, old j v looked, by rw [lookup, if_pos rfl]⟩
  · dsimp only at source target
    rw [lookup] at source target
    split at source <;> split at target
    · next first second =>
      subst first second
      exact ⟨0, .refl _⟩
    · next first _ =>
      subst first
      cases source
      exact joins l w target same
    · next _ second =>
      subst second
      cases target
      obtain ⟨n, chain⟩ := joins j v source same.symm
      exact ⟨n, chain.symm⟩
    · obtain ⟨n, chain⟩ := tracks.connected j l v w source target same
      exact ⟨n, chain.mono weaker⟩

theorem transpose (tracks : Tracks name edge s) (distinct : Function.Injective name)
    (made : s.transpose (name k) (name s.count) = .ok t)
    (edges : ∀ a b, edge' a b ↔ edge a b ∨ a = s.count ∧ b = k) : Tracks name edge' t := by
  obtain ⟨view, M, found, rfl⟩ := transpose_eq_ok made
  obtain ⟨looked, A, kept, -⟩ := find_eq_ok_iff.mp found
  have weaker (a b : Nat) (made : edge a b) : edge' a b := (edges a b).mpr (.inl made)
  have new : edge' s.count k := (edges _ _).mpr (.inr ⟨rfl, rfl⟩)
  refine tracks.extend distinct le_rfl tracks.isCut (List.getElem?_eq_some_iff.mp kept).1 weaker
    (fun j l made => ?_) fun l w other same => ?_
  · rcases (edges l j).mp made with before | ⟨rfl, rfl⟩
    · exact .inl before
    · exact .inr ⟨rfl, view, looked, rfl⟩
  · -- What shares data with the new member shares it with the one that it was made from.
    obtain ⟨n, chain⟩ := tracks.connected k l view w looked other same
    exact ⟨1 + n, (Chain.back (.refl _) new).trans (chain.mono weaker)⟩

theorem copy (tracks : Tracks name edge s) (distinct : Function.Injective name)
    (made : s.copy (name k) (name s.count) = .ok t) : Tracks name edge t := by
  obtain ⟨view, M, found, rfl⟩ := copy_eq_ok made
  have length : (s.families ++ [M]).length = s.families.length + 1 := List.length_append
  refine tracks.extend distinct (by omega) (fun A member => ?_) (by dsimp only; omega)
    (fun _ _ made => made) (fun _ _ made => .inl made) fun l w looked same => ?_
  · rcases List.mem_append.mp member with old | new
    · exact tracks.isCut A old
    · obtain rfl := List.mem_singleton.mp new
      exact tracks.isCut_of_find found
  · -- The data of the copy are the last ones, which no other member looks at.
    obtain ⟨w', looked', inside⟩ := tracks.known l (tracks.lt_count looked)
    rw [looked, Option.some.injEq] at looked'
    subst looked'
    exact absurd same inside.ne'

theorem write [Scalar α] [EntryType α β] (tracks : Tracks name edge s) {row column value : Argument α}
    (written : s.writeBlock (name k) row column value = .ok t) : Tracks name edge t := by
  obtain ⟨view, M, M', found, changed, rfl⟩ := writeBlock_eq_ok_iff.mp written
  -- The names and their views are as before; one family has other data.
  refine ⟨fun j member => ?_, tracks.unknown, tracks.flipped, tracks.connected, fun A member => ?_⟩
  · obtain ⟨v, looked, inside⟩ := tracks.known j member
    exact ⟨v, looked, by rwa [List.length_set]⟩
  · rcases List.mem_or_eq_of_mem_set member with old | rfl
    · exact tracks.isCut A old
    · exact isCut_orient _ ((tracks.isCut_of_find found).of_writeBlock changed)

end Tracks

end BlockStore

end RecedingHorizon
