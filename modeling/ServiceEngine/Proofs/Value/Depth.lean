import Mathlib
import ServiceEngine.Proofs.Value.Handles

/-!
# The depth of a walk

Showing and comparing records follows the handles in them, at most as often as there are records. In a
heap where no record reaches itself (`Heap.Acyclic`) the bound is never felt. The reason is a number for each
record, the number of records below it (`Heap.rank`): it falls with every handle that is followed, and it is
less than the number of records.

So the two walks satisfy the equations that they were meant to satisfy (`Heap.Proper.recordJson_eq`,
`Heap.Proper.same_eq`), and how a record is shown depends on the records that it reaches only
(`Heap.Proper.recordJson_congr`).
-/

namespace ServiceEngine.Heap

open Relation (TransGen ReflTransGen)

/-! ## Heaps without circles -/

/-- No record reaches itself. -/
def Acyclic (heap : Heap) : Prop := ∀ h, ¬ TransGen heap.Holds h h

/-- The handles in a value are handles of records. -/
def Owns (heap : Heap) (v : Value) : Prop := ∀ k ∈ v.handles, k.index < heap.size

/-- The handles in records are handles of records, and no record reaches itself. -/
structure Proper (heap : Heap) : Prop where
  closed : ∀ h k, heap.Holds h k → k.index < heap.size
  acyclic : heap.Acyclic

theorem Plain.proper {heap : Heap} (hplain : heap.Plain) : heap.Proper :=
  ⟨fun h k hholds => absurd hholds (hplain.not_holds h k), hplain.acyclic⟩

theorem index_lt_of_holds {heap : Heap} {h k : Handle} (hholds : heap.Holds h k) : h.index < heap.size := by
  -- Where no record is, the empty one is read.
  by_contra hout
  have hget : heap.get h = default := dif_neg hout
  rw [Holds, hget] at hholds
  cases hholds

/-- Where records hold handles of older records only, all is well. -/
theorem proper_of_older {heap : Heap}
    (holder : ∀ i < heap.size, ∀ k ∈ (heap.get ⟨i⟩).handles, k.index < i) : heap.Proper := by
  have hfalls : ∀ h k, heap.Holds h k → k.index < h.index :=
    fun h k hholds => holder h.index (index_lt_of_holds hholds) k hholds
  refine ⟨fun h k hholds => (hfalls h k hholds).trans (index_lt_of_holds hholds), ?_⟩
  intro h hcycle
  -- Along a way places fall, so it does not come back.
  have hbelow : ∀ k, TransGen heap.Holds h k → k.index < h.index := by
    intro k hpath
    induction hpath with
    | single hholds => exact hfalls _ _ hholds
    | tail _ hholds ih => exact (hfalls _ _ hholds).trans ih
  exact lt_irrefl _ (hbelow h hcycle)

/-! ## Ranks -/

def live (heap : Heap) : Set Handle := {k | k.index < heap.size}

/-- The handles that are reached from a handle by one step or more. -/
def below (heap : Heap) (h : Handle) : Set Handle := {k | TransGen heap.Holds h k}

/-- The number of records below a record. -/
noncomputable def rank (heap : Heap) (h : Handle) : Nat := (heap.below h).ncard

theorem live_eq_image (heap : Heap) : heap.live = Handle.mk '' ↑(Finset.range heap.size) := by
  ext ⟨index⟩
  simp [live]

theorem finite_live (heap : Heap) : heap.live.Finite := by
  rw [live_eq_image]
  exact (Finset.finite_toSet _).image _

theorem ncard_live (heap : Heap) : heap.live.ncard = heap.size := by
  have hinjective : Function.Injective Handle.mk := fun _ _ heq => (Handle.mk.injEq _ _).mp heq
  rw [live_eq_image, Set.ncard_image_of_injective _ hinjective, Set.ncard_coe_finset, Finset.card_range]

namespace Proper

variable {heap : Heap} {h k : Handle}

theorem below_subset (hheap : heap.Proper) (h : Handle) : heap.below h ⊆ heap.live := by
  intro k hpath
  obtain ⟨last, -, hlast⟩ := TransGen.tail'_iff.mp hpath
  exact hheap.closed last k hlast

/-- A record has fewer records below it than a record that holds its handle. -/
theorem rank_lt (hheap : heap.Proper) (hholds : heap.Holds h k) : heap.rank k < heap.rank h := by
  apply Set.ncard_lt_ncard _ (heap.finite_live.subset (hheap.below_subset h))
  refine ⟨fun _ hpath => TransGen.head hholds hpath, ?_⟩
  intro hsubset
  exact hheap.acyclic k (hsubset (TransGen.single hholds))

/-- A record has fewer records below it than there are. -/
theorem rank_lt_size (hheap : heap.Proper) (hlive : h.index < heap.size) : heap.rank h < heap.size := by
  rw [← heap.ncard_live]
  apply Set.ncard_lt_ncard _ heap.finite_live
  exact ⟨hheap.below_subset h, fun hsubset => hheap.acyclic h (hsubset hlive)⟩

/-! ## The bound is not felt -/

/-- With room for the records below, more room shows nothing more. -/
theorem recordJsonTo_eq (hheap : heap.Proper) {depth depth' : Nat} (hdepth : heap.rank h < depth)
    (hdepth' : heap.rank h < depth') : heap.recordJsonTo depth h = heap.recordJsonTo depth' h := by
  induction depth generalizing h depth' with
  | zero => omega
  | succ depth ih =>
    obtain ⟨depth', rfl⟩ : ∃ d, depth' = d + 1 := ⟨depth' - 1, by omega⟩
    rw [recordJsonTo, recordJsonTo]
    apply Record.jsonWith_congr
    intro k hk
    have hlt := hheap.rank_lt hk
    exact ih (by omega) (by omega)

theorem sameTo_eq (hheap : heap.Proper) {depth depth' : Nat} (hdepth : heap.rank h < depth)
    (hdepth' : heap.rank h < depth') (k : Handle) : heap.sameTo depth h k = heap.sameTo depth' h k := by
  induction depth generalizing h k depth' with
  | zero => omega
  | succ depth ih =>
    obtain ⟨depth', rfl⟩ : ∃ d, depth' = d + 1 := ⟨depth' - 1, by omega⟩
    have hrecords : Record.eqWith (heap.sameTo depth) (heap.get h) (heap.get k) =
        Record.eqWith (heap.sameTo depth') (heap.get h) (heap.get k) := by
      apply Record.eqWith_congr
      intro a ha b _
      have hlt := hheap.rank_lt ha
      exact ih (by omega) (by omega) b
    rw [sameTo, sameTo, hrecords]

/-- **A record is shown with its fields shown**, however deep the handles in them lead. -/
theorem recordJson_eq (hheap : heap.Proper) (hlive : h.index < heap.size) :
    heap.recordJson h = (heap.get h).jsonWith heap.recordJson := by
  have hrank := hheap.rank_lt_size hlive
  -- One step more than there are records changes nothing, and this step can be seen.
  have hdeeper : heap.recordJson h = heap.recordJsonTo (heap.size + 1) h :=
    hheap.recordJsonTo_eq hrank (by omega)
  rw [hdeeper]
  rfl

/-- **Two handles are equal if they are the same or have equal records**, however deep the handles in these
lead. -/
theorem same_eq (hheap : heap.Proper) (hlive : h.index < heap.size) (k : Handle) :
    heap.same h k = (h == k || Record.eqWith heap.same (heap.get h) (heap.get k)) := by
  have hrank := hheap.rank_lt_size hlive
  have hdeeper : heap.same h k = heap.sameTo (heap.size + 1) h k := hheap.sameTo_eq hrank (by omega) k
  rw [hdeeper]
  rfl

/-! ## Another heap -/

variable {other : Heap}

/-- A record that reaches the same records in another heap is shown in the same way there. -/
theorem recordJson_congr (hheap : heap.Proper) (hother : other.Proper)
    (hsame : ∀ j, ReflTransGen heap.Holds h j →
      j.index < heap.size ∧ j.index < other.size ∧ other.get j = heap.get j) :
    other.recordJson h = heap.recordJson h := by
  -- By induction on the rank: what the record holds is shown alike, for it reaches less.
  induction hrank : heap.rank h using Nat.strong_induction_on generalizing h with
  | _ n ih =>
    obtain ⟨hlive, hlive', hget⟩ := hsame h .refl
    rw [hother.recordJson_eq hlive', hheap.recordJson_eq hlive, hget]
    apply Record.jsonWith_congr
    intro k hk
    apply ih (heap.rank k) (hrank ▸ hheap.rank_lt hk) _ rfl
    intro j hpath
    exact hsame j (ReflTransGen.head hk hpath)

end Proper

end ServiceEngine.Heap
