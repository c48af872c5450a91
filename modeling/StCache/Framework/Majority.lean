import Mathlib.Data.Finset.Card

namespace StCache

section Majority
variable {A : Type} [DecidableEq A]

/-- More than half of the voters. -/
def Majority (voters S : Finset A) : Prop := S⊆voters ∧ voters.card/2+1≤S.card

instance (voters S : Finset A) : Decidable (Majority voters S) :=
  inferInstanceAs (Decidable (_ ∧ _))

/-- Sets that agree off one element have one of them as their union. -/
theorem card_union_le_max {V W : Finset A} {x : A} (same : V.erase x=W.erase x) :
    (V∪W).card ≤ max V.card W.card := by
  by_cases hv : x∈V
  · have inside : W⊆V := by
      intro y hy
      by_cases hx : y=x
      · rw [hx]
        exact hv
      · have there := Finset.mem_erase.mpr ⟨hx,hy⟩
        rw [←same] at there
        exact Finset.mem_of_mem_erase there
    rw [Finset.union_eq_left.mpr inside]
    exact Nat.le_max_left _ _
  · have inside : V⊆W := by
      intro y hy
      rw [←Finset.erase_eq_of_notMem hv,same] at hy
      exact Finset.mem_of_mem_erase hy
    rw [Finset.union_eq_right.mpr inside]
    exact Nat.le_max_right _ _

/-- Any two of their majorities meet. -/
theorem majorities_meet {V W S T : Finset A} {x : A} (same : V.erase x=W.erase x)
    (hS : Majority V S) (hT : Majority W T) : (S∩T).Nonempty := by
  have apart : V.card≤W.card+1 ∧ W.card≤V.card+1 := by
    have left := Finset.pred_card_le_card_erase (s := V) (a := x)
    have right := Finset.pred_card_le_card_erase (s := W) (a := x)
    have small := Finset.card_erase_le (s := V) (a := x)
    have small' := Finset.card_erase_le (s := W) (a := x)
    rw [same] at left small
    omega
  have union := (Finset.card_le_card (Finset.union_subset_union hS.1 hT.1)).trans
    (card_union_le_max same)
  have sum := Finset.card_union_add_card_inter S T
  have left := hS.2
  have right := hT.2
  rw [←Finset.card_pos]
  omega

end Majority

end StCache
