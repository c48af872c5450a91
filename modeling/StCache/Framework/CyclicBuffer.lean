import Mathlib.Data.Int.ModEq
import Mathlib.Data.List.Basic

namespace StCache

section Cyclic
variable {A : Type}

def lastN (n : Nat) (l : List A) : List A := l.drop (l.length-n)

theorem lastN_zero (l : List A) : lastN 0 l=[] := by simp [lastN]

theorem lastN_succ (n : Nat) (l : List A) (h : n<l.length) :
    lastN (n+1) l=l[l.length-1-n]::lastN n l := by
  have start : l.length-(n+1)=l.length-1-n := by omega
  have next : l.length-n=l.length-1-n+1 := by omega
  rw [lastN,lastN,start,next]
  exact List.drop_eq_getElem_cons (by omega)

theorem lastN_length (n : Nat) (l : List A) (h : n ≤ l.length) : (lastN n l).length=n := by
  simp only [lastN,List.length_drop]
  omega

theorem mem_of_mem_lastN (n : Nat) (l : List A) (x : A) (h : x∈lastN n l) : x∈l :=
  List.mem_of_mem_drop h

theorem map_lastN {B : Type} (f : A → B) (n : Nat) (l : List A) :
    (lastN n l).map f=lastN n (l.map f) := by simp [lastN]

/-- A fixed number of cells written round and round: cell `j % capacity` holds
the j-th value written until it is overwritten. -/
structure Cyclic (cells history : List A) : Prop where
  nonempty : 0<cells.length
  recent : ∀ j x,history[j]?=some x → history.length ≤ j+cells.length →
    cells[j%cells.length]?=some x

/-- The cell the next value goes to. -/
def nextCell (cells history : List A) : Nat := history.length%cells.length

theorem Cyclic.blank (cells : List A) (h : 0<cells.length) : Cyclic cells [] :=
  ⟨h,fun j x hx => by simp at hx⟩

/-- Cells that are filled in their own order. -/
theorem Cyclic.full (cells : List A) (h : 0<cells.length) : Cyclic cells cells := by
  refine ⟨h,?_⟩
  intro j x hx _
  obtain ⟨inside,-⟩ := List.getElem?_eq_some_iff.mp hx
  rw [Nat.mod_eq_of_lt inside]
  exact hx

theorem mod_ne_of_close (c j k : Nat) (h : j<k) (close : k<j+c) : j%c≠k%c := by
  intro he
  have hdvd : c∣k-j := (Nat.modEq_iff_dvd' (Nat.le_of_lt h)).mp he
  exact absurd (Nat.le_of_dvd (by omega) hdvd) (by omega)

theorem Cyclic.push {cells history : List A} (h : Cyclic cells history) (x : A) :
    Cyclic (cells.set (nextCell cells history) x) (history++[x]) := by
  have hc := h.nonempty
  refine ⟨by simpa using hc,?_⟩
  intro j y hy recent
  rw [List.length_set,List.length_append,List.length_singleton] at *
  by_cases new : j=history.length
  · subst j
    have same : y=x := by simpa using hy.symm
    subst y
    exact List.getElem?_set_self (Nat.mod_lt _ hc)
  · obtain ⟨hj,-⟩ := List.getElem?_eq_some_iff.mp hy
    simp only [List.length_append,List.length_singleton] at hj
    have old : j<history.length := by omega
    rw [List.getElem?_append_left old] at hy
    have other := mod_ne_of_close cells.length j history.length old (by omega)
    rw [nextCell,List.getElem?_set_ne (Ne.symm other)]
    exact h.recent j y hy (by omega)

/-- The cell of the i-th value from the end, whether or not the cells have been
filled once. -/
theorem back_index (n c i : Nat) (hn : i<n) (hc : i<c) :
    (n%c+(min n c-1-i))%min n c=(n-1-i)%c := by
  by_cases h : n<c
  · rw [Nat.min_eq_left (Nat.le_of_lt h),Nat.mod_eq_of_lt h,
      Nat.mod_eq_of_lt (show n-1-i<c by omega),Nat.add_mod_left,
      Nat.mod_eq_of_lt (show n-1-i<n by omega)]
  · rw [Nat.min_eq_right (by omega),Nat.mod_add_mod]
    have shift : n+(c-1-i)=n-1-i+c := by omega
    rw [shift,Nat.add_mod_right]

/-- Reading backwards from the last written cell gives the last values. -/
theorem Cyclic.read_back {cells history : List A} (h : Cyclic cells history) (i : Nat)
    (hi : i<history.length) (hc : i<cells.length) :
    cells[(history.length-1-i)%cells.length]?=history[history.length-1-i]? := by
  have inside : history.length-1-i<history.length := by omega
  rw [List.getElem?_eq_getElem inside]
  exact h.recent _ _ (List.getElem?_eq_getElem inside) (by omega)

end Cyclic

end StCache
