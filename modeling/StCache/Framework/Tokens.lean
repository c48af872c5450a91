import Mathlib.Algebra.BigOperators.Group.Multiset.Basic
import Mathlib.Algebra.Order.Group.Int
import Mathlib.Data.List.Perm.Basic

namespace StCache.Sync

section Positions
variable {A : Type} {l : List A} {i : Nat} {x : A}

theorem coe_eq_cons_eraseIdx (h : l[i]?=some x) :
    (l : Multiset A)=x::ₘ(l.eraseIdx i : Multiset A) := by
  obtain ⟨hi,rfl⟩ := List.getElem?_eq_some_iff.mp h
  rw [Multiset.cons_coe]
  exact Multiset.coe_eq_coe.mpr (List.getElem_cons_eraseIdx_perm hi).symm

theorem coe_set (h : l[i]?=some x) (y : A) :
    (l.set i y : Multiset A)=y::ₘ(l.eraseIdx i : Multiset A) := by
  obtain ⟨hi,-⟩ := List.getElem?_eq_some_iff.mp h
  rw [Multiset.cons_coe]
  exact Multiset.coe_eq_coe.mpr (List.set_perm_cons_eraseIdx hi y)

/-- A list with x in it has x at some place. -/
theorem exists_place {rest : Multiset A} (h : (l : Multiset A)=x::ₘrest) :
    ∃ i : Nat,l[i]?=some x ∧ (l.eraseIdx i : Multiset A)=rest := by
  have inside : x∈l := Multiset.mem_coe.mp (h ▸ Multiset.mem_cons_self x rest)
  obtain ⟨i,hi⟩ := List.getElem?_of_mem inside
  refine ⟨i,hi,?_⟩
  rw [coe_eq_cons_eraseIdx hi] at h
  exact (Multiset.cons_inj_right x).mp h

end Positions

/-- The tokens in a channel of this capacity and the counter of a WaitGroup. -/
structure Counters where
  capacity : Nat
  queue : Nat := 0
  wg : Int := 0
  deriving DecidableEq

inductive Op where
  | send
  | receive
  | add (delta : Int)
  | wait
  deriving DecidableEq

inductive Outcome where
  | blocked
  | panics
  | next (c : Counters)
  deriving DecidableEq

def Op.exec (c : Counters) : Op → Outcome
  | .send => if c.queue<c.capacity then .next {c with queue := c.queue+1} else .blocked
  | .receive => if 0<c.queue then .next {c with queue := c.queue-1} else .blocked
  | .add delta => if c.wg+delta<0 then .panics else .next {c with wg := c.wg+delta}
  | .wait => if c.wg=0 then .next c else .blocked

/-- What a statement adds to the tokens. -/
def Op.tokens : Op → Int
  | .send => 1
  | .receive => -1
  | .add _ => 0
  | .wait => 0

/-- What a statement adds to the counter of the WaitGroup. -/
def Op.count : Op → Int
  | .add delta => delta
  | .send => 0
  | .receive => 0
  | .wait => 0

def owed (g : Op → Int) : List Op → Int
  | [] => 0
  | op::ops => g op+owed g ops

/-- Everything a statement that is executed does. -/
theorem Op.exec_next {c d : Counters} {op : Op} (h : op.exec c=.next d) :
    (d.queue : Int)=c.queue+op.tokens ∧ d.wg=c.wg+op.count ∧ d.capacity=c.capacity ∧
      (c.queue ≤ c.capacity → d.queue≤d.capacity) := by
  cases op with
  | send =>
    simp only [exec] at h
    split_ifs at h with room
    cases h
    exact ⟨Int.natCast_succ _,(Int.add_zero _).symm,rfl,fun _ => room⟩
  | receive =>
    simp only [exec] at h
    split_ifs at h with some
    cases h
    refine ⟨?_,(Int.add_zero _).symm,rfl,fun full => Nat.le_trans (Nat.sub_le _ _) full⟩
    show ((c.queue-1 : Nat) : Int)=c.queue+(-1)
    omega
  | add delta =>
    simp only [exec] at h
    split_ifs at h
    cases h
    exact ⟨(Int.add_zero _).symm,rfl,rfl,id⟩
  | wait =>
    simp only [exec] at h
    split_ifs at h
    cases h
    exact ⟨(Int.add_zero _).symm,(Int.add_zero _).symm,rfl,id⟩

/-- The counters and what the threads still owe them cancel. -/
structure Balanced (c : Counters) (threads : Multiset (List Op)) : Prop where
  tokens : (c.queue : Int)+(threads.map (owed Op.tokens)).sum=0
  count : c.wg+(threads.map (owed Op.count)).sum=0
  room : c.queue ≤ c.capacity

namespace Balanced

variable {c d : Counters} {threads : Multiset (List Op)} {op : Op} {ops : List Op}

theorem init (capacity : Nat) : Balanced {capacity := capacity} 0 :=
  ⟨rfl,rfl,Nat.zero_le _⟩

theorem exec (h : Balanced c ((op::ops)::ₘthreads)) (hn : op.exec c=.next d) :
    Balanced d (ops::ₘthreads) := by
  obtain ⟨queue,wg,capacity,room⟩ := Op.exec_next hn
  have tokens := h.tokens
  have count := h.count
  rw [Multiset.map_cons,Multiset.sum_cons,owed] at tokens count
  refine ⟨?_,?_,room h.room⟩
  · rw [Multiset.map_cons,Multiset.sum_cons]
    omega
  · rw [Multiset.map_cons,Multiset.sum_cons]
    omega

/-- A thread that gives back all it takes may start at any time. -/
theorem spawn (h : Balanced c threads) (tokens : owed Op.tokens ops=0)
    (count : owed Op.count ops=0) : Balanced c (ops::ₘthreads) := by
  have before := h.tokens
  have counted := h.count
  refine ⟨?_,?_,h.room⟩
  · rw [Multiset.map_cons,Multiset.sum_cons]
    omega
  · rw [Multiset.map_cons,Multiset.sum_cons]
    omega

theorem leave (h : Balanced c ([]::ₘthreads)) : Balanced c threads := by
  have tokens := h.tokens
  have count := h.count
  rw [Multiset.map_cons,Multiset.sum_cons,owed,Int.zero_add] at tokens count
  exact ⟨tokens,count,h.room⟩

end Balanced

theorem sum_owed_le (g : Op → Int) {threads : Multiset (List Op)}
    (small : ∀ ops∈threads,owed g ops≤0) : (threads.map (owed g)).sum≤0 := by
  induction threads using Multiset.induction with
  | empty => exact Int.le_refl 0
  | cons ops threads ih =>
    have first := small ops (Multiset.mem_cons_self ops threads)
    have rest := ih (fun x hx => small x (Multiset.mem_cons_of_mem hx))
    rw [Multiset.map_cons,Multiset.sum_cons]
    omega

/-- If no thread owes more than it has, a thread can always give back what it has. -/
theorem Balanced.receives {c : Counters} {threads : Multiset (List Op)} {ops : List Op}
    (h : Balanced c ((.receive::ops)::ₘthreads)) (small : ∀ x∈threads,owed Op.tokens x≤0)
    (nothing : owed Op.tokens ops=0) : Op.receive.exec c=.next {c with queue := c.queue-1} := by
  have tokens := h.tokens
  have rest := sum_owed_le Op.tokens small
  rw [Multiset.map_cons,Multiset.sum_cons,owed,nothing,Op.tokens] at tokens
  rw [Op.exec,if_pos (by omega)]

theorem Balanced.counts {c : Counters} {threads : Multiset (List Op)} {ops : List Op} {delta : Int}
    (h : Balanced c ((.add delta::ops)::ₘthreads)) (small : ∀ x∈threads,owed Op.count x≤0)
    (nothing : owed Op.count ops≤0) :
    (Op.add delta).exec c=.next {c with wg := c.wg+delta} := by
  have count := h.count
  have rest := sum_owed_le Op.count small
  rw [Multiset.map_cons,Multiset.sum_cons,owed,Op.count] at count
  rw [Op.exec,if_neg (by omega)]

/-- The counter is zero exactly if no thread owes it anything. -/
theorem Balanced.wg_zero_iff {c : Counters} {threads : Multiset (List Op)} (h : Balanced c threads)
    (small : ∀ x∈threads,owed Op.count x≤0) : c.wg=0 ↔ ∀ x∈threads,owed Op.count x=0 := by
  have count := h.count
  constructor
  · intro zero x hx
    obtain ⟨rest,rfl⟩ := Multiset.exists_cons_of_mem hx
    have first := small x hx
    have others := sum_owed_le Op.count (fun y hy => small y (Multiset.mem_cons_of_mem hy))
    rw [Multiset.map_cons,Multiset.sum_cons] at count
    omega
  · intro none
    have total : (threads.map (owed Op.count)).sum=0 := by
      rw [Multiset.map_congr rfl none,Multiset.sum_map_zero]
    omega

end StCache.Sync
