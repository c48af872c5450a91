import Mathlib.Data.Multiset.Filter
import StCache.Pool.Gpool

namespace StCache

open Sync

/-- The inputs that come in with an event. -/
def PoolEvent.received {W : Type} : PoolEvent W → List W
  | .receive w => [w]
  | _ => []

namespace Workers

variable {W : Type}

/-- The inputs the loop or a goroutine in its body has. -/
def inputs (s : Workers W) : Multiset W := s.dispatcher.input+s.busy

section Inputs
variable {s t : Workers W} {i : Nat} {v w : W}

theorem inputs_receive (h : s.step (.receive w)=some t) : t.inputs=w::ₘs.inputs := by
  cases step_steps h with
  | receive w hd => simp [inputs,hd,Dispatcher.input]

theorem inputs_dispatch (h : s.step .dispatch=some t) : t.inputs=s.inputs := by
  cases step_steps h with
  | spawn w hd => simp [inputs,hd,Dispatcher.input,←Multiset.coe_add,add_comm]
  | add w op ops c hd hn => simp [inputs,hd,Dispatcher.input]
  | returns hd => simp [inputs,hd,Dispatcher.input]
  | leave op ops c hd hn => simp [inputs,hd,Dispatcher.input]

theorem inputs_cancel (h : s.step .cancel=some t) : t.inputs=s.inputs := by
  cases step_steps h with
  | cancel hd => simp [inputs,hd,Dispatcher.input]

theorem inputs_release (h : s.step (.release i)=some t) : t.inputs=s.inputs := by
  cases step_steps h <;> rfl

theorem inputs_work (hi : s.busy[i]?=some v) (h : s.step (.work i w)=some t) :
    v::ₘt.inputs=w::ₘs.inputs := by
  cases step_steps h with
  | work i u w hu =>
    rw [inputs,inputs,coe_set hi,coe_eq_cons_eraseIdx hi,Multiset.add_cons,Multiset.add_cons,
      Multiset.cons_swap]

theorem inputs_finish (hi : s.busy[i]?=some v) (h : s.step (.finish i)=some t) :
    v::ₘt.inputs=s.inputs := by
  cases step_steps h with
  | finish i u hu => rw [inputs,inputs,coe_eq_cons_eraseIdx hi,Multiset.add_cons]

/-- An input the loop has was received, now or before. -/
theorem Steps.input {e : PoolEvent W} (h : s.Steps e t) (hw : w∈t.dispatcher.input) :
    w∈s.dispatcher.input ∨ w∈e.received := by
  cases h with
  | receive u hd => exact .inr hw
  | spawn | returns | leave | cancel => cases hw
  | add u op ops c hd hn =>
    rw [hd]
    exact .inl hw
  | work | finish | gone | release => exact .inl hw

end Inputs

/-- What is left to do for the inputs of the pool, if the body of a goroutine takes `weight` steps:
one for each statement, for go, and for the ends of the body and of the goroutine. -/
def left (weight : W → Nat) (s : Workers W) : Nat :=
  (match s.dispatcher with
    | .adding w ops => weight w+ops.length+5
    | .leaving ops => ops.length+1
    | .select => 0
    | .returned => 0)+
  ((s.busy : Multiset W).map (fun w => weight w+4)).sum+
  ((s.releasing : Multiset (List Op)).map (fun ops => ops.length+1)).sum

section Left
variable {weight : W → Nat} {s t : Workers W} {i : Nat}

theorem left_dispatch (h : s.step .dispatch=some t) : t.left weight<s.left weight := by
  cases step_steps h with
  | spawn w hd =>
    simp only [left,hd,←Multiset.coe_add,Multiset.map_add,Multiset.sum_add,Multiset.coe_singleton,
      Multiset.map_singleton,Multiset.sum_singleton,List.length_nil]
    omega
  | add w op ops c hd hn =>
    simp only [left,hd,List.length_cons]
    omega
  | returns hd =>
    simp only [left,hd]
    omega
  | leave op ops c hd hn =>
    simp only [left,hd,List.length_cons]
    omega

theorem left_work {v w : W} (hi : s.busy[i]?=some v) (h : s.step (.work i w)=some t)
    (less : weight w<weight v) : t.left weight<s.left weight := by
  cases step_steps h with
  | work i u w hu =>
    simp only [left,coe_set hi,coe_eq_cons_eraseIdx hi,Multiset.map_cons,Multiset.sum_cons]
    omega

theorem left_finish (h : s.step (.finish i)=some t) : t.left weight<s.left weight := by
  cases step_steps h with
  | finish i v hi =>
    simp only [left,coe_eq_cons_eraseIdx hi,Multiset.map_cons,Multiset.sum_cons,
      ←Multiset.coe_add,Multiset.map_add,Multiset.sum_add,Multiset.coe_singleton,
      Multiset.map_singleton,Multiset.sum_singleton,Gpool.done,List.length_cons,List.length_nil]
    omega

theorem left_release (h : s.step (.release i)=some t) : t.left weight<s.left weight := by
  cases step_steps h with
  | gone i hi =>
    simp only [left,coe_eq_cons_eraseIdx hi,Multiset.map_cons,Multiset.sum_cons]
    omega
  | release i op ops c hi hn =>
    simp only [left,coe_set hi,coe_eq_cons_eraseIdx hi,Multiset.map_cons,Multiset.sum_cons,
      List.length_cons]
    omega

/-- Nothing is left exactly if all is at rest. -/
theorem left_eq_zero (h : s.left weight=0) :
    s.busy=[] ∧ s.releasing=[] ∧ (s.dispatcher=.select ∨ s.dispatcher=.returned) := by
  have busy : s.busy=[] := by
    by_contra some
    obtain ⟨v,rest,hb⟩ := List.exists_cons_of_ne_nil some
    simp only [left,hb,←Multiset.cons_coe,Multiset.map_cons,Multiset.sum_cons] at h
    omega
  have releasing : s.releasing=[] := by
    by_contra some
    obtain ⟨v,rest,hb⟩ := List.exists_cons_of_ne_nil some
    simp only [left,hb,←Multiset.cons_coe,Multiset.map_cons,Multiset.sum_cons] at h
    omega
  refine ⟨busy,releasing,?_⟩
  cases hd : s.dispatcher with
  | select => exact .inl rfl
  | returned => exact .inr rfl
  | adding w ops =>
    simp only [left,hd] at h
    omega
  | leaving ops =>
    simp only [left,hd] at h
    omega

end Left

/-- A goroutine in its pool.Done() is never held up. -/
theorem Sound.release_next {s : Workers W} (h : s.Sound) (some : s.releasing≠[]) :
    (s.step (.release 0)).isSome := by
  obtain ⟨ops,rest,hr⟩ := List.exists_cons_of_ne_nil some
  have first : s.releasing[0]?=.some ops := by rw [hr,List.getElem?_cons_zero]
  cases ops with
  | nil => simp [Workers.step,first]
  | cons op ops =>
    obtain ⟨c,hn⟩ := h.releases first
    simp [Workers.step,first,after,hn]

/-- Without goroutines the loop is never held up. -/
theorem Sound.dispatch_next {s : Workers W} (h : s.Sound) (room : 0<s.pool.capacity)
    (idle : s.busy=[]) (released : s.releasing=[]) (away : s.dispatcher≠.select)
    (inside : s.dispatcher≠.returned) : (s.step .dispatch).isSome := by
  cases hd : s.dispatcher with
  | select => exact absurd hd away
  | returned => exact absurd hd inside
  | adding w ops =>
    cases ops with
    | nil => simp [Workers.step,hd]
    | cons op ops =>
      have free : op.exec s.pool≠.blocked := by
        intro blocked
        have full := h.held_up hd blocked
        rw [idle,released,List.length_nil,List.count_nil] at full
        omega
      have calm := h.no_panic (.inl ⟨w,ops,hd⟩)
      cases hn : op.exec s.pool with
      | next c => simp [Workers.step,hd,after,hn]
      | blocked => exact absurd hn free
      | panics => exact absurd hn calm
  | leaving ops =>
    cases ops with
    | nil => simp [Workers.step,hd]
    | cons op ops =>
      have wait : op∈Gpool.wait := ((h.leaving _ hd).trans h.exit).subset List.mem_cons_self
      obtain rfl := List.mem_singleton.mp wait
      have free := (h.waits hd).mpr ⟨idle,by simp [released]⟩
      cases hn : Op.wait.exec s.pool with
      | next c => simp [Workers.step,hd,after,hn]
      | blocked => exact absurd hn free
      | panics => exact absurd hn (h.no_panic (.inr (.inl ⟨ops,hd⟩)))

/-- At rest all tokens are back. -/
theorem Sound.at_rest {s : Workers W} (h : s.Sound) (idle : s.busy=[]) (released : s.releasing=[])
    (still : s.dispatcher=.select ∨ s.dispatcher=.returned) :
    s.inputs=0 ∧ s.pool.queue=0 ∧ s.pool.wg=0 := by
  have tokens := h.tokens
  have count := h.balanced.count
  rcases still with hd|hd
  · rw [threads,hd,idle,released] at count
    rw [idle,released,hd] at tokens
    exact ⟨by simp [inputs,hd,idle,Dispatcher.input],tokens,by simpa [Dispatcher.threads] using count⟩
  · rw [threads,hd,idle,released] at count
    rw [idle,released,hd] at tokens
    exact ⟨by simp [inputs,hd,idle,Dispatcher.input],tokens,by simpa [Dispatcher.threads] using count⟩

/-- A loop that leaves over pool.Wait() leaves no goroutine in its body behind. -/
theorem Sound.gone {s t : Workers W} {e : PoolEvent W} (h : s.Sound) (exit : s.exit=Gpool.wait)
    (before : s.dispatcher=.leaving [] ∨ s.dispatcher=.returned → s.busy=[]) (hs : s.Steps e t)
    (away : t.dispatcher=.leaving [] ∨ t.dispatcher=.returned) : t.busy=[] := by
  cases hs with
  | receive | spawn | add =>
    rcases away with hd|hd <;> cases hd
  | returns hd => exact before (.inl hd)
  | leave op ops c hd hn =>
    obtain ⟨-,rfl,zero⟩ := exec_leaving h hd hn
    refine ((h.waits hd).mp ?_).1
    intro blocked
    rw [Op.exec,if_pos zero] at blocked
    cases blocked
  | cancel hd =>
    rw [exit] at away
    rcases away with hd|hd <;> cases hd
  | work i v w hi =>
    rw [before away] at hi
    cases hi
  | finish i v hi =>
    rw [before away] at hi
    cases hi
  | gone i hi => exact before away
  | release i op ops c hi hn => exact before away

theorem exit_step {s t : Workers W} {e : PoolEvent W} (hs : s.Steps e t) : t.exit=s.exit := by
  cases hs <;> rfl

end Workers

end StCache
