import Mathlib.Algebra.Ring.Int.Defs
import Mathlib.Data.List.Infix
import Mathlib.Data.Nat.Cast.Basic
import StCache.Framework.Runs
import StCache.Framework.Tokens

namespace StCache

open Sync

namespace Gpool

def new (size : Int) : Counters := {capacity := if size≤0 then 1 else size.toNat}

def add (delta : Int) : List Op :=
  List.replicate delta.toNat .send++List.replicate (-delta).toNat .receive++[.add delta]

def done : List Op := [.receive,.add (-1)]

def wait : List Op := [.wait]

end Gpool

/-- The loop waits in its select, executes pool.Add(1) for an input it has received, or leaves. -/
inductive Dispatcher (W : Type) where
  | select
  | adding (w : W) (ops : List Op)
  | leaving (ops : List Op)
  | returned
  deriving DecidableEq

/-- `busy` are the goroutines in their body, `releasing` those in their deferred pool.Done();
`exit` is what the loop executes after its context is done. -/
structure Workers (W : Type) where
  exit : List Op
  pool : Counters
  dispatcher : Dispatcher W := .select
  busy : List W := []
  releasing : List (List Op) := []
  deriving DecidableEq

/-- `dispatch` is the next statement of the loop, `work` a step inside the body of goroutine i,
`finish` its end and `release` the next statement of its pool.Done(). -/
inductive PoolEvent (W : Type) where
  | receive (w : W)
  | dispatch
  | cancel
  | work (i : Nat) (w : W)
  | finish (i : Nat)
  | release (i : Nat)

namespace Workers

variable {W : Type}

def new (size : Int) (exit : List Op) : Workers W := {exit := exit,pool := Gpool.new size}

/-- The state after a statement; none if it blocks or panics. -/
def after (s : Workers W) (op : Op) (k : Counters → Workers W) : Option (Workers W) :=
  match op.exec s.pool with
  | .next c => some (k c)
  | .blocked => none
  | .panics => none

def step (s : Workers W) : PoolEvent W → Option (Workers W)
  | .receive w =>
    match s.dispatcher with
    | .select => some {s with dispatcher := .adding w (Gpool.add 1)}
    | _ => none
  | .dispatch =>
    match s.dispatcher with
    | .adding w [] => some {s with dispatcher := .select,busy := s.busy++[w]}
    | .adding w (op::ops) => s.after op (fun c => {s with pool := c,dispatcher := .adding w ops})
    | .leaving [] => some {s with dispatcher := .returned}
    | .leaving (op::ops) => s.after op (fun c => {s with pool := c,dispatcher := .leaving ops})
    | .select => none
    | .returned => none
  | .cancel =>
    match s.dispatcher with
    | .select => some {s with dispatcher := .leaving s.exit}
    | _ => none
  | .work i w =>
    match s.busy[i]? with
    | some _ => some {s with busy := s.busy.set i w}
    | none => none
  | .finish i =>
    match s.busy[i]? with
    | some _ => some {s with busy := s.busy.eraseIdx i,releasing := s.releasing++[Gpool.done]}
    | none => none
  | .release i =>
    match s.releasing[i]? with
    | some [] => some {s with releasing := s.releasing.eraseIdx i}
    | some (op::ops) =>
      s.after op (fun c => {s with pool := c,releasing := s.releasing.set i ops})
    | none => none

/-- The statement a goroutine of the pool is about to execute. -/
def Next (s : Workers W) (op : Op) : Prop :=
  (∃ w ops,s.dispatcher=.adding w (op::ops)) ∨ (∃ ops,s.dispatcher=.leaving (op::ops)) ∨
    ∃ (i : Nat) (ops : List Op),s.releasing[i]?=some (op::ops)

theorem after_some {s t : Workers W} {op : Op} {k : Counters → Workers W}
    (h : s.after op k=some t) : ∃ c,op.exec s.pool=.next c ∧ t=k c := by
  unfold after at h
  cases hn : op.exec s.pool with
  | next c =>
    rw [hn] at h
    exact ⟨c,rfl,(Option.some.inj h).symm⟩
  | blocked | panics =>
    rw [hn] at h
    cases h

/-- Everything a step can do. -/
inductive Steps (s : Workers W) : PoolEvent W → Workers W → Prop where
  | receive (w : W) (hd : s.dispatcher=.select) :
      Steps s (.receive w) {s with dispatcher := .adding w (Gpool.add 1)}
  | spawn (w : W) (hd : s.dispatcher=.adding w []) :
      Steps s .dispatch {s with dispatcher := .select,busy := s.busy++[w]}
  | add (w : W) (op : Op) (ops : List Op) (c : Counters) (hd : s.dispatcher=.adding w (op::ops))
      (hn : op.exec s.pool=.next c) :
      Steps s .dispatch {s with pool := c,dispatcher := .adding w ops}
  | returns (hd : s.dispatcher=.leaving []) : Steps s .dispatch {s with dispatcher := .returned}
  | leave (op : Op) (ops : List Op) (c : Counters) (hd : s.dispatcher=.leaving (op::ops))
      (hn : op.exec s.pool=.next c) :
      Steps s .dispatch {s with pool := c,dispatcher := .leaving ops}
  | cancel (hd : s.dispatcher=.select) : Steps s .cancel {s with dispatcher := .leaving s.exit}
  | work (i : Nat) (v w : W) (hi : s.busy[i]?=some v) :
      Steps s (.work i w) {s with busy := s.busy.set i w}
  | finish (i : Nat) (v : W) (hi : s.busy[i]?=some v) :
      Steps s (.finish i)
        {s with busy := s.busy.eraseIdx i,releasing := s.releasing++[Gpool.done]}
  | gone (i : Nat) (hi : s.releasing[i]?=some []) :
      Steps s (.release i) {s with releasing := s.releasing.eraseIdx i}
  | release (i : Nat) (op : Op) (ops : List Op) (c : Counters)
      (hi : s.releasing[i]?=some (op::ops)) (hn : op.exec s.pool=.next c) :
      Steps s (.release i) {s with pool := c,releasing := s.releasing.set i ops}

theorem step_steps {s t : Workers W} {e : PoolEvent W} (h : s.step e=some t) : s.Steps e t := by
  cases e with
  | receive w =>
    cases hd : s.dispatcher with
    | select =>
      simp only [step,hd] at h
      cases h
      exact .receive w hd
    | adding | leaving | returned => simp [step,hd] at h
  | dispatch =>
    cases hd : s.dispatcher with
    | select | returned => simp [step,hd] at h
    | adding w ops =>
      cases ops with
      | nil =>
        simp only [step,hd] at h
        cases h
        exact .spawn w hd
      | cons op ops =>
        simp only [step,hd] at h
        obtain ⟨c,hn,rfl⟩ := after_some h
        exact .add w op ops c hd hn
    | leaving ops =>
      cases ops with
      | nil =>
        simp only [step,hd] at h
        cases h
        exact .returns hd
      | cons op ops =>
        simp only [step,hd] at h
        obtain ⟨c,hn,rfl⟩ := after_some h
        exact .leave op ops c hd hn
  | cancel =>
    cases hd : s.dispatcher with
    | select =>
      simp only [step,hd] at h
      cases h
      exact .cancel hd
    | adding | leaving | returned => simp [step,hd] at h
  | work i w =>
    cases hi : s.busy[i]? with
    | none => simp [step,hi] at h
    | some v =>
      simp only [step,hi] at h
      cases h
      exact .work i v w hi
  | finish i =>
    cases hi : s.busy[i]? with
    | none => simp [step,hi] at h
    | some v =>
      simp only [step,hi] at h
      cases h
      exact .finish i v hi
  | release i =>
    cases hi : s.releasing[i]? with
    | none => simp [step,hi] at h
    | some ops =>
      cases ops with
      | nil =>
        simp only [step,hi] at h
        cases h
        exact .gone i hi
      | cons op ops =>
        simp only [step,hi] at h
        obtain ⟨c,hn,rfl⟩ := after_some h
        exact .release i op ops c hi hn

end Workers

namespace Dispatcher

variable {W : Type}

/-- What the goroutine of an input will have executed when it ends. -/
def threads : Dispatcher W → List (List Op)
  | .adding _ ops => [ops++Gpool.done]
  | _ => []

/-- The loop has sent a token that its next goroutine will take back. -/
def held : Dispatcher W → Nat
  | .adding _ ops => if ops=Gpool.add 1 then 0 else 1
  | _ => 0

/-- The input the loop has received and not yet passed to a goroutine. -/
def input : Dispatcher W → List W
  | .adding w _ => [w]
  | _ => []

end Dispatcher

namespace Workers

variable {W : Type}

/-- What is left to execute of the statements of the pool, per input. -/
def threads (s : Workers W) : Multiset (List Op) :=
  s.dispatcher.threads+Multiset.replicate s.busy.length Gpool.done+s.releasing

/-- Every input is somewhere in the statements pool.Add(1) and pool.Done(), and they balance. -/
structure Sound (s : Workers W) : Prop where
  balanced : Balanced s.pool s.threads
  adding : ∀ w ops,s.dispatcher=.adding w ops → ops<:+Gpool.add 1
  releasing : ∀ ops∈s.releasing,ops<:+Gpool.done
  leaving : ∀ ops,s.dispatcher=.leaving ops → ops<:+s.exit
  exit : s.exit<:+Gpool.wait

theorem threads_adding {s : Workers W} {w : W} {ops : List Op} (hd : s.dispatcher=.adding w ops) :
    s.threads=(ops++Gpool.done)::ₘ
      (Multiset.replicate s.busy.length Gpool.done+s.releasing) := by
  rw [threads,hd,add_assoc,Dispatcher.threads,Multiset.coe_singleton,Multiset.singleton_add]

theorem threads_releasing {s : Workers W} {i : Nat} {ops : List Op}
    (hi : s.releasing[i]?=some ops) :
    s.threads=ops::ₘ{s with releasing := s.releasing.eraseIdx i}.threads := by
  rw [threads,threads,coe_eq_cons_eraseIdx hi,Multiset.add_cons]

theorem threads_busy {s : Workers W} {i : Nat} {v : W} (hi : s.busy[i]?=some v) :
    s.threads=Gpool.done::ₘ{s with busy := s.busy.eraseIdx i}.threads := by
  obtain ⟨inside,-⟩ := List.getElem?_eq_some_iff.mp hi
  have one : s.busy.length=(s.busy.eraseIdx i).length+1 := by
    rw [List.length_eraseIdx_of_lt inside]
    omega
  rw [threads,threads,one,Multiset.replicate_succ,Multiset.add_cons,Multiset.cons_add]

theorem threads_append (s : Workers W) (ops : List Op) :
    {s with releasing := s.releasing++[ops]}.threads=ops::ₘs.threads := by
  rw [threads,threads,←Multiset.coe_add,←add_assoc,Multiset.coe_singleton,add_comm,
    Multiset.singleton_add]

theorem threads_set {s : Workers W} {i : Nat} {x : List Op} (hi : s.releasing[i]?=some x)
    (ops : List Op) : {s with releasing := s.releasing.set i ops}.threads=
      ops::ₘ{s with releasing := s.releasing.eraseIdx i}.threads := by
  rw [threads,threads,coe_set hi,Multiset.add_cons]

/-- The loop waits at most; this changes no counter. -/
theorem exec_leaving {s : Workers W} (h : s.Sound) {op : Op} {ops : List Op} {c : Counters}
    (hd : s.dispatcher=.leaving (op::ops)) (hn : op.exec s.pool=.next c) :
    c=s.pool ∧ op=.wait ∧ s.pool.wg=0 := by
  obtain ⟨before,whole⟩ := (h.leaving _ hd).trans h.exit
  have wait : op=.wait := by
    have inside : op∈Gpool.wait := whole ▸ List.mem_append_right before List.mem_cons_self
    exact List.mem_singleton.mp inside
  subst wait
  simp only [Op.exec] at hn
  split_ifs at hn with zero
  exact ⟨(Outcome.next.inj hn).symm,rfl,zero⟩

theorem sound_new (size : Int) {exit : List Op} (h : exit<:+Gpool.wait) :
    (new size exit : Workers W).Sound :=
  ⟨Balanced.init _,nofun,nofun,nofun,h⟩

theorem balanced_step {s t : Workers W} {e : PoolEvent W} (h : s.Sound) (hs : s.Steps e t) :
    Balanced t.pool t.threads := by
  have before := h.balanced
  cases hs with
  | receive w hd =>
    have none : owed Op.tokens (Gpool.add 1++Gpool.done)=0 := rfl
    have more := before.spawn none rfl
    rw [threads_adding (s := {s with dispatcher := .adding w (Gpool.add 1)}) rfl]
    simpa [threads,hd,Dispatcher.threads] using more
  | spawn w hd =>
    rw [threads_adding hd] at before
    simpa [threads,Dispatcher.threads,Multiset.replicate_succ] using before
  | add w op ops c hd hn =>
    rw [threads_adding hd] at before
    rw [threads_adding (s := {s with pool := c,dispatcher := .adding w ops}) rfl]
    exact before.exec hn
  | returns hd | cancel hd => simpa [threads,hd,Dispatcher.threads] using before
  | leave op ops c hd hn =>
    rw [(exec_leaving h hd hn).1]
    simpa [threads,hd,Dispatcher.threads] using before
  | work i v w hi => simpa [threads] using before
  | finish i v hi =>
    rw [threads_busy hi] at before
    rw [threads_append {s with busy := s.busy.eraseIdx i}]
    exact before
  | gone i hi =>
    rw [threads_releasing hi] at before
    exact before.leave
  | release i op ops c hi hn =>
    rw [threads_releasing hi] at before
    rw [threads_set (s := {s with pool := c}) hi]
    exact before.exec hn

theorem Sound.step {s t : Workers W} {e : PoolEvent W} (h : s.Sound) (hs : s.Steps e t) :
    t.Sound := by
  have balanced := balanced_step h hs
  cases hs with
  | receive w hd =>
    refine ⟨balanced,?_,h.releasing,nofun,h.exit⟩
    rintro _ _ ⟨⟩
    exact List.suffix_rfl
  | spawn w hd => exact ⟨balanced,nofun,h.releasing,nofun,h.exit⟩
  | add w op ops c hd hn =>
    refine ⟨balanced,?_,h.releasing,nofun,h.exit⟩
    rintro _ _ ⟨⟩
    exact (List.suffix_cons op ops).trans (h.adding w _ hd)
  | returns hd => exact ⟨balanced,nofun,h.releasing,nofun,h.exit⟩
  | leave op ops c hd hn =>
    refine ⟨balanced,nofun,h.releasing,?_,h.exit⟩
    rintro _ ⟨⟩
    exact (List.suffix_cons op ops).trans (h.leaving _ hd)
  | cancel hd =>
    refine ⟨balanced,nofun,h.releasing,?_,h.exit⟩
    rintro _ ⟨⟩
    exact List.suffix_rfl
  | work i v w hi => exact ⟨balanced,h.adding,h.releasing,h.leaving,h.exit⟩
  | finish i v hi =>
    refine ⟨balanced,h.adding,?_,h.leaving,h.exit⟩
    intro ops hops
    cases List.mem_append.mp hops with
    | inl old => exact h.releasing ops old
    | inr new =>
      rw [List.mem_singleton.mp new]
  | gone i hi =>
    exact ⟨balanced,h.adding,fun ops hops => h.releasing ops (List.mem_of_mem_eraseIdx hops),
      h.leaving,h.exit⟩
  | release i op ops c hi hn =>
    refine ⟨balanced,h.adding,?_,h.leaving,h.exit⟩
    intro x hx
    cases List.mem_or_eq_of_mem_set hx with
    | inl old => exact h.releasing x old
    | inr new =>
      rw [new]
      exact (List.suffix_cons op ops).trans (h.releasing _ (List.mem_of_getElem? hi))

theorem sound_run {size : Int} {exit : List Op} (he : exit<:+Gpool.wait) {es : List (PoolEvent W)}
    {s : Workers W} (hr : run step (new size exit) es=some s) : s.Sound :=
  run_invariant step (fun _ _ => True) Sound (fun _ _ _ h _ hs => h.step (step_steps hs)) es _ s
    (sound_new size he) (along_of_forall step _ _ es (fun _ _ => trivial)) hr

/-- What a suffix of pool.Add(1) and pool.Done() owes. -/
theorem suffix_owes {ops : List Op} (h : ops<:+Gpool.add 1++Gpool.done) :
    owed Op.tokens ops≤0 ∧ owed Op.count ops≤0 := by
  have cases : ∀ x∈(Gpool.add 1++Gpool.done).tails,owed Op.tokens x≤0 ∧ owed Op.count x≤0 := by
    decide
  exact cases ops ((List.mem_tails ops _).mpr h)

theorem Sound.small {s : Workers W} (h : s.Sound) {ops : List Op} (hops : ops∈s.threads) :
    ops<:+Gpool.add 1++Gpool.done := by
  rw [threads] at hops
  simp only [Multiset.mem_add,Multiset.mem_coe,Multiset.mem_replicate] at hops
  rcases hops with (hd|⟨-,rfl⟩)|hr
  · cases hw : s.dispatcher with
    | adding w rest =>
      rw [hw] at hd
      rw [List.mem_singleton.mp hd]
      obtain ⟨before,whole⟩ := h.adding w rest hw
      exact ⟨before,by rw [←List.append_assoc,whole]⟩
    | select | leaving | returned =>
      rw [hw] at hd
      cases hd
  · exact List.suffix_append _ _
  · exact (h.releasing ops hr).trans (List.suffix_append _ _)

theorem Sound.threads_le {s : Workers W} (h : s.Sound) {g : Op → Int}
    (small : ∀ ops,ops<:+Gpool.add 1++Gpool.done → owed g ops≤0) {rest : Multiset (List Op)}
    (inside : rest ≤ s.threads) : ∀ ops∈rest,owed g ops≤0 :=
  fun ops hops => small ops (h.small (Multiset.mem_of_le inside hops))

theorem capacity_step {s t : Workers W} {e : PoolEvent W} (hs : s.Steps e t) :
    t.pool.capacity=s.pool.capacity := by
  cases hs with
  | add w op ops c hd hn => exact (Op.exec_next hn).2.2.1
  | leave op ops c hd hn => exact (Op.exec_next hn).2.2.1
  | release i op ops c hi hn => exact (Op.exec_next hn).2.2.1
  | _ => rfl

theorem capacity_run {size : Int} {exit : List Op} {es : List (PoolEvent W)} {s : Workers W}
    (hr : run step (new size exit) es=some s) : s.pool.capacity=max 1 size.toNat := by
  have start : (new size exit : Workers W).pool.capacity=max 1 size.toNat := by
    show (if size≤0 then 1 else size.toNat)=max 1 size.toNat
    split_ifs <;> omega
  exact run_invariant step (fun _ _ => True) (fun s => s.pool.capacity=max 1 size.toNat)
    (fun _ _ _ h _ hs => (capacity_step (step_steps hs)).trans h) es _ s start
    (along_of_forall step _ _ es (fun _ _ => trivial)) hr

theorem sum_releasing {l : List (List Op)} (suffix : ∀ ops∈l,ops<:+Gpool.done) :
    ((l : Multiset (List Op)).map (owed Op.tokens)).sum=-(l.count Gpool.done : Int) := by
  induction l with
  | nil => rfl
  | cons ops l ih =>
    have tail := (List.mem_tails ops _).mpr (suffix ops List.mem_cons_self)
    have one : ∀ x∈Gpool.done.tails,owed Op.tokens x=-(if x=Gpool.done then 1 else 0) := by decide
    have rest := ih (fun x hx => suffix x (List.mem_cons_of_mem ops hx))
    rw [←Multiset.cons_coe,Multiset.map_cons,Multiset.sum_cons,one ops tail,rest,List.count_cons]
    by_cases same : ops=Gpool.done
    · simp only [same,beq_self_eq_true,if_true]
      omega
    · simp [same]

theorem sum_dispatcher {s : Workers W} (h : s.Sound) :
    ((s.dispatcher.threads : Multiset (List Op)).map (owed Op.tokens)).sum=
      -(s.dispatcher.held : Int) := by
  cases hd : s.dispatcher with
  | adding w ops =>
    have tail := (List.mem_tails ops _).mpr (h.adding w ops hd)
    have one : ∀ x∈(Gpool.add 1).tails,owed Op.tokens (x++Gpool.done)=
        -((if x=Gpool.add 1 then 0 else 1 : Nat) : Int) := by decide
    simpa [Dispatcher.threads,Dispatcher.held] using one ops tail
  | select | leaving | returned => rfl

/-- The tokens in the channel are those of the goroutines in their body, of those before the first
statement of pool.Done(), and of the loop between pool.Add(1) and go. -/
theorem Sound.tokens {s : Workers W} (h : s.Sound) :
    s.pool.queue=s.dispatcher.held+s.busy.length+s.releasing.count Gpool.done := by
  have balanced := h.balanced.tokens
  have body : owed Op.tokens Gpool.done=-1 := rfl
  rw [threads,Multiset.map_add,Multiset.map_add,Multiset.sum_add,Multiset.sum_add,
    sum_dispatcher h,sum_releasing h.releasing,Multiset.map_replicate,Multiset.sum_replicate,body,
    nsmul_eq_mul] at balanced
  omega

/-- pool.Done() never blocks and never panics. -/
theorem Sound.releases {s : Workers W} (h : s.Sound) {i : Nat} {op : Op} {ops : List Op}
    (hi : s.releasing[i]?=some (op::ops)) : ∃ c,op.exec s.pool=.next c := by
  have balanced := h.balanced
  rw [threads_releasing hi] at balanced
  have fewer : {s with releasing := s.releasing.eraseIdx i}.threads ≤ s.threads := by
    rw [threads_releasing hi]
    exact Multiset.le_cons_self _ _
  have others {g : Op → Int} (small : ∀ ops,ops<:+Gpool.add 1++Gpool.done → owed g ops≤0) :=
    h.threads_le small fewer
  have place : op::ops∈[[Op.receive,.add (-1)],[.add (-1)]] := by
    have tail := (List.mem_tails _ _).mpr (h.releasing _ (List.mem_of_getElem? hi))
    simpa [Gpool.done] using tail
  rcases List.mem_pair.mp place with same|same
  · cases same
    exact ⟨_,balanced.receives (others (fun _ hx => (suffix_owes hx).1)) rfl⟩
  · cases same
    exact ⟨_,balanced.counts (others (fun _ hx => (suffix_owes hx).2)) (Int.le_refl 0)⟩

/-- No statement of the pool panics: the counter of the WaitGroup is never below zero. -/
theorem Sound.no_panic {s : Workers W} (h : s.Sound) {op : Op} (next : s.Next op) :
    op.exec s.pool≠.panics := by
  rcases next with ⟨w,ops,hd⟩|⟨ops,hd⟩|⟨i,ops,hi⟩
  · have place : op=.send ∨ op=.add 1 := by
      have inside : op∈Gpool.add 1 := (h.adding w _ hd).subset List.mem_cons_self
      exact List.mem_pair.mp inside
    have count := h.balanced.count
    have small := sum_owed_le Op.count (h.threads_le (fun _ hx => (suffix_owes hx).2)
      (le_refl s.threads))
    intro panics
    rcases place with rfl|rfl
    · rw [Op.exec] at panics
      split_ifs at panics
    · rw [Op.exec,if_neg (by omega)] at panics
      cases panics
  · have inside : op∈Gpool.wait := ((h.leaving _ hd).trans h.exit).subset List.mem_cons_self
    obtain rfl := List.mem_singleton.mp inside
    intro panics
    rw [Op.exec] at panics
    split_ifs at panics
  · obtain ⟨c,hn⟩ := h.releases hi
    intro panics
    rw [hn] at panics
    cases panics

/-- pool.Wait() lets the loop go on exactly if every goroutine is done. -/
theorem Sound.waits {s : Workers W} (h : s.Sound) {ops : List Op} (hd : s.dispatcher=.leaving ops) :
    Op.wait.exec s.pool≠.blocked ↔ s.busy=[] ∧ ∀ x∈s.releasing,x=[] := by
  have zero := h.balanced.wg_zero_iff
    (h.threads_le (fun _ hx => (suffix_owes hx).2) (le_refl s.threads))
  have passes : Op.wait.exec s.pool≠.blocked ↔ s.pool.wg=0 := by
    rw [Op.exec]
    split_ifs with none <;> simp [none]
  have owing : ∀ x∈Gpool.done.tails,owed Op.count x=0 ↔ x=[] := by decide
  rw [passes,zero]
  constructor
  · intro owes
    refine ⟨?_,?_⟩
    · by_contra some
      obtain ⟨v,rest,hb⟩ := List.exists_cons_of_ne_nil some
      have body := owes Gpool.done (by simp [threads,hb])
      exact absurd body (by decide)
    · intro x hx
      have tail := (List.mem_tails _ _).mpr (h.releasing x hx)
      exact (owing x tail).mp (owes x (by simp [threads,hx]))
  · rintro ⟨idle,released⟩ x hx
    have inside : x∈s.releasing := by simpa [threads,hd,Dispatcher.threads,idle] using hx
    rw [released x inside]
    rfl

/-- The loop is held up in pool.Add(1) only while every token is taken. -/
theorem Sound.held_up {s : Workers W} (h : s.Sound) {w : W} {op : Op} {ops : List Op}
    (hd : s.dispatcher=.adding w (op::ops)) (blocked : op.exec s.pool=.blocked) :
    s.busy.length+s.releasing.count Gpool.done=s.pool.capacity := by
  have tokens := h.tokens
  have room := h.balanced.room
  have tail := (List.mem_tails _ _).mpr (h.adding w _ hd)
  have place : op::ops=Gpool.add 1 ∨ op::ops=[.add 1] := by simpa [Gpool.add] using tail
  rcases place with first|second
  · rw [hd,Dispatcher.held,if_pos first] at tokens
    cases first
    rw [Op.exec] at blocked
    split_ifs at blocked with full
    omega
  · cases second
    rw [Op.exec] at blocked
    split_ifs at blocked

end Workers

/-- However the loop and its goroutines interleave: at most max(size,1) goroutines are in their
body, no statement of the pool panics, pool.Done() never blocks, the loop is held up in pool.Add(1)
only while that many goroutines have not begun their pool.Done(), and pool.Wait() lets it go
exactly when all goroutines are done. -/
theorem pool_bounds_workers {W : Type} (size : Int) (exit : List Op) (he : exit<:+Gpool.wait)
    (es : List (PoolEvent W)) (s : Workers W) (hr : run Workers.step (.new size exit) es=some s) :
    s.busy.length ≤ max 1 size.toNat ∧
    (∀ op,s.Next op → op.exec s.pool≠.panics) ∧
    (∀ (i : Nat) op ops,s.releasing[i]?=some (op::ops) → ∃ c,op.exec s.pool=.next c) ∧
    (∀ w op ops,s.dispatcher=.adding w (op::ops) → op.exec s.pool=.blocked →
      s.busy.length+s.releasing.count Gpool.done=max 1 size.toNat) ∧
    ∀ ops,s.dispatcher=.leaving ops →
      (Op.wait.exec s.pool≠.blocked ↔ s.busy=[] ∧ ∀ x∈s.releasing,x=[]) := by
  have sound := Workers.sound_run he hr
  have capacity := Workers.capacity_run hr
  have tokens := sound.tokens
  have room := sound.balanced.room
  refine ⟨by omega,fun op => sound.no_panic,fun i op ops => sound.releases,?_,
    fun ops => sound.waits⟩
  intro w op ops hd blocked
  rw [←capacity]
  exact sound.held_up hd blocked

/-- A pool of one: the loop has received a second input and waits for a token while the first
goroutine is in its body; later the loop is in pool.Wait() and nothing is left to wait for. -/
theorem pool_bounds_workers_one :
    (∃ s,run Workers.step (.new 0 Gpool.wait)
        [.receive 7,.dispatch,.dispatch,.dispatch,.receive 8]=some s ∧
      s.busy=[7] ∧ Op.send.exec s.pool=.blocked ∧
      s.busy.length+s.releasing.count Gpool.done=max 1 (0 : Int).toNat) ∧
    ∃ s,run Workers.step (.new 0 Gpool.wait) [.receive 7,.dispatch,.dispatch,.dispatch,.cancel,
        .finish 0,.release 0,.release 0]=some s ∧ Op.wait.exec s.pool≠.blocked := by
  have suffix : Gpool.wait<:+Gpool.wait := List.suffix_rfl
  constructor
  · have done : run Workers.step (.new 0 Gpool.wait)
        [.receive 7,.dispatch,.dispatch,.dispatch,.receive 8]=some
          {exit := Gpool.wait,pool := ⟨1,1,1⟩,dispatcher := .adding 8 (Gpool.add 1),busy := [7]} := by
      decide
    have bounds := pool_bounds_workers 0 Gpool.wait suffix _ _ done
    exact ⟨_,done,rfl,rfl,bounds.2.2.2.1 8 .send [.add 1] rfl rfl⟩
  · have done : run Workers.step (.new 0 Gpool.wait) [.receive 7,.dispatch,.dispatch,.dispatch,
        .cancel,.finish 0,.release 0,.release 0]=some
          {exit := Gpool.wait,pool := ⟨1,0,0⟩,dispatcher := .leaving Gpool.wait,
            releasing := [[]]} := by
      decide
    have bounds := pool_bounds_workers 0 Gpool.wait suffix _ _ done
    exact ⟨_,done,(bounds.2.2.2.2 Gpool.wait rfl).mpr ⟨rfl,by decide⟩⟩

end StCache
