import StCache.Framework.Runs

namespace StCache

structure LamportClock where
  counter : UInt64 := 0
  deriving DecidableEq

namespace LamportClock

/-- `atomic.LoadUint64(&l.counter)` -/
def time (l : LamportClock) : UInt64 := l.counter

/-- `atomic.AddUint64(&l.counter,1)` with its result. -/
def increment (l : LamportClock) : LamportClock × UInt64 := (⟨l.counter+1⟩,l.counter+1)

/-- `atomic.CompareAndSwapUint64(&l.counter,old,new)` with its result. -/
def compareAndSwap (l : LamportClock) (old new : UInt64) : LamportClock × Bool :=
  if l.counter=old then (⟨new⟩,true) else (l,false)

end LamportClock

/-- Where a thread is: outside Witness, at its label, or before its compare and swap with the
value it has loaded. -/
inductive WitnessPhase where
  | idle
  | loading (v : UInt64)
  | swapping (v cur : UInt64)

/-- A call that has returned, with its result or, for Witness, its argument. -/
inductive LamportCall where
  | time (result : UInt64)
  | increment (result : UInt64)
  | witness (v : UInt64)
  deriving DecidableEq

def LamportCall.incremented? : LamportCall → Option UInt64
  | .increment result => some result
  | _ => none

def LamportCall.witnessed? : LamportCall → Option UInt64
  | .witness v => some v
  | _ => none

/-- One clock and the threads that use it, with the calls that have returned, the oldest first. -/
structure LamportRun where
  clock : LamportClock := {}
  threads : Nat → WitnessPhase := fun _ => .idle
  returned : List LamportCall := []

/-- Every atomic operation of a thread is a step. -/
inductive LamportEvent where
  | time (i : Nat)
  | increment (i : Nat)
  | callWitness (i : Nat) (v : UInt64)
  | load (i : Nat)
  | swap (i : Nat)

namespace LamportRun

def move (s : LamportRun) (i : Nat) (phase : WitnessPhase) : LamportRun :=
  {s with threads := Function.update s.threads i phase}

theorem threads_move (s : LamportRun) (i j : Nat) (phase : WitnessPhase) :
    (s.move i phase).threads j=if j=i then phase else s.threads j :=
  Function.update_apply s.threads i phase j

def step (s : LamportRun) : LamportEvent → Option LamportRun
  | .time i =>
    match s.threads i with
    | .idle => some {s with returned := s.returned++[.time s.clock.time]}
    | _ => none
  | .increment i =>
    match s.threads i with
    | .idle =>
      let (clock,result) := s.clock.increment
      some {s with clock := clock,returned := s.returned++[.increment result]}
    | _ => none
  | .callWitness i v =>
    match s.threads i with
    | .idle => some (s.move i (.loading v))
    | _ => none
  | .load i =>
    match s.threads i with
    | .loading v =>
      let cur := s.clock.time
      if v < cur then some {s.move i .idle with returned := s.returned++[.witness v]}
      else some (s.move i (.swapping v cur))
    | _ => none
  | .swap i =>
    match s.threads i with
    | .swapping v cur =>
      match s.clock.compareAndSwap cur (v+1) with
      | (clock,true) =>
        some {s.move i .idle with clock := clock,returned := s.returned++[.witness v]}
      | (clock,false) => some {s.move i (.loading v) with clock := clock}
    | _ => none

/-- What one step can do, with what it finds. -/
inductive Steps (s : LamportRun) : LamportEvent → LamportRun → Prop
  | time (i : Nat) : Steps s (.time i) {s with returned := s.returned++[.time s.clock.counter]}
  | increment {i : Nat} (idle : s.threads i=.idle) :
    Steps s (.increment i) {s with
      clock := ⟨s.clock.counter+1⟩
      returned := s.returned++[.increment (s.clock.counter+1)]}
  | callWitness (i : Nat) (v : UInt64) : Steps s (.callWitness i v) (s.move i (.loading v))
  | passed {i : Nat} {v : UInt64} (old : v < s.clock.counter) :
    Steps s (.load i) {s.move i .idle with returned := s.returned++[.witness v]}
  | loaded {i : Nat} {v : UInt64} (new : ¬v < s.clock.counter) :
    Steps s (.load i) (s.move i (.swapping v s.clock.counter))
  | swapped {i : Nat} {v : UInt64} (swapping : s.threads i=.swapping v s.clock.counter) :
    Steps s (.swap i) {s.move i .idle with
      clock := ⟨v+1⟩
      returned := s.returned++[.witness v]}
  | retried (i : Nat) (v : UInt64) : Steps s (.swap i) (s.move i (.loading v))

theorem step_steps {s t : LamportRun} {e : LamportEvent} (h : s.step e=some t) : s.Steps e t := by
  cases e with
  | time i =>
    simp only [step] at h
    split at h <;> cases h
    exact .time i
  | increment i =>
    simp only [step] at h
    split at h
    · next idle =>
      cases h
      exact .increment idle
    · cases h
  | callWitness i v =>
    simp only [step] at h
    split at h <;> cases h
    exact .callWitness i v
  | load i =>
    simp only [step] at h
    split at h
    · split_ifs at h with old <;> cases h
      · exact .passed old
      · exact .loaded old
    · cases h
  | swap i =>
    simp only [step] at h
    split at h
    · next v cur swapping =>
      by_cases same : s.clock.counter=cur
      · simp only [LamportClock.compareAndSwap,if_pos same] at h
        cases h
        exact .swapped (same ▸ swapping)
      · simp only [LamportClock.compareAndSwap,if_neg same] at h
        cases h
        exact .retried i v
    · cases h

/-- The results of Increment are distinct, the counter is beyond what has been witnessed, and
so is every result of a later Increment. -/
structure Ordered (s : LamportRun) : Prop where
  distinct : (s.returned.filterMap LamportCall.incremented?).Nodup
  witnessed : ∀ c∈s.returned,∀ v∈c.witnessed?,v < s.clock.counter
  later : s.returned.Pairwise (fun a b => ∀ v∈a.witnessed?,∀ x∈b.incremented?,v < x)

/-- The step does not turn the counter back and leaves the calls in order. -/
def Monotone (s : LamportRun) (e : LamportEvent) : Prop :=
  ∀ t,s.step e=some t → s.clock.counter ≤ t.clock.counter ∧ t.Ordered

/-- `math.MaxUint64` -/
def maxUint64 : UInt64 := 18446744073709551615

/-- The addition of the step, if it makes one, stays below 2^64. -/
def NoWrap (s : LamportRun) : LamportEvent → Prop
  | .increment i => s.threads i=.idle → s.clock.counter≠maxUint64
  | .swap i => ∀ v,s.threads i=.swapping v s.clock.counter → v≠maxUint64
  | _ => True

theorem lt_succ_iff (x : UInt64) : x < x+1 ↔ x≠maxUint64 := by
  have bound := x.toNat_lt
  have top : maxUint64.toNat=2^64-1 := by decide
  rw [UInt64.lt_iff_toNat_lt,UInt64.toNat_add,UInt64.toNat_one,Ne,←UInt64.toNat_inj,top]
  omega

/-- What a run without wrap-around keeps. A thread that is about to swap has found the counter
no further than the value it witnesses. -/
structure Sound (s : LamportRun) : Prop extends s.Ordered where
  reached : ∀ c∈s.returned,∀ x∈c.incremented?,x ≤ s.clock.counter
  swapping : ∀ i v cur,s.threads i=.swapping v cur → cur ≤ v

theorem sound_start (clock : LamportClock) : Sound {clock := clock} := by
  refine ⟨⟨?_,?_,?_⟩,?_,?_⟩
  · exact List.nodup_nil
  · intro c hc
    cases hc
  · exact List.Pairwise.nil
  · intro c hc
    cases hc
  · intro i v cur phase
    cases phase

/-- A thread goes on without a call that returns. -/
theorem Sound.move {s : LamportRun} (h : s.Sound) (i : Nat) {phase : WitnessPhase}
    (behind : ∀ v cur,phase=.swapping v cur → cur ≤ v) : (s.move i phase).Sound := by
  refine ⟨⟨h.distinct,h.witnessed,h.later⟩,h.reached,?_⟩
  intro j v cur hj
  rw [threads_move] at hj
  split_ifs at hj
  · exact behind v cur hj
  · exact h.swapping j v cur hj

/-- A call returns and leaves the counter where it was or further. -/
theorem Sound.returns {s : LamportRun} (h : s.Sound) {clock : LamportClock} (c : LamportCall)
    (grown : s.clock.counter ≤ clock.counter)
    (incremented : ∀ x∈c.incremented?,s.clock.counter < x ∧ x ≤ clock.counter)
    (witnessed : ∀ v∈c.witnessed?,v < clock.counter) :
    Sound {s with clock := clock,returned := s.returned++[c]} := by
  refine ⟨⟨?_,?_,?_⟩,?_,h.swapping⟩
  · -- the new result is beyond all earlier ones
    rw [List.filterMap_append,List.nodup_append]
    refine ⟨h.distinct,?_,?_⟩
    · cases c with
      | time result => exact List.nodup_nil
      | increment result => exact List.pairwise_singleton _ _
      | witness v => exact List.nodup_nil
    · intro x hx y hy same
      obtain ⟨a,ha,hax⟩ := List.mem_filterMap.mp hx
      obtain ⟨b,hb,hby⟩ := List.mem_filterMap.mp hy
      rw [List.mem_singleton.mp hb] at hby
      have old := h.reached a ha x hax
      have new := (incremented y hby).1
      rw [←same] at new
      exact absurd (UInt64.lt_of_le_of_lt old new) (UInt64.lt_irrefl x)
  · intro a ha v hv
    cases List.mem_append.mp ha with
    | inl old => exact UInt64.lt_of_lt_of_le (h.witnessed a old v hv) grown
    | inr new =>
      rw [List.mem_singleton.mp new] at hv
      exact witnessed v hv
  · rw [List.pairwise_append]
    refine ⟨h.later,List.pairwise_singleton _ _,?_⟩
    intro a ha b hb v hv x hx
    rw [List.mem_singleton.mp hb] at hx
    exact UInt64.lt_trans (h.witnessed a ha v hv) (incremented x hx).1
  · intro a ha x hx
    cases List.mem_append.mp ha with
    | inl old => exact UInt64.le_trans (h.reached a old x hx) grown
    | inr new =>
      rw [List.mem_singleton.mp new] at hx
      exact (incremented x hx).2

/-- Without wrap-around every step leaves the counter where it was or further. -/
theorem Sound.step {s t : LamportRun} (h : s.Sound) {e : LamportEvent} (ok : s.NoWrap e)
    (hs : s.step e=some t) : s.clock.counter ≤ t.clock.counter ∧ t.Sound := by
  have stay : s.clock.counter ≤ s.clock.counter := UInt64.le_refl _
  have finished (i : Nat) : (s.move i .idle).Sound := h.move i (by intro v cur phase; cases phase)
  have started (i : Nat) (v : UInt64) : (s.move i (.loading v)).Sound :=
    h.move i (by intro w cur phase; cases phase)
  cases step_steps hs with
  | time i => exact ⟨stay,h.returns _ stay nofun nofun⟩
  | increment idle =>
    have grown := (lt_succ_iff s.clock.counter).mpr (ok idle)
    refine ⟨UInt64.le_of_lt grown,h.returns _ (UInt64.le_of_lt grown) ?_ nofun⟩
    intro x hx
    cases hx
    exact ⟨grown,UInt64.le_refl _⟩
  | callWitness i v => exact ⟨stay,started i v⟩
  | @passed i v old =>
    refine ⟨stay,(finished i).returns _ stay nofun ?_⟩
    intro x hx
    cases hx
    exact old
  | @loaded i v new =>
    refine ⟨stay,h.move i ?_⟩
    intro w cur phase
    cases phase
    exact UInt64.not_lt.mp new
  | @swapped i v swapping =>
    have behind := h.swapping i v _ swapping
    have beyond := (lt_succ_iff v).mpr (ok v swapping)
    have grown := UInt64.le_of_lt (UInt64.lt_of_le_of_lt behind beyond)
    refine ⟨grown,(finished i).returns _ grown nofun ?_⟩
    intro x hx
    cases hx
    exact beyond
  | retried i v => exact ⟨stay,started i v⟩

/-- A step that wraps around either turns the counter back or returns from a Witness of a value
that the counter has not passed. -/
theorem Monotone.noWrap {s : LamportRun} {e : LamportEvent} (h : s.Monotone e) : s.NoWrap e := by
  cases e with
  | time i => trivial
  | callWitness i v => trivial
  | load i => trivial
  | increment i =>
    intro idle full
    have wrapped : s.step (.increment i)=some {s with
        clock := ⟨s.clock.counter+1⟩
        returned := s.returned++[.increment (s.clock.counter+1)]} := by
      simp only [LamportRun.step,idle,LamportClock.increment]
    have back : s.clock.counter ≤ s.clock.counter+1 := (h _ wrapped).1
    rw [full] at back
    exact absurd back (by decide)
  | swap i =>
    intro v swapping
    have swapped : s.step (.swap i)=some {s.move i .idle with
        clock := ⟨v+1⟩
        returned := s.returned++[.witness v]} := by
      simp only [LamportRun.step,swapping,LamportClock.compareAndSwap,if_true]
    rw [←lt_succ_iff]
    exact (h _ swapped).2.witnessed (.witness v) (by simp) v rfl

/-- The clock is monotone in a run exactly when no addition of the run wraps around. -/
theorem monotone_iff (clock : LamportClock) (es : List LamportEvent) :
    Along step Monotone {clock := clock} es ↔ Along step NoWrap {clock := clock} es := by
  refine along_congr_kept step Sound Monotone NoWrap ?_ (fun s e t h ok hs => (h.step ok hs).2) es _
    (sound_start clock)
  intro s e h
  refine ⟨Monotone.noWrap,?_⟩
  intro ok t hs
  obtain ⟨grown,sound⟩ := h.step ok hs
  exact ⟨grown,sound.toOrdered⟩

/-- A peer's value of 2^64-1 sets the clock back to 0, and the next Increment returns a value
that was returned before. -/
theorem witness_resets :
    (run step {} [.increment 0,.callWitness 1 maxUint64,.load 1]).map
        (fun s => s.clock.counter)=some 1 ∧
      (run step {} [.increment 0,.callWitness 1 maxUint64,.load 1,.swap 1]).map
        (fun s => s.clock.counter)=some 0 ∧
      (run step {} [.increment 0,.callWitness 1 maxUint64,.load 1,.swap 1,.increment 0]).map
        LamportRun.returned=some [.increment 1,.witness maxUint64,.increment 1] := by
  decide +kernel

end LamportRun

end StCache
