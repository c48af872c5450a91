import Mathlib.Data.List.GetD
import Mathlib.Data.List.Induction

namespace StCache

section Runs
variable {S E : Type}

/-- A run feeds a list of events to a partial step function. An event that is
not possible in the current state, or that kills the process, ends the run. -/
def run (step : S → E → Option S) : S → List E → Option S
  | s,[] => some s
  | s,e::es => (step s e).bind (fun t => run step t es)

@[simp] theorem run_nil (step : S → E → Option S) (s : S) : run step s []=some s := rfl

theorem run_cons (step : S → E → Option S) (s : S) (e : E) (es : List E) :
    run step s (e::es)=(step s e).bind (fun t => run step t es) := rfl

theorem run_append (step : S → E → Option S) (s : S) (es fs : List E) :
    run step s (es++fs)=(run step s es).bind (fun t => run step t fs) := by
  induction es generalizing s with
  | nil => rfl
  | cons e es ih =>
    rw [List.cons_append,run_cons,run_cons]
    cases h : step s e with
    | none => rfl
    | some t => exact ih t

theorem run_snoc (step : S → E → Option S) (s t : S) (es : List E) (e : E) :
    run step s (es++[e])=some t ↔ ∃ u,run step s es=some u ∧ step u e=some t := by
  rw [run_append,Option.bind_eq_some_iff]
  simp [run_cons]

/-- The condition every step of a run has to meet, on the state it starts from. -/
def Along (step : S → E → Option S) (Ok : S → E → Prop) : S → List E → Prop
  | _,[] => True
  | s,e::es => Ok s e ∧ ∀ t,step s e=some t → Along step Ok t es

instance decidableAlong (step : S → E → Option S) (Ok : S → E → Prop)
    [∀ s e,Decidable (Ok s e)] : ∀ s es,Decidable (Along step Ok s es)
  | _,[] => isTrue trivial
  | s,e::es =>
    match h : step s e with
    | none => decidable_of_iff (Ok s e)
        ⟨fun ok => ⟨ok,fun t ht => absurd (h.symm.trans ht) (by simp)⟩,And.left⟩
    | some t =>
      have : Decidable (Along step Ok t es) := decidableAlong step Ok t es
      decidable_of_iff (Ok s e ∧ Along step Ok t es)
        ⟨fun ok => ⟨ok.1,fun u hu => Option.some.inj (h.symm.trans hu) ▸ ok.2⟩,
          fun ok => ⟨ok.1,ok.2 t h⟩⟩

/-- Every run of allowed events comes to a state with P, and until it does some allowed event
is possible. -/
inductive Inevitable (step : S → E → Option S) (Ok : S → E → Prop) (P : S → Prop) : S → Prop where
  | here {s : S} (h : P s) : Inevitable step Ok P s
  | next {s : S} (possible : ∃ e t,Ok s e ∧ step s e=some t)
      (all : ∀ e t,Ok s e → step s e=some t → Inevitable step Ok P t) : Inevitable step Ok P s

theorem Inevitable.mono {step : S → E → Option S} {Ok : S → E → Prop} {P Q : S → Prop} {s : S}
    (h : Inevitable step Ok P s) (weaker : ∀ s,P s → Q s) : Inevitable step Ok Q s := by
  induction h with
  | here h => exact .here (weaker _ h)
  | next possible _ ih => exact .next possible ih

theorem along_mono (step : S → E → Option S) (Ok Ok' : S → E → Prop)
    (weaker : ∀ s e,Ok s e → Ok' s e) (s : S) (es : List E)
    (h : Along step Ok s es) : Along step Ok' s es := by
  induction es generalizing s with
  | nil => trivial
  | cons e es ih => exact ⟨weaker s e h.1,fun t ht => ih t (h.2 t ht)⟩

theorem along_and (step : S → E → Option S) (P Q : S → E → Prop) (s : S) (es : List E)
    (hp : Along step P s es) (hq : Along step Q s es) :
    Along step (fun s e => P s e ∧ Q s e) s es := by
  induction es generalizing s with
  | nil => trivial
  | cons e es ih => exact ⟨⟨hp.1,hq.1⟩,fun t ht => ih t (hp.2 t ht) (hq.2 t ht)⟩

theorem along_of_forall (step : S → E → Option S) (Ok : E → Prop) (s : S) (es : List E)
    (h : ∀ e∈es,Ok e) : Along step (fun _ e => Ok e) s es := by
  induction es generalizing s with
  | nil => trivial
  | cons e es ih => exact ⟨h e (by simp),fun t _ => ih t (fun x hx => h x (by simp [hx]))⟩

theorem along_append (step : S → E → Option S) (Ok : S → E → Prop) (s u : S)
    (es fs : List E) (hr : run step s es=some u) (h : Along step Ok s (es++fs)) :
    Along step Ok s es ∧ Along step Ok u fs := by
  induction es generalizing s with
  | nil =>
    have same : s=u := by simpa using hr
    exact ⟨trivial,same ▸ h⟩
  | cons e es ih =>
    rw [run_cons,Option.bind_eq_some_iff] at hr
    obtain ⟨t,ht,hr⟩ := hr
    have tail := ih t hr (h.2 t ht)
    refine ⟨⟨h.1,?_⟩,tail.2⟩
    intro t' ht'
    have same : t=t' := Option.some.inj (ht.symm.trans ht')
    exact same ▸ tail.1

theorem along_snoc (step : S → E → Option S) (Ok : S → E → Prop) (s : S) (es : List E) (e : E) :
    Along step Ok s (es++[e]) ↔
      Along step Ok s es ∧ ∀ u,run step s es=some u → Ok u e := by
  induction es generalizing s with
  | nil => simp [Along]
  | cons x es ih =>
    simp only [List.cons_append,Along,run_cons,Option.bind_eq_some_iff,ih]
    constructor
    · rintro ⟨ok,tail⟩
      refine ⟨⟨ok,fun t ht => (tail t ht).1⟩,?_⟩
      rintro u ⟨t,ht,hu⟩
      exact (tail t ht).2 u hu
    · rintro ⟨⟨ok,tail⟩,last⟩
      exact ⟨ok,fun t ht => ⟨tail t ht,fun u hu => last u ⟨t,ht,hu⟩⟩⟩

/-- A condition that an invariant implies is met along every run. -/
theorem along_of_invariant (step : S → E → Option S) (Inv : S → Prop) (Ev : E → Prop)
    (Ok : S → E → Prop) (holds : ∀ s e,Inv s → Ev e → Ok s e)
    (keep : ∀ s e t,Inv s → Ev e → step s e=some t → Inv t)
    (es : List E) (s : S) (start : Inv s) (events : ∀ e∈es,Ev e) : Along step Ok s es := by
  induction es generalizing s with
  | nil => trivial
  | cons e es ih =>
    have head := events e List.mem_cons_self
    exact ⟨holds s e start head,fun t ht => ih t (keep s e t start head ht)
      (fun x hx => events x (List.mem_cons_of_mem e hx))⟩

/-- Two conditions that agree wherever an invariant holds agree along every run, if the steps
that meet them keep the invariant. -/
theorem along_congr_kept (step : S → E → Option S) (Inv : S → Prop) (P Q : S → E → Prop)
    (same : ∀ s e,Inv s → (P s e ↔ Q s e))
    (keep : ∀ s e t,Inv s → Q s e → step s e=some t → Inv t)
    (es : List E) (s : S) (start : Inv s) : Along step P s es ↔ Along step Q s es := by
  induction es generalizing s with
  | nil => exact Iff.rfl
  | cons e es ih =>
    have here := same s e start
    constructor
    · intro h
      have ok := here.mp h.1
      exact ⟨ok,fun t ht => (ih t (keep s e t start ok ht)).mp (h.2 t ht)⟩
    · intro h
      exact ⟨here.mpr h.1,fun t ht => (ih t (keep s e t start h.1 ht)).mpr (h.2 t ht)⟩

/-- Two conditions that agree wherever an invariant holds agree along every run of events that
keep it. -/
theorem along_congr_events (step : S → E → Option S) (Inv : S → Prop) (Ev : E → Prop)
    (P Q : S → E → Prop) (same : ∀ s e,Inv s → Ev e → (P s e ↔ Q s e))
    (keep : ∀ s e t,Inv s → Ev e → step s e=some t → Inv t)
    (es : List E) (s : S) (start : Inv s) (events : ∀ e∈es,Ev e) :
    Along step P s es ↔ Along step Q s es := by
  induction es generalizing s with
  | nil => exact Iff.rfl
  | cons e es ih =>
    have head := events e List.mem_cons_self
    have tail (t : S) (ht : step s e=some t) : Along step P t es ↔ Along step Q t es :=
      ih t (keep s e t start head ht) (fun x hx => events x (List.mem_cons_of_mem e hx))
    refine and_congr (same s e start head) (forall_congr' fun t => ?_)
    exact ⟨fun h ht => (tail t ht).mp (h ht),fun h ht => (tail t ht).mpr (h ht)⟩

/-- Two conditions that agree wherever an invariant holds agree along every run. -/
theorem along_congr (step : S → E → Option S) (Inv : S → Prop) (P Q : S → E → Prop)
    (same : ∀ s e,Inv s → (P s e ↔ Q s e))
    (keep : ∀ s e t,Inv s → step s e=some t → Inv t)
    (es : List E) (s : S) (start : Inv s) : Along step P s es ↔ Along step Q s es :=
  along_congr_events step Inv (fun _ => True) P Q (fun s e h _ => same s e h)
    (fun s e t h _ => keep s e t h) es s start (fun _ _ => trivial)

/-- Invariant rule: what every admissible step keeps holds after every run. -/
theorem run_invariant (step : S → E → Option S) (Ok : S → E → Prop) (Inv : S → Prop)
    (keep : ∀ s e t,Inv s → Ok s e → step s e=some t → Inv t)
    (es : List E) (s t : S) (start : Inv s) (ok : Along step Ok s es)
    (hr : run step s es=some t) : Inv t := by
  induction es generalizing s with
  | nil =>
    have same : s=t := by simpa using hr
    exact same ▸ start
  | cons e es ih =>
    rw [run_cons,Option.bind_eq_some_iff] at hr
    obtain ⟨u,hu,hr⟩ := hr
    exact ih u (keep s e u start ok.1 hu) (ok.2 u hu) hr

/-- Invariant rule for facts that mention the events performed so far. -/
theorem run_history (step : S → E → Option S) (s : S) (P : List E → S → Prop)
    (start : P [] s)
    (keep : ∀ es e u t,run step s es=some u → P es u → step u e=some t → P (es++[e]) t)
    (es : List E) (t : S) (hr : run step s es=some t) : P es t := by
  induction es using List.reverseRecOn generalizing t with
  | nil =>
    have same : s=t := by simpa using hr
    exact same ▸ start
  | append_singleton es e ih =>
    obtain ⟨u,hu,ht⟩ := (run_snoc step s t es e).mp hr
    exact keep es e u t hu (ih u hu) ht

/-- Invariant rule for facts that mention the events performed so far, under a
condition on the steps. -/
theorem run_history_along (step : S → E → Option S) (Ok : S → E → Prop) (s : S)
    (P : List E → S → Prop) (start : P [] s)
    (keep : ∀ es e u t,run step s es=some u → P es u → Ok u e → step u e=some t → P (es++[e]) t)
    (es : List E) (t : S) (ok : Along step Ok s es) (hr : run step s es=some t) : P es t := by
  have all := run_history step s (fun es u => Along step Ok s es → P es u) (fun _ => start)
    (fun es e u t hu ih hs along => ?_) es t hr
  · exact all ok
  · have parts := along_append step Ok s u es [e] hu along
    exact keep es e u t hu (ih parts.1) parts.2.1 hs

/-- Simulation rule: if each step is matched by no step or by one step in the same environment, each
run is matched by a run whose environments are some of its own, in their order. -/
theorem run_simulates {T F X : Type} (step : S → E → Option S) (step' : T → F → Option T)
    (env : E → X) (env' : F → X) (R : S → T → Prop)
    (simulates : ∀ s t e u,R s t → step s e=some u →
      R u t ∨ ∃ f v,env' f=env e ∧ step' t f=some v ∧ R u v)
    (es : List E) (s u : S) (t : T) (start : R s t) (hr : run step s es=some u) :
    ∃ fs v,run step' t fs=some v ∧ R u v ∧ (fs.map env').Sublist (es.map env) := by
  induction es generalizing s t with
  | nil =>
    have same : s=u := by simpa using hr
    exact ⟨[],t,rfl,same ▸ start,List.Sublist.slnil⟩
  | cons e es ih =>
    rw [run_cons,Option.bind_eq_some_iff] at hr
    obtain ⟨w,hw,hr⟩ := hr
    rcases simulates s t e w start hw with silent|⟨f,v,same,hf,next⟩
    · obtain ⟨fs,x,hx,related,sub⟩ := ih w t silent hr
      exact ⟨fs,x,hx,related,sub.cons (env e)⟩
    · obtain ⟨fs,x,hx,related,sub⟩ := ih w v next hr
      refine ⟨f::fs,x,?_,related,?_⟩
      · rw [run_cons,hf]
        exact hx
      · rw [List.map_cons,List.map_cons,same]
        exact sub.cons_cons (env e)

/-- Every step that takes something from a measure shortens what is left of the run. -/
theorem run_measure (step : S → E → Option S) (Ev : E → Prop) (measure : S → Nat)
    (takes : ∀ s e t,Ev e → step s e=some t → measure t < measure s)
    (es : List E) (s t : S) (events : ∀ e∈es,Ev e) (hr : run step s es=some t) :
    es.length+measure t ≤ measure s := by
  induction es generalizing s with
  | nil =>
    have same : s=t := by simpa using hr
    rw [same,List.length_nil]
    omega
  | cons e es ih =>
    rw [run_cons,Option.bind_eq_some_iff] at hr
    obtain ⟨u,hu,hr⟩ := hr
    have rest := ih u (fun x hx => events x (List.mem_cons_of_mem e hx)) hr
    have first := takes s e u (events e List.mem_cons_self) hu
    rw [List.length_cons]
    omega

/-- A fact about the events so far and the state they lead to held on the way. -/
def Earlier (step : S → E → Option S) (s : S) (es : List E) (P : List E → S → Prop) : Prop :=
  ∃ fs gs u,es=fs++gs ∧ run step s fs=some u ∧ P fs u

theorem earlier_now (step : S → E → Option S) (s u : S) (es : List E) (P : List E → S → Prop)
    (hr : run step s es=some u) (h : P es u) : Earlier step s es P :=
  ⟨es,[],u,(List.append_nil es).symm,hr,h⟩

theorem Earlier.snoc {step : S → E → Option S} {s : S} {es : List E} {P : List E → S → Prop}
    (h : Earlier step s es P) (e : E) : Earlier step s (es++[e]) P := by
  obtain ⟨fs,gs,u,rfl,hr,hu⟩ := h
  exact ⟨fs,gs++[e],u,List.append_assoc fs gs [e],hr,hu⟩

/-- A run that never ends, as the states it goes through. -/
structure Endless (step : S → E → Option S) (s : S) (state : Nat → S) (event : Nat → E) : Prop where
  start : state 0=s
  next : ∀ i,step (state i) (event i)=some (state (i+1))

theorem Endless.run {step : S → E → Option S} {s : S} {state : Nat → S} {event : Nat → E}
    (h : Endless step s state event) (i : Nat) :
    run step s ((List.range i).map event)=some (state i) := by
  induction i with
  | zero => exact congrArg some h.start.symm
  | succ i ih =>
    rw [List.range_succ,List.map_append,List.map_singleton,run_snoc]
    exact ⟨state i,ih,h.next i⟩

/-- What holds of the events of a run and of the event it goes on with. -/
theorem forall_getD {P : E → Prop} {es : List E} {e : E} (all : ∀ x∈es,P x) (loop : P e) (i : Nat) :
    P (es.getD i e) := by
  by_cases hi : i<es.length
  · rw [List.getD_eq_getElem _ _ hi]
    exact all _ (List.getElem_mem hi)
  · rw [List.getD_eq_default _ _ (Nat.le_of_not_lt hi)]
    exact loop

/-- A run goes on for ever with one event that never changes a fact about the state. -/
theorem endless_loop {step : S → E → Option S} {s t : S} {es : List E}
    (hr : StCache.run step s es=some t) (e : E) (Inv : S → Prop) (start : Inv t)
    (again : ∀ u,Inv u → ∃ v,step u e=some v ∧ Inv v) :
    ∃ state,Endless step s state (fun i => es.getD i e) ∧
      ∀ i,(i≤es.length → StCache.run step s (es.take i)=some (state i)) ∧
        (es.length ≤ i → Inv (state i)) := by
  induction es generalizing s with
  | nil =>
    cases hr
    choose next stepped kept using again
    let loop (i : Nat) : {u // Inv u} :=
      Nat.rec ⟨t,start⟩ (fun _ u => ⟨next u.1 u.2,kept u.1 u.2⟩) i
    refine ⟨fun i => (loop i).1,⟨rfl,fun i => stepped (loop i).1 (loop i).2⟩,?_⟩
    intro i
    refine ⟨?_,fun _ => (loop i).2⟩
    intro hi
    rw [Nat.le_zero.mp hi]
    rfl
  | cons x es ih =>
    rw [run_cons] at hr
    obtain ⟨u,hu,hr⟩ := Option.bind_eq_some_iff.mp hr
    obtain ⟨state,endless,facts⟩ := ih hr
    refine ⟨fun i => Nat.casesOn i s state,⟨rfl,?_⟩,?_⟩
    · intro i
      cases i with
      | zero => exact hu.trans (congrArg some endless.start.symm)
      | succ i => exact endless.next i
    · intro i
      cases i with
      | zero => exact ⟨fun _ => rfl,fun none => absurd none (Nat.not_succ_le_zero _)⟩
      | succ i =>
        refine ⟨?_,fun hi => (facts i).2 (Nat.le_of_succ_le_succ hi)⟩
        intro hi
        rw [List.take_succ_cons,run_cons,hu]
        exact (facts i).1 (Nat.le_of_succ_le_succ hi)

end Runs

/-- A measure that only grows, within a bound, ends up constant. -/
theorem settles (measure : Nat → Nat) (grows : ∀ i,measure i ≤ measure (i+1)) (bound : Nat)
    (bounded : ∀ i,measure i≤bound) : ∃ N,∀ i,N ≤ i → measure i=measure N := by
  have mono (i d : Nat) : measure i ≤ measure (i+d) := by
    induction d with
    | zero => exact Nat.le_refl _
    | succ d ih => exact Nat.le_trans ih (grows (i+d))
  have search (k : Nat) : ∀ i,bound ≤ measure i+k → ∃ N,∀ j,N≤j → measure j=measure N := by
    induction k with
    | zero =>
      intro i top
      refine ⟨i,fun j hj => ?_⟩
      obtain ⟨d,rfl⟩ := Nat.exists_eq_add_of_le hj
      exact Nat.le_antisymm (Nat.le_trans (bounded _) top) (mono i d)
    | succ k ih =>
      intro i top
      by_cases higher : ∃ j,measure i < measure j
      · obtain ⟨j,hj⟩ := higher
        exact ih j (by omega)
      · refine ⟨i,fun j hj => ?_⟩
        obtain ⟨d,rfl⟩ := Nat.exists_eq_add_of_le hj
        exact Nat.le_antisymm (Nat.le_of_not_lt (fun lt => higher ⟨_,lt⟩)) (mono i d)
  exact search bound 0 (Nat.le_add_left _ _)

end StCache
