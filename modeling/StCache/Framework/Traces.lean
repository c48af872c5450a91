import StCache.Framework.Runs

namespace StCache

section Traces
variable {S T X A B O V : Type}

/-- A step taken in a setting, with what it shows to the outside added to what was shown so far. -/
def traced (visible : O → List V) (step : S → X → A → Option (S × O)) (p : S × List V)
    (e : X × A) : Option (S × List V) :=
  (step p.1 e.1 e.2).map (fun r => (r.1,p.2++visible r.2))

theorem traced_some {visible : O → List V} {step : S → X → A → Option (S × O)} {s t : S}
    {seen after : List V} {x : X} {a : A} (h : traced visible step (s,seen) (x,a)=some (t,after)) :
    ∃ o,step s x a=some (t,o) ∧ after=seen++visible o := by
  obtain ⟨⟨u,o⟩,hu,same⟩ := Option.map_eq_some_iff.mp h
  cases same
  exact ⟨o,hu,rfl⟩

/-- Invariant rule for traced runs over steps that satisfy Ev. -/
theorem traced_invariant (visible : O → List V) (step : S → X → A → Option (S × O))
    (Ev : X → A → Prop) (Inv : S → List V → Prop)
    (keep : ∀ s seen x a t o,Inv s seen → Ev x a → step s x a=some (t,o) →
      Inv t (seen++visible o))
    (es : List (X × A)) (s t : S) (seen after : List V) (start : Inv s seen)
    (events : ∀ e∈es,Ev e.1 e.2)
    (hr : run (traced visible step) (s,seen) es=some (t,after)) : Inv t after := by
  refine run_invariant (traced visible step) (fun _ e => Ev e.1 e.2) (fun p => Inv p.1 p.2) ?_ es
    (s,seen) (t,after) start (along_of_forall _ _ _ es events) hr
  rintro ⟨u,before⟩ ⟨x,a⟩ ⟨v,later⟩ h inside hs
  obtain ⟨o,ho,rfl⟩ := traced_some hs
  exact keep u before x a v o h inside ho

/-- Measure rule for traced runs. -/
theorem traced_measure (visible : O → List V) (step : S → X → A → Option (S × O))
    (Ev : A → Prop) (measure : S → Nat)
    (takes : ∀ s x a t o,Ev a → step s x a=some (t,o) → measure t < measure s)
    (es : List (X × A)) (s t : S) (seen after : List V) (events : ∀ e∈es,Ev e.2)
    (hr : run (traced visible step) (s,seen) es=some (t,after)) :
    es.length+measure t ≤ measure s := by
  refine run_measure (traced visible step) (fun e => Ev e.2) (fun p => measure p.1) ?_ es (s,seen)
    (t,after) events hr
  rintro ⟨u,before⟩ ⟨x,a⟩ ⟨v,later⟩ inside hs
  obtain ⟨o,ho,-⟩ := traced_some hs
  exact takes u x a v o inside ho

/-- Simulation rule for traced runs: each step is matched by a step in the same setting that shows
the same, or it shows nothing and is matched by no step. -/
theorem traced_simulates (visible : O → List V) (step : S → X → A → Option (S × O))
    (step' : T → X → B → Option (T × O)) (R : S → T → Prop)
    (simulates : ∀ s t x a u o,R s t → step s x a=some (u,o) →
      (visible o=[] ∧ R u t) ∨ ∃ b v,step' t x b=some (v,o) ∧ R u v)
    (es : List (X × A)) (s u : S) (t : T) (seen after : List V) (start : R s t)
    (hr : run (traced visible step) (s,seen) es=some (u,after)) :
    ∃ fs v,run (traced visible step') (t,seen) fs=some (v,after) ∧ R u v ∧
      (fs.map Prod.fst).Sublist (es.map Prod.fst) := by
  obtain ⟨fs,⟨v,shown⟩,hf,⟨related,same⟩,sub⟩ := run_simulates (traced visible step)
    (traced visible step') Prod.fst Prod.fst (fun p q => R p.1 q.1 ∧ p.2=q.2) (by
      rintro ⟨u,before⟩ ⟨t,before'⟩ ⟨x,a⟩ ⟨w,later⟩ ⟨related,same⟩ hs
      obtain ⟨o,ho,rfl⟩ := traced_some hs
      rcases simulates u t x a w o related ho with ⟨silent,stays⟩|⟨b,v,hv,next⟩
      · refine .inl ⟨stays,?_⟩
        rw [silent,List.append_nil]
        exact same
      · refine .inr ⟨(x,b),(v,before'++visible o),rfl,?_,next,congrArg (·++visible o) same⟩
        simp only [traced,hv,Option.map_some])
    es (s,seen) (u,after) (t,seen) ⟨start,rfl⟩ hr
  obtain rfl : after=shown := same
  exact ⟨fs,v,hf,related,sub⟩

end Traces

end StCache
