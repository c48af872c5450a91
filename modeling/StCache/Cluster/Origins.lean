import Mathlib.Data.List.Forall2
import StCache.Cluster.Cluster

namespace StCache

theorem forall₂_eraseIdx {A B : Type} {R : A → B → Prop} {xs : List A} {ys : List B}
    (h : List.Forall₂ R xs ys) (i : Nat) : List.Forall₂ R (xs.eraseIdx i) (ys.eraseIdx i) := by
  rw [List.eraseIdx_eq_take_drop_succ,List.eraseIdx_eq_take_drop_succ]
  exact List.rel_append (List.forall₂_take i h) (List.forall₂_drop (i+1) h)

theorem forall₂_getElem? {A B : Type} {R : A → B → Prop} {xs : List A} {ys : List B}
    (h : List.Forall₂ R xs ys) {i : Nat} {y : B} (hy : ys[i]?=some y) :
    ∃ x,xs[i]?=some x ∧ R x y := by
  obtain ⟨inside,rfl⟩ := List.getElem?_eq_some_iff.mp hy
  have short : i<xs.length := by
    rw [h.length_eq]
    exact inside
  exact ⟨xs[i],List.getElem?_eq_getElem short,h.get short inside⟩

/-- Positions of Phi calls in a run: of those whose outputs wait for makeGossip2, node by node,
and of those whose outputs it has made into reports, in the order of the reports. -/
structure Phis where
  waiting : GoString → List Nat := fun _ => []
  reported : List Nat := []

def Phis.step (p : Phis) (i : Nat) : ClusterEvent → Phis
  | .verify a (.phi _ _) => {p with waiting := Function.update p.waiting a (p.waiting a++[i])}
  | .makeGossip2 a j _ =>
    {waiting := Function.update p.waiting a ((p.waiting a).eraseIdx j)
     reported := p.reported++((p.waiting a)[j]?).toList}
  | .restart a _ => {p with waiting := Function.update p.waiting a []}
  | _ => p

/-- The outputs of a run, by the positions of their Phi calls. -/
def phis (es : List ClusterEvent) : Phis := es.zipIdx.foldl (fun p x => p.step x.2 x.1) {}

theorem phis_snoc (es : List ClusterEvent) (e : ClusterEvent) :
    phis (es++[e])=(phis es).step es.length e := by
  simp [phis,List.zipIdx_append,List.foldl_append]

namespace Cluster

/-- In the run the events fs lead to the state u, where node a calls Phi for the output o. -/
structure Judges (cfg : ClusterConfig) (es fs : List ClusterEvent) (u : Cluster) (a : GoString)
    (o : VerifyOutput) : Prop where
  call : ∃ j order gs,es=fs++.verify a (.phi j order)::gs ∧
    (u.node a).verifier.measuring[j]?=some ⟨o.key,o.value⟩ ∧
    (u.node a).verifier.detector.phi o.key order=some o.status
  state : run (step cfg) (init cfg) fs=some u

theorem Judges.snoc {cfg : ClusterConfig} {es fs : List ClusterEvent} {u : Cluster} {a : GoString}
    {o : VerifyOutput} (h : Judges cfg es fs u a o) (e : ClusterEvent) :
    Judges cfg (es++[e]) fs u a o := by
  obtain ⟨⟨j,order,gs,rfl,input,verdict⟩,state⟩ := h
  refine ⟨⟨j,order,gs++[e],?_,input,verdict⟩,state⟩
  rw [List.append_assoc,List.cons_append]

def JudgedAt (cfg : ClusterConfig) (es : List ClusterEvent) (a : GoString) (i : Nat)
    (o : VerifyOutput) : Prop :=
  ∃ fs u,fs.length=i ∧ Judges cfg es fs u a o

theorem JudgedAt.snoc {cfg : ClusterConfig} {es : List ClusterEvent} {a : GoString} {i : Nat}
    {o : VerifyOutput} (h : JudgedAt cfg es a i o) (e : ClusterEvent) :
    JudgedAt cfg (es++[e]) a i o := by
  obtain ⟨fs,u,length,judges⟩ := h
  exact ⟨fs,u,length,judges.snoc e⟩

/-- The report says what an output says that was judged at this position. -/
def ReportedAt (cfg : ClusterConfig) (es : List ClusterEvent) (i : Nat)
    (m : MyBroadcastMessage) : Prop :=
  ∃ o,JudgedAt cfg es m.node i o ∧ m.key=o.key ∧ m.value=o.value ∧ m.status=o.status

/-- Every output and every report has its Phi call. -/
structure Judged (cfg : ClusterConfig) (es : List ClusterEvent) (s : Cluster) : Prop where
  waiting : ∀ a,List.Forall₂ (JudgedAt cfg es a) ((phis es).waiting a) (s.node a).verifier.outputs
  reported : List.Forall₂ (ReportedAt cfg es) (phis es).reported s.originated

theorem judged_init (cfg : ClusterConfig) : Judged cfg [] (init cfg) :=
  ⟨fun _ => List.Forall₂.nil,List.Forall₂.nil⟩

section Step
variable {cfg : ClusterConfig} {es : List ClusterEvent} {e : ClusterEvent} {s t : Cluster}

theorem Judged.later (h : Judged cfg es s) (e : ClusterEvent) :
    (∀ a,List.Forall₂ (JudgedAt cfg (es++[e]) a) ((phis es).waiting a)
      (s.node a).verifier.outputs) ∧
    List.Forall₂ (ReportedAt cfg (es++[e])) (phis es).reported s.originated := by
  refine ⟨fun a => (h.waiting a).imp (fun i o judged => judged.snoc e),?_⟩
  refine h.reported.imp ?_
  rintro i m ⟨o,judged,same⟩
  exact ⟨o,judged.snoc e,same⟩

/-- The lists of one node change together. -/
theorem waiting_put {R : GoString → Nat → VerifyOutput → Prop} {p : GoString → List Nat}
    (h : ∀ a,List.Forall₂ (R a) (p a) (s.node a).verifier.outputs) (a : GoString) (n : Node)
    (is : List Nat) (here : List.Forall₂ (R a) is n.verifier.outputs) (b : GoString) :
    List.Forall₂ (R b) (Function.update p a is b) ((s.put a n).node b).verifier.outputs := by
  rw [put_node]
  by_cases hb : b=a
  · subst b
    rw [Function.update_self,if_pos rfl]
    exact here
  · rw [Function.update_of_ne hb,if_neg hb]
    exact h b

theorem waiting_same {R : GoString → Nat → VerifyOutput → Prop} {p : GoString → List Nat}
    (h : ∀ a,List.Forall₂ (R a) (p a) (s.node a).verifier.outputs) (a : GoString) (n : Node)
    (same : n.verifier.outputs=(s.node a).verifier.outputs) (b : GoString) :
    List.Forall₂ (R b) (p b) ((s.put a n).node b).verifier.outputs := by
  have frame := s.put_frame a n (fun m => m.verifier.outputs) same b
  rw [frame]
  exact h b

theorem Judged.step (h : Judged cfg es s) (hr : run (Cluster.step cfg) (init cfg) es=some s)
    (hs : s.Steps cfg e t) : Judged cfg (es++[e]) t := by
  obtain ⟨waiting,reported⟩ := h.later e
  have snoc := phis_snoc es e
  cases hs with
  | verify a x v hv =>
    cases hv with
    | phi i order input status hi hp =>
      refine ⟨?_,by rw [snoc]; exact reported⟩
      rw [snoc]
      refine waiting_put waiting a _ _ (List.rel_append (waiting a) ?_)
      refine .cons ⟨es,s,rfl,⟨i,order,[],rfl,hi,hp⟩,hr⟩ .nil
    | makeGossip1 | verify | ping =>
      refine ⟨?_,by rw [snoc]; exact reported⟩
      rw [snoc]
      exact waiting_same waiting a _ rfl
  | makeGossip2 a i now o gcm bs ho hset =>
    obtain ⟨k,hk,judged⟩ := forall₂_getElem? (waiting a) ho
    rw [Phis.step,hk] at snoc
    refine ⟨?_,?_⟩
    · rw [snoc]
      exact waiting_put waiting a _ _ (forall₂_eraseIdx (waiting a) i)
    · rw [snoc]
      exact List.rel_append reported (.cons ⟨o,judged,rfl,rfl,rfl⟩ .nil)
  | restart a i cm hi hcm =>
    refine ⟨?_,by rw [snoc]; exact reported⟩
    rw [snoc]
    exact waiting_put waiting a _ _ .nil
  | commit => exact ⟨by rw [snoc]; exact waiting,by rw [snoc]; exact reported⟩
  | applyNext a | deliver a | check a | delKey a | delNodeAddr a | detectorDelKey a | writeFlag a =>
    refine ⟨?_,by rw [snoc]; exact reported⟩
    rw [snoc]
    exact waiting_same waiting a _ rfl

end Step

theorem run_judged (cfg : ClusterConfig) (es : List ClusterEvent) (s : Cluster)
    (hr : run (Cluster.step cfg) (init cfg) es=some s) : Judged cfg es s := by
  apply run_history (Cluster.step cfg) (init cfg) (Judged cfg) (judged_init cfg) _ es s hr
  intro fs e u v hfs judged hs
  exact judged.step hfs (u.step_steps cfg v e hs)

/-- The k-th report of the run was made of the output of the Phi call of node n in the state u,
to which the events fs lead. -/
def PhiOf (cfg : ClusterConfig) (es : List ClusterEvent) (k : Nat) (n : GoString)
    (fs : List ClusterEvent) (u : Cluster) : Prop :=
  (phis es).reported[k]?=some fs.length ∧ run (Cluster.step cfg) (init cfg) fs=some u ∧
    ∃ j order gs,es=fs++.verify n (.phi j order)::gs

/-- A report of a run was made of the verdict of its own Phi call. -/
theorem exists_phiOf (cfg : ClusterConfig) (es : List ClusterEvent) (s : Cluster)
    (hr : run (Cluster.step cfg) (init cfg) es=some s) {k : Nat} {m : MyBroadcastMessage}
    (hm : s.originated[k]?=some m) :
    ∃ fs u order,PhiOf cfg es k m.node fs u ∧
      (u.node m.node).verifier.detector.phi m.key order=some m.status := by
  obtain ⟨i,hi,o,⟨fs,u,rfl,⟨j,order,gs,he,-,verdict⟩,state⟩,key,-,status⟩ :=
    forall₂_getElem? (run_judged cfg es s hr).reported hm
  rw [key,status]
  exact ⟨fs,u,order,⟨hi,state,j,order,gs,he⟩,verdict⟩

end Cluster

end StCache
