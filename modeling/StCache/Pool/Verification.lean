import StCache.Detector.Verifier
import StCache.Framework.Traces
import StCache.Pool.Progress

namespace StCache

open Sync

/-- Where the goroutine of an input is: before its Ping, before its Phi, or at outputCh. -/
inductive Check where
  | ping (input : VerifyInput)
  | phi (input : VerifyInput)
  | offer (o : VerifyOutput)
  deriving DecidableEq

/-- The input an output is about. -/
def VerifyOutput.input (o : VerifyOutput) : VerifyInput := ⟨o.key,o.value⟩

namespace Check

def pinging : Check → Option VerifyInput
  | .ping input => some input
  | _ => none

def measuring : Check → Option VerifyInput
  | .phi input => some input
  | _ => none

def output : Check → Option VerifyOutput
  | .offer o => some o
  | _ => none

def input : Check → VerifyInput
  | .ping input => input
  | .phi input => input
  | .offer o => o.input

end Check

/-- What is left of the loop of makeGossip1, verify, and the inputs verify has received. -/
structure Verification where
  detector : Detector := .new 5 3
  samples : GoString → List Sample := fun _ => []
  feed : List VerifyInput := []
  received : List VerifyInput := []
  workers : Workers Check := .new 100 Gpool.wait

/-- `receive` is the handover of the next pair of makeGossip1, `take` that of an output to
makeGossip2, and `delKey` the detector's half of a scavenge. -/
inductive VerificationAction where
  | makeGossip1 (order : List (GoString × GoString))
  | receive
  | dispatch
  | cancel
  | ping (i : Nat) (stdout : GoString) (now : Int64)
  | phi (i : Nat) (order : List (GossipStatus × Nat))
  | take (i : Nat)
  | release (i : Nat)
  | delKey (key : GoString)

/-- The action hands no output over. -/
def VerificationAction.Keeps : VerificationAction → Prop
  | .take _ => False
  | _ => True

namespace Verification

/-- None is a panic of a goroutine, or a step that is not possible. -/
def step (s : Verification) (cm : CacheManager) :
    VerificationAction → Option (Verification × List VerifyOutput)
  | .makeGossip1 order =>
    match s.feed with
    | [] =>
      if Enumerates order cm.clone then
        some ({s with feed := order.map (fun p => ⟨p.1,p.2⟩)},[]) else none
    | _::_ => none
  | .receive =>
    match s.feed with
    | [] => none
    | input::rest => (s.workers.step (.receive (.ping input))).map (fun w =>
        ({s with feed := rest,received := s.received++[input],workers := w},[]))
  | .dispatch => (s.workers.step .dispatch).map (fun w => ({s with workers := w},[]))
  | .cancel => (s.workers.step .cancel).map (fun w => ({s with workers := w},[]))
  | .ping i stdout now =>
    match s.workers.busy[i]? with
    | some (.ping input) =>
      (s.detector.ping input.key stdout now).bind (fun d =>
        (s.workers.step (.work i (.phi input))).map (fun w =>
          ({s with
            detector := d,workers := w
            samples := Function.update s.samples input.key
              (s.samples input.key++[⟨input,sampleOf stdout now⟩])},[])))
    | _ => none
  | .phi i order =>
    match s.workers.busy[i]? with
    | some (.phi input) =>
      (s.detector.phi input.key order).bind (fun status =>
        (s.workers.step (.work i (.offer ⟨input.key,input.value,status⟩))).map (fun w =>
          ({s with workers := w},[])))
    | _ => none
  | .take i =>
    match s.workers.busy[i]? with
    | some (.offer o) => (s.workers.step (.finish i)).map (fun w => ({s with workers := w},[o]))
    | _ => none
  | .release i => (s.workers.step (.release i)).map (fun w => ({s with workers := w},[]))
  | .delKey key =>
    some ({s with
      detector := s.detector.delKey key,samples := Function.update s.samples key []},[])

/-- Everything the verification can do. -/
inductive Steps (s : Verification) (cm : CacheManager) :
    VerificationAction → Verification → List VerifyOutput → Prop where
  | makeGossip1 (order : List (GoString × GoString)) (hf : s.feed=[])
      (ho : Enumerates order cm.clone) :
      Steps s cm (.makeGossip1 order) {s with feed := order.map (fun p => ⟨p.1,p.2⟩)} []
  | receive (input : VerifyInput) (rest : List VerifyInput) (w : Workers Check)
      (hf : s.feed=input::rest) (hw : s.workers.step (.receive (.ping input))=some w) :
      Steps s cm .receive {s with feed := rest,received := s.received++[input],workers := w} []
  | dispatch (w : Workers Check) (hw : s.workers.step .dispatch=some w) :
      Steps s cm .dispatch {s with workers := w} []
  | cancel (w : Workers Check) (hw : s.workers.step .cancel=some w) :
      Steps s cm .cancel {s with workers := w} []
  | ping (i : Nat) (stdout : GoString) (now : Int64) (input : VerifyInput) (d : Detector)
      (w : Workers Check) (hi : s.workers.busy[i]?=some (.ping input))
      (hd : s.detector.ping input.key stdout now=some d)
      (hw : s.workers.step (.work i (.phi input))=some w) :
      Steps s cm (.ping i stdout now) {s with
        detector := d,workers := w
        samples := Function.update s.samples input.key
          (s.samples input.key++[⟨input,sampleOf stdout now⟩])} []
  | phi (i : Nat) (order : List (GossipStatus × Nat)) (input : VerifyInput)
      (status : GossipStatus) (w : Workers Check) (hi : s.workers.busy[i]?=some (.phi input))
      (hp : s.detector.phi input.key order=some status)
      (hw : s.workers.step (.work i (.offer ⟨input.key,input.value,status⟩))=some w) :
      Steps s cm (.phi i order) {s with workers := w} []
  | take (i : Nat) (o : VerifyOutput) (w : Workers Check) (hi : s.workers.busy[i]?=some (.offer o))
      (hw : s.workers.step (.finish i)=some w) : Steps s cm (.take i) {s with workers := w} [o]
  | release (i : Nat) (w : Workers Check) (hw : s.workers.step (.release i)=some w) :
      Steps s cm (.release i) {s with workers := w} []
  | delKey (key : GoString) :
      Steps s cm (.delKey key) {s with
        detector := s.detector.delKey key,samples := Function.update s.samples key []} []

theorem step_steps {s t : Verification} {cm : CacheManager} {a : VerificationAction}
    {taken : List VerifyOutput} (h : s.step cm a=some (t,taken)) : s.Steps cm a t taken := by
  cases a with
  | makeGossip1 order =>
    cases hf : s.feed with
    | cons input rest => simp [step,hf] at h
    | nil =>
      simp only [step,hf,Option.ite_none_right_eq_some,Option.some.injEq,Prod.mk.injEq] at h
      obtain ⟨ho,rfl,rfl⟩ := h
      exact .makeGossip1 order hf ho
  | receive =>
    cases hf : s.feed with
    | nil => simp [step,hf] at h
    | cons input rest =>
      simp only [step,hf,Option.map_eq_some_iff,Prod.mk.injEq] at h
      obtain ⟨w,hw,rfl,rfl⟩ := h
      exact .receive input rest w hf hw
  | dispatch =>
    simp only [step,Option.map_eq_some_iff,Prod.mk.injEq] at h
    obtain ⟨w,hw,rfl,rfl⟩ := h
    exact .dispatch w hw
  | cancel =>
    simp only [step,Option.map_eq_some_iff,Prod.mk.injEq] at h
    obtain ⟨w,hw,rfl,rfl⟩ := h
    exact .cancel w hw
  | ping i stdout now =>
    simp only [step] at h
    split at h
    · next input hi =>
      simp only [Option.bind_eq_some_iff,Option.map_eq_some_iff,Prod.mk.injEq] at h
      obtain ⟨d,hd,w,hw,rfl,rfl⟩ := h
      exact .ping i stdout now input d w hi hd hw
    · cases h
  | phi i order =>
    simp only [step] at h
    split at h
    · next input hi =>
      simp only [Option.bind_eq_some_iff,Option.map_eq_some_iff,Prod.mk.injEq] at h
      obtain ⟨status,hp,w,hw,rfl,rfl⟩ := h
      exact .phi i order input status w hi hp hw
    · cases h
  | take i =>
    simp only [step] at h
    split at h
    · next o hi =>
      simp only [Option.map_eq_some_iff,Prod.mk.injEq] at h
      obtain ⟨w,hw,rfl,rfl⟩ := h
      exact .take i o w hi hw
    · cases h
  | release i =>
    simp only [step,Option.map_eq_some_iff,Prod.mk.injEq] at h
    obtain ⟨w,hw,rfl,rfl⟩ := h
    exact .release i w hw
  | delKey key =>
    simp only [step,Option.some.injEq,Prod.mk.injEq] at h
    obtain ⟨rfl,rfl⟩ := h
    exact .delKey key

/-- The inputs received are those on their way and those of the outputs taken. -/
def Accounts (s : Verification) (taken : List VerifyOutput) : Prop :=
  (s.received : Multiset VerifyInput)=
    s.workers.inputs.map Check.input+(taken.map VerifyOutput.input : List VerifyInput)

theorem Accounts.step {s t : Verification} {cm : CacheManager} {a : VerificationAction}
    {taken more : List VerifyOutput} (h : s.Accounts taken) (hs : s.Steps cm a t more) :
    t.Accounts (taken++more) := by
  unfold Accounts at h ⊢
  cases hs with
  | makeGossip1 | delKey => rwa [List.append_nil]
  | receive input rest w hf hw =>
    rw [List.append_nil,Workers.inputs_receive hw,Multiset.map_cons,Multiset.cons_add,←h,
      ←Multiset.coe_add,add_comm,Multiset.coe_singleton,Multiset.singleton_add]
    rfl
  | dispatch w hw => rwa [List.append_nil,Workers.inputs_dispatch hw]
  | cancel w hw => rwa [List.append_nil,Workers.inputs_cancel hw]
  | release i w hw => rwa [List.append_nil,Workers.inputs_release hw]
  | ping i stdout now input d w hi hd hw =>
    have moved := congrArg (Multiset.map Check.input) (Workers.inputs_work hi hw)
    rw [Multiset.map_cons,Multiset.map_cons] at moved
    rwa [List.append_nil,(Multiset.cons_inj_right _).mp moved]
  | phi i order input status w hi hp hw =>
    have moved := congrArg (Multiset.map Check.input) (Workers.inputs_work hi hw)
    rw [Multiset.map_cons,Multiset.map_cons] at moved
    rwa [List.append_nil,(Multiset.cons_inj_right _).mp moved]
  | take i o w hi hw =>
    have gone : s.workers.inputs.map Check.input=o.input::ₘw.inputs.map Check.input := by
      rw [←Workers.inputs_finish hi hw,Multiset.map_cons]
      rfl
    rw [h,gone,List.map_append,←Multiset.coe_add,List.map_singleton,Multiset.coe_singleton,
      ←add_assoc,Multiset.cons_add]
    exact ((add_comm _ _).trans (Multiset.singleton_add _ _)).symm

/-- Up to their order the inputs and outputs of the pool are those of the verifier. -/
structure Agrees (s : Verification) (v : Verifier) : Prop where
  detector : v.detector=s.detector
  samples : v.samples=s.samples
  feed : v.feed=s.feed
  pinging : (v.pinging : Multiset VerifyInput)=s.workers.inputs.filterMap Check.pinging
  measuring : (v.measuring : Multiset VerifyInput)=s.workers.inputs.filterMap Check.measuring
  outputs : (v.outputs : Multiset VerifyOutput)=s.workers.inputs.filterMap Check.output

end Verification

/-- What happens to a verifier, with the outputs makeGossip2 takes and the keys scavenged. -/
inductive VerifierEvent where
  | act (a : VerifierAction)
  | take (i : Nat)
  | delKey (key : GoString)

def Verifier.stepOut (v : Verifier) (cm : CacheManager) :
    VerifierEvent → Option (Verifier × List VerifyOutput)
  | .act a => (v.step cm a).map (fun w => (w,[]))
  | .take i => (v.outputs[i]?).map (fun o => ({v with outputs := v.outputs.eraseIdx i},[o]))
  | .delKey key => some (v.delKey key,[])

section Checks
variable {a : Multiset Check} {x : VerifyInput} {o : VerifyOutput}

theorem check_ping : (Check.ping x::ₘa).filterMap Check.pinging=x::ₘa.filterMap Check.pinging ∧
    (Check.ping x::ₘa).filterMap Check.measuring=a.filterMap Check.measuring ∧
    (Check.ping x::ₘa).filterMap Check.output=a.filterMap Check.output :=
  ⟨Multiset.filterMap_cons_some _ _ _ rfl,Multiset.filterMap_cons_none _ _ rfl,
    Multiset.filterMap_cons_none _ _ rfl⟩

theorem check_phi : (Check.phi x::ₘa).filterMap Check.pinging=a.filterMap Check.pinging ∧
    (Check.phi x::ₘa).filterMap Check.measuring=x::ₘa.filterMap Check.measuring ∧
    (Check.phi x::ₘa).filterMap Check.output=a.filterMap Check.output :=
  ⟨Multiset.filterMap_cons_none _ _ rfl,Multiset.filterMap_cons_some _ _ _ rfl,
    Multiset.filterMap_cons_none _ _ rfl⟩

theorem check_offer : (Check.offer o::ₘa).filterMap Check.pinging=a.filterMap Check.pinging ∧
    (Check.offer o::ₘa).filterMap Check.measuring=a.filterMap Check.measuring ∧
    (Check.offer o::ₘa).filterMap Check.output=o::ₘa.filterMap Check.output :=
  ⟨Multiset.filterMap_cons_none _ _ rfl,Multiset.filterMap_cons_none _ _ rfl,
    Multiset.filterMap_cons_some _ _ _ rfl⟩

end Checks

namespace Verification

variable {s : Verification} {v : Verifier} {cm : CacheManager} {w : Workers Check} {i : Nat}

/-- The statements of the pool move no input. -/
theorem Agrees.stays (h : s.Agrees v) (same : w.inputs=s.workers.inputs) :
    Agrees {s with workers := w} v := by
  refine ⟨h.detector,h.samples,h.feed,?_,?_,?_⟩ <;> rw [same]
  · exact h.pinging
  · exact h.measuring
  · exact h.outputs

theorem Agrees.receives {input : VerifyInput} {rest received : List VerifyInput} (h : s.Agrees v)
    (hf : s.feed=input::rest) (hw : s.workers.step (.receive (.ping input))=some w) :
    ∃ e u,v.stepOut cm e=some (u,[]) ∧
      Agrees {s with feed := rest,received := received,workers := w} u := by
  have more := Workers.inputs_receive hw
  have feed : v.feed=input::rest := h.feed.trans hf
  refine ⟨.act .verify,{v with feed := rest,pinging := v.pinging++[input]},?_,?_⟩
  · simp only [Verifier.stepOut,Verifier.step,feed,Option.map_some]
  · refine ⟨h.detector,h.samples,rfl,?_,?_,?_⟩ <;> rw [more]
    · rw [check_ping.1,←h.pinging,←Multiset.coe_add,add_comm,Multiset.coe_singleton,
        Multiset.singleton_add]
    · rw [check_ping.2.1]
      exact h.measuring
    · rw [check_ping.2.2]
      exact h.outputs

theorem Agrees.pings {input : VerifyInput} {stdout : GoString} {now : Int64} {d : Detector}
    (h : s.Agrees v) (hi : s.workers.busy[i]?=some (.ping input))
    (hd : s.detector.ping input.key stdout now=some d)
    (hw : s.workers.step (.work i (.phi input))=some w) :
    ∃ e u,v.stepOut cm e=some (u,[]) ∧ Agrees {s with
      detector := d,workers := w
      samples := Function.update s.samples input.key
        (s.samples input.key++[⟨input,sampleOf stdout now⟩])} u := by
  have moved := Workers.inputs_work hi hw
  have pinging := congrArg (Multiset.filterMap Check.pinging) moved
  have measuring := congrArg (Multiset.filterMap Check.measuring) moved
  have outputs := congrArg (Multiset.filterMap Check.output) moved
  rw [check_ping.1,check_phi.1,←h.pinging] at pinging
  rw [check_ping.2.1,check_phi.2.1,←h.measuring] at measuring
  rw [check_ping.2.2,check_phi.2.2,←h.outputs] at outputs
  obtain ⟨j,hj,rest⟩ := exists_place pinging.symm
  refine ⟨.act (.ping j stdout now),{v with
    detector := d,pinging := v.pinging.eraseIdx j,measuring := v.measuring++[input]
    samples := Function.update v.samples input.key
      (v.samples input.key++[⟨input,sampleOf stdout now⟩])},?_,?_⟩
  · simp only [Verifier.stepOut,Verifier.step,hj,h.detector,hd,Option.map_some]
  · refine ⟨rfl,by rw [h.samples],h.feed,rest,?_,outputs.symm⟩
    rw [measuring,←Multiset.coe_add,add_comm,Multiset.coe_singleton,Multiset.singleton_add]

theorem Agrees.measures {input : VerifyInput} {order : List (GossipStatus × Nat)}
    {status : GossipStatus} (h : s.Agrees v) (hi : s.workers.busy[i]?=some (.phi input))
    (hp : s.detector.phi input.key order=some status)
    (hw : s.workers.step (.work i (.offer ⟨input.key,input.value,status⟩))=some w) :
    ∃ e u,v.stepOut cm e=some (u,[]) ∧ Agrees {s with workers := w} u := by
  have moved := Workers.inputs_work hi hw
  have pinging := congrArg (Multiset.filterMap Check.pinging) moved
  have measuring := congrArg (Multiset.filterMap Check.measuring) moved
  have outputs := congrArg (Multiset.filterMap Check.output) moved
  rw [check_phi.1,check_offer.1,←h.pinging] at pinging
  rw [check_phi.2.1,check_offer.2.1,←h.measuring] at measuring
  rw [check_phi.2.2,check_offer.2.2,←h.outputs] at outputs
  obtain ⟨j,hj,rest⟩ := exists_place measuring.symm
  refine ⟨.act (.phi j order),{v with
    measuring := v.measuring.eraseIdx j
    outputs := v.outputs++[⟨input.key,input.value,status⟩]},?_,?_⟩
  · simp only [Verifier.stepOut,Verifier.step,hj,h.detector,hp,Option.map_some]
  · refine ⟨h.detector,h.samples,h.feed,pinging.symm,rest,?_⟩
    rw [outputs,←Multiset.coe_add,add_comm,Multiset.coe_singleton,Multiset.singleton_add]

theorem Agrees.takes {o : VerifyOutput} (h : s.Agrees v)
    (hi : s.workers.busy[i]?=some (.offer o)) (hw : s.workers.step (.finish i)=some w) :
    ∃ e u,v.stepOut cm e=some (u,[o]) ∧ Agrees {s with workers := w} u := by
  have moved := Workers.inputs_finish hi hw
  have pinging := congrArg (Multiset.filterMap Check.pinging) moved
  have measuring := congrArg (Multiset.filterMap Check.measuring) moved
  have outputs := congrArg (Multiset.filterMap Check.output) moved
  rw [check_offer.1,←h.pinging] at pinging
  rw [check_offer.2.1,←h.measuring] at measuring
  rw [check_offer.2.2,←h.outputs] at outputs
  obtain ⟨j,hj,rest⟩ := exists_place outputs.symm
  refine ⟨.take j,{v with outputs := v.outputs.eraseIdx j},?_,?_⟩
  · simp only [Verifier.stepOut,hj,Option.map_some]
  · exact ⟨h.detector,h.samples,h.feed,pinging.symm,measuring.symm,rest⟩

/-- Each step of the verification is a step of the verifier, or no step of it. -/
theorem Agrees.step {t : Verification} {a : VerificationAction} {taken : List VerifyOutput}
    (h : s.Agrees v) (hs : s.Steps cm a t taken) :
    (taken=[] ∧ t.Agrees v) ∨ ∃ e u,v.stepOut cm e=some (u,taken) ∧ t.Agrees u := by
  cases hs with
  | makeGossip1 order hf ho =>
    have feed : v.feed=[] := h.feed.trans hf
    refine .inr ⟨.act (.makeGossip1 order),{v with feed := order.map (fun p => ⟨p.1,p.2⟩)},?_,?_⟩
    · simp [Verifier.stepOut,Verifier.step,feed,ho]
    · exact ⟨h.detector,h.samples,rfl,h.pinging,h.measuring,h.outputs⟩
  | receive input rest w hf hw => exact .inr (h.receives hf hw)
  | dispatch w hw => exact .inl ⟨rfl,h.stays (Workers.inputs_dispatch hw)⟩
  | cancel w hw => exact .inl ⟨rfl,h.stays (Workers.inputs_cancel hw)⟩
  | ping i stdout now input d w hi hd hw => exact .inr (h.pings hi hd hw)
  | phi i order input status w hi hp hw => exact .inr (h.measures hi hp hw)
  | take i o w hi hw => exact .inr (h.takes hi hw)
  | release i w hw => exact .inl ⟨rfl,h.stays (Workers.inputs_release hw)⟩
  | delKey key =>
    refine .inr ⟨.delKey key,v.delKey key,rfl,?_⟩
    refine ⟨?_,?_,h.feed,h.pinging,h.measuring,h.outputs⟩
    · rw [Verifier.delKey,h.detector]
    · rw [Verifier.delKey,h.samples]

/-- What an action does to the pool. -/
theorem Steps.workers {t : Verification} {a : VerificationAction} {taken : List VerifyOutput}
    (hs : s.Steps cm a t taken) :
    t.workers=s.workers ∨ ∃ e,s.workers.step e=some t.workers := by
  cases hs with
  | makeGossip1 | delKey => exact .inl rfl
  | receive input rest w hf hw => exact .inr ⟨_,hw⟩
  | dispatch w hw => exact .inr ⟨_,hw⟩
  | cancel w hw => exact .inr ⟨_,hw⟩
  | ping i stdout now input d w hi hd hw => exact .inr ⟨_,hw⟩
  | phi i order input status w hi hp hw => exact .inr ⟨_,hw⟩
  | take i o w hi hw => exact .inr ⟨_,hw⟩
  | release i w hw => exact .inr ⟨_,hw⟩

/-- The invariants along a run of the verification. -/
structure Reached (s : Verification) (taken : List VerifyOutput) : Prop where
  sound : s.workers.Sound
  capacity : s.workers.pool.capacity=100
  exit : s.workers.exit=Gpool.wait
  gone : s.workers.dispatcher=.leaving [] ∨ s.workers.dispatcher=.returned → s.workers.busy=[]
  accounts : s.Accounts taken

theorem reached_init : Reached {} [] := by
  refine ⟨Workers.sound_new 100 List.suffix_rfl,?_,rfl,fun _ => rfl,rfl⟩
  show (if (100 : Int)≤0 then 1 else (100 : Int).toNat)=100
  decide

theorem Reached.step {t : Verification} {a : VerificationAction} {taken more : List VerifyOutput}
    (h : s.Reached taken) (hs : s.Steps cm a t more) : t.Reached (taken++more) := by
  have accounts := h.accounts.step hs
  rcases hs.workers with same|⟨e,he⟩
  · exact ⟨same ▸ h.sound,same ▸ h.capacity,same ▸ h.exit,same ▸ h.gone,accounts⟩
  · have steps := Workers.step_steps he
    exact ⟨h.sound.step steps,(Workers.capacity_step steps).trans h.capacity,
      (Workers.exit_step steps).trans h.exit,h.sound.gone h.exit h.gone steps,accounts⟩

theorem reached_run {es : List (CacheManager × VerificationAction)} {taken : List VerifyOutput}
    (hr : run (traced id step) ({},[]) es=some (s,taken)) : s.Reached taken :=
  traced_invariant id step (fun _ _ => True) Reached
    (fun _ _ _ _ _ _ h _ hs => h.step (step_steps hs)) es {} s [] taken reached_init
    (fun _ _ => trivial) hr

/-- Without a handover every input that was on its way is on its way. -/
theorem Steps.kept {t : Verification} {a : VerificationAction} {taken : List VerifyOutput}
    (hs : s.Steps cm a t taken) (keeps : a.Keeps) : s.workers.inputs.card≤t.workers.inputs.card := by
  cases hs with
  | makeGossip1 | delKey => exact Nat.le_refl _
  | receive input rest w hf hw =>
    rw [Workers.inputs_receive hw,Multiset.card_cons]
    exact Nat.le_succ _
  | dispatch w hw => rw [Workers.inputs_dispatch hw]
  | cancel w hw => rw [Workers.inputs_cancel hw]
  | release i w hw => rw [Workers.inputs_release hw]
  | ping i stdout now input d w hi hd hw =>
    have moved := congrArg Multiset.card (Workers.inputs_work hi hw)
    rw [Multiset.card_cons,Multiset.card_cons] at moved
    exact Nat.le_of_eq (Nat.succ.inj moved).symm
  | phi i order input status w hi hp hw =>
    have moved := congrArg Multiset.card (Workers.inputs_work hi hw)
    rw [Multiset.card_cons,Multiset.card_cons] at moved
    exact Nat.le_of_eq (Nat.succ.inj moved).symm
  | take => exact keeps.elim

end Verification

/-- verify with its pool of 100 and its unbuffered channels does what the verifier does, and handles
each input once: every run is one of the verifier with the same outputs in the same order, at most
100 goroutines ping, measure or offer, and the inputs received are, each as often as it was
received, those of the outputs taken and those on their way. -/
theorem verification_handles_once (es : List (CacheManager × VerificationAction))
    (s : Verification) (taken : List VerifyOutput)
    (hr : run (traced id Verification.step) ({},[]) es=some (s,taken)) :
    (s.received : Multiset VerifyInput)=s.workers.inputs.map Check.input+
      (taken.map VerifyOutput.input : List VerifyInput) ∧
    s.workers.busy.length≤100 ∧
    ∃ fs v,run (traced id Verifier.stepOut) (.new 5 3,[]) fs=some (v,taken) ∧ s.Agrees v ∧
      (fs.map Prod.fst).Sublist (es.map Prod.fst) := by
  have reached := Verification.reached_run hr
  have tokens := reached.sound.tokens
  have room := reached.sound.balanced.room
  have capacity := reached.capacity
  refine ⟨reached.accounts,by omega,?_⟩
  exact traced_simulates id Verification.step Verifier.stepOut Verification.Agrees
    (fun _ _ _ _ _ _ agrees hs => agrees.step (Verification.step_steps hs)) es {} s (.new 5 3) []
    taken ⟨rfl,rfl,rfl,rfl,rfl,rfl⟩ hr

/-- verify has received both pairs of the store: the first one is at outputCh, the second one
before its Ping. -/
def twoStages : List (CacheManager × VerificationAction) :=
  [.makeGossip1 [(goStr "k",goStr "v"),(goStr "l",goStr "w")],.receive,.dispatch,.dispatch,.dispatch,
    .receive,.dispatch,.dispatch,.dispatch,.ping 0 gossipUp 10,.phi 0 [],.cancel].map (fun a =>
      (⟨.alloc (((∅ : Finmap _).insert (goStr "k") (goStr "v")).insert (goStr "l") (goStr "w"))⟩,a))

/-- The first output is taken while the second input waits for its Ping. -/
theorem verification_handles_once_pair :
    ∃ s taken,run (traced id Verification.step) ({},[]) (twoStages++[(.new,.take 0)])=
        some (s,taken) ∧
      s.workers.busy=[.ping ⟨goStr "l",goStr "w"⟩] ∧
      taken=[⟨goStr "k",goStr "v",gossipLessThanMinsample⟩] ∧
      (s.received : Multiset VerifyInput)=s.workers.inputs.map Check.input+
        (taken.map VerifyOutput.input : List VerifyInput) ∧
      ∃ fs v,run (traced id Verifier.stepOut) (.new 5 3,[]) fs=some (v,taken) ∧ s.Agrees v := by
  have done : (run (traced id Verification.step) ({},[]) (twoStages++[(.new,.take 0)])).map
      (fun p => (p.1.workers.busy,p.2))=
      some ([.ping ⟨goStr "l",goStr "w"⟩],[⟨goStr "k",goStr "v",gossipLessThanMinsample⟩]) := by
    decide +kernel
  obtain ⟨⟨s,taken⟩,hr,same⟩ := Option.map_eq_some_iff.mp done
  obtain ⟨busy,out⟩ := Prod.mk.inj same
  obtain ⟨accounts,-,fs,v,hv,agrees,-⟩ := verification_handles_once _ s taken hr
  exact ⟨s,taken,hr,busy,out,accounts,fs,v,hv,agrees⟩

/-- verify returns only after makeGossip2 has taken the output of every input that verify has
received; with an input on its way it never returns once makeGossip2 takes nothing any more. -/
theorem verify_returns_last (es : List (CacheManager × VerificationAction)) (s : Verification)
    (taken : List VerifyOutput)
    (hr : run (traced id Verification.step) ({},[]) es=some (s,taken)) :
    (s.workers.dispatcher=.returned →
      s.received.Perm (taken.map VerifyOutput.input)) ∧
    (s.workers.inputs≠0 → ∀ fs t later,(∀ e∈fs,e.2.Keeps) →
      run (traced id Verification.step) (s,taken) fs=some (t,later) →
      t.workers.dispatcher≠.returned) := by
  have none (t : Verification) (later : List VerifyOutput) (reached : t.Reached later)
      (away : t.workers.dispatcher=.returned) : t.workers.inputs=0 := by
    rw [Workers.inputs,away,reached.gone (.inr away)]
    rfl
  have reached := Verification.reached_run hr
  refine ⟨?_,?_⟩
  · intro away
    have accounts := reached.accounts
    rw [Verification.Accounts,none s taken reached away,Multiset.map_zero,zero_add] at accounts
    exact Multiset.coe_eq_coe.mp accounts
  · intro some fs t later keeps hf away
    have whole : run (traced id Verification.step) ({},[]) (es++fs)=.some (t,later) := by
      rw [run_append,hr]
      exact hf
    have zero := none t later (Verification.reached_run whole) away
    have kept : s.workers.inputs.card≤t.workers.inputs.card := by
      refine run_invariant (traced id Verification.step) (fun _ e => e.2.Keeps)
        (fun p => s.workers.inputs.card≤p.1.workers.inputs.card) ?_ fs (s,taken) (t,later)
        (Nat.le_refl _) (along_of_forall _ (fun e => e.2.Keeps) _ fs keeps) hf
      rintro ⟨u,before⟩ ⟨cm,a⟩ ⟨v,after⟩ h keep hs
      obtain ⟨o,ho,-⟩ := traced_some hs
      exact Nat.le_trans h ((Verification.step_steps ho).kept keep)
    rw [zero,Multiset.card_zero,Nat.le_zero,Multiset.card_eq_zero] at kept
    exact some kept

/-- Both outputs are taken, in the other order, and verify returns; with the two at different
stages no step but a handover lets it return. -/
theorem verify_returns_last_pair :
    (∃ s taken,run (traced id Verification.step) ({},[]) (twoStages++
        [.ping 1 gossipDown 20,.phi 1 [],.take 1,.take 0,.release 0,.release 0,.release 1,.release 1,
          .dispatch,.dispatch].map (fun a => (.new,a)))=some (s,taken) ∧
      s.workers.dispatcher=.returned ∧
      taken.map VerifyOutput.input=[⟨goStr "l",goStr "w"⟩,⟨goStr "k",goStr "v"⟩] ∧
      s.received.Perm (taken.map VerifyOutput.input)) ∧
    ∃ s taken,run (traced id Verification.step) ({},[]) twoStages=some (s,taken) ∧
      s.workers.busy=[.offer ⟨goStr "k",goStr "v",gossipLessThanMinsample⟩,
        .ping ⟨goStr "l",goStr "w"⟩] ∧
      ∀ fs t later,(∀ e∈fs,e.2.Keeps) →
        run (traced id Verification.step) (s,taken) fs=some (t,later) →
        t.workers.dispatcher≠.returned := by
  constructor
  · have done : (run (traced id Verification.step) ({},[]) (twoStages++
        [.ping 1 gossipDown 20,.phi 1 [],.take 1,.take 0,.release 0,.release 0,.release 1,.release 1,
          .dispatch,.dispatch].map (fun a => (.new,a)))).map
        (fun p => (p.1.workers.dispatcher,p.2.map VerifyOutput.input))=
        some (.returned,[⟨goStr "l",goStr "w"⟩,⟨goStr "k",goStr "v"⟩]) := by
      decide +kernel
    obtain ⟨⟨s,taken⟩,hr,same⟩ := Option.map_eq_some_iff.mp done
    obtain ⟨away,out⟩ := Prod.mk.inj same
    exact ⟨s,taken,hr,away,out,(verify_returns_last _ s taken hr).1 away⟩
  · have done : (run (traced id Verification.step) ({},[]) twoStages).map
        (fun p => p.1.workers.busy)=
          some [.offer ⟨goStr "k",goStr "v",gossipLessThanMinsample⟩,
            .ping ⟨goStr "l",goStr "w"⟩] := by
      decide +kernel
    obtain ⟨⟨s,taken⟩,hr,busy⟩ := Option.map_eq_some_iff.mp done
    have same : s.workers.busy=[.offer ⟨goStr "k",goStr "v",gossipLessThanMinsample⟩,
      .ping ⟨goStr "l",goStr "w"⟩] := busy
    refine ⟨s,taken,hr,same,(verify_returns_last _ s taken hr).2 ?_⟩
    rw [Workers.inputs,same]
    intro zero
    have card := congrArg Multiset.card zero
    simp at card

end StCache
