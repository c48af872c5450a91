import StCache.Detector.Detector
import StCache.Store.Cache

namespace StCache

structure VerifyInput where
  key : GoString
  value : GoString
  deriving DecidableEq

structure VerifyOutput where
  key : GoString
  value : GoString
  status : GossipStatus
  deriving DecidableEq

/-- A recorded sample and the input its worker was given. -/
structure Sample where
  input : VerifyInput
  taken : StatusAndTime
  deriving DecidableEq

/-- One node's verification: what is left of the loop of makeGossip1, the workers
before and after their Ping, the outputs on outputCh, and the samples recorded for
each key since its window was created. -/
structure Verifier where
  detector : Detector
  feed : List VerifyInput := []
  pinging : List VerifyInput := []
  measuring : List VerifyInput := []
  outputs : List VerifyOutput := []
  samples : GoString → List Sample := fun _ => []

inductive VerifierAction where
  | makeGossip1 (order : List (GoString × GoString))
  | verify
  | ping (i : Nat) (stdout : GoString) (now : Int64)
  | phi (i : Nat) (order : List (GossipStatus × Nat))

namespace Verifier

def new (windowSize minSamples : Nat) : Verifier := {detector := .new windowSize minSamples}

/-- The detector's half of a scavenge, for one key. -/
def delKey (v : Verifier) (key : GoString) : Verifier :=
  {v with detector := v.detector.delKey key,samples := Function.update v.samples key []}

/-- None is a panic of the worker, or a step that is not possible. -/
def step (cm : CacheManager) (v : Verifier) : VerifierAction → Option Verifier
  | .makeGossip1 order =>
    match v.feed with
    | [] =>
      if Enumerates order cm.clone then
        some {v with feed := order.map (fun p => ⟨p.1,p.2⟩)} else none
    | _::_ => none
  | .verify =>
    match v.feed with
    | [] => none
    | input::rest => some {v with feed := rest,pinging := v.pinging++[input]}
  | .ping i stdout now =>
    match v.pinging[i]? with
    | none => none
    | some input =>
      (v.detector.ping input.key stdout now).map (fun d =>
        {v with detector := d,pinging := v.pinging.eraseIdx i,
                measuring := v.measuring++[input],
                samples := Function.update v.samples input.key
                  (v.samples input.key++[⟨input,sampleOf stdout now⟩])})
  | .phi i order =>
    match v.measuring[i]? with
    | none => none
    | some input =>
      (v.detector.phi input.key order).map (fun status =>
        {v with measuring := v.measuring.eraseIdx i,
                outputs := v.outputs++[⟨input.key,input.value,status⟩]})

/-- The statuses recorded for a key since its window was created. -/
def history (v : Verifier) (key : GoString) : List StatusAndTime :=
  (v.samples key).map Sample.taken

/-- Everything a step of the verification can do. -/
inductive Steps (cm : CacheManager) (v : Verifier) : VerifierAction → Verifier → Prop where
  | makeGossip1 (order : List (GoString × GoString)) (hf : v.feed=[])
      (ho : Enumerates order cm.clone) :
      Steps cm v (.makeGossip1 order) {v with feed := order.map (fun p => ⟨p.1,p.2⟩)}
  | verify (input : VerifyInput) (rest : List VerifyInput) (hf : v.feed=input::rest) :
      Steps cm v .verify {v with feed := rest,pinging := v.pinging++[input]}
  | ping (i : Nat) (stdout : GoString) (now : Int64) (input : VerifyInput) (d : Detector)
      (hi : v.pinging[i]?=some input) (hd : v.detector.ping input.key stdout now=some d) :
      Steps cm v (.ping i stdout now) {v with
        detector := d,pinging := v.pinging.eraseIdx i,measuring := v.measuring++[input],
        samples := Function.update v.samples input.key
          (v.samples input.key++[⟨input,sampleOf stdout now⟩])}
  | phi (i : Nat) (order : List (GossipStatus × Nat)) (input : VerifyInput)
      (status : GossipStatus) (hi : v.measuring[i]?=some input)
      (hp : v.detector.phi input.key order=some status) :
      Steps cm v (.phi i order) {v with
        measuring := v.measuring.eraseIdx i,
        outputs := v.outputs++[⟨input.key,input.value,status⟩]}

theorem step_steps (cm : CacheManager) (v w : Verifier) (a : VerifierAction)
    (h : v.step cm a=some w) : v.Steps cm a w := by
  cases a with
  | makeGossip1 order =>
    cases hf : v.feed with
    | nil =>
      simp only [step,hf,Option.ite_none_right_eq_some,Option.some.injEq] at h
      obtain ⟨ho,rfl⟩ := h
      exact .makeGossip1 order hf ho
    | cons x rest => simp [step,hf] at h
  | verify =>
    cases hf : v.feed with
    | nil => simp [step,hf] at h
    | cons input rest =>
      simp only [step,hf,Option.some.injEq] at h
      subst h
      exact .verify input rest hf
  | ping i stdout now =>
    cases hi : v.pinging[i]? with
    | none => simp [step,hi] at h
    | some input =>
      simp only [step,hi,Option.map_eq_some_iff] at h
      obtain ⟨d,hd,rfl⟩ := h
      exact .ping i stdout now input d hi hd
  | phi i order =>
    cases hi : v.measuring[i]? with
    | none => simp [step,hi] at h
    | some input =>
      simp only [step,hi,Option.map_eq_some_iff] at h
      obtain ⟨status,hp,rfl⟩ := h
      exact .phi i order input status hi hp

/-- The detector's windows hold the recorded samples. -/
structure Tracked (windowSize minSamples : Nat) (v : Verifier) : Prop where
  windows : v.detector.Tracks v.history
  windowSize : v.detector.windowSize=windowSize
  minSamples : v.detector.minSamples=minSamples

theorem tracked_new (windowSize minSamples : Nat) :
    (new windowSize minSamples).Tracked windowSize minSamples :=
  ⟨Detector.tracks_new windowSize minSamples,rfl,rfl⟩

theorem history_update (v : Verifier) (key : GoString) (xs : List Sample) :
    (fun k => (Function.update v.samples key xs k).map Sample.taken)=
      Function.update v.history key (xs.map Sample.taken) := by
  funext k
  by_cases hk : k=key
  · subst k
    simp
  · simp [hk,history]

theorem Tracked.step {windowSize minSamples : Nat} {cm : CacheManager} {v w : Verifier}
    {a : VerifierAction} (h : v.Tracked windowSize minSamples) (hs : v.Steps cm a w) :
    w.Tracked windowSize minSamples := by
  cases hs with
  | makeGossip1 order hf ho => exact ⟨h.windows,h.windowSize,h.minSamples⟩
  | verify input rest hf => exact ⟨h.windows,h.windowSize,h.minSamples⟩
  | ping i stdout now input d hi hd =>
    have tracks := h.windows.ping input.key stdout now hd
    have sizes := Detector.ping_sizes v.detector d input.key stdout now hd
    have same := history_update v input.key (v.samples input.key++[⟨input,sampleOf stdout now⟩])
    rw [List.map_append,List.map_singleton] at same
    change _=Function.update v.history input.key (v.history input.key++[sampleOf stdout now]) at same
    rw [←same] at tracks
    exact ⟨tracks,sizes.1.trans h.windowSize,sizes.2.trans h.minSamples⟩
  | phi i order input status hi hp => exact ⟨h.windows,h.windowSize,h.minSamples⟩

theorem Tracked.delKey {windowSize minSamples : Nat} {v : Verifier}
    (h : v.Tracked windowSize minSamples) (key : GoString) :
    (v.delKey key).Tracked windowSize minSamples := by
  have tracks := h.windows.delKey key
  have same := history_update v key []
  rw [List.map_nil] at same
  rw [←same] at tracks
  exact ⟨tracks,h.windowSize,h.minSamples⟩

/-- The inputs on their way from makeGossip1 to Phi. -/
def inputs (v : Verifier) : List VerifyInput := v.feed++(v.pinging++v.measuring)

/-- An input is a pair of the map that makeGossip1 copied. -/
theorem Steps.inputs {cm : CacheManager} {v w : Verifier} {a : VerifierAction}
    (h : v.Steps cm a w) (input : VerifyInput) (hi : input∈w.inputs) :
    input∈v.inputs ∨ cm.data.get? input.key=some input.value := by
  simp only [Verifier.inputs,List.mem_append] at hi ⊢
  cases h with
  | makeGossip1 order hf ho =>
    cases hi with
    | inl hi =>
      obtain ⟨p,hp,rfl⟩ := List.mem_map.mp hi
      rw [←cm.lookup_clone]
      exact .inr ((ho.mem_iff p.1 p.2).mp hp)
    | inr hi => exact .inl (.inr hi)
  | verify x rest hf =>
    rw [hf]
    rcases hi with hi|hi|hi
    · exact .inl (.inl (List.mem_cons_of_mem x hi))
    · cases List.mem_append.mp hi with
      | inl hi => exact .inl (.inr (.inl hi))
      | inr hi =>
        rw [List.mem_singleton.mp hi]
        exact .inl (.inl List.mem_cons_self)
    · exact .inl (.inr (.inr hi))
  | ping i stdout now x d hx hd =>
    rcases hi with hi|hi|hi
    · exact .inl (.inl hi)
    · exact .inl (.inr (.inl (List.mem_of_mem_eraseIdx hi)))
    · cases List.mem_append.mp hi with
      | inl hi => exact .inl (.inr (.inr hi))
      | inr hi =>
        rw [List.mem_singleton.mp hi]
        exact .inl (.inr (.inl (List.mem_of_getElem? hx)))
  | phi i order x status hx hp =>
    exact .inl (hi.imp_right (Or.imp_right List.mem_of_mem_eraseIdx))

/-- A sample is recorded under the key of the input Ping was given. -/
theorem Steps.samples {cm : CacheManager} {v w : Verifier} {a : VerifierAction}
    (h : v.Steps cm a w) (key : GoString) (x : Sample) (hx : x∈w.samples key) :
    x∈v.samples key ∨ (x.input.key=key ∧ x.input∈v.inputs) := by
  cases h with
  | ping i stdout now input d hi hd =>
    by_cases hk : key=input.key
    · subst key
      simp only [Function.update_self] at hx
      cases List.mem_append.mp hx with
      | inl hx => exact .inl hx
      | inr hx =>
        have mem := List.mem_of_getElem? hi
        rw [List.mem_singleton.mp hx]
        exact .inr ⟨rfl,by simp [Verifier.inputs,mem]⟩
    · simp only [Function.update_of_ne hk] at hx
      exact .inl hx
  | makeGossip1 | verify | phi => exact .inl hx

/-- Phi judges the last samples recorded for the key. -/
def Measured (v : Verifier) (key : GoString) (status : GossipStatus) : Prop :=
  v.detector.LastSamples key ((lastN v.detector.minSamples (v.samples key)).map Sample.taken) ∧
    status=windowVerdict ((lastN v.detector.minSamples (v.samples key)).map (fun x => x.taken.status))

theorem measured (v : Verifier) (tracks : v.detector.Tracks v.history) {key : GoString}
    {order : List (GossipStatus × Nat)} {status : GossipStatus}
    (hp : v.detector.phi key order=some status) :
    status=gossipLessThanMinsample ∨ v.Measured key status := by
  have verdict := v.detector.phi_cases v.history tracks key order status hp
  rw [history,←map_lastN,List.map_map] at verdict
  exact verdict

end Verifier

end StCache
