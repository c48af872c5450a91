import StCache.Detector.Verifier
import StCache.Framework.Runs
import StCache.Store.Fsm

namespace StCache

/-- How far the scavenger is with the detector's windows: it has copied the cache,
and then also the keys of the windows, some of which it has gone through. -/
inductive DetectorPass where
  | idle
  | copied (data : Table GoString GoString)
  | deleting (data : Table GoString GoString) (keys : List GoString)

/-- The cache, the verification workers and the scavenger of one node. For every key
it is recorded whether the detector's last operation on it was a DelKey. -/
structure Watch where
  cm : CacheManager := .new
  verifier : Verifier
  pass : DetectorPass := .idle
  deletedLast : GoString → Bool := fun _ => false

inductive WatchEvent where
  | apply (e : LogEntryData)
  | verify (x : VerifierAction)
  | copyCache
  | copyDetector (keys : List GoString)
  | delNext

namespace Watch

def new (windowSize minSamples : Nat) : Watch := {verifier := .new windowSize minSamples}

/-- Ping is the operation of a worker that the record is about. -/
def pinged (s : Watch) : VerifierAction → GoString → Bool
  | .ping i _ _ =>
    match s.verifier.pinging[i]? with
    | some input => Function.update s.deletedLast input.key false
    | none => s.deletedLast
  | _ => s.deletedLast

/-- Detector.DelKey -/
def delKey (s : Watch) (key : GoString) : Watch :=
  {s with
    verifier := s.verifier.delKey key
    deletedLast := Function.update s.deletedLast key true}

/-- The body of the scavenger's loop over the detector's keys. -/
def delAbsent (s : Watch) (data : Table GoString GoString) (key : GoString) : Watch :=
  match data.lookup key with
  | some _ => s
  | none => s.delKey key

/-- None is a panic, or a step that is not possible. -/
def step (s : Watch) : WatchEvent → Option Watch
  | .apply e => (s.cm.replay e).map (fun cm => {s with cm := cm})
  | .verify x =>
    (s.verifier.step s.cm x).map (fun v => {s with verifier := v,deletedLast := s.pinged x})
  | .copyCache =>
    match s.pass with
    | .idle => some {s with pass := .copied s.cm.clone}
    | _ => none
  | .copyDetector keys =>
    match s.pass with
    | .copied data =>
      if KeyOrder keys s.verifier.detector.w then some {s with pass := .deleting data keys} else none
    | _ => none
  | .delNext =>
    match s.pass with
    | .deleting _ [] => some {s with pass := .idle}
    | .deleting data (key::keys) => some {s.delAbsent data key with pass := .deleting data keys}
    | _ => none

/-- A Phi call finds a window for its key, and returns. -/
def PhiReturns (s : Watch) (e : WatchEvent) : Prop :=
  ∀ i order input,e=.verify (.phi i order) → s.verifier.measuring[i]?=some input →
    (∃ w,s.verifier.detector.w.lookup input.key=some w) ∧
      ∃ order status,s.verifier.detector.phi input.key order=some status

/-- No DelKey of the key has come after its last Ping when Phi is called. -/
def PingedLast (s : Watch) (e : WatchEvent) : Prop :=
  ∀ i order input,e=.verify (.phi i order) → s.verifier.measuring[i]?=some input →
    s.deletedLast input.key=false

/-- A window is missing after a DelKey, and there after the Ping of every worker that
is about to call Phi. -/
structure Windows (windowSize minSamples : Nat) (s : Watch) : Prop where
  tracked : s.verifier.Tracked windowSize minSamples
  missing : ∀ key,s.deletedLast key=true → s.verifier.detector.w.lookup key=none
  found : ∀ input∈s.verifier.measuring,s.deletedLast input.key=false →
    ∃ w,s.verifier.detector.w.lookup input.key=some w

theorem windows_new (windowSize minSamples : Nat) :
    Windows windowSize minSamples (new windowSize minSamples) :=
  ⟨Verifier.tracked_new windowSize minSamples,by simp [new],by simp [new,Verifier.new]⟩

theorem Windows.verify {windowSize minSamples : Nat} {s : Watch} {x : VerifierAction} {v : Verifier}
    (h : s.Windows windowSize minSamples) (hs : s.verifier.Steps s.cm x v) :
    Windows windowSize minSamples {s with verifier := v,deletedLast := s.pinged x} := by
  have tracked := h.tracked.step hs
  cases hs with
  | makeGossip1 order hf ho => exact ⟨tracked,h.missing,h.found⟩
  | verify input rest hf => exact ⟨tracked,h.missing,h.found⟩
  | phi i order input status hi hp =>
    exact ⟨tracked,h.missing,fun x hx => h.found x (List.mem_of_mem_eraseIdx hx)⟩
  | ping i stdout now input d hi hd =>
    have last : s.pinged (.ping i stdout now)=Function.update s.deletedLast input.key false := by
      simp [pinged,hi]
    obtain ⟨r,-,rfl⟩ := Option.map_eq_some_iff.mp hd
    refine ⟨tracked,?_,?_⟩
    · intro key hk
      simp only [last] at hk
      have other : key≠input.key := by
        intro he
        simp [he] at hk
      rw [Function.update_of_ne other] at hk
      simp only [lookup_insert_ite,if_neg other]
      exact h.missing key hk
    · intro y hy
      simp only [last,lookup_insert_ite]
      by_cases same : y.key=input.key
      · simp [same]
      · rw [Function.update_of_ne same,if_neg same]
        cases List.mem_append.mp hy with
        | inl hy => exact h.found y hy
        | inr hy => exact absurd (congrArg VerifyInput.key (List.mem_singleton.mp hy)) same

theorem Windows.delKey {windowSize minSamples : Nat} {s : Watch}
    (h : s.Windows windowSize minSamples) (key : GoString) :
    (s.delKey key).Windows windowSize minSamples := by
  refine ⟨h.tracked.delKey key,?_,?_⟩
  · intro k hk
    simp only [Watch.delKey,Verifier.delKey,Detector.delKey,lookup_erase_ite] at hk ⊢
    split_ifs with same
    · rfl
    · rw [Function.update_of_ne same] at hk
      exact h.missing k hk
  · intro input hi hk
    simp only [Watch.delKey,Verifier.delKey,Detector.delKey,lookup_erase_ite] at hi hk ⊢
    have other : input.key≠key := by
      intro he
      simp [he] at hk
    rw [Function.update_of_ne other] at hk
    rw [if_neg other]
    exact h.found input hi hk

theorem Windows.delAbsent {windowSize minSamples : Nat} {s : Watch}
    (h : s.Windows windowSize minSamples) (data : Table GoString GoString) (key : GoString) :
    (s.delAbsent data key).Windows windowSize minSamples := by
  unfold Watch.delAbsent
  cases data.lookup key with
  | some v => exact h
  | none => exact h.delKey key

theorem Windows.step {windowSize minSamples : Nat} {s t : Watch} {e : WatchEvent}
    (h : s.Windows windowSize minSamples) (hs : s.step e=some t) :
    t.Windows windowSize minSamples := by
  cases e with
  | apply e =>
    obtain ⟨cm,-,rfl⟩ := Option.map_eq_some_iff.mp hs
    exact ⟨h.tracked,h.missing,h.found⟩
  | verify x =>
    obtain ⟨v,hv,rfl⟩ := Option.map_eq_some_iff.mp hs
    exact h.verify (s.verifier.step_steps s.cm v x hv)
  | copyCache =>
    cases hp : s.pass with
    | idle =>
      simp only [Watch.step,hp,Option.some.injEq] at hs
      subst hs
      exact ⟨h.tracked,h.missing,h.found⟩
    | copied | deleting => simp [Watch.step,hp] at hs
  | copyDetector keys =>
    cases hp : s.pass with
    | copied data =>
      simp only [Watch.step,hp,Option.ite_none_right_eq_some,Option.some.injEq] at hs
      obtain ⟨-,rfl⟩ := hs
      exact ⟨h.tracked,h.missing,h.found⟩
    | idle | deleting => simp [Watch.step,hp] at hs
  | delNext =>
    cases hp : s.pass with
    | deleting data keys =>
      cases keys with
      | nil =>
        simp only [Watch.step,hp,Option.some.injEq] at hs
        subst hs
        exact ⟨h.tracked,h.missing,h.found⟩
      | cons key keys =>
        simp only [Watch.step,hp,Option.some.injEq] at hs
        subst hs
        have deleted := h.delAbsent data key
        exact ⟨deleted.tracked,deleted.missing,deleted.found⟩
    | idle | copied => simp [Watch.step,hp] at hs

/-- Phi returns whenever the key has a window. -/
theorem Windows.phi_returns {windowSize minSamples : Nat} {s : Watch}
    (h : s.Windows windowSize minSamples) {key : GoString} {w : Windowed}
    (hw : s.verifier.detector.w.lookup key=some w) :
    ∃ order status,s.verifier.detector.phi key order=some status := by
  have held := h.tracked.windows key
  rw [hw] at held
  by_cases short : w.len<s.verifier.detector.minSamples
  · exact ⟨[],_,s.verifier.detector.phi_short hw short []⟩
  · obtain ⟨order,ho⟩ := exists_enumerates (tally ((lastN s.verifier.detector.minSamples
      (s.verifier.history key)).map StatusAndTime.status))
    have full := s.verifier.detector.phi_full hw held.1 (Nat.le_of_not_lt short) order
    rw [if_pos ho] at full
    exact ⟨order,_,full⟩

theorem Windows.phi_iff {windowSize minSamples : Nat} {s : Watch}
    (h : s.Windows windowSize minSamples) (e : WatchEvent) : s.PhiReturns e ↔ s.PingedLast e := by
  constructor
  · intro returns i order input he hi
    obtain ⟨⟨w,hw⟩,-⟩ := returns i order input he hi
    cases hd : s.deletedLast input.key with
    | false => rfl
    | true => exact absurd (hw.symm.trans (h.missing input.key hd)) (by simp)
  · intro last i order input he hi
    obtain ⟨w,hw⟩ := h.found input (List.mem_of_getElem? hi) (last i order input he hi)
    exact ⟨⟨w,hw⟩,h.phi_returns hw⟩

end Watch

/-- Every Phi call of a run finds a window exactly when none comes after a DelKey of
its key that no Ping followed. -/
theorem phi_finds_window_iff (windowSize minSamples : Nat) (es : List WatchEvent) :
    Along Watch.step Watch.PhiReturns (.new windowSize minSamples) es ↔
      Along Watch.step Watch.PingedLast (.new windowSize minSamples) es :=
  along_congr Watch.step (Watch.Windows windowSize minSamples) Watch.PhiReturns Watch.PingedLast
    (fun _ e h => h.phi_iff e) (fun _ _ _ h hs => h.step hs) es _
    (Watch.windows_new windowSize minSamples)

/-- The key is deleted while its worker is between Ping and Phi, and a pass of the
scavenger deletes the window. -/
def raced : List WatchEvent :=
  [.apply ⟨.set,goStr "k",goStr "v"⟩,.verify (.makeGossip1 [(goStr "k",goStr "v")]),
    .verify .verify,.verify (.ping 0 (goStr "UP") 1),.apply ⟨.delete,goStr "k",[]⟩,
    .copyCache,.copyDetector [goStr "k"],.delNext]

/-- The worker then calls Phi on a key without window. -/
theorem phi_panics :
    ∃ s,run Watch.step (.new 5 3) raced=some s ∧
      s.verifier.measuring=[⟨goStr "k",goStr "v"⟩] ∧
      s.verifier.detector.w.lookup (goStr "k")=none ∧
      ∀ order,s.verifier.detector.phi (goStr "k") order=none := by
  refine ⟨_,rfl,rfl,by decide +kernel,?_⟩
  intro order
  rfl

end StCache
