import StCache.Detector.Windowed
import StCache.Store.GossipCache

namespace StCache

structure Detector where
  w : Table GoString Windowed
  windowSize : Nat
  minSamples : Nat
  deriving DecidableEq

/-- The sample Ping records for the raw standard output of the script. -/
def sampleOf (stdout : GoString) (now : Int64) : StatusAndTime :=
  ⟨if trimNewline stdout=[] then goStr "EMPTY" else trimNewline stdout,.ofNano now⟩

namespace Detector

/-- NewDetector -/
def new (windowSize minSamples : Nat) : Detector := ⟨∅,windowSize,minSamples⟩

/-- The critical section of Ping; none is the panic of a window without cells. -/
def ping (d : Detector) (key stdout : GoString) (now : Int64) : Option Detector :=
  let window := (d.w.lookup key).getD (.new d.windowSize)
  (window.push (sampleOf stdout now)).map (fun r => {d with w := d.w.insert key r.1})

/-- The loop and the two returns of Phi over the counted samples; order is the
order in which the map iteration visits countMap. -/
def phiCount (minSamples : Nat) (countMap : Table GossipStatus Nat)
    (order : List (GossipStatus × Nat)) : GossipStatus :=
  match order.find? (fun p => p.2=minSamples) with
  | some p => p.1
  | none =>
    if (countMap.lookup gossipEmpty).getD 0=0 then gossipNoEmptyInSamples
    else gossipNotFillSamples

/-- None is the panic on a key without window, or an order countMap does not
allow. -/
def phi (d : Detector) (key : GoString) (order : List (GossipStatus × Nat)) :
    Option GossipStatus :=
  match d.w.lookup key with
  | none => none
  | some w =>
    if w.len<d.minSamples then some gossipLessThanMinsample
    else
      match w.lastNSamples d.minSamples with
      | none => none
      | some samples =>
        let countMap := tally (samples.map StatusAndTime.status)
        if Enumerates order countMap then some (phiCount d.minSamples countMap order) else none

def delKey (d : Detector) (key : GoString) : Detector := {d with w := d.w.erase key}

/-- Every window holds the samples recorded for its key since it was created. -/
def Tracks (d : Detector) (samples : GoString → List StatusAndTime) : Prop :=
  ∀ key,match d.w.lookup key with
    | none => samples key=[]
    | some w => w.Holds (samples key) ∧ w.data.length=d.windowSize

theorem tracks_new (windowSize minSamples : Nat) : Tracks (new windowSize minSamples) (fun _ => []) := by
  intro key
  simp [new]

theorem ping_sizes (d e : Detector) (key stdout : GoString) (now : Int64)
    (h : d.ping key stdout now=some e) :
    e.windowSize=d.windowSize ∧ e.minSamples=d.minSamples := by
  obtain ⟨r,-,rfl⟩ := Option.map_eq_some_iff.mp h
  exact ⟨rfl,rfl⟩

/-- The window Ping pushes to, created where the key has none. -/
theorem Tracks.window {d : Detector} {samples : GoString → List StatusAndTime}
    (ht : Tracks d samples) (cells : 0<d.windowSize) (key : GoString) :
    ((d.w.lookup key).getD (.new d.windowSize)).Holds (samples key) ∧
      ((d.w.lookup key).getD (.new d.windowSize)).data.length=d.windowSize := by
  have hk := ht key
  cases hw : d.w.lookup key with
  | some w => simpa [hw] using hk
  | none =>
    rw [hw] at hk
    simp only at hk
    rw [hk]
    exact ⟨Windowed.holds_new _ cells,by simp [Windowed.new]⟩

theorem ping_cells (d e : Detector) (key stdout : GoString) (now : Int64)
    (h : d.ping key stdout now=some e) (hk : d.w.lookup key=none) : 0<d.windowSize := by
  by_contra h0
  have zero : d.windowSize=0 := by omega
  simp [ping,hk,zero,Windowed.push,Windowed.new] at h

/-- Ping appends to the history of its key and to no other. -/
theorem Tracks.ping {d e : Detector} {samples : GoString → List StatusAndTime}
    (ht : Tracks d samples) (key stdout : GoString) (now : Int64)
    (h : d.ping key stdout now=some e) :
    Tracks e (Function.update samples key (samples key++[sampleOf stdout now])) := by
  have start : ((d.w.lookup key).getD (.new d.windowSize)).Holds (samples key) ∧
      ((d.w.lookup key).getD (.new d.windowSize)).data.length=d.windowSize := by
    cases hw : d.w.lookup key with
    | some w => simpa [hw] using ht key
    | none => exact hw ▸ ht.window (ping_cells d e key stdout now h hw) key
  obtain ⟨⟨v,old⟩,hp,rfl⟩ := Option.map_eq_some_iff.mp h
  obtain ⟨v',old',hp',holds,size⟩ := start.1.push (sampleOf stdout now)
  obtain ⟨rfl,rfl⟩ := Prod.mk.inj (Option.some.inj (hp.symm.trans hp'))
  intro k
  simp only [lookup_insert_ite]
  by_cases hk : k=key
  · subst k
    simpa using ⟨holds,size.trans start.2⟩
  · simpa [hk] using ht k

/-- Ping does not panic on windows with cells. -/
theorem Tracks.exists_ping {d : Detector} {samples : GoString → List StatusAndTime}
    (ht : Tracks d samples) (cells : 0<d.windowSize) (key stdout : GoString) (now : Int64) :
    ∃ e,d.ping key stdout now=some e := by
  obtain ⟨v,old,hp,-,-⟩ := (ht.window cells key).1.push (sampleOf stdout now)
  exact ⟨_,Option.map_eq_some_iff.mpr ⟨(v,old),hp,rfl⟩⟩

theorem Tracks.delKey {d : Detector} {samples : GoString → List StatusAndTime}
    (ht : Tracks d samples) (key : GoString) :
    Tracks (d.delKey key) (Function.update samples key []) := by
  intro k
  simp only [Detector.delKey,lookup_erase_ite]
  by_cases hk : k=key
  · subst k
    simp
  · simpa [hk] using ht k

end Detector

/-- What Phi says of the last samples of a window, as a function of these alone. -/
def windowVerdict (T : List GossipStatus) : GossipStatus :=
  match T with
  | [] => gossipNoEmptyInSamples
  | s::rest =>
    if ∀ x∈rest,x=s then s
    else if ∃ x∈s::rest,x=gossipEmpty then gossipNotFillSamples else gossipNoEmptyInSamples

theorem windowVerdict_const (T : List GossipStatus) (s : GossipStatus) (hs : s∈T)
    (h : ∀ x∈T,x=s) : windowVerdict T=s := by
  cases T with
  | nil => simp at hs
  | cons t rest =>
    have ht : t=s := h t (by simp)
    subst t
    rw [windowVerdict,if_pos (fun x hx => h x (by simp [hx]))]

theorem windowVerdict_mixed (T : List GossipStatus) (h : ∀ s∈T,¬∀ x∈T,x=s) :
    windowVerdict T=
      if ∃ x∈T,x=gossipEmpty then gossipNotFillSamples else gossipNoEmptyInSamples := by
  cases T with
  | nil => rfl
  | cons t rest =>
    have hn : ¬∀ x∈rest,x=t := by
      intro hr
      refine h t (by simp) ?_
      intro x hx
      cases List.mem_cons.mp hx with
      | inl hx => exact hx
      | inr hx => exact hr x hx
    rw [windowVerdict,if_neg hn]

/-- The verdict of the counting loop does not depend on the iteration order. -/
theorem phiCount_eq (T : List GossipStatus) (order : List (GossipStatus × Nat))
    (h : Enumerates order (tally T)) :
    Detector.phiCount T.length (tally T) order=windowVerdict T := by
  have entry (s : GossipStatus) (n : Nat) : (s,n)∈order ↔ s∈T ∧ n=T.count s := by
    rw [h.mem_iff,lookup_tally]
    split_ifs with hs <;> simp [hs,eq_comm]
  unfold Detector.phiCount
  cases hf : order.find? (fun p => p.2=T.length) with
  | some p =>
    have hm := (entry p.1 p.2).mp (List.mem_of_find?_eq_some hf)
    have hlen : p.2=T.length := by simpa using List.find?_some hf
    have const : ∀ x∈T,p.1=x := List.count_eq_length.mp (hm.2.symm.trans hlen)
    exact (windowVerdict_const T p.1 hm.1 (fun x hx => (const x hx).symm)).symm
  | none =>
    have mixed : ∀ s∈T,¬∀ x∈T,x=s := by
      intro s hs const
      have count : T.count s=T.length := List.count_eq_length.mpr (fun x hx => (const x hx).symm)
      have hm := (entry s T.length).mpr ⟨hs,count.symm⟩
      simpa using List.find?_eq_none.mp hf _ hm
    rw [windowVerdict_mixed T mixed]
    simp only [tally_getD,List.count_eq_zero,exists_eq_right]
    split_ifs <;> rfl

/-- The window of a key has enough samples, and these are the last ones recorded. -/
def Detector.LastSamples (d : Detector) (key : GoString) (xs : List StatusAndTime) : Prop :=
  ∃ w,d.w.lookup key=some w ∧ d.minSamples≤w.len ∧ w.lastNSamples d.minSamples=some xs

/-- Phi on a short window. -/
theorem Detector.phi_short (d : Detector) {key : GoString} {w : Windowed}
    (hw : d.w.lookup key=some w) (short : w.len<d.minSamples)
    (order : List (GossipStatus × Nat)) : d.phi key order=some gossipLessThanMinsample := by
  simp only [phi,hw,if_pos short]

/-- Phi on a window with enough samples, for any order of countMap. -/
theorem Detector.phi_full (d : Detector) {key : GoString} {w : Windowed}
    {history : List StatusAndTime} (hw : d.w.lookup key=some w) (holds : w.Holds history)
    (enough : d.minSamples≤w.len) (order : List (GossipStatus × Nat)) :
    d.phi key order=
      if Enumerates order (tally ((lastN d.minSamples history).map StatusAndTime.status)) then
        some (windowVerdict ((lastN d.minSamples history).map StatusAndTime.status)) else none := by
  have held : d.minSamples≤history.length := by
    rw [holds.len] at enough
    omega
  have size : ((lastN d.minSamples history).map StatusAndTime.status).length=d.minSamples := by
    rw [List.length_map,lastN_length _ _ held]
  simp only [phi,hw,if_neg (Nat.not_lt.mpr enough),holds.lastNSamples _ enough]
  split_ifs with ho
  · have count := phiCount_eq _ order ho
    rw [size] at count
    rw [count]
  · rfl

/-- Phi in terms of the recorded history. -/
theorem Detector.phi_cases (d : Detector) (samples : GoString → List StatusAndTime)
    (ht : d.Tracks samples) (key : GoString) (order : List (GossipStatus × Nat))
    (status : GossipStatus) (h : d.phi key order=some status) :
    status=gossipLessThanMinsample ∨
      (d.LastSamples key (lastN d.minSamples (samples key)) ∧
        status=windowVerdict ((lastN d.minSamples (samples key)).map StatusAndTime.status)) := by
  have hk := ht key
  cases hw : d.w.lookup key with
  | none => simp [phi,hw] at h
  | some w =>
    simp only [hw] at hk
    by_cases short : w.len<d.minSamples
    · rw [d.phi_short hw short] at h
      exact .inl (Option.some.inj h).symm
    · have enough : d.minSamples≤w.len := by omega
      rw [d.phi_full hw hk.1 enough,Option.ite_none_right_eq_some] at h
      exact .inr ⟨⟨w,hw,enough,hk.1.lastNSamples _ enough⟩,(Option.some.inj h.2).symm⟩

/-- A status of its own is reported only for a window full of it. -/
theorem windowVerdict_full (T : List GossipStatus) (hn : windowVerdict T≠gossipNoEmptyInSamples)
    (hf : windowVerdict T≠gossipNotFillSamples) : ∀ x∈T,x=windowVerdict T := by
  cases T with
  | nil => simp
  | cons t rest =>
    simp only [windowVerdict] at hn hf ⊢
    split_ifs at hn hf ⊢ with const empty
    · intro x hx
      cases List.mem_cons.mp hx with
      | inl hx => exact hx
      | inr hx => exact const x hx
    · exact absurd rfl hf
    · exact absurd rfl hn

/-- What neither EMPTY nor NOT_FILL_SAMPLES is reported for has no EMPTY sample. -/
theorem windowVerdict_no_empty (T : List GossipStatus) (he : windowVerdict T≠gossipEmpty)
    (hf : windowVerdict T≠gossipNotFillSamples) : ∀ x∈T,x≠gossipEmpty := by
  cases T with
  | nil => simp
  | cons t rest =>
    simp only [windowVerdict] at he hf
    split_ifs at he hf with const empty
    · intro x hx
      cases List.mem_cons.mp hx with
      | inl hx => rwa [hx]
      | inr hx => rwa [const x hx]
    · exact absurd rfl hf
    · intro x hx same
      exact empty ⟨x,hx,same⟩

end StCache
