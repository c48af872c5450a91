import Mathlib.Data.Option.Basic
import StCache.Detector.History
import StCache.Detector.IntWindow

namespace StCache

/-- Detector with the machine integers of the source. -/
structure IntDetector where
  w : Table GoString IntWindow
  windowSize : Int64
  minSamples : Int64

namespace IntDetector

/-- NewDetector -/
def new (windowSize minSamples : Int64) : IntDetector := ⟨∅,windowSize,minSamples⟩

/-- The window Ping pushes to, created where the key has none. -/
def window (d : IntDetector) (key : GoString) : Option IntWindow :=
  match d.w.lookup key with
  | some w => some w
  | none => IntWindow.new d.windowSize

/-- The critical section of Ping; none is a panic of NewWindowed or Push. -/
def ping (d : IntDetector) (key stdout : GoString) (now : Int64) : Option IntDetector :=
  (d.window key).bind (fun w =>
    (w.push (sampleOf stdout now)).map (fun r => {d with w := d.w.insert key r.1}))

/-- None is the panic on a key without window or of LastNSamples, or an order countMap does not
allow. -/
def phi (d : IntDetector) (key : GoString) (order : List (GossipStatus × Nat)) :
    Option GossipStatus :=
  match d.w.lookup key with
  | none => none
  | some w =>
    if w.len < d.minSamples then some gossipLessThanMinsample
    else
      match w.lastNSamples d.minSamples with
      | none => none
      | some samples =>
        let countMap := tally (samples.map StatusAndTime.status)
        if Enumerates order countMap then
          some (Detector.phiCount d.minSamples.toInt.toNat countMap order)
        else none

def delKey (d : IntDetector) (key : GoString) : IntDetector := {d with w := d.w.erase key}

def step (d : IntDetector) : DetectorOp → Option IntDetector
  | .ping key stdout now => d.ping key stdout now
  | .delKey key => some (d.delKey key)

/-- No length of a window has wrapped around. -/
structure Refines (d : IntDetector) (e : Detector) : Prop where
  windows : ∀ key,Option.Rel IntWindow.Refines (d.w.lookup key) (e.w.lookup key)
  windowSize : d.windowSize.toInt=e.windowSize
  minSamples : d.minSamples.toInt=e.minSamples

section Steps
variable {d : IntDetector} {e e' : Detector} {samples : GoString → List StatusAndTime}

theorem Refines.lookup (h : d.Refines e) {key : GoString} {v : Windowed}
    (hv : e.w.lookup key=some v) : ∃ w,d.w.lookup key=some w ∧ w.Refines v := by
  have both := h.windows key
  rw [hv] at both
  cases hw : d.w.lookup key with
  | none => rw [hw] at both; cases both
  | some w =>
    rw [hw] at both
    cases both with
    | some refines => exact ⟨w,rfl,refines⟩

theorem Refines.lookup_none (h : d.Refines e) {key : GoString} (hv : e.w.lookup key=none) :
    d.w.lookup key=none := by
  have both := h.windows key
  rw [hv] at both
  cases hw : d.w.lookup key with
  | none => rfl
  | some w => rw [hw] at both; cases both

theorem Refines.delKey (h : d.Refines e) (key : GoString) :
    (d.delKey key).Refines (e.delKey key) := by
  refine ⟨?_,h.windowSize,h.minSamples⟩
  intro k
  simp only [IntDetector.delKey,Detector.delKey,lookup_erase_ite]
  split_ifs
  · exact .none
  · exact h.windows k

theorem Refines.window (h : d.Refines e) (cells : 1 ≤ d.windowSize.toInt)
    (allocated : (IntWindow.new d.windowSize).isSome) (key : GoString) :
    ∃ w,d.window key=some w ∧ w.Refines ((e.w.lookup key).getD (.new e.windowSize)) := by
  rw [IntDetector.window]
  cases hv : e.w.lookup key with
  | some v =>
    obtain ⟨w,hw,refines⟩ := h.lookup hv
    rw [hw]
    exact ⟨w,rfl,refines⟩
  | none =>
    rw [h.lookup_none hv]
    obtain ⟨w,made⟩ := Option.isSome_iff_exists.mp allocated
    have size : d.windowSize.toInt.toNat=e.windowSize := by rw [h.windowSize,Int.toNat_natCast]
    exact ⟨w,made,size ▸ (IntWindow.tracks_new cells made).refines⟩

/-- Ping over machine integers does what Ping over numbers does, until the length would wrap. -/
theorem Refines.ping (h : d.Refines e) (cells : 1 ≤ d.windowSize.toInt)
    (allocated : (IntWindow.new d.windowSize).isSome) (ht : e.Tracks samples)
    {key stdout : GoString} {now : Int64} (few : (samples key).length+1<2^63)
    (he : e.ping key stdout now=some e') :
    ∃ d',d.ping key stdout now=some d' ∧ d'.windowSize=d.windowSize ∧
      d'.minSamples=d.minSamples ∧ d'.Refines e' := by
  obtain ⟨w,hw,refines⟩ := h.window cells allocated key
  have start := ht.window (by have size := h.windowSize; omega) key
  obtain ⟨v',old,pushed,holds,-⟩ := start.1.push (sampleOf stdout now)
  have length : v'.length<2^63 := by
    rw [holds.length,List.length_append,List.length_singleton]
    exact few
  obtain ⟨w',stored,refines'⟩ := refines.push pushed length
  have same : {e with w := e.w.insert key v'}=e' := by
    rw [Detector.ping,pushed] at he
    exact Option.some.inj he
  refine ⟨{d with w := d.w.insert key w'},?_,rfl,rfl,?_⟩
  · rw [IntDetector.ping,hw,Option.bind_some,stored]
    rfl
  · rw [←same]
    refine ⟨?_,h.windowSize,h.minSamples⟩
    intro k
    simp only [lookup_insert_ite]
    split_ifs
    · exact .some refines'
    · exact h.windows k

/-- Phi answers the same. -/
theorem Refines.phi (h : d.Refines e) (ht : e.Tracks samples) (key : GoString)
    (order : List (GossipStatus × Nat)) : d.phi key order=e.phi key order := by
  have hk := ht key
  cases hv : e.w.lookup key with
  | none => simp only [IntDetector.phi,Detector.phi,hv,h.lookup_none hv]
  | some v =>
    rw [hv] at hk
    obtain ⟨w,hw,refines⟩ := h.lookup hv
    have tracks : w.Tracks ⟨samples key,v.data.length⟩ v := ⟨refines,hk.1,rfl⟩
    have len := refines.len
    have least := h.minSamples
    by_cases short : w.len < d.minSamples
    · have short' : v.len<e.minSamples := by
        rw [Int64.lt_iff_toInt_lt] at short
        omega
      simp only [IntDetector.phi,Detector.phi,hw,hv,if_pos short,if_pos short']
    · have enough : d.minSamples ≤ w.len := by
        rw [Int64.lt_iff_toInt_lt] at short
        rw [Int64.le_iff_toInt_le]
        omega
      have enough' : e.minSamples ≤ v.len := by
        rw [Int64.le_iff_toInt_le] at enough
        omega
      have same : d.minSamples.toInt.toNat=e.minSamples := by rw [least,Int.toNat_natCast]
      have last := tracks.answers.2 d.minSamples (by omega) enough
      rw [same] at last
      simp only [IntDetector.phi,Detector.phi,hw,hv,if_neg short,if_neg (Nat.not_lt.mpr enough'),last,
        hk.1.lastNSamples _ enough',same]

end Steps

/-- The run over machine integers, while no key has 2^63 samples. -/
theorem run_refines (windowSize minSamples : Int64) (cells : 1 ≤ windowSize.toInt)
    (samples : 0 ≤ minSamples.toInt) (allocated : (IntWindow.new windowSize).isSome)
    (ops : List DetectorOp)
    (few : ∀ done,done <+: ops → ∀ key,(recorded key done).length<2^63) :
    ∃ d e,run step (new windowSize minSamples) ops=some d ∧ d.Refines e ∧
      d.windowSize=windowSize ∧ d.minSamples=minSamples ∧ e.Tracks (fun key => recorded key ops) := by
  induction ops using List.reverseRecOn with
  | nil =>
    refine ⟨_,.new windowSize.toInt.toNat minSamples.toInt.toNat,rfl,?_,rfl,rfl,
      Detector.tracks_new _ _⟩
    have size : 0≤windowSize.toInt := by omega
    exact ⟨fun _ => .none,(Int.toNat_of_nonneg size).symm,(Int.toNat_of_nonneg samples).symm⟩
  | append_singleton ops op ih =>
    obtain ⟨d,e,hr,refines,size,least,tracks⟩ := ih
      (fun done hd => few done (hd.trans (List.prefix_append ops [op])))
    cases op with
    | ping key stdout now =>
      have cells' : 1 ≤ d.windowSize.toInt := size ▸ cells
      have one := few _ (List.prefix_refl _) key
      rw [recorded_snoc,record,if_pos rfl,List.length_append,List.length_singleton] at one
      obtain ⟨e',he⟩ := tracks.exists_ping (by have same := refines.windowSize; omega) key stdout now
      obtain ⟨d',hd,size',least',refines'⟩ :=
        refines.ping cells' (size ▸ allocated) tracks one he
      refine ⟨d',e',(run_snoc _ _ _ _ _).mpr ⟨d,hr,hd⟩,refines',size'.trans size,
        least'.trans least,?_⟩
      rw [recorded_ping]
      exact tracks.ping key stdout now he
    | delKey key =>
      refine ⟨d.delKey key,e.delKey key,(run_snoc _ _ _ _ _).mpr ⟨d,hr,rfl⟩,refines.delKey key,size,
        least,?_⟩
      rw [recorded_delKey]
      exact tracks.delKey key

end IntDetector

/-- Phi as a function of the samples recorded since the last DelKey, while no window has had 2^63
samples. -/
theorem phi_of_history (windowSize minSamples : Int64) (positive : 1 ≤ minSamples.toInt)
    (fits : minSamples ≤ windowSize) (allocated : (IntWindow.new windowSize).isSome)
    (ops : List DetectorOp)
    (few : ∀ done,done <+: ops → ∀ key,(recorded key done).length<2^63) :
    ∃ d,run IntDetector.step (.new windowSize minSamples) ops=some d ∧
      ∀ key,recorded key ops≠[] → ∀ order,
        ((recorded key ops).length < minSamples.toInt →
          d.phi key order=some gossipLessThanMinsample) ∧
        (minSamples.toInt≤(recorded key ops).length →
          Enumerates order (tally (lastStatuses minSamples.toInt.toNat key ops)) →
          (∀ s,(∀ x∈lastStatuses minSamples.toInt.toNat key ops,x=s) → d.phi key order=some s) ∧
          ((¬∃ s,∀ x∈lastStatuses minSamples.toInt.toNat key ops,x=s) →
            (gossipEmpty∉lastStatuses minSamples.toInt.toNat key ops →
              d.phi key order=some gossipNoEmptyInSamples) ∧
            (gossipEmpty∈lastStatuses minSamples.toInt.toNat key ops →
              d.phi key order=some gossipNotFillSamples))) := by
  rw [Int64.le_iff_toInt_le] at fits
  have samples : 0 ≤ minSamples.toInt := by omega
  obtain ⟨d,e,hr,refines,size,least,tracks⟩ :=
    IntDetector.run_refines windowSize minSamples (by omega) samples allocated ops few
  refine ⟨d,hr,?_⟩
  intro key sampled order
  have size' := refines.windowSize
  have least' := refines.minSamples
  rw [size] at size'
  rw [least] at least'
  have phi := e.phi_tracks tracks (by omega) sampled order
  rw [←refines.phi tracks key order,show e.minSamples=minSamples.toInt.toNat by omega] at phi
  refine ⟨fun short => phi.1 (by omega),?_⟩
  intro enough ho
  have verdict : d.phi key order=
      some (windowVerdict (lastStatuses minSamples.toInt.toNat key ops)) :=
    phi.2 (by omega) ho
  constructor
  · intro s const
    have length : (lastStatuses minSamples.toInt.toNat key ops).length=minSamples.toInt.toNat := by
      rw [lastStatuses,List.length_map,lastN_length _ _ (by omega)]
    obtain ⟨x,hx⟩ := List.exists_mem_of_length_pos (show 0<_ by rw [length]; omega)
    rw [verdict,windowVerdict_const _ s (const x hx ▸ hx) const]
  · intro mixed
    have each : ∀ s∈lastStatuses minSamples.toInt.toNat key ops,
        ¬∀ x∈lastStatuses minSamples.toInt.toNat key ops,x=s := fun s _ const => mixed ⟨s,const⟩
    have answer := windowVerdict_mixed _ each
    simp only [exists_eq_right] at answer
    constructor
    · intro missing
      rw [verdict,answer,if_neg missing]
    · intro present
      rw [verdict,answer,if_pos present]

/-- A deleted window, a sample of another key, and a window that wraps around. -/
def upOps : List DetectorOp :=
  [.ping (goStr "k") (goStr "DOWN") 1,.delKey (goStr "k"),.ping (goStr "k") [] 2,
    .ping (goStr "j") (goStr "DOWN") 3,.ping (goStr "k") (goStr "DOWN") 4,
    .ping (goStr "k") (goStr "UP") 5,.ping (goStr "k") (goStr "UP\n") 6,
    .ping (goStr "k") (goStr "UP") 7,.ping (goStr "k") (goStr "UP") 8]

theorem phi_of_history_up : ∃ d,run IntDetector.step (.new 5 3) upOps=some d ∧
    d.phi (goStr "k") [(gossipUp,3)]=some gossipUp := by
  have few : ∀ done,done <+: upOps → ∀ key,(recorded key done).length<2^63 := by
    intro done hd key
    have most := recorded_length key done
    have short := hd.length_le
    have nine : upOps.length=9 := rfl
    omega
  obtain ⟨d,hr,h⟩ := phi_of_history 5 3 (by decide) (by decide) (by decide +kernel) upOps few
  have full := (h (goStr "k") (by decide +kernel) [(gossipUp,3)]).2 (by decide +kernel)
    (by decide +kernel)
  exact ⟨d,hr,full.1 gossipUp (by decide +kernel)⟩

/-- UP, n times. -/
def ups (n : Nat) : List DetectorOp := List.replicate n (.ping (goStr "k") (goStr "UP") 0)

theorem recorded_ups (n : Nat) :
    recorded (goStr "k") (ups n)=List.replicate n (sampleOf (goStr "UP") 0) := by
  induction n with
  | zero => rfl
  | succ n ih =>
    rw [ups,List.replicate_succ',recorded_snoc,←ups,ih,record,if_pos rfl,←List.replicate_succ']

/-- The detector of one sample per window, after one sample too many. -/
theorem ups_wrap (n : Nat) (full : n+1=2^63) :
    ∃ d,run IntDetector.step (.new 1 1) (ups (n+1))=some d ∧
      ∀ order,d.phi (goStr "k") order=some gossipLessThanMinsample := by
  have few : ∀ done,done <+: ups n → ∀ key,(recorded key done).length<2^63 := by
    intro done hd key
    have most := recorded_length key done
    have short := hd.length_le
    rw [ups,List.length_replicate] at short
    omega
  obtain ⟨d,e,hr,refines,-,least,tracks⟩ :=
    IntDetector.run_refines 1 1 (by decide) (by decide) (by decide +kernel) (ups n) few
  have length : (recorded (goStr "k") (ups n)).length=n := by
    rw [recorded_ups,List.length_replicate]
  have hk := tracks (goStr "k")
  cases hv : e.w.lookup (goStr "k") with
  | none =>
    rw [hv] at hk
    have none : (recorded (goStr "k") (ups n)).length=0 := congrArg List.length hk
    omega
  | some v =>
    rw [hv] at hk
    obtain ⟨w,hw,window⟩ := refines.lookup hv
    have inside : v.head<v.data.length := by
      rw [hk.1.head]
      exact Nat.mod_lt _ hk.1.cyclic.nonempty
    obtain ⟨w',old,pushed,next⟩ := window.push_returns inside (sampleOf (goStr "UP") 0)
    have pinged : d.step (.ping (goStr "k") (goStr "UP") 0)=
        some {d with w := d.w.insert (goStr "k") w'} := by
      simp only [IntDetector.step,IntDetector.ping,IntDetector.window,hw,Option.bind_some,pushed,
        Option.map_some]
    refine ⟨{d with w := d.w.insert (goStr "k") w'},?_,?_⟩
    · rw [ups,List.replicate_succ']
      exact (run_snoc _ _ _ _ _).mpr ⟨d,hr,pinged⟩
    · intro order
      have held : v.length=n := hk.1.length.trans length
      have most : w.length.toInt=2^63-1 := by
        rw [window.length,held]
        omega
      have negative := IntWindow.len_wrapped most next
      have short : w'.len < d.minSamples := by
        rw [Int64.lt_iff_toInt_lt,least,Int64.toInt_one]
        omega
      simp only [IntDetector.phi,Finmap.lookup_insert,if_pos short]

/-- The length of a window is an int: after 2^63 times UP it is negative, and Phi has too few
samples. -/
theorem phi_wraps :
    ∃ ops d,run IntDetector.step (.new 1 1) ops=some d ∧ 1≤(recorded (goStr "k") ops).length ∧
      (∀ x∈lastStatuses 1 (goStr "k") ops,x=gossipUp) ∧
      ∀ order,d.phi (goStr "k") order=some gossipLessThanMinsample := by
  obtain ⟨n,full⟩ : ∃ n : Nat,n+1=2^63 := ⟨2^63-1,by omega⟩
  obtain ⟨d,ran,answer⟩ := ups_wrap n full
  refine ⟨ups (n+1),d,ran,?_,?_,answer⟩
  · rw [recorded_ups,List.length_replicate]
    omega
  · intro x hx
    obtain ⟨sample,hs,rfl⟩ := List.mem_map.mp hx
    rw [recorded_ups] at hs
    have one := List.eq_of_mem_replicate (List.mem_of_mem_drop hs)
    rw [one]
    decide

end StCache
