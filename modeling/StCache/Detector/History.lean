import StCache.Detector.Detector
import StCache.Framework.Runs

namespace StCache

/-- The critical sections of Ping, with what the script printed, and of DelKey. -/
inductive DetectorOp where
  | ping (key stdout : GoString) (now : Int64)
  | delKey (key : GoString)

def Detector.step (d : Detector) : DetectorOp → Option Detector
  | .ping key stdout now => d.ping key stdout now
  | .delKey key => some (d.delKey key)

/-- The effect of one operation on the samples recorded for a key. -/
def record (key : GoString) (xs : List StatusAndTime) : DetectorOp → List StatusAndTime
  | .ping k stdout now => if k=key then xs++[sampleOf stdout now] else xs
  | .delKey k => if k=key then [] else xs

/-- The samples recorded for a key since its last DelKey, oldest first. -/
def recorded (key : GoString) (ops : List DetectorOp) : List StatusAndTime :=
  ops.foldl (record key) []

/-- The statuses of the newest n recorded samples. -/
def lastStatuses (n : Nat) (key : GoString) (ops : List DetectorOp) : List GossipStatus :=
  (lastN n (recorded key ops)).map StatusAndTime.status

theorem recorded_snoc (key : GoString) (ops : List DetectorOp) (op : DetectorOp) :
    recorded key (ops++[op])=record key (recorded key ops) op := by
  simp [recorded]

theorem recorded_length (key : GoString) (ops : List DetectorOp) :
    (recorded key ops).length ≤ ops.length := by
  induction ops using List.reverseRecOn with
  | nil => exact Nat.le_refl 0
  | append_singleton ops op ih =>
    rw [recorded_snoc,List.length_append]
    cases op with
    | ping k stdout now =>
      rw [record]
      split_ifs
      · rw [List.length_append]
        exact Nat.add_le_add_right ih 1
      · exact ih.trans (Nat.le_add_right _ _)
    | delKey k =>
      rw [record]
      split_ifs
      · exact Nat.zero_le _
      · exact ih.trans (Nat.le_add_right _ _)

theorem recorded_ping (ops : List DetectorOp) (key stdout : GoString) (now : Int64) :
    (fun k => recorded k (ops++[.ping key stdout now]))=
      Function.update (fun k => recorded k ops) key (recorded key ops++[sampleOf stdout now]) := by
  funext k
  rw [recorded_snoc,record]
  by_cases hk : k=key
  · subst k
    simp
  · simp [hk,Ne.symm hk]

theorem recorded_delKey (ops : List DetectorOp) (key : GoString) :
    (fun k => recorded k (ops++[.delKey key]))=
      Function.update (fun k => recorded k ops) key [] := by
  funext k
  rw [recorded_snoc,record]
  by_cases hk : k=key
  · subst k
    simp
  · simp [hk,Ne.symm hk]

/-- The operations never panic, and the windows follow the recorded samples. -/
theorem run_detector (windowSize minSamples : Nat) (cells : 0<windowSize)
    (ops : List DetectorOp) :
    ∃ d,run Detector.step (.new windowSize minSamples) ops=some d ∧
      d.Tracks (fun key => recorded key ops) ∧ d.windowSize=windowSize ∧
      d.minSamples=minSamples := by
  induction ops using List.reverseRecOn with
  | nil => exact ⟨_,rfl,Detector.tracks_new windowSize minSamples,rfl,rfl⟩
  | append_singleton ops op ih =>
    obtain ⟨d,hr,tracks,size,samples⟩ := ih
    cases op with
    | ping key stdout now =>
      obtain ⟨e,he⟩ := tracks.exists_ping (size ▸ cells) key stdout now
      have sizes := Detector.ping_sizes d e key stdout now he
      refine ⟨e,(run_snoc _ _ _ _ _).mpr ⟨d,hr,he⟩,?_,sizes.1.trans size,sizes.2.trans samples⟩
      rw [recorded_ping]
      exact tracks.ping key stdout now he
    | delKey key =>
      refine ⟨d.delKey key,(run_snoc _ _ _ _ _).mpr ⟨d,hr,rfl⟩,?_,size,samples⟩
      rw [recorded_delKey]
      exact tracks.delKey key

/-- Phi on a key with a recorded sample, for any order of countMap. -/
theorem Detector.phi_tracks (d : Detector) {samples : GoString → List StatusAndTime}
    (ht : d.Tracks samples) (fits : d.minSamples≤d.windowSize) {key : GoString}
    (sampled : samples key≠[]) (order : List (GossipStatus × Nat)) :
    ((samples key).length<d.minSamples → d.phi key order=some gossipLessThanMinsample) ∧
      (d.minSamples≤(samples key).length →
        Enumerates order (tally ((lastN d.minSamples (samples key)).map StatusAndTime.status)) →
        d.phi key order=
          some (windowVerdict ((lastN d.minSamples (samples key)).map StatusAndTime.status))) := by
  have hk := ht key
  cases hw : d.w.lookup key with
  | none =>
    rw [hw] at hk
    exact absurd hk sampled
  | some w =>
    rw [hw] at hk
    have len := hk.1.len
    rw [hk.2] at len
    constructor
    · intro short
      exact d.phi_short hw (by omega) order
    · intro enough ho
      rw [d.phi_full hw hk.1 (by omega),if_pos ho]

end StCache
