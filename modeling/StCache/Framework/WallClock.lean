import StCache.Framework.Clock

namespace StCache

/-- `time.Unix` brings nanoseconds outside [0,1e9) into that range, with truncated division. -/
def carrySeconds (sec nsec : Int64) : Int64 × Int64 :=
  if nsec < 0 ∨ 1000000000 ≤ nsec then
    let n := nsec/1000000000
    let sec := sec+n
    let nsec := nsec-n*1000000000
    if nsec < 0 then (sec-1,nsec+1000000000) else (sec,nsec)
  else (sec,nsec)

/-- The nanoseconds that remain are the truncated remainder. -/
theorem toInt_rest (nsec : Int64) :
    (nsec-nsec/1000000000*1000000000).toInt=nsec.toInt.tmod 1000000000 := by
  obtain ⟨split,⟨above,below⟩,low,high⟩ := billion_split nsec
  have sign : 0≤nsec.toInt → 0≤nsec.toInt.tmod 1000000000 :=
    fun h => Int.tmod_nonneg 1000000000 h
  have sign' : nsec.toInt≤0 → nsec.toInt.tmod 1000000000≤0 := by
    intro h
    have flip := Int.neg_tmod nsec.toInt 1000000000
    have rest := Int.tmod_nonneg 1000000000 (show 0≤-nsec.toInt by omega)
    omega
  have whole : (nsec/1000000000*1000000000).toInt=nsec.toInt.tdiv 1000000000*1000000000 := by
    rw [Int64.toInt_mul,toInt_div_billion,toInt_billion]
    exact Int.bmod_eq_of_le (by omega) (by omega)
  rw [Int64.toInt_sub,whole,Int.bmod_eq_of_le (by omega) (by omega)]
  omega

theorem carrySeconds_range (sec nsec : Int64) :
    0≤(carrySeconds sec nsec).2.toInt ∧ (carrySeconds sec nsec).2.toInt<1000000000 := by
  obtain ⟨split,⟨above,below⟩,low,high⟩ := billion_split nsec
  have rest := toInt_rest nsec
  simp only [carrySeconds,Int64.lt_iff_toInt_lt,Int64.le_iff_toInt_le,Int64.toInt_zero,
    toInt_billion]
  split_ifs with out negative
  · rw [Int64.toInt_add,rest,toInt_billion,Int.bmod_eq_of_le (by omega) (by omega)]
    omega
  · dsimp only
    omega
  · dsimp only
    omega

/-- The carry does not change the instant, far from the limits of int64 seconds. -/
theorem carrySeconds_total (sec nsec : Int64) (low : -2^62 ≤ sec.toInt) (high : sec.toInt≤2^62) :
    (carrySeconds sec nsec).1.toInt*1000000000+(carrySeconds sec nsec).2.toInt=
        sec.toInt*1000000000+nsec.toInt ∧
      -2^62-2^34≤(carrySeconds sec nsec).1.toInt ∧ (carrySeconds sec nsec).1.toInt≤2^62+2^34 := by
  obtain ⟨split,⟨above,below⟩,least,most⟩ := billion_split nsec
  have rest := toInt_rest nsec
  have carried : (sec+nsec/1000000000).toInt=sec.toInt+nsec.toInt.tdiv 1000000000 := by
    rw [Int64.toInt_add,toInt_div_billion]
    exact Int.bmod_eq_of_le (by omega) (by omega)
  simp only [carrySeconds,Int64.lt_iff_toInt_lt,Int64.le_iff_toInt_le,Int64.toInt_zero,
    toInt_billion]
  split_ifs with out negative
  · have borrowed : (sec+nsec/1000000000-1).toInt=sec.toInt+nsec.toInt.tdiv 1000000000-1 := by
      rw [Int64.toInt_sub,carried,Int64.toInt_one]
      exact Int.bmod_eq_of_le (by omega) (by omega)
    have filled : (nsec-nsec/1000000000*1000000000+1000000000).toInt=
        nsec.toInt.tmod 1000000000+1000000000 := by
      rw [Int64.toInt_add,rest,toInt_billion]
      exact Int.bmod_eq_of_le (by omega) (by omega)
    rw [borrowed,filled]
    omega
  · rw [carried,rest]
    omega
  · dsimp only
    omega

/-- A `time.Time` without monotonic reading as it is stored: seconds since January 1 of year 1
and nanoseconds within the second. -/
structure WallTime where
  sec : Int64
  nsec : Int64
  range : 0≤nsec.toInt ∧ nsec.toInt<1000000000

namespace WallTime

/-- The seconds from January 1 of year 1 to the Unix epoch. -/
def unixToInternal : Int64 := 62135596800

/-- `time.Unix(sec,nsec)` -/
def unix (sec nsec : Int64) : WallTime :=
  ⟨(carrySeconds sec nsec).1+unixToInternal,(carrySeconds sec nsec).2,carrySeconds_range sec nsec⟩

/-- `t.UnixNano()`, product and sum in int64. -/
def unixNano (t : WallTime) : Int64 := (t.sec-unixToInternal)*1000000000+t.nsec

/-- `t.Before(u)` -/
def before (t u : WallTime) : Bool := t.sec < u.sec || (t.sec=u.sec && t.nsec < u.nsec)

/-- `time.Unix(ts/1e9,ts%1e9)` -/
def ofNano (ts : Int64) : WallTime := unix (ts/1000000000) (ts%1000000000)

/-- The instant that the two numbers stand for. -/
def instant (t : WallTime) : GoTime :=
  ⟨(t.sec.toInt-62135596800)*1000000000+t.nsec.toInt⟩

theorem unixNano_instant (t : WallTime) : t.instant.unixNano=t.unixNano := by
  rw [GoTime.unixNano,instant,Int64.ofInt_add,Int64.ofInt_mul,Int64.ofInt_sub,Int64.ofInt_toInt,
    Int64.ofInt_toInt]
  rfl

theorem before_iff (t u : WallTime) : t.before u=true ↔ t.instant.ns<u.instant.ns := by
  have ht := t.range
  have hu := u.range
  simp only [before,instant,Bool.or_eq_true,Bool.and_eq_true,decide_eq_true_eq,
    Int64.lt_iff_toInt_lt,←Int64.toInt_inj]
  omega

theorem instant_unix (sec nsec : Int64) (low : -2^62 ≤ sec.toInt) (high : sec.toInt≤2^62) :
    (unix sec nsec).instant=GoTime.unix sec nsec := by
  obtain ⟨total,least,most⟩ := carrySeconds_total sec nsec low high
  have offset : unixToInternal.toInt=62135596800 := by decide
  have shifted : ((carrySeconds sec nsec).1+unixToInternal).toInt=
      (carrySeconds sec nsec).1.toInt+62135596800 := by
    rw [Int64.toInt_add,offset]
    exact Int.bmod_eq_of_le (by omega) (by omega)
  simp only [instant,unix,GoTime.unix,shifted,GoTime.mk.injEq]
  omega

/-- The stored time of any nanoseconds is their instant. -/
theorem instant_ofNano (ts : Int64) : (ofNano ts).instant=GoTime.ofNano ts := by
  obtain ⟨split,⟨above,below⟩,low,high⟩ := billion_split ts
  have quotient := toInt_div_billion ts
  exact instant_unix _ _ (by omega) (by omega)

end WallTime

end StCache
