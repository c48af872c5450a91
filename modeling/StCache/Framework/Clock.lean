import Mathlib.Algebra.Ring.Int.Defs
import Mathlib.Data.Int.Basic

namespace StCache

/-- A `time.Time` without monotonic reading: nanoseconds since the Unix epoch. -/
structure GoTime where
  ns : Int
  deriving DecidableEq

/-- The zero `time.Time`, January 1 of year 1. -/
def GoTime.zero : GoTime := ⟨-62135596800*1000000000⟩

/-- `time.Unix(sec,nsec)`; nanoseconds outside [0,1e9) carry into the seconds. -/
def GoTime.unix (sec nsec : Int64) : GoTime := ⟨sec.toInt*1000000000+nsec.toInt⟩

/-- `t.UnixNano()`, an int64 that wraps for years outside 1678 to 2262. -/
def GoTime.unixNano (t : GoTime) : Int64 := Int64.ofInt t.ns

/-- `time.Unix(ts/1e9,ts%1e9)` with Go's truncated division. -/
def GoTime.ofNano (ts : Int64) : GoTime := GoTime.unix (ts/1000000000) (ts%1000000000)

/-- `time.Since(t)` on a clock that reads now, saturating at the int64 limits. -/
def since (now : Int64) (t : GoTime) : Int :=
  max (-2^63) (min (2^63-1) (now.toInt-t.ns))

/-- `time.Second*time.Duration(n)`, a product in int64. -/
def seconds (n : Int64) : Int := (1000000000*n).toInt

theorem toInt_billion : (1000000000 : Int64).toInt=1000000000 := by decide

/-- Truncated division of nanoseconds by 1e9, and how large its parts can be. -/
theorem billion_split (n : Int64) :
    n.toInt.tdiv 1000000000*1000000000+n.toInt.tmod 1000000000=n.toInt ∧
      (-1000000000<n.toInt.tmod 1000000000 ∧ n.toInt.tmod 1000000000<1000000000) ∧
      -2^63≤n.toInt ∧ n.toInt<2^63 := by
  have above := Int.lt_tmod_of_pos n.toInt (show (0 : Int)<1000000000 by decide)
  have below := Int.tmod_lt_of_pos n.toInt (show (0 : Int)<1000000000 by decide)
  exact ⟨Int.tdiv_mul_add_tmod n.toInt 1000000000,⟨above,below⟩,n.le_toInt,n.toInt_lt⟩

theorem toInt_div_billion (n : Int64) :
    (n/1000000000).toInt=n.toInt.tdiv 1000000000 := by
  obtain ⟨split,⟨above,below⟩,low,high⟩ := billion_split n
  rw [Int64.toInt_div,toInt_billion]
  exact Int.bmod_eq_of_le (by omega) (by omega)

theorem GoTime.ofNano_ns (ts : Int64) : (GoTime.ofNano ts).ns=ts.toInt := by
  simp only [GoTime.ofNano,GoTime.unix,toInt_div_billion,Int64.toInt_mod,toInt_billion]
  exact (billion_split ts).1

theorem GoTime.ofNano_unixNano (ts : Int64) : (GoTime.ofNano ts).unixNano=ts := by
  rw [GoTime.unixNano,GoTime.ofNano_ns,Int64.ofInt_toInt]

theorem seconds_eq (n : Int64) (low : -2^63≤1000000000*n.toInt)
    (high : 1000000000*n.toInt<2^63) : seconds n=1000000000*n.toInt := by
  rw [seconds,Int64.toInt_mul]
  exact Int.bmod_eq_of_le (by simpa using low) (by simpa using high)

/-- A logged instant is at most d ago, d far below the saturation limit. -/
theorem since_ofNano_le (now ts : Int64) (d : Int) (low : -2^63≤d) (high : d<2^63-1) :
    since now (GoTime.ofNano ts)≤d ↔ now.toInt-ts.toInt≤d := by
  rw [since,GoTime.ofNano_ns]
  omega

/-- Enough time passed since a logged instant: saturation cannot hide a
shorter distance from a bound that fits a Duration. -/
theorem since_ofNano_ge (now ts : Int64) (d : Int) (hd : d≤2^63-1)
    (h : ¬since now (GoTime.ofNano ts)<d) : ts.toInt+d≤now.toInt ∨ d≤-2^63 := by
  rw [since,GoTime.ofNano_ns] at h
  omega

/-- The zero time, or a time that an int64 of nanoseconds stands for. -/
def GoTime.Stored (t : GoTime) : Prop := t=.zero ∨ ∃ ts,t=.ofNano ts

/-- UnixNano of the zero time wraps around, to a value that is still later. -/
theorem GoTime.Stored.lt_of_unixNano_lt {t : GoTime} (h : t.Stored) (ts : Int64)
    (lt : t.unixNano<ts) : t.ns<ts.toInt := by
  rcases h with rfl|⟨t0,rfl⟩
  · have low := ts.le_toInt
    have first : GoTime.zero.ns< -2^63 := by decide
    omega
  · rw [GoTime.ofNano_unixNano] at lt
    rw [GoTime.ofNano_ns]
    exact Int64.lt_iff_toInt_lt.mp lt

end StCache
