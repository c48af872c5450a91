import Mathlib.Algebra.Ring.Int.Defs
import Mathlib.Data.List.Basic

namespace StCache

/-- A Go string is a sequence of bytes; nothing makes it valid UTF-8. -/
abbrev GoString := List UInt8

def goStr (s : String) : GoString := s.toUTF8.data.toList

/-- `strings.TrimSuffix(s,"\n")` -/
def trimNewline (s : GoString) : GoString :=
  if s.getLast?=some 10 then s.dropLast else s

def digitByte (c : Char) : UInt8 := UInt8.ofNat c.toNat

def formatNat (n : Nat) : GoString := (Nat.toDigits 10 n).map digitByte

/-- `strconv.FormatInt(i,10)` -/
def formatInt (i : Int64) : GoString :=
  if i.toInt<0 then 45::formatNat i.toInt.natAbs else formatNat i.toInt.natAbs

def isDigitByte (b : UInt8) : Bool := 48≤b.toNat && b.toNat≤57

/-- Decimal digits only, at least one: a sign or an underscore is an error. -/
def parseDigits (s : GoString) : Option Nat :=
  if s=[] then none
  else if s.all isDigitByte then some (s.foldl (fun n b => n*10+(b.toNat-48)) 0)
  else none

def inInt64 (i : Int) : Option Int64 :=
  if -2^63 ≤ i ∧ i<2^63 then some (Int64.ofInt i) else none

/-- `strconv.ParseInt(s,10,64)`; none is a syntax or a range error. -/
def parseInt : GoString → Option Int64
  | 43::s => (parseDigits s).bind (fun n => inInt64 n)
  | 45::s => (parseDigits s).bind (fun n => inInt64 (-n))
  | s => (parseDigits s).bind (fun n => inInt64 n)

/-- `strconv.FormatBool` -/
def formatBool (b : Bool) : GoString := if b then goStr "true" else goStr "false"

/-- `strconv.ParseBool`; none is its syntax error. -/
def parseBool (s : GoString) : Option Bool :=
  if s∈[goStr "1",goStr "t",goStr "T",goStr "TRUE",goStr "true",goStr "True"] then some true
  else if s∈[goStr "0",goStr "f",goStr "F",goStr "FALSE",goStr "false",goStr "False"] then
    some false
  else none


private theorem digitByte_toNat (c : Char) (h : c.isDigit) :
    (digitByte c).toNat=c.toNat ∧ 48 ≤ c.toNat ∧ c.toNat≤57 := by
  have range : 48 ≤ c.toNat ∧ c.toNat≤57 := by
    simp only [Char.isDigit,Bool.and_eq_true,decide_eq_true_eq] at h
    exact ⟨h.1,h.2⟩
  refine ⟨?_,range⟩
  simp only [digitByte,UInt8.toNat_ofNat']
  omega

theorem formatNat_digits (n : Nat) : (formatNat n).all isDigitByte=true := by
  simp only [formatNat,List.all_map,List.all_eq_true,Function.comp]
  intro c hc
  have h := digitByte_toNat c (Nat.isDigit_of_mem_toDigits (by decide) (by decide) hc)
  simp only [isDigitByte,h.1,Bool.and_eq_true,decide_eq_true_eq]
  exact h.2

theorem formatNat_ne_nil (n : Nat) : formatNat n≠[] := by
  simp [formatNat]

theorem formatNat_value (n : Nat) :
    (formatNat n).foldl (fun n b => n*10+(b.toNat-48)) 0=n := by
  have fold (cs : List Char) (hd : ∀ c∈cs,c.isDigit) (acc : Nat) :
      (cs.map digitByte).foldl (fun n b => n*10+(b.toNat-48)) acc=Nat.ofDigitChars 10 cs acc := by
    induction cs generalizing acc with
    | nil => rfl
    | cons c cs ih =>
      have h := digitByte_toNat c (hd c (by simp))
      rw [List.map_cons,List.foldl_cons,Nat.ofDigitChars_cons,h.1,Nat.mul_comm acc 10]
      exact ih (fun d hm => hd d (by simp [hm])) _
  rw [formatNat,fold _ (fun c hc => Nat.isDigit_of_mem_toDigits (by decide) (by decide) hc)]
  exact Nat.ofDigitChars_ten_toDigits

theorem parseDigits_formatNat (n : Nat) : parseDigits (formatNat n)=some n := by
  rw [parseDigits,if_neg (formatNat_ne_nil n),if_pos (formatNat_digits n),formatNat_value]

theorem inInt64_toInt (i : Int64) : inInt64 i.toInt=some i := by
  have low := i.le_toInt
  have high := i.toInt_lt
  rw [inInt64,if_pos ⟨low,high⟩,Int64.ofInt_toInt]

/-- Every int64 survives decimal formatting, both range limits included. -/
theorem parseInt_formatInt (i : Int64) : parseInt (formatInt i)=some i := by
  unfold formatInt
  split_ifs with h
  · have value : -(i.toInt.natAbs : Int)=i.toInt := by omega
    simp only [parseInt,parseDigits_formatNat,Option.bind_some,value,inInt64_toInt]
  · have value : (i.toInt.natAbs : Int)=i.toInt := by omega
    have digits := formatNat_digits i.toInt.natAbs
    have parsed := parseDigits_formatNat i.toInt.natAbs
    rw [parseInt]
    · rw [parsed,Option.bind_some,value,inInt64_toInt]
    · intro s hs
      rw [hs] at digits
      simp [isDigitByte] at digits
    · intro s hs
      rw [hs] at digits
      simp [isDigitByte] at digits

theorem parseBool_formatBool (b : Bool) : parseBool (formatBool b)=some b := by
  cases b <;> decide

end StCache
