import StCache.Framework.Clock
import StCache.Framework.CyclicBuffer
import StCache.Framework.Strconv

namespace StCache

structure StatusAndTime where
  status : GoString := []
  time : GoTime := .zero
  deriving DecidableEq

structure Windowed where
  data : List StatusAndTime
  head : Nat := 0
  length : Nat := 0
  deriving DecidableEq

namespace Windowed

/-- NewWindowed -/
def new (capacity : Nat) : Windowed := {data := List.replicate capacity {}}

/-- None is the panic of indexing past the end. The second result is the sample
that was overwritten. -/
def push (w : Windowed) (n : StatusAndTime) : Option (Windowed × StatusAndTime) :=
  match w.data[w.head]? with
  | none => none
  | some old => some ({
      data := w.data.set w.head n
      head := if w.data.length ≤ w.head+1 then 0 else w.head+1
      length := w.length+1},old)

def len (w : Windowed) : Nat := if w.length<w.data.length then w.length else w.data.length

/-- `w.data[(w.head-1-i+length)%length]` with Go's truncated remainder. A zero
length or a negative index panics. -/
def sampleAt (w : Windowed) (i : Nat) : Option StatusAndTime :=
  if w.len=0 then none
  else
    let j : Int := ((w.head : Int)-1-i+w.len).tmod w.len
    if j<0 then none else w.data[j.toNat]?

/-- The loop of LastNSamples fills the result from its end. -/
def lastNSamples (w : Windowed) : Nat → Option (List StatusAndTime)
  | 0 => some []
  | n+1 => (w.lastNSamples n).bind (fun ret => (w.sampleAt n).map (fun x => x::ret))

/-- Set: the data of the window is replaced, and Push goes on with its first element. -/
def set (_ : Windowed) (data : List StatusAndTime) : Windowed :=
  {data := data,head := 0,length := data.length}

/-- The window holds the end of this history of samples. -/
structure Holds (w : Windowed) (history : List StatusAndTime) : Prop where
  cyclic : Cyclic w.data history
  head : w.head=nextCell w.data history
  length : w.length=history.length

theorem holds_new (capacity : Nat) (h : 0<capacity) : Holds (new capacity) [] := by
  refine ⟨Cyclic.blank _ (by simpa [new] using h),?_,rfl⟩
  simp [new,nextCell]

theorem holds_set (w : Windowed) {data : List StatusAndTime} (h : data≠[]) :
    Holds (w.set data) data := by
  refine ⟨Cyclic.full data (List.length_pos_iff.mpr h),?_,rfl⟩
  simp [set,nextCell]

theorem Holds.len {w : Windowed} {history : List StatusAndTime} (h : Holds w history) :
    w.len=min history.length w.data.length := by
  rw [Windowed.len,h.length]
  split_ifs <;> omega

theorem Holds.push {w : Windowed} {history : List StatusAndTime} (h : Holds w history)
    (n : StatusAndTime) :
    ∃ v old,w.push n=some (v,old) ∧ Holds v (history++[n]) ∧ v.data.length=w.data.length := by
  have hc := h.cyclic.nonempty
  have inside : w.head<w.data.length := by rw [h.head]; exact Nat.mod_lt _ hc
  refine ⟨_,w.data[w.head],by rw [Windowed.push,List.getElem?_eq_getElem inside],
    ⟨?_,?_,?_⟩,by simp⟩
  · rw [h.head]
    exact h.cyclic.push n
  · simp only [nextCell,List.length_set,List.length_append,List.length_singleton]
    have hh : w.head=history.length%w.data.length := h.head
    have next := Nat.add_mod history.length 1 w.data.length
    split_ifs with wrap
    · have full : w.head+1=w.data.length := by omega
      by_cases one : w.data.length=1
      · rw [one,Nat.mod_one]
      · rw [next,Nat.mod_eq_of_lt (show 1<w.data.length by omega),←hh,full,Nat.mod_self]
    · rw [next,Nat.mod_eq_of_lt (show 1<w.data.length by omega),←hh,Nat.mod_eq_of_lt (by omega)]
  · simp [h.length]

/-- Both before and after the first wrap-around the computed index is the cell
of the i-th sample from the end. -/
theorem Holds.sampleAt {w : Windowed} {history : List StatusAndTime} (h : Holds w history)
    (i : Nat) (hi : i<w.len) :
    w.sampleAt i=history[history.length-1-i]? := by
  have hl := h.len
  have hh : w.head=history.length%w.data.length := h.head
  have index : (((w.head : Int)-1-i+w.len).tmod w.len)=
      (((history.length-1-i)%w.data.length : Nat) : Int) := by
    have cast : (w.head : Int)-1-i+w.len=((w.head+(w.len-1-i) : Nat) : Int) := by omega
    rw [cast,←Int.ofNat_tmod,hl,hh,back_index _ _ _ (by omega) (by omega)]
  rw [Windowed.sampleAt,if_neg (by omega)]
  simp only [index]
  rw [if_neg (by omega),Int.toNat_natCast]
  exact h.cyclic.read_back i (by omega) (by omega)

theorem Holds.lastNSamples {w : Windowed} {history : List StatusAndTime} (h : Holds w history)
    (n : Nat) (hn : n ≤ w.len) : w.lastNSamples n=some (lastN n history) := by
  induction n with
  | zero => rw [lastN_zero]; rfl
  | succ n ih =>
    have inside : n<history.length := by rw [h.len] at hn; omega
    have sample := h.sampleAt n (by omega)
    rw [List.getElem?_eq_getElem (by omega)] at sample
    rw [Windowed.lastNSamples,ih (by omega),Option.bind_some,sample,lastN_succ n history inside]
    rfl

end Windowed

end StCache
