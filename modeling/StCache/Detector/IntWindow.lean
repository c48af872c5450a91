import Mathlib.Data.List.Infix
import StCache.Detector.Windowed
import StCache.Framework.Runs

namespace StCache

/-- A slice of samples: its elements of 40 bytes lie in the address space. -/
structure SampleSlice where
  items : List StatusAndTime
  fits : 40*items.length<2^63

namespace SampleSlice

/-- `make([]StatusAndTime,n)`; none is the panic of a length out of range. -/
def make (n : Int64) : Option SampleSlice :=
  if h : 0≤n.toInt ∧ 40*n.toInt<2^63 then
    some ⟨List.replicate n.toInt.toNat {},by rw [List.length_replicate]; omega⟩
  else none

def len (a : SampleSlice) : Int64 := Int64.ofNat a.items.length

/-- `a[i]`; none is the panic of an index out of range. -/
def get? (a : SampleSlice) (i : Int64) : Option StatusAndTime :=
  if i.toInt<0 then none else a.items[i.toInt.toNat]?

/-- `a[i] = x` at an index in range. -/
def set (a : SampleSlice) (i : Int64) (x : StatusAndTime) : SampleSlice :=
  ⟨a.items.set i.toInt.toNat x,by rw [List.length_set]; exact a.fits⟩

theorem toInt_len (a : SampleSlice) : a.len.toInt=a.items.length :=
  Int64.toInt_ofNat_of_lt (by have fits := a.fits; omega)

end SampleSlice

/-- Windowed with the machine integers of the source. -/
structure IntWindow where
  data : SampleSlice
  head : Int64 := 0
  length : Int64 := 0

namespace IntWindow

def new (capacity : Int64) : Option IntWindow :=
  (SampleSlice.make capacity).map (fun data => {data := data})

def push (w : IntWindow) (n : StatusAndTime) : Option (IntWindow × StatusAndTime) :=
  match w.data.get? w.head with
  | none => none
  | some old =>
    let data := w.data.set w.head n
    let head := w.head+1
    some ({data := data,head := if data.len ≤ head then 0 else head,length := w.length+1},old)

def len (w : IntWindow) : Int64 := if w.length < w.data.len then w.length else w.data.len

/-- `w.data[(w.head-1-i+length)%length]`; a zero length panics. -/
def sampleAt (w : IntWindow) (i : Int64) : Option StatusAndTime :=
  if w.len=0 then none else w.data.get? ((w.head-1-i+w.len)%w.len)

/-- The loop of LastNSamples fills the result from its end. -/
def fill (w : IntWindow) : Nat → Option (List StatusAndTime)
  | 0 => some []
  | n+1 => (w.fill n).bind (fun ret => (w.sampleAt (Int64.ofNat n)).map (fun x => x::ret))

def lastNSamples (w : IntWindow) (samples : Int64) : Option (List StatusAndTime) :=
  (SampleSlice.make samples).bind (fun ret => w.fill ret.items.length)

/-- The old data is dropped and the new data copied. -/
def set (_ : IntWindow) (data : SampleSlice) : IntWindow :=
  {data := data,head := 0,length := data.len}

end IntWindow

inductive WindowOp where
  | push (n : StatusAndTime)
  | set (data : SampleSlice)

def WindowOp.isPush : WindowOp → Bool
  | .push _ => true
  | .set _ => false

def IntWindow.step (w : IntWindow) : WindowOp → Option IntWindow
  | .push n => (w.push n).map Prod.fst
  | .set data => some (w.set data)

/-- What a window stands for: the samples since the start or the last Set, with the data of
that Set in front, and how many of them it keeps. -/
structure WindowHistory where
  samples : List StatusAndTime := []
  capacity : Nat

namespace WindowHistory

def step (h : WindowHistory) : WindowOp → WindowHistory
  | .push n => {h with samples := h.samples++[n]}
  | .set data => ⟨data.items,data.items.length⟩

def run (capacity : Nat) (ops : List WindowOp) : WindowHistory :=
  ops.foldl step {capacity := capacity}

theorem run_snoc (capacity : Nat) (ops : List WindowOp) (op : WindowOp) :
    run capacity (ops++[op])=(run capacity ops).step op := by
  rw [run,List.foldl_append]
  rfl

end WindowHistory

namespace IntWindow

/-- The machine integers have not wrapped around. -/
structure Refines (w : IntWindow) (v : Windowed) : Prop where
  data : w.data.items=v.data
  head : w.head.toInt=v.head
  length : w.length.toInt=v.length

theorem Refines.lenData {w : IntWindow} {v : Windowed} (h : w.Refines v) :
    w.data.len.toInt=v.data.length := by
  rw [w.data.toInt_len,h.data]

theorem Refines.len {w : IntWindow} {v : Windowed} (h : w.Refines v) :
    w.len.toInt=v.len := by
  have cells := h.lenData
  have length := h.length
  rw [IntWindow.len,Windowed.len]
  simp only [Int64.lt_iff_toInt_lt]
  split_ifs <;> omega

/-- A read inside the data. -/
theorem Refines.get? {w : IntWindow} {v : Windowed} (h : w.Refines v) {i : Int64} {j : Nat}
    (same : i.toInt=j) : w.data.get? i=v.data[j]? := by
  rw [SampleSlice.get?,if_neg (by omega),same,Int.toNat_natCast,h.data]

theorem toInt_succ {x : Int64} {n : Nat} (same : x.toInt=n) (small : n+1<2^63) :
    (x+1).toInt=((n+1 : Nat) : Int) := by
  rw [Int64.toInt_add,same,Int64.toInt_one,Int.bmod_eq_of_le (by omega) (by omega)]
  rfl

/-- The source's Push as an update, wherever the head is in range. -/
theorem push_eq {w : IntWindow} {old : StatusAndTime} (read : w.data.get? w.head=some old)
    (n : StatusAndTime) :
    w.push n=some ({
      data := w.data.set w.head n
      head := if (w.data.set w.head n).len ≤ w.head+1 then 0 else w.head+1
      length := w.length+1},old) := by
  rw [IntWindow.push,read]

theorem Refines.push {w : IntWindow} {v v' : Windowed} (h : w.Refines v) {n old : StatusAndTime}
    (pushed : v.push n=some (v',old)) (few : v'.length<2^63) :
    ∃ w',w.push n=some (w',old) ∧ w'.Refines v' := by
  rw [Windowed.push] at pushed
  split at pushed
  · cases pushed
  · next cell found =>
    cases pushed
    obtain ⟨inside,-⟩ := List.getElem?_eq_some_iff.mp found
    have fits := w.data.fits
    rw [h.data] at fits
    have next := toInt_succ h.head (show v.head+1<2^63 by omega)
    have cells : (w.data.set w.head n).len.toInt=v.data.length := by
      rw [SampleSlice.toInt_len,SampleSlice.set,List.length_set,h.data]
    have items : (w.data.set w.head n).items=v.data.set v.head n := by
      show w.data.items.set w.head.toInt.toNat n=v.data.set v.head n
      rw [h.data,h.head,Int.toNat_natCast]
    refine ⟨_,push_eq ((h.get? h.head).trans found) n,items,?_,toInt_succ h.length few⟩
    simp only [Int64.le_iff_toInt_le,cells,next]
    split_ifs with wrap wrap' wrap'
    · rfl
    · omega
    · omega
    · exact next

/-- The index that LastNSamples computes does not leave the range of int. -/
theorem Refines.index {w : IntWindow} {v : Windowed} (h : w.Refines v) {i : Nat}
    (inside : v.head<v.data.length) (hi : i<v.len) :
    ((w.head-1-Int64.ofNat i+w.len)%w.len).toInt=((v.head : Int)-1-i+v.len).tmod v.len := by
  have fits := w.data.fits
  rw [h.data] at fits
  have most : v.len ≤ v.data.length := by
    rw [Windowed.len]
    split_ifs <;> omega
  have step : (Int64.ofNat i).toInt=i := Int64.toInt_ofNat_of_lt (by omega)
  have back : (w.head-1).toInt=(v.head : Int)-1 := by
    rw [Int64.toInt_sub,h.head,Int64.toInt_one,Int.bmod_eq_of_le (by omega) (by omega)]
  have before : (w.head-1-Int64.ofNat i).toInt=(v.head : Int)-1-i := by
    rw [Int64.toInt_sub,back,step,Int.bmod_eq_of_le (by omega) (by omega)]
  rw [Int64.toInt_mod,Int64.toInt_add,before,h.len,Int.bmod_eq_of_le (by omega) (by omega)]

theorem Refines.sampleAt {w : IntWindow} {v : Windowed} (h : w.Refines v) {i : Nat}
    (inside : v.head<v.data.length) (hi : i<v.len) :
    w.sampleAt (Int64.ofNat i)=v.sampleAt i := by
  have some' : w.len≠0 := by
    intro zero
    have len := h.len
    rw [zero,Int64.toInt_zero] at len
    omega
  have some'' : ¬v.len=0 := by omega
  rw [IntWindow.sampleAt,if_neg some',SampleSlice.get?,Windowed.sampleAt,if_neg some'',
    h.index inside hi,h.data]

theorem Refines.fill {w : IntWindow} {v : Windowed} (h : w.Refines v)
    (inside : v.head<v.data.length) (n : Nat) (hn : n ≤ v.len) :
    w.fill n=v.lastNSamples n := by
  induction n with
  | zero => rfl
  | succ n ih =>
    rw [IntWindow.fill,Windowed.lastNSamples,ih (by omega),h.sampleAt inside hn]

/-- The window has the history behind it. -/
structure Tracks (w : IntWindow) (h : WindowHistory) (v : Windowed) : Prop where
  refines : w.Refines v
  holds : v.Holds h.samples
  cells : v.data.length=h.capacity

theorem tracks_new {capacity : Int64} {w : IntWindow} (positive : 1 ≤ capacity.toInt)
    (made : new capacity=some w) :
    Tracks w {capacity := capacity.toInt.toNat} (.new capacity.toInt.toNat) := by
  rw [new,Option.map_eq_some_iff] at made
  obtain ⟨data,make,rfl⟩ := made
  rw [SampleSlice.make] at make
  split_ifs at make
  cases make
  exact ⟨⟨rfl,rfl,rfl⟩,Windowed.holds_new _ (by omega),by simp [Windowed.new]⟩

theorem Tracks.inside {w : IntWindow} {h : WindowHistory} {v : Windowed} (k : w.Tracks h v) :
    v.head<v.data.length := by
  rw [k.holds.head]
  exact Nat.mod_lt _ k.holds.cyclic.nonempty

theorem Tracks.push {w : IntWindow} {h : WindowHistory} {v : Windowed} (k : w.Tracks h v)
    (n : StatusAndTime) (few : h.samples.length+1<2^63) :
    ∃ w' v',w.step (.push n)=some w' ∧ w'.Tracks (h.step (.push n)) v' := by
  obtain ⟨v',old,pushed,holds,cells⟩ := k.holds.push n
  have length : v'.length<2^63 := by
    rw [holds.length,List.length_append,List.length_singleton]
    exact few
  obtain ⟨w',stored,refines⟩ := k.refines.push pushed length
  refine ⟨w',v',?_,refines,holds,cells.trans k.cells⟩
  rw [step,stored]
  rfl

theorem tracks_set (w : IntWindow) (h : WindowHistory) (v : Windowed) (data : SampleSlice)
    (some' : data.items≠[]) : (w.set data).Tracks (h.step (.set data)) (v.set data.items) :=
  ⟨⟨rfl,rfl,data.toInt_len⟩,v.holds_set some',rfl⟩

/-- What the window answers is decided by its history. -/
theorem Tracks.answers {w : IntWindow} {h : WindowHistory} {v : Windowed} (k : w.Tracks h v) :
    w.len.toInt=(min h.samples.length h.capacity : Nat) ∧
      ∀ n : Int64,0≤n.toInt → n ≤ w.len →
        w.lastNSamples n=some (lastN n.toInt.toNat h.samples) := by
  have len : w.len.toInt=v.len := k.refines.len
  have fits := w.data.fits
  rw [k.refines.data] at fits
  have most := k.holds.len
  refine ⟨by rw [len,most,k.cells],?_⟩
  intro n low high
  rw [Int64.le_iff_toInt_le,len] at high
  have size : 0≤n.toInt ∧ 40*n.toInt<2^63 := by omega
  rw [lastNSamples,SampleSlice.make,dif_pos size,Option.bind_some,List.length_replicate,
    k.refines.fill k.inside _ (by omega)]
  exact k.holds.lastNSamples _ (by omega)

theorem run_tracks {capacity : Int64} {w : IntWindow} (positive : 1 ≤ capacity.toInt)
    (made : new capacity=some w) (ops : List WindowOp)
    (filled : ∀ data,.set data∈ops → data.items≠[])
    (few : ∀ done,done <+: ops →
      (WindowHistory.run capacity.toInt.toNat done).samples.length<2^63) :
    ∃ w' v,run step w ops=some w' ∧ w'.Tracks (WindowHistory.run capacity.toInt.toNat ops) v := by
  induction ops using List.reverseRecOn with
  | nil => exact ⟨w,_,rfl,tracks_new positive made⟩
  | append_singleton ops op ih =>
    obtain ⟨u,v,before,tracks⟩ := ih (fun data hd => filled data (List.mem_append_left _ hd))
      (fun done hd => few done (hd.trans (List.prefix_append ops [op])))
    have now := few (ops++[op]) (List.prefix_refl _)
    rw [WindowHistory.run_snoc] at now ⊢
    cases op with
    | push n =>
      have short : (WindowHistory.run capacity.toInt.toNat ops).samples.length+1<2^63 := by
        rw [WindowHistory.step,List.length_append,List.length_singleton] at now
        exact now
      obtain ⟨w',v',last,tracks'⟩ := tracks.push n short
      exact ⟨w',v',(run_snoc step w w' ops _).mpr ⟨u,before,last⟩,tracks'⟩
    | set data =>
      have some' := filled data (List.mem_append_right _ (List.mem_singleton.mpr rfl))
      exact ⟨u.set data,_,(run_snoc step w _ ops _).mpr ⟨u,before,rfl⟩,tracks_set u _ v data some'⟩

/-- As long as fewer than 2^63 samples are behind it, the window is a ring buffer: Len is the
number of samples it keeps, no index leaves its data, and LastNSamples are the last samples. -/
theorem ring_buffer_correct (capacity : Int64) (positive : 1 ≤ capacity.toInt) (w : IntWindow)
    (made : new capacity=some w) (ops : List WindowOp)
    (filled : ∀ data,.set data∈ops → data.items≠[])
    (few : ∀ done,done <+: ops →
      (WindowHistory.run capacity.toInt.toNat done).samples.length<2^63) :
    ∃ w',run step w ops=some w' ∧
      w'.len.toInt=(min (WindowHistory.run capacity.toInt.toNat ops).samples.length
        (WindowHistory.run capacity.toInt.toNat ops).capacity : Nat) ∧
      ∀ n : Int64,0≤n.toInt → n ≤ w'.len → w'.lastNSamples n=
        some (lastN n.toInt.toNat (WindowHistory.run capacity.toInt.toNat ops).samples) := by
  obtain ⟨w',v,ran,tracks⟩ := run_tracks positive made ops filled few
  exact ⟨w',ran,tracks.answers⟩

def sample (status : GoString) : StatusAndTime := {status := status}

/-- Three samples go through two cells, then three cells are set and the first is overwritten. -/
def setAndPushed : List WindowOp :=
  [.push (sample [1]),.push (sample [2]),.push (sample [3]),
    .set ⟨[sample [4],sample [5],sample [6]],by decide⟩,.push (sample [7])]

theorem ring_buffer_correct_set :
    ∃ w w',new 2=some w ∧ run step w setAndPushed=some w' ∧ w'.len.toInt=3 ∧
      w'.lastNSamples 2=some [sample [6],sample [7]] := by
  have few : ∀ done,done <+: setAndPushed → (WindowHistory.run 2 done).samples.length<2^63 := by
    intro done hd
    have all : ∀ d∈setAndPushed.inits,(WindowHistory.run 2 d).samples.length<2^63 := by
      decide +kernel
    exact all done ((List.mem_inits done setAndPushed).mpr hd)
  have filled : ∀ data,.set data∈setAndPushed → data.items≠[] := by
    intro data hd
    simp only [setAndPushed,List.mem_cons,reduceCtorEq,WindowOp.set.injEq,false_or,or_false,
      List.not_mem_nil] at hd
    rw [hd]
    exact List.cons_ne_nil _ _
  obtain ⟨w',ran,len,last⟩ := ring_buffer_correct 2 (by decide) _ rfl setAndPushed filled few
  have three : w'.len.toInt=3 := len
  refine ⟨_,w',rfl,ran,three,?_⟩
  exact last 2 (by decide) (by rw [Int64.le_iff_toInt_le,three]; decide)

/-- A Set of one sample and n times Push. -/
def stuffed : Nat → List WindowOp
  | 0 => [.set ⟨[{}],by decide⟩]
  | n+1 => stuffed n++[.push {}]

theorem stuffed_facts (n : Nat) :
    (∀ data,.set data∈stuffed n → data.items≠[]) ∧ (stuffed n).countP WindowOp.isPush=n ∧
      (WindowHistory.run 1 (stuffed n)).samples.length=n+1 := by
  induction n with
  | zero =>
    refine ⟨?_,rfl,rfl⟩
    intro data hd
    have one := WindowOp.set.inj (List.mem_singleton.mp hd)
    rw [one]
    exact List.cons_ne_nil _ _
  | succ n ih =>
    obtain ⟨filled,pushes,length⟩ := ih
    refine ⟨?_,?_,?_⟩
    · intro data hd
      cases List.mem_append.mp hd with
      | inl before => exact filled data before
      | inr last => cases List.mem_singleton.mp last
    · rw [stuffed,List.countP_append,pushes]
      rfl
    · rw [stuffed,WindowHistory.run_snoc,WindowHistory.step,List.length_append,length]
      rfl

theorem run_stuffed (w : IntWindow) (n : Nat) (few : n+1<2^63) :
    ∃ w' v,run step w (stuffed n)=some w' ∧ w'.Tracks (WindowHistory.run 1 (stuffed n)) v := by
  induction n with
  | zero => exact ⟨_,_,rfl,tracks_set w {capacity := 1} (.new 1) _ (List.cons_ne_nil _ _)⟩
  | succ n ih =>
    obtain ⟨u,v,before,tracks⟩ := ih (by omega)
    have length := (stuffed_facts n).2.2
    obtain ⟨w',v',last,tracks'⟩ := tracks.push {} (by omega)
    refine ⟨w',v',(run_snoc step w w' (stuffed n) _).mpr ⟨u,before,last⟩,?_⟩
    rw [stuffed,WindowHistory.run_snoc]
    exact tracks'

/-- Push never leaves the data, whatever the length has come to. -/
theorem Refines.push_returns {w : IntWindow} {v : Windowed} (h : w.Refines v)
    (inside : v.head<v.data.length) (n : StatusAndTime) :
    ∃ w' old,w.push n=some (w',old) ∧ w'.length=w.length+1 :=
  ⟨_,_,push_eq ((h.get? h.head).trans (List.getElem?_eq_getElem inside)) n,rfl⟩

/-- A length that has wrapped around is negative, and so is Len. -/
theorem len_wrapped {w w' : IntWindow} (most : w.length.toInt=2^63-1)
    (next : w'.length=w.length+1) : w'.len.toInt<0 := by
  have top : w.length=Int64.maxValue := by
    rw [←Int64.toInt_inj,most]
    decide
  have wrapped : w'.length=Int64.minValue := by
    rw [next,top]
    decide
  have low : Int64.minValue.toInt<0 := by decide
  have least : w'.length < w'.data.len := by
    rw [Int64.lt_iff_toInt_lt,wrapped,SampleSlice.toInt_len]
    omega
  rw [len,if_pos least,wrapped]
  exact low

theorem stuffed_wraps (w : IntWindow) (n : Nat) (full : n+2=2^63) :
    ∃ w',run step w (stuffed (n+1))=some w' ∧ w'.len.toInt<0 := by
  obtain ⟨u,v,before,tracks⟩ := run_stuffed w n (by omega)
  obtain ⟨w',old,pushed,length⟩ := tracks.refines.push_returns tracks.inside {}
  have last : u.step (.push {})=some w' := by
    rw [step,pushed]
    rfl
  refine ⟨w',(run_snoc step w w' (stuffed n) _).mpr ⟨u,before,last⟩,len_wrapped ?_ length⟩
  rw [tracks.refines.length,tracks.holds.length,(stuffed_facts n).2.2]
  omega

/-- The length starts with the data of the last Set: 2^63-1 times Push after a Set of one sample
make it wrap around, and Len is negative. -/
theorem len_wraps :
    ∃ w w' ops,new 1=some w ∧ (∀ data,.set data∈ops → data.items≠[]) ∧
      ops.countP WindowOp.isPush<2^63 ∧ run step w ops=some w' ∧
      w'.len.toInt≠(min (WindowHistory.run 1 ops).samples.length
        (WindowHistory.run 1 ops).capacity : Nat) := by
  obtain ⟨n,full⟩ : ∃ n : Nat,n+2=2^63 := ⟨2^63-2,by omega⟩
  obtain ⟨w',ran,negative⟩ := stuffed_wraps {data := ⟨[{}],by decide⟩} n full
  obtain ⟨filled,pushes,-⟩ := stuffed_facts (n+1)
  refine ⟨_,w',stuffed (n+1),rfl,filled,by omega,ran,?_⟩
  omega

end IntWindow

end StCache
