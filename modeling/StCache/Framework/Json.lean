import StCache.Framework.Utf8

namespace StCache

namespace Json

/-- Lower-case hexadecimal digit. -/
def hexDigit (n : Nat) : UInt8 := if n<10 then UInt8.ofNat (48+n) else UInt8.ofNat (87+n)

def hexValue (b : UInt8) : Option Nat :=
  let n := b.toNat
  if 48≤n ∧ n≤57 then some (n-48)
  else if 97≤n ∧ n≤102 then some (n-87)
  else if 65≤n ∧ n≤70 then some (n-55)
  else none

/-- One byte inside a string literal. The characters `<`, `>` and `&` are escaped too. -/
def escapeByte (b : UInt8) : GoString :=
  if b=34 ∨ b=92 then [92,b]
  else if b=10 then [92,110]
  else if b=13 then [92,114]
  else if b=9 then [92,116]
  else if b.toNat<32 ∨ b=60 ∨ b=62 ∨ b=38 then
    [92,117,48,48,hexDigit (b.toNat/16),hexDigit (b.toNat%16)]
  else [b]

/-- The four digits of a \u escape and what follows them. -/
def hex4 : GoString → Option (Nat × GoString)
  | a::b::c::d::s => do
    let w ← hexValue a
    let x ← hexValue b
    let y ← hexValue c
    let z ← hexValue d
    return (((w*16+x)*16+y)*16+z,s)
  | _ => none

def highSurrogate (r : Nat) : Bool := 55296 ≤ r && r<56320

def lowSurrogate (r : Nat) : Bool := 56320 ≤ r && r<57344

/-- The character of a \u escape, a pair of surrogates taken together. A surrogate on
its own reads as U+FFFD. -/
def unicode (s : GoString) : Option (Char × GoString) :=
  match hex4 s with
  | none => none
  | some (r,s1) =>
    if highSurrogate r then
      match s1 with
      | 92::117::s2 =>
        match hex4 s2 with
        | none => none
        | some (r',s3) =>
          if lowSurrogate r' then some (Char.ofNat (65536+(r-55296)*1024+(r'-56320)),s3)
          else some (replacement,s1)
      | _ => some (replacement,s1)
    else if lowSurrogate r then some (replacement,s1)
    else some (Char.ofNat r,s1)

/-- The escapes of one letter. -/
def unescape (b : UInt8) : Option UInt8 :=
  if b=34 ∨ b=92 ∨ b=47 then some b
  else if b=98 then some 8
  else if b=102 then some 12
  else if b=110 then some 10
  else if b=114 then some 13
  else if b=116 then some 9
  else none

/-- At most n characters of a string literal after its opening quote: its contents
and what follows the closing quote. -/
def unquoteFrom : Nat → GoString → Option (GoString × GoString)
  | 0,_ => none
  | _+1,[] => none
  | _+1,34::s => some ([],s)
  | n+1,92::117::s =>
    (unicode s).bind (fun r => (unquoteFrom n r.2).map (fun p =>
      (String.utf8EncodeChar r.1++p.1,p.2)))
  | n+1,92::b::s =>
    (unescape b).bind (fun c => (unquoteFrom n s).map (fun p => (c::p.1,p.2)))
  | n+1,b::s =>
    if b.toNat<32 then none else (unquoteFrom n s).map (fun p => (b::p.1,p.2))

/-- Bytes that are no valid UTF-8 are replaced. -/
def unquote (s : GoString) : Option (GoString × GoString) :=
  (unquoteFrom s.length s).map (fun p => (utf8 (runes p.1),p.2))

def isSpace (b : UInt8) : Bool := b=32 || b=9 || b=10 || b=13

def skip (s : GoString) : GoString := s.dropWhile isSpace

theorem hexValue_hexDigit : ∀ n<16,hexValue (hexDigit n)=some n := by decide

theorem utf8EncodeChar_ascii (b : UInt8) (h : b.toNat<128) :
    String.utf8EncodeChar (Char.ofNat b.toNat)=[b] := by
  have all : ∀ n<128,String.utf8EncodeChar (Char.ofNat n)=[UInt8.ofNat n] := by decide +kernel
  rw [all b.toNat h,UInt8.ofNat_toNat]

/-- The \u escape of an ASCII byte. -/
theorem unicode_ascii (b : UInt8) (h : b.toNat<128) (s : GoString) :
    unicode (48::48::hexDigit (b.toNat/16)::hexDigit (b.toNat%16)::s)=some (Char.ofNat b.toNat,s) := by
  have zero : hexValue 48=some 0 := by decide
  have first := hexValue_hexDigit (b.toNat/16) (by omega)
  have second := hexValue_hexDigit (b.toNat%16) (by omega)
  have code : ((0*16+0)*16+b.toNat/16)*16+b.toNat%16=b.toNat := by omega
  have digits : hex4 (48::48::hexDigit (b.toNat/16)::hexDigit (b.toNat%16)::s)=some (b.toNat,s) := by
    simp only [hex4,zero,first,second,Option.bind_eq_bind,Option.bind_some,code]
    rfl
  have high : highSurrogate b.toNat=false := by
    unfold highSurrogate
    simp
    omega
  have low : lowSurrogate b.toNat=false := by
    unfold lowSurrogate
    simp
    omega
  simp [unicode,digits,high,low]

/-- Reading an escaped byte. -/
theorem unquoteFrom_escapeByte (n : Nat) (b : UInt8) (s : GoString) :
    unquoteFrom (n+1) (escapeByte b++s)=(unquoteFrom n s).map (fun p => (b::p.1,p.2)) := by
  unfold escapeByte
  split_ifs with quoted newline carriage tab hex
  · rcases quoted with rfl|rfl <;> rfl
  · subst b
    rfl
  · subst b
    rfl
  · subst b
    rfl
  · have ascii : b.toNat<128 := by
      rcases hex with h|rfl|rfl|rfl
      · omega
      · decide
      · decide
      · decide
    simp only [List.cons_append,List.nil_append,unquoteFrom,unicode_ascii b ascii s,Option.bind_some,
      utf8EncodeChar_ascii b ascii]
  · have quote : b≠34 := fun h => quoted (.inl h)
    have slash : b≠92 := fun h => quoted (.inr h)
    have printable : ¬b.toNat<32 := fun h => hex (.inl h)
    simp only [List.cons_append,List.nil_append]
    rw [unquoteFrom]
    · rw [if_neg printable]
    · exact quote
    · exact fun _ h => absurd h slash
    · exact fun _ _ h => absurd h slash

@[simp] theorem skip_cons (b : UInt8) (s : GoString) (h : isSpace b=false) : skip (b::s)=b::s := by
  simp [skip,h]

theorem unquote_text (s : GoString) (p : GoString × GoString) (h : unquote s=some p) :
    ∃ cs,p.1=utf8 cs := by
  obtain ⟨q,-,rfl⟩ := Option.map_eq_some_iff.mp h
  exact ⟨runes q.1,rfl⟩

end Json

end StCache
