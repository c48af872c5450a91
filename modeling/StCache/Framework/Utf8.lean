import StCache.Framework.Strconv

namespace StCache

/-- The UTF-8 encoding of a text. -/
def utf8 (cs : List Char) : GoString := cs.flatMap String.utf8EncodeChar

/-- U+FFFD, which stands for a byte that starts no valid encoding. -/
def replacement : Char := Char.ofNat 65533

def firstRune (s : GoString) : Option Char := (ByteArray.mk s.toArray).utf8DecodeChar? 0

/-- At most n rounds of `for _,r := range s`. -/
def runesFrom : Nat → GoString → List Char
  | 0,_ => []
  | _+1,[] => []
  | n+1,b::s =>
    match firstRune (b::s) with
    | some c => c::runesFrom n ((b::s).drop c.utf8Size)
    | none => replacement::runesFrom n s

/-- `[]rune(s)` -/
def runes (s : GoString) : List Char := runesFrom s.length s

theorem goStr_ofList (cs : List Char) : goStr (String.ofList cs)=utf8 cs := by
  unfold goStr utf8
  simp [String.toUTF8,List.utf8Encode]

theorem goStr_eq (s : String) : goStr s=utf8 s.toList := by
  rw [←goStr_ofList,String.ofList_toList]

theorem firstRune_append (c : Char) (s : GoString) :
    firstRune (String.utf8EncodeChar c++s)=some c := by
  have decode := @ByteArray.utf8DecodeChar?_utf8EncodeChar_append (ByteArray.mk s.toArray) c
  rw [firstRune,←decode]
  congr 1
  ext1
  simp

theorem runesFrom_utf8 (n : Nat) (cs : List Char) (h : (utf8 cs).length≤n) :
    runesFrom n (utf8 cs)=cs := by
  induction cs generalizing n with
  | nil => cases n <;> rfl
  | cons c cs ih =>
    have size := String.length_utf8EncodeChar c
    have pos := c.utf8Size_pos
    have text : utf8 (c::cs)=String.utf8EncodeChar c++utf8 cs := rfl
    rw [text,List.length_append,size] at h
    cases n with
    | zero => omega
    | succ n =>
      have first := firstRune_append c (utf8 cs)
      have rest : (String.utf8EncodeChar c++utf8 cs).drop c.utf8Size=utf8 cs := by
        rw [←size,List.drop_left]
      rw [text]
      cases he : String.utf8EncodeChar c++utf8 cs with
      | nil => simp [List.append_eq_nil_iff,String.utf8EncodeChar_ne_nil] at he
      | cons b s =>
        rw [he] at first rest
        simp only [runesFrom,first,rest]
        rw [ih n (by omega)]

/-- Decoding gives back an encoded text. -/
theorem runes_utf8 (cs : List Char) : runes (utf8 cs)=cs := runesFrom_utf8 _ cs (Nat.le_refl _)

end StCache
