import StCache.Framework.JsonValue

namespace StCache

/-- Only zero is written with a zero in front. -/
theorem formatNat_zero_first (n : Nat) (t : GoString) (h : formatNat n=48::t) : t=[] := by
  induction n using Nat.strongRecOn generalizing t with
  | ind n ih =>
    by_cases small : n<10
    · rw [formatNat,Nat.toDigits_of_lt_base small] at h
      simp only [List.map_cons,List.map_nil,List.cons.injEq] at h
      exact h.2.symm
    · have last : formatNat n=formatNat (n/10)++[digitByte (Nat.digitChar (n%10))] := by
        rw [formatNat,Nat.toDigits_of_base_le (by decide) (by omega),List.map_append]
        rfl
      cases front : formatNat (n/10) with
      | nil => exact absurd front (formatNat_ne_nil _)
      | cons a u =>
        rw [last,front,List.cons_append,List.cons.injEq] at h
        have alone : u=[] := ih (n/10) (by omega) u (h.1 ▸ front)
        have value := formatNat_value (n/10)
        rw [front,alone,h.1] at value
        have zero : n/10=0 := value.symm
        omega

namespace Json

/-- One character inside a string literal. The two line separators are escaped as well. -/
def escapeChar (c : Char) : GoString :=
  if c=Char.ofNat 8232 then [92,117,50,48,50,56]
  else if c=Char.ofNat 8233 then [92,117,50,48,50,57]
  else (String.utf8EncodeChar c).flatMap escapeByte

/-- A string as json.Marshal writes it. -/
def text (cs : List Char) : GoString := 34::(cs.flatMap escapeChar++[34])

/-- An object with the texts of its values. -/
def writeMembers : List (List Char × GoString) → GoString
  | [] => []
  | [p] => text p.1++58::p.2
  | p::q::ps => text p.1++58::(p.2++44::writeMembers (q::ps))

def writeObject (ps : List (List Char × GoString)) : GoString := 123::(writeMembers ps++[125])

theorem unquoteFrom_bytes (n : Nat) (bs s : GoString) :
    unquoteFrom (n+bs.length) (bs.flatMap escapeByte++s)=
      (unquoteFrom n s).map (fun p => (bs++p.1,p.2)) := by
  induction bs with
  | nil => simp
  | cons b bs ih =>
    rw [List.length_cons,←Nat.add_assoc,List.flatMap_cons,List.append_assoc,
      unquoteFrom_escapeByte,ih,Option.map_map]
    rfl

/-- A character is read back, with at most as many rounds as it has bytes. -/
theorem unquoteFrom_escapeChar (c : Char) :
    ∃ k,k ≤ (String.utf8EncodeChar c).length ∧ ∀ n s,
      unquoteFrom (n+k) (escapeChar c++s)=
        (unquoteFrom n s).map (fun p => (String.utf8EncodeChar c++p.1,p.2)) := by
  unfold escapeChar
  split_ifs with line paragraph
  · subst c
    refine ⟨1,by decide,fun n s => ?_⟩
    rfl
  · subst c
    refine ⟨1,by decide,fun n s => ?_⟩
    rfl
  · exact ⟨(String.utf8EncodeChar c).length,Nat.le_refl _,fun n s => unquoteFrom_bytes n _ s⟩

theorem unquoteFrom_text (n : Nat) (cs : List Char) (rest : GoString)
    (h : (utf8 cs).length<n) :
    unquoteFrom n (cs.flatMap escapeChar++34::rest)=some (utf8 cs,rest) := by
  induction cs generalizing n with
  | nil =>
    cases n with
    | zero => omega
    | succ n => rfl
  | cons c cs ih =>
    have size : (utf8 (c::cs)).length=(String.utf8EncodeChar c).length+(utf8 cs).length := by
      simp [utf8]
    obtain ⟨k,le,read⟩ := unquoteFrom_escapeChar c
    obtain ⟨m,rfl⟩ : ∃ m,n=m+k := ⟨n-k,by omega⟩
    rw [List.flatMap_cons,List.append_assoc,read,ih m (by omega)]
    rfl

theorem length_le_escapeByte (bs : GoString) : bs.length ≤ (bs.flatMap escapeByte).length := by
  induction bs with
  | nil => exact Nat.le_refl _
  | cons b bs ih =>
    have some' : 0<(escapeByte b).length := by
      unfold escapeByte
      split_ifs <;> simp
    simp only [List.flatMap_cons,List.length_append,List.length_cons]
    omega

theorem length_le_escapeChar (cs : List Char) :
    (utf8 cs).length ≤ (cs.flatMap escapeChar).length := by
  induction cs with
  | nil => exact Nat.le_refl _
  | cons c cs ih =>
    have one : (String.utf8EncodeChar c).length ≤ (escapeChar c).length := by
      unfold escapeChar
      split_ifs with line paragraph
      · subst c
        decide
      · subst c
        decide
      · exact length_le_escapeByte _
    simp only [utf8,List.flatMap_cons,List.length_append] at ih ⊢
    omega

/-- A string is read back, whatever follows it. -/
theorem unquote_text_append (cs : List Char) (rest : GoString) :
    unquote (cs.flatMap escapeChar++34::rest)=some (utf8 cs,rest) := by
  have size := length_le_escapeChar cs
  have enough : (utf8 cs).length<(cs.flatMap escapeChar++34::rest).length := by
    rw [List.length_append,List.length_cons]
    omega
  rw [unquote,unquoteFrom_text _ cs rest enough,Option.map_some,runes_utf8]

/-- What follows a member of an object. -/
inductive Ends : GoString → Prop
  | comma (t : GoString) : Ends (44::t)
  | brace (t : GoString) : Ends (125::t)

/-- The text is read as the value, up to the comma or brace after it. -/
def Reads (s : GoString) (v : Value) : Prop :=
  ∀ n rest,Ends rest → parseValue (n+1) (s++rest)=some (v,rest)

theorem text_append (cs : List Char) (rest : GoString) :
    text cs++rest=34::(cs.flatMap escapeChar++34::rest) := by
  simp [text]

theorem reads_text (cs : List Char) : Reads (text cs) (.string (utf8 cs)) := by
  intro n rest _
  have quote : isSpace 34=false := by decide
  rw [text_append]
  simp only [parseValue,skip_cons _ _ quote,unquote_text_append,Option.map_some]

theorem digits_append {ds rest : GoString} (all : ds.all isDigitByte=true) (some' : ds≠[])
    (ends : Ends rest) : digits (ds++rest)=some (ds,rest) := by
  have stop : rest.takeWhile isDigitByte=[] ∧ rest.dropWhile isDigitByte=rest := by
    cases ends with
    | comma t => exact ⟨rfl,rfl⟩
    | brace t => exact ⟨rfl,rfl⟩
  have each : ∀ b∈ds,isDigitByte b=true := List.all_eq_true.mp all
  have cut : (ds++rest).span isDigitByte=(ds,rest) := by
    rw [List.span_eq_takeWhile_dropWhile,List.takeWhile_append_of_pos each,
      List.dropWhile_append_of_pos each,stop.1,stop.2,List.append_nil]
  rw [digits,cut]
  cases ds with
  | nil => exact absurd rfl some'
  | cons d ds => rfl

theorem integer_formatNat (n : Nat) {rest : GoString} (ends : Ends rest) :
    integer (formatNat n++rest)=some (formatNat n,rest) := by
  have read := digits_append (formatNat_digits n) (formatNat_ne_nil n) ends
  cases front : formatNat n with
  | nil => exact absurd front (formatNat_ne_nil n)
  | cons b t =>
    by_cases zero : b=48
    · subst zero
      rw [formatNat_zero_first n t front]
      rfl
    · rw [front] at read
      rw [List.cons_append] at read ⊢
      rw [integer]
      · exact read
      · intro s h
        exact zero (List.cons.inj h).1

theorem unsigned_formatNat (n : Nat) {rest : GoString} (ends : Ends rest) :
    unsigned (formatNat n++rest)=some (formatNat n,rest) := by
  have tail : fraction rest=some ([],rest) ∧ exponent rest=some ([],rest) := by
    cases ends with
    | comma t => exact ⟨rfl,rfl⟩
    | brace t => exact ⟨rfl,rfl⟩
  simp [unsigned,integer_formatNat n ends,tail.1,tail.2]

theorem number_formatInt (i : Int64) {rest : GoString} (ends : Ends rest) :
    number (formatInt i++rest)=some (formatInt i,rest) := by
  unfold formatInt
  split_ifs with negative
  · rw [List.cons_append,number,unsigned_formatNat _ ends]
    rfl
  · have read := unsigned_formatNat i.toInt.natAbs ends
    have digit := formatNat_digits i.toInt.natAbs
    cases front : formatNat i.toInt.natAbs with
    | nil => exact absurd front (formatNat_ne_nil _)
    | cons b t =>
      rw [front] at read digit
      rw [List.cons_append] at read ⊢
      rw [number]
      · exact read
      · intro s h
        rw [(List.cons.inj h).1] at digit
        simp [isDigitByte] at digit

/-- A number starts with a digit or a minus sign. -/
theorem formatInt_first (i : Int64) :
    ∃ b t,formatInt i=b::t ∧ (b=45 ∨ isDigitByte b=true) := by
  unfold formatInt
  split_ifs with negative
  · exact ⟨45,_,rfl,Or.inl rfl⟩
  · have digit := formatNat_digits i.toInt.natAbs
    cases front : formatNat i.toInt.natAbs with
    | nil => exact absurd front (formatNat_ne_nil _)
    | cons b t =>
      rw [front,List.all_cons,Bool.and_eq_true] at digit
      exact ⟨b,t,rfl,Or.inr digit.1⟩

theorem reads_formatInt (i : Int64) : Reads (formatInt i) (.number (formatInt i)) := by
  intro n rest ends
  have read := number_formatInt i ends
  obtain ⟨b,t,front,first⟩ := formatInt_first i
  have range : b.toNat=45 ∨ 48 ≤ b.toNat ∧ b.toNat≤57 := by
    cases first with
    | inl minus => exact Or.inl (by rw [minus]; rfl)
    | inr digit => exact Or.inr (by simpa [isDigitByte] using digit)
  have apart (x : UInt8) (hx : x.toNat<45 ∨ 57<x.toNat) : b≠x := by
    intro same
    rw [same] at range
    omega
  have space : isSpace b=false := by
    simp [isSpace,apart 32 (by decide),apart 9 (by decide),apart 10 (by decide),apart 13 (by decide)]
  have plain : keyword (formatInt i++rest)=none := by
    rw [front,List.cons_append,keyword]
    · intro s h
      exact apart 110 (by decide) (List.cons.inj h).1
    · intro s h
      exact apart 116 (by decide) (List.cons.inj h).1
    · intro s h
      exact apart 102 (by decide) (List.cons.inj h).1
  have value : parseValue (n+1) (formatInt i++rest)=scalar (formatInt i++rest) := by
    rw [front,List.cons_append,parseValue,skip_cons _ _ space]
    split
    · next h => exact absurd (List.cons.inj h).1 (apart 34 (by decide))
    · next h => exact absurd (List.cons.inj h).1 (apart 91 (by decide))
    · next h => exact absurd (List.cons.inj h).1 (apart 123 (by decide))
    · rfl
  rw [value,scalar,plain,read]
  rfl

/-- The members are read back in their order. -/
theorem parseFields_writeMembers (n : Nat) (p : List Char × GoString × Value)
    (ps : List (List Char × GoString × Value)) (rest : GoString)
    (reads : ∀ q∈p::ps,Reads q.2.1 q.2.2) :
    parseFields (n+2+ps.length) (writeMembers ((p::ps).map (fun q => (q.1,q.2.1)))++125::rest)=
      some ((p::ps).map (fun q => (utf8 q.1,q.2.2)),rest) := by
  have quote : isSpace 34=false := by decide
  have colon : isSpace 58=false := by decide
  have close : isSpace 125=false := by decide
  have comma : isSpace 44=false := by decide
  induction ps generalizing p with
  | nil =>
    have value := reads p (by simp) n (125::rest) (Ends.brace rest)
    have shape : writeMembers ([p].map (fun q => (q.1,q.2.1)))++125::rest=
        34::(p.1.flatMap escapeChar++34::58::(p.2.1++125::rest)) := by
      simp [writeMembers,text]
    rw [shape,List.length_nil,Nat.add_zero]
    simp only [parseFields,skip_cons _ _ quote,unquote_text_append,Option.bind_some,
      skip_cons _ _ colon,value,skip_cons _ _ close]
    rfl
  | cons q ps ih =>
    have tail := ih q (fun x hx => reads x (List.mem_cons_of_mem p hx))
    have value := reads p (by simp) (n+1+ps.length)
      (44::(writeMembers ((q::ps).map (fun q => (q.1,q.2.1)))++125::rest)) (Ends.comma _)
    have shape : writeMembers ((p::q::ps).map (fun q => (q.1,q.2.1)))++125::rest=
        34::(p.1.flatMap escapeChar++34::58::(p.2.1++44::
          (writeMembers ((q::ps).map (fun q => (q.1,q.2.1)))++125::rest))) := by
      simp [writeMembers,text]
    have rounds : n+2+(q::ps).length=(n+2+ps.length)+1 := by simp; omega
    have rounds' : n+2+ps.length=n+1+ps.length+1 := by omega
    rw [shape,rounds]
    simp only [parseFields,skip_cons _ _ quote,unquote_text_append,Option.bind_some,
      skip_cons _ _ colon]
    rw [rounds'] at tail ⊢
    simp only [value,Option.bind_some,skip_cons _ _ comma,tail,Option.map_some]
    rfl

/-- An object is read back with the values its texts stand for, whatever follows it. -/
theorem decode_writeObject (ps : List (List Char × GoString × Value)) (rest : GoString)
    (reads : ∀ q∈ps,Reads q.2.1 q.2.2) :
    decode (writeObject (ps.map (fun q => (q.1,q.2.1)))++rest)=
      some (.object (ps.map (fun q => (utf8 q.1,q.2.2))),rest) := by
  have brace : isSpace 123=false := by decide
  have quote : isSpace 34=false := by decide
  cases ps with
  | nil => exact decode_of_parseValue 1 _ _ rfl
  | cons p ps =>
    have fields := parseFields_writeMembers 0 p ps rest reads
    obtain ⟨tail,first⟩ :
        ∃ tail,writeMembers ((p::ps).map (fun q => (q.1,q.2.1)))++125::rest=34::tail := by
      cases ps with
      | nil => exact ⟨_,rfl⟩
      | cons q ps => exact ⟨_,rfl⟩
    have shape : writeObject ((p::ps).map (fun q => (q.1,q.2.1)))++rest=
        123::(writeMembers ((p::ps).map (fun q => (q.1,q.2.1)))++125::rest) := by
      simp [writeObject]
    refine decode_of_parseValue (0+2+ps.length+1) _ _ ?_
    rw [shape,parseValue,skip_cons _ _ brace]
    rw [first] at fields ⊢
    simp only [skip_cons _ _ quote,fields,Option.map_some]
    rfl

theorem parse_writeObject (ps : List (List Char × GoString × Value))
    (reads : ∀ q∈ps,Reads q.2.1 q.2.2) :
    parse (writeObject (ps.map (fun q => (q.1,q.2.1))))=
      some (.object (ps.map (fun q => (utf8 q.1,q.2.2)))) := by
  have read := decode_writeObject ps [] reads
  rw [List.append_nil] at read
  exact (parse_iff_read _ _).mpr ⟨[],read,rfl⟩

/-- An object whose values are strings. -/
def writeStrings (ps : List (List Char × List Char)) : GoString :=
  writeObject (ps.map (fun p => (p.1,text p.2)))

theorem decode_writeStrings (ps : List (List Char × List Char)) (rest : GoString) :
    decode (writeStrings ps++rest)=
      some (.object (ps.map (fun p => (utf8 p.1,.string (utf8 p.2)))),rest) := by
  have read := decode_writeObject (ps.map (fun p => (p.1,text p.2,.string (utf8 p.2)))) rest (by
    intro q hq
    obtain ⟨p,-,rfl⟩ := List.mem_map.mp hq
    exact reads_text p.2)
  rwa [List.map_map,List.map_map] at read

end Json

end StCache
