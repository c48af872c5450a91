import Mathlib.Data.List.TakeDrop
import StCache.Framework.Json

namespace StCache

namespace Json

/-- A JSON value. Numbers keep their text and objects their members in the order of
the text, with repetitions. -/
inductive Value where
  | null
  | bool (b : Bool)
  | number (text : GoString)
  | string (s : GoString)
  | array (elements : List Value)
  | object (members : List (GoString × Value))

/-- At least one digit, and what follows. -/
def digits (s : GoString) : Option (GoString × GoString) :=
  match s.span isDigitByte with
  | ([],_) => none
  | (ds,rest) => some (ds,rest)

/-- Zero, or digits that do not start with a zero. -/
def integer : GoString → Option (GoString × GoString)
  | 48::s => some ([48],s)
  | s => digits s

def fraction : GoString → Option (GoString × GoString)
  | 46::s => (digits s).map (fun p => (46::p.1,p.2))
  | s => some ([],s)

def exponentSign : GoString → GoString × GoString
  | 43::s => ([43],s)
  | 45::s => ([45],s)
  | s => ([],s)

def exponent : GoString → Option (GoString × GoString)
  | [] => some ([],[])
  | b::s =>
    if b=69 ∨ b=101 then
      (digits (exponentSign s).2).map (fun p => (b::((exponentSign s).1++p.1),p.2))
    else some ([],b::s)

def unsigned (s : GoString) : Option (GoString × GoString) := do
  let i ← integer s
  let f ← fraction i.2
  let e ← exponent f.2
  return (i.1++(f.1++e.1),e.2)

def number : GoString → Option (GoString × GoString)
  | 45::s => (unsigned s).map (fun p => (45::p.1,p.2))
  | s => unsigned s

/-- The three literal names. -/
def keyword : GoString → Option (Value × GoString)
  | 110::117::108::108::s => some (.null,s)
  | 116::114::117::101::s => some (.bool true,s)
  | 102::97::108::115::101::s => some (.bool false,s)
  | _ => none

def scalar (s : GoString) : Option (Value × GoString) :=
  match keyword s with
  | some p => some p
  | none => (number s).map (fun p => (.number p.1,p.2))

mutual

/-- One value and what follows it. Two rounds per byte of the text are enough, since
at most every second call does not read one. -/
def parseValue : Nat → GoString → Option (Value × GoString)
  | 0,_ => none
  | n+1,s =>
    match skip s with
    | 34::s1 => (unquote s1).map (fun p => (.string p.1,p.2))
    | 91::s1 =>
      match skip s1 with
      | 93::s2 => some (.array [],s2)
      | _ => (parseElements n s1).map (fun p => (.array p.1,p.2))
    | 123::s1 =>
      match skip s1 with
      | 125::s2 => some (.object [],s2)
      | _ => (parseFields n s1).map (fun p => (.object p.1,p.2))
    | s1 => scalar s1

/-- The elements of an array up to its closing bracket. -/
def parseElements : Nat → GoString → Option (List Value × GoString)
  | 0,_ => none
  | n+1,s =>
    (parseValue n s).bind (fun v =>
      match skip v.2 with
      | 93::s1 => some ([v.1],s1)
      | 44::s1 => (parseElements n s1).map (fun p => (v.1::p.1,p.2))
      | _ => none)

/-- The members of an object up to its closing brace. -/
def parseFields : Nat → GoString → Option (List (GoString × Value) × GoString)
  | 0,_ => none
  | n+1,s =>
    match skip s with
    | 34::s1 =>
      (unquote s1).bind (fun k =>
        match skip k.2 with
        | 58::s2 =>
          (parseValue n s2).bind (fun v =>
            match skip v.2 with
            | 125::s3 => some ([(k.1,v.1)],s3)
            | 44::s3 => (parseFields n s3).map (fun p => ((k.1,v.1)::p.1,p.2))
            | _ => none)
        | _ => none)
    | _ => none

end

/-- The first value of a text and what follows it, which a decoder does not look at. -/
def decode (s : GoString) : Option (Value × GoString) := parseValue (2*s.length+2) s

/-- The value a text stands for; only white space may surround it. -/
def parse (s : GoString) : Option Value :=
  (decode s).bind (fun p => if skip p.2=[] then some p.1 else none)

/-- Names of fields are compared without case. Besides the ASCII letters, the Kelvin sign
and the long s fold to a letter of ASCII. -/
def foldChar (c : Char) : Char :=
  if c=Char.ofNat 8490 then 'k' else if c=Char.ofNat 383 then 's' else c.toLower

def foldName (name : GoString) : List Char := (runes name).map foldChar

/-- The text is null, with or without white space around it. -/
def isNull (s : GoString) : Bool :=
  match skip s with
  | 110::117::108::108::rest => skip rest=[]
  | _ => false

theorem keyword_null (s rest : GoString) :
    keyword s=some (.null,rest) ↔ s=110::117::108::108::rest := by
  constructor
  · intro h
    unfold keyword at h
    split at h
    · cases h
      rfl
    all_goals simp at h
  · intro h
    rw [h]
    rfl

theorem scalar_null (s rest : GoString) :
    scalar s=some (.null,rest) ↔ s=110::117::108::108::rest := by
  rw [← keyword_null]
  unfold scalar
  cases keyword s with
  | some p => rfl
  | none => simp

/-- Only the literal name reads as null. -/
theorem parseValue_null (n : Nat) (s rest : GoString) :
    parseValue (n+1) s=some (.null,rest) ↔ skip s=110::117::108::108::rest := by
  rw [parseValue]
  split
  · next s1 h => simp [h]
  · next s1 h => split <;> simp [h]
  · next s1 h => split <;> simp [h]
  · exact scalar_null _ rest

theorem isNull_iff (s : GoString) :
    isNull s=true ↔ ∃ rest,skip s=110::117::108::108::rest ∧ skip rest=[] := by
  unfold isNull
  split
  · next rest h => simp [h]
  · next other =>
    simp only [Bool.false_eq_true,false_iff,not_exists,not_and]
    intro rest h
    exact absurd h (other rest)

theorem parse_iff_read (s : GoString) (v : Value) :
    parse s=some v ↔ ∃ rest,decode s=some (v,rest) ∧ skip rest=[] := by
  rw [parse,Option.bind_eq_some_iff]
  constructor
  · rintro ⟨⟨w,rest⟩,read,h⟩
    by_cases blank : skip rest=[]
    · rw [if_pos blank] at h
      cases h
      exact ⟨rest,read,blank⟩
    · rw [if_neg blank] at h
      cases h
  · rintro ⟨rest,read,blank⟩
    exact ⟨(v,rest),read,if_pos blank⟩

theorem parse_null_iff (s : GoString) : parse s=some .null ↔ isNull s=true := by
  rw [parse_iff_read,isNull_iff]
  apply exists_congr
  intro rest
  rw [decode,parseValue_null]

/-- Whatever a reader returns, it leaves at most n bytes unread. -/
def Leaves {α : Type} (n : Nat) (x : Option (α × GoString)) : Prop :=
  ∀ p,x=some p → p.2.length≤n

section Leaves
variable {α β : Type}

theorem Leaves.none (n : Nat) : Leaves n (Option.none : Option (α × GoString)) := by
  intro p h
  cases h

theorem Leaves.some (v : α) (s : GoString) (n : Nat) (h : s.length≤n) :
    Leaves n (Option.some (v,s)) := by
  intro p hp
  rw [← Option.some.inj hp]
  exact h

theorem Leaves.mono {m n : Nat} {x : Option (α × GoString)} (h : Leaves m x) (le : m≤n) :
    Leaves n x := by
  intro p hp
  exact Nat.le_trans (h p hp) le

theorem Leaves.bind {m n : Nat} {x : Option (α × GoString)} (h : Leaves m x)
    (f : α × GoString → Option (β × GoString)) (next : ∀ p,p.2.length ≤ m → Leaves n (f p)) :
    Leaves n (x.bind f) := by
  intro q hq
  rw [Option.bind_eq_some_iff] at hq
  obtain ⟨p,hp,hq⟩ := hq
  exact next p (h p hp) q hq

theorem Leaves.map {n : Nat} {x : Option (α × GoString)} (h : Leaves n x) (f : α → β) :
    Leaves n (x.map (fun p => (f p.1,p.2))) := by
  intro q hq
  rw [Option.map_eq_some_iff] at hq
  obtain ⟨p,hp,hq⟩ := hq
  rw [← hq]
  exact h p hp

end Leaves

theorem skip_length (s : GoString) : (skip s).length ≤ s.length :=
  (List.dropWhile_sublist isSpace).length_le

/-- The byte found after white space is read. -/
theorem length_of_skip (s t : GoString) (b : UInt8) (h : skip s=b::t) : t.length+1 ≤ s.length := by
  have le := skip_length s
  rw [h,List.length_cons] at le
  exact le

theorem hex4_leaves (s : GoString) : Leaves s.length (hex4 s) := by
  unfold hex4
  split
  · intro p h
    simp only [Option.bind_eq_bind,Option.bind_eq_some_iff,Option.pure_def,Option.some.injEq] at h
    obtain ⟨w,-,x,-,y,-,z,-,h⟩ := h
    rw [← h]
    simp only [List.length_cons]
    omega
  · exact Leaves.none _

theorem unicode_leaves (s : GoString) : Leaves s.length (unicode s) := by
  unfold unicode
  split
  · exact Leaves.none _
  · next r s1 hr =>
    have first : s1.length ≤ s.length := hex4_leaves s (r,s1) hr
    split
    · split
      · next s2 =>
        simp only [List.length_cons] at first
        split
        · exact Leaves.none _
        · next r' s3 hr' =>
          have second : s3.length ≤ s2.length := hex4_leaves s2 (r',s3) hr'
          split
          · exact Leaves.some _ _ _ (by omega)
          · exact Leaves.some _ _ _ (by simpa using first)
      · exact Leaves.some _ _ _ first
    · split <;> exact Leaves.some _ _ _ first

theorem unquoteFrom_leaves (n : Nat) (s : GoString) : Leaves s.length (unquoteFrom n s) := by
  fun_induction unquoteFrom n s with
  | case1 => exact Leaves.none _
  | case2 => exact Leaves.none _
  | case3 n s => exact Leaves.some _ _ _ (by simp)
  | case4 n s ih =>
    apply (unicode_leaves s).bind
    intro r hr
    exact ((ih r).map _).mono (by simp only [List.length_cons]; omega)
  | case5 n b s _ ih =>
    intro p hp
    rw [Option.bind_eq_some_iff] at hp
    obtain ⟨c,-,hp⟩ := hp
    have tail := (ih.map (fun q => c::q)) p hp
    simp only [List.length_cons]
    omega
  | case6 => exact Leaves.none _
  | case7 n b s _ _ _ _ ih => exact (ih.map _).mono (by simp)

theorem unquote_leaves (s : GoString) : Leaves s.length (unquote s) :=
  (unquoteFrom_leaves s.length s).map (fun q => utf8 (runes q))

theorem digits_leaves (s : GoString) : Leaves s.length (digits s) := by
  unfold digits
  rw [List.span_eq_takeWhile_dropWhile]
  split
  · exact Leaves.none _
  · next ds rest _ cut =>
    have tail : s.dropWhile isDigitByte=rest := congrArg Prod.snd cut
    rw [← tail]
    exact Leaves.some _ _ _ (List.dropWhile_sublist isDigitByte).length_le

theorem integer_leaves (s : GoString) : Leaves s.length (integer s) := by
  unfold integer
  split
  · exact Leaves.some _ _ _ (by simp)
  · exact digits_leaves s

theorem fraction_leaves (s : GoString) : Leaves s.length (fraction s) := by
  unfold fraction
  split
  · next t => exact ((digits_leaves t).map (fun d => 46::d)).mono (by simp)
  · exact Leaves.some _ _ _ le_rfl

theorem exponentSign_length (s : GoString) : (exponentSign s).2.length ≤ s.length := by
  unfold exponentSign
  split <;> simp

theorem exponent_leaves (s : GoString) : Leaves s.length (exponent s) := by
  unfold exponent
  split
  · exact Leaves.some _ _ _ le_rfl
  · next b t =>
    split
    · have sign := exponentSign_length t
      exact ((digits_leaves _).map (fun d => b::((exponentSign t).1++d))).mono
        (by simp only [List.length_cons]; omega)
    · exact Leaves.some _ _ _ le_rfl

theorem unsigned_leaves (s : GoString) : Leaves s.length (unsigned s) := by
  apply (integer_leaves s).bind
  intro i hi
  apply ((fraction_leaves i.2).mono hi).bind
  intro f hf
  apply ((exponent_leaves f.2).mono hf).bind
  intro e he
  exact Leaves.some _ _ _ he

theorem number_leaves (s : GoString) : Leaves s.length (number s) := by
  unfold number
  split
  · next t => exact ((unsigned_leaves t).map (fun d => 45::d)).mono (by simp)
  · exact unsigned_leaves s

theorem keyword_leaves (s : GoString) : Leaves s.length (keyword s) := by
  unfold keyword
  split
  case h_4 => exact Leaves.none _
  all_goals exact Leaves.some _ _ _ (by simp only [List.length_cons]; omega)

theorem scalar_leaves (s : GoString) : Leaves s.length (scalar s) := by
  unfold scalar
  split
  · next p hp =>
    rw [← hp]
    exact keyword_leaves s
  · exact (number_leaves s).map Value.number

/-- The three readers leave no more than they were given, by induction on the rounds. -/
theorem parse_leaves (n : Nat) : ∀ s,Leaves s.length (parseValue n s) ∧
    Leaves s.length (parseElements n s) ∧ Leaves s.length (parseFields n s) := by
  induction n with
  | zero =>
    intro s
    exact ⟨Leaves.none _,Leaves.none _,Leaves.none _⟩
  | succ n ih =>
    intro s
    have closing (t u : GoString) (b : UInt8) (h : skip t=b::u) (le : t.length ≤ s.length) :
        u.length ≤ s.length := by
      have read := length_of_skip t u b h
      omega
    refine ⟨?_,?_,?_⟩
    · rw [parseValue]
      split
      · next s1 h => exact ((unquote_leaves s1).map Value.string).mono (closing s s1 _ h le_rfl)
      · next s1 h =>
        have le := closing s s1 _ h le_rfl
        split
        · next s2 h2 => exact Leaves.some _ _ _ (closing s1 s2 _ h2 le)
        · exact ((ih s1).2.1.map Value.array).mono le
      · next s1 h =>
        have le := closing s s1 _ h le_rfl
        split
        · next s2 h2 => exact Leaves.some _ _ _ (closing s1 s2 _ h2 le)
        · exact ((ih s1).2.2.map Value.object).mono le
      · exact (scalar_leaves _).mono (skip_length s)
    · rw [parseElements]
      apply (ih s).1.bind
      intro v hv
      split
      · next s1 h => exact Leaves.some _ _ _ (closing v.2 s1 _ h hv)
      · next s1 h => exact ((ih s1).2.1.map (fun vs => v.1::vs)).mono (closing v.2 s1 _ h hv)
      · exact Leaves.none _
    · rw [parseFields]
      split
      · next s1 h =>
        apply ((unquote_leaves s1).mono (closing s s1 _ h le_rfl)).bind
        intro k hk
        split
        · next s2 h2 =>
          apply ((ih s2).1.mono (closing k.2 s2 _ h2 hk)).bind
          intro v hv
          split
          · next s3 h3 => exact Leaves.some _ _ _ (closing v.2 s3 _ h3 hv)
          · next s3 h3 =>
            exact ((ih s3).2.2.map (fun ps => (k.1,v.1)::ps)).mono (closing v.2 s3 _ h3 hv)
          · exact Leaves.none _
        · exact Leaves.none _
      · exact Leaves.none _

private theorem map_read {α β : Type} {x y : Option α} {f : α → β} {p : β} (h : x.map f=some p)
    (same : ∀ q,x=some q → y=some q) : y.map f=some p := by
  rw [Option.map_eq_some_iff] at h ⊢
  obtain ⟨q,hq,h⟩ := h
  exact ⟨q,same q hq,h⟩

/-- A result is the same with any number of rounds that is enough for the input. -/
theorem parse_enough (m : Nat) : ∀ n s,
    (∀ p,parseValue m s=some p → 2*s.length+1≤n → parseValue n s=some p) ∧
    (∀ p,parseElements m s=some p → 2*s.length+2≤n → parseElements n s=some p) ∧
    (∀ p,parseFields m s=some p → 2*s.length+2≤n → parseFields n s=some p) := by
  induction m with
  | zero =>
    intro n s
    refine ⟨?_,?_,?_⟩
    all_goals
      intro p h
      cases h
  | succ m ih =>
    intro n s
    cases n with
    | zero =>
      refine ⟨?_,?_,?_⟩
      all_goals
        intro p h le
        omega
    | succ n =>
      refine ⟨?_,?_,?_⟩
      · intro p h le
        rw [parseValue] at h ⊢
        split at h
        · next s1 e => exact h
        · next s1 e =>
          have read := length_of_skip s s1 _ e
          split at h
          · next s2 e2 => exact h
          · exact map_read h (fun q hq => (ih n s1).2.1 q hq (by omega))
        · next s1 e =>
          have read := length_of_skip s s1 _ e
          split at h
          · next s2 e2 => exact h
          · exact map_read h (fun q hq => (ih n s1).2.2 q hq (by omega))
        · exact h
      · intro p h le
        rw [parseElements,Option.bind_eq_some_iff] at h
        obtain ⟨v,hv,h⟩ := h
        have left := (parse_leaves m s).1 v hv
        rw [parseElements,(ih n s).1 v hv (by omega),Option.bind_some]
        split at h
        · next s1 e => exact h
        · next s1 e =>
          have read := length_of_skip v.2 s1 _ e
          exact map_read h (fun q hq => (ih n s1).2.1 q hq (by omega))
        · cases h
      · intro p h le
        rw [parseFields] at h ⊢
        split at h
        · next s1 e =>
          have read := length_of_skip s s1 _ e
          rw [Option.bind_eq_some_iff] at h
          obtain ⟨k,hk,h⟩ := h
          have name := unquote_leaves s1 k hk
          simp only [hk,Option.bind_some]
          split at h
          · next s2 e2 =>
            have colon := length_of_skip k.2 s2 _ e2
            rw [Option.bind_eq_some_iff] at h
            obtain ⟨v,hv,h⟩ := h
            have left := (parse_leaves m s2).1 v hv
            rw [(ih n s2).1 v hv (by omega),Option.bind_some]
            split at h
            · next s3 e3 => exact h
            · next s3 e3 =>
              have comma := length_of_skip v.2 s3 _ e3
              exact map_read h (fun q hq => (ih n s3).2.2 q hq (by omega))
            · cases h
          · cases h
        · cases h

/-- A text stands for a value when some number of rounds reads the value and leaves only
white space. -/
def Denotes (s : GoString) (v : Value) : Prop :=
  ∃ n rest,parseValue n s=some (v,rest) ∧ skip rest=[]

/-- The rounds of `decode` are always enough. -/
theorem decode_of_parseValue (n : Nat) (s : GoString) (p : Value × GoString)
    (h : parseValue n s=some p) : decode s=some p :=
  (parse_enough n (2*s.length+2) s).1 p h (by omega)

theorem parse_iff (s : GoString) (v : Value) : parse s=some v ↔ Denotes s v := by
  rw [parse_iff_read]
  constructor
  · rintro ⟨rest,read,blank⟩
    exact ⟨2*s.length+2,rest,read,blank⟩
  · rintro ⟨n,rest,read,blank⟩
    exact ⟨rest,decode_of_parseValue n s _ read,blank⟩

theorem scalar_some (s rest : GoString) (v : Value) (h : scalar s=some (v,rest)) :
    v=.null ∨ (∃ b,v=.bool b) ∨ ∃ t,v=.number t := by
  unfold scalar keyword at h
  split at h
  · next p hp =>
    cases h
    split at hp
    all_goals cases hp
    · exact Or.inl rfl
    · exact Or.inr (Or.inl ⟨true,rfl⟩)
    · exact Or.inr (Or.inl ⟨false,rfl⟩)
  · obtain ⟨q,-,same⟩ := Option.map_eq_some_iff.mp h
    cases same
    exact Or.inr (Or.inr ⟨q.1,rfl⟩)

/-- A string that is read is a text, also where the input is no UTF-8. -/
theorem parseValue_string (n : Nat) (s t rest : GoString)
    (h : parseValue n s=some (.string t,rest)) : ∃ cs,t=utf8 cs := by
  cases n with
  | zero => cases h
  | succ n =>
    rw [parseValue] at h
    split at h
    · obtain ⟨p,hp,same⟩ := Option.map_eq_some_iff.mp h
      cases same
      exact unquote_text _ p hp
    · split at h <;> simp at h
    · split at h <;> simp at h
    · simpa using scalar_some _ rest _ h

/-- So are the names of the members of an object and those of its values that are strings. -/
def Texts (ps : List (GoString × Value)) : Prop :=
  ∀ p∈ps,(∃ cs,p.1=utf8 cs) ∧ ∀ t,p.2=.string t → ∃ cs,t=utf8 cs

theorem parseFields_texts (n : Nat) (s rest : GoString) (ps : List (GoString × Value))
    (h : parseFields n s=some (ps,rest)) : Texts ps := by
  induction n generalizing s ps with
  | zero => cases h
  | succ n ih =>
    rw [parseFields] at h
    split at h
    · obtain ⟨k,hk,h⟩ := Option.bind_eq_some_iff.mp h
      split at h
      · obtain ⟨v,hv,h⟩ := Option.bind_eq_some_iff.mp h
        have member : (∃ cs,k.1=utf8 cs) ∧ ∀ t,v.1=.string t → ∃ cs,t=utf8 cs :=
          ⟨unquote_text _ k hk,fun t ht => parseValue_string n _ t v.2 (by rw [hv,←ht])⟩
        split at h
        · cases h
          intro p hp
          rw [List.mem_singleton.mp hp]
          exact member
        · obtain ⟨q,hq,same⟩ := Option.map_eq_some_iff.mp h
          cases same
          exact List.forall_mem_cons.mpr ⟨member,ih _ q.1 hq⟩
        · cases h
      · cases h
    · cases h

theorem parseValue_object (n : Nat) (s rest : GoString) (ps : List (GoString × Value))
    (h : parseValue n s=some (.object ps,rest)) : Texts ps := by
  cases n with
  | zero => cases h
  | succ n =>
    rw [parseValue] at h
    split at h
    · simp at h
    · split at h <;> simp at h
    · split at h
      · cases h
        intro p hp
        cases hp
      · obtain ⟨q,hq,same⟩ := Option.map_eq_some_iff.mp h
        cases same
        exact parseFields_texts n _ q.2 q.1 hq
    · simpa using scalar_some _ rest _ h

end Json

end StCache
