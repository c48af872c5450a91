import StCache.Framework.Strconv

namespace StCache

namespace Sh

/-- What the shell takes a character for outside quotes. -/
inductive ByteKind where
  | blank
  | newline
  | operator
  | backslash
  | singleQuote
  | doubleQuote
  | expansion
  | pattern
  | hash
  | tilde
  | nul
  | ordinary
  deriving DecidableEq

/-- The characters that stand for themselves only when they are quoted. An opening bracket is
ordinary here: whether it starts a pattern depends on what follows. -/
def byteKind (b : UInt8) : ByteKind :=
  if b=32 ∨ b=9 then .blank
  else if b=10 then .newline
  else if b=59 ∨ b=38 ∨ b=124 ∨ b=60 ∨ b=62 ∨ b=40 ∨ b=41 then .operator
  else if b=92 then .backslash
  else if b=39 then .singleQuote
  else if b=34 then .doubleQuote
  else if b=36 ∨ b=96 then .expansion
  else if b=42 ∨ b=63 then .pattern
  else if b=35 then .hash
  else if b=126 then .tilde
  else if b=0 then .nul
  else .ordinary

/-- A word after quote removal. Of an operator one character at a time is enough here. -/
inductive Token where
  | word (text : GoString)
  | operator (b : UInt8)
  | newline
  deriving DecidableEq

/-- Where the reader is: outside quotes with the word so far, after a backslash, in quotes, or
in a comment. -/
inductive Mode where
  | unquoted (word : Option GoString)
  | escape (word : Option GoString)
  | single (word : GoString)
  | double (word : GoString)
  | doubleEscape (word : GoString)
  | comment

/-- The word so far ends here. -/
def flush (word : Option GoString) : List Token := word.toList.map .word

/-- One character outside quotes. None is an expansion or a pattern, whose words are not in
the text. -/
def unquoted (word : Option GoString) (b : UInt8) : Option (List Token × Mode) :=
  match byteKind b,word with
  | .blank,_ => some (flush word,.unquoted none)
  | .newline,_ => some (flush word++[.newline],.unquoted none)
  | .operator,_ => some (flush word++[.operator b],.unquoted none)
  | .backslash,_ => some ([],.escape word)
  | .singleQuote,_ => some ([],.single (word.getD []))
  | .doubleQuote,_ => some ([],.double (word.getD []))
  | .expansion,_ => none
  | .pattern,_ => none
  | .nul,_ => none
  | .hash,none => some ([],.comment)
  | .tilde,none => none
  | _,_ => some ([],.unquoted (some (word.getD []++[b])))

/-- One character: the tokens it ends and where it leads. -/
def next : Mode → UInt8 → Option (List Token × Mode)
  | .unquoted word,b => unquoted word b
  | .escape word,b =>
    if b=0 then none
    else if b=10 then some ([],.unquoted word)
    else some ([],.unquoted (some (word.getD []++[b])))
  | .single word,b =>
    if b=0 then none
    else if b=39 then some ([],.unquoted (some word))
    else some ([],.single (word++[b]))
  | .double word,b =>
    if b=0 ∨ b=36 ∨ b=96 then none
    else if b=34 then some ([],.unquoted (some word))
    else if b=92 then some ([],.doubleEscape word)
    else some ([],.double (word++[b]))
  | .doubleEscape word,b =>
    if b=0 then none
    else if b=10 then some ([],.double word)
    else if b=36 ∨ b=96 ∨ b=34 ∨ b=92 then some ([],.double (word++[b]))
    else some ([],.double (word++[92,b]))
  | .comment,b =>
    if b=10 then some ([.newline],.unquoted none) else some ([],.comment)

/-- The end of the text. None is an open quote or a backslash at the end. -/
def finish : Mode → Option (List Token)
  | .unquoted word => some (flush word)
  | .comment => some []
  | _ => none

def lex : Mode → GoString → Option (List Token)
  | m,[] => finish m
  | m,b::s => (next m b).bind (fun r => (lex r.2 s).map (fun ts => r.1++ts))

/-- How far a bracket expression has come in the word: not begun, only its bracket, also its
exclamation mark, or with a member. -/
inductive Bracket where
  | outside
  | opened
  | negated
  | inside
  deriving DecidableEq

namespace Bracket

/-- One more character of the word. None completes a bracket expression. A closing bracket in
first place is a member, and no bracket expression extends over a slash. -/
def next (g : Bracket) (b : UInt8) : Option Bracket :=
  if b=47 then some .outside
  else match g with
    | .outside => some (if b=91 then .opened else .outside)
    | .opened => some (if b=33 then .negated else .inside)
    | .negated => some .inside
    | .inside => if b=93 then none else some .inside

/-- One more character of the word, in quotes. -/
def quoted (g : Bracket) (b : UInt8) : Bracket :=
  if b=47 then .outside else if g=.outside then .outside else .inside

/-- What a character means for it that takes the reader from one mode to another. -/
def step (g : Bracket) (b : UInt8) : Mode → Mode → Option Bracket
  | .unquoted _,.unquoted (some _) => g.next b
  | .unquoted _,.unquoted none => some .outside
  | .unquoted _,.comment => some .outside
  | .comment,_ => some .outside
  | .escape _,_ => some (if b=10 then g else g.quoted b)
  | .doubleEscape _,_ => some (if b=10 then g else g.quoted b)
  | .single _,.single _ => some (g.quoted b)
  | .double _,.double _ => some (g.quoted b)
  | _,_ => some g

end Bracket

/-- No word of the text has a bracket expression. -/
def unbracketed : Mode → Bracket → GoString → Bool
  | _,_,[] => true
  | m,g,b::s =>
    match next m b with
    | none => true
    | some (_,n) =>
      match g.step b m n with
      | none => false
      | some g' => unbracketed n g' s

/-- How the shell reads a text, as far as the text alone decides it. -/
def reading (s : GoString) : Option (List Token) :=
  if unbracketed (.unquoted none) .outside s then lex (.unquoted none) s else none

/-- A character that stands for itself, at the start of a word or inside it. -/
def plainByte (first : Bool) (b : UInt8) : Bool :=
  match byteKind b with
  | .ordinary => true
  | .hash => !first
  | .tilde => !first
  | _ => false

def plainFrom : Bool → GoString → Bool
  | _,[] => true
  | first,b::s => plainByte first b && plainFrom false s

/-- A word of characters that stand for themselves, brackets apart. -/
def Bare (w : GoString) : Prop := w≠[] ∧ plainFrom true w=true

instance (w : GoString) : Decidable (Bare w) := inferInstanceAs (Decidable (_ ∧ _))

/-- No bracket expression is completed in a word without quotes. -/
def bracketFree : Bracket → GoString → Bool
  | _,[] => true
  | g,b::s =>
    match g.next b with
    | none => false
    | some g' => bracketFree g' s

/-- A word that needs no quotes. -/
def Plain (w : GoString) : Prop := Bare w ∧ bracketFree .outside w=true

instance (w : GoString) : Decidable (Plain w) := inferInstanceAs (Decidable (_ ∧ _))

/-- A plain character is added to the word so far. -/
theorem next_plain {word : Option GoString} {b : UInt8} (h : plainByte word.isNone b=true) :
    next (.unquoted word) b=some ([],.unquoted (some (word.getD []++[b]))) := by
  unfold plainByte at h
  simp only [next,unquoted]
  split at h
  · next kind => rw [kind]
  · next kind =>
    rw [kind]
    cases word with
    | none => cases h
    | some w => rfl
  · next kind =>
    rw [kind]
    cases word with
    | none => cases h
    | some w => rfl
  · cases h

theorem lex_plain (c rest : GoString) (w : GoString) (h : plainFrom false c=true) :
    lex (.unquoted (some w)) (c++rest)=lex (.unquoted (some (w++c))) rest := by
  induction c generalizing w with
  | nil => simp
  | cons b c ih =>
    rw [plainFrom,Bool.and_eq_true] at h
    have step : next (.unquoted (some w)) b=some ([],.unquoted (some (w++[b]))) := next_plain h.1
    rw [List.cons_append,lex,step,Option.bind_some,ih (w++[b]) h.2]
    simp

/-- A bare word is read up to the blank or the end after it. -/
theorem lex_bare {w : GoString} (h : Bare w) (rest : GoString) :
    lex (.unquoted none) (w++rest)=lex (.unquoted (some w)) rest := by
  cases w with
  | nil => exact absurd rfl h.1
  | cons b c =>
    have bytes := h.2
    rw [plainFrom,Bool.and_eq_true] at bytes
    have step : next (.unquoted none) b=some ([],.unquoted (some [b])) := next_plain bytes.1
    rw [List.cons_append,lex,step,Option.bind_some,lex_plain c rest [b] bytes.2]
    simp

theorem lex_bare_blank {w : GoString} (h : Bare w) (rest : GoString) :
    lex (.unquoted none) (w++32::rest)=(lex (.unquoted none) rest).map (fun ts => .word w::ts) := by
  rw [lex_bare h,lex]
  rfl

/-- The brackets of a bare word up to the blank after it. -/
theorem unbracketed_blank (word : Option GoString) (g : Bracket) (c rest : GoString)
    (h : plainFrom word.isNone c=true) :
    unbracketed (.unquoted word) g (c++32::rest)=
      (bracketFree g c && unbracketed (.unquoted none) .outside rest) := by
  induction c generalizing word g with
  | nil => rfl
  | cons b c ih =>
    rw [plainFrom,Bool.and_eq_true] at h
    rw [List.cons_append,unbracketed,next_plain h.1,bracketFree]
    simp only [Bracket.step]
    cases g.next b with
    | none => rfl
    | some g' => exact ih (some (word.getD []++[b])) g' h.2

theorem unbracketed_end (word : Option GoString) (g : Bracket) (c : GoString)
    (h : plainFrom word.isNone c=true) : unbracketed (.unquoted word) g c=bracketFree g c := by
  induction c generalizing word g with
  | nil => rfl
  | cons b c ih =>
    rw [plainFrom,Bool.and_eq_true] at h
    rw [unbracketed,next_plain h.1,bracketFree]
    simp only [Bracket.step]
    cases g.next b with
    | none => rfl
    | some g' => exact ih (some (word.getD []++[b])) g' h.2

theorem unbracketed_words {w : GoString} {ws : List GoString} (bare : ∀ v∈w::ws, Bare v) :
    unbracketed (.unquoted none) .outside ([32].intercalate (w::ws))=true ↔
      ∀ v∈w::ws, bracketFree .outside v=true := by
  induction ws generalizing w with
  | nil =>
    rw [List.intercalate_singleton,List.forall_mem_singleton,
      unbracketed_end none .outside w (bare w List.mem_cons_self).2]
  | cons v ws ih =>
    have here := (bare w List.mem_cons_self).2
    rw [List.forall_mem_cons] at bare
    rw [List.intercalate_cons_cons,List.append_assoc,List.singleton_append,
      unbracketed_blank none .outside w _ here,Bool.and_eq_true,ih bare.2]
    exact (List.forall_mem_cons (p := fun v => bracketFree .outside v=true)).symm

/-- A word counts with the blank after it. -/
def weight : List Token → Nat
  | [] => 0
  | .word w::ts => w.length+1+weight ts
  | .operator _::ts => weight ts
  | .newline::ts => weight ts

/-- What the word so far weighs if it ends in the next character. -/
def Mode.weight : Mode → Nat
  | .unquoted w => (w.getD []).length+1
  | .escape w => (w.getD []).length+1
  | .single w => w.length
  | .double w => w.length
  | .doubleEscape w => w.length+1
  | .comment => 0

@[simp] theorem weight_nil : weight []=0 := by rw [weight]

@[simp] theorem weight_word (w : GoString) (ts : List Token) :
    weight (.word w::ts)=w.length+1+weight ts := by rw [weight]

theorem weight_append (ts us : List Token) : weight (ts++us)=weight ts+weight us := by
  induction ts with
  | nil => simp [weight]
  | cons t ts ih =>
    cases t with
    | word w =>
      rw [List.cons_append,weight_word,weight_word,ih]
      omega
    | operator b => exact ih
    | newline => exact ih

theorem weight_flush (word : Option GoString) : weight (flush word) ≤ (word.getD []).length+1 := by
  cases word with
  | none => exact Nat.zero_le _
  | some w => exact Nat.le_refl _

theorem unquoted_weight {word : Option GoString} {n : Mode} {b : UInt8} {ts : List Token}
    (h : unquoted word b=some (ts,n)) : weight ts+n.weight ≤ (word.getD []).length+2 := by
  have flushed := weight_flush word
  have newline : weight [.newline]=0 := rfl
  have operator : weight [.operator b]=0 := rfl
  unfold unquoted at h
  split at h <;> cases h <;>
    simp only [weight_append,newline,operator,weight_nil,Mode.weight,Option.getD_none,
      Option.getD_some,List.length_append,List.length_singleton,List.length_nil] <;> omega

/-- A character adds one at most. -/
theorem next_weight {m n : Mode} {b : UInt8} {ts : List Token} (h : next m b=some (ts,n)) :
    weight ts+n.weight ≤ m.weight+1 := by
  cases m with
  | unquoted word => exact unquoted_weight h
  | escape word =>
    rw [next] at h
    split_ifs at h <;> cases h <;> simp [Mode.weight]
  | single word =>
    rw [next] at h
    split_ifs at h <;> cases h <;> simp [Mode.weight]
  | double word =>
    rw [next] at h
    split_ifs at h <;> cases h <;> simp [Mode.weight]
  | doubleEscape word =>
    rw [next] at h
    split_ifs at h <;> cases h <;> simp [Mode.weight]
    omega
  | comment =>
    rw [next] at h
    split_ifs at h <;> cases h <;> simp [Mode.weight,weight]

/-- One step of the reader, taken apart. -/
theorem lex_cons {m : Mode} {b : UInt8} {s : GoString} {ts : List Token}
    (h : lex m (b::s)=some ts) :
    ∃ now n later, next m b=some (now,n) ∧ lex n s=some later ∧ ts=now++later := by
  rw [lex,Option.bind_eq_some_iff] at h
  obtain ⟨⟨now,n⟩,step,h⟩ := h
  obtain ⟨later,rest,h⟩ := Option.map_eq_some_iff.mp h
  exact ⟨now,n,later,step,rest,h.symm⟩

/-- No reading finds more in a text than its characters and the blank that would end it. -/
theorem lex_weight {m : Mode} {s : GoString} {ts : List Token} (h : lex m s=some ts) :
    weight ts ≤ s.length+m.weight := by
  induction s generalizing m ts with
  | nil =>
    rw [lex] at h
    cases m <;> cases h
    · next word =>
      have flushed := weight_flush word
      simp only [Mode.weight,List.length_nil]
      omega
    · exact Nat.zero_le _
  | cons b s ih =>
    obtain ⟨now,n,later,step,rest,rfl⟩ := lex_cons h
    have here := next_weight step
    have after := ih rest
    rw [weight_append,List.length_cons]
    omega

/-- A character that does not stand for itself ends the word, drops out of it or has no
reading. -/
theorem unquoted_special {word : Option GoString} {n : Mode} {b : UInt8} {now : List Token}
    (h : unquoted word b=some (now,n)) (special : plainByte word.isNone b=false) :
    (∃ w ts, word=some w ∧ now=.word w::ts) ∨ (∃ t ts, now=t::ts ∧ ∀ w, t≠.word w) ∨
      (now=[] ∧ n.weight ≤ (word.getD []).length+1) := by
  unfold plainByte at special
  unfold unquoted at h
  -- by the kind of the character and whether a word has begun
  cases kind : byteKind b <;> rw [kind] at h special <;> cases word <;> simp at h special <;>
    obtain ⟨rfl,rfl⟩ := h <;> simp [flush,Mode.weight]

/-- A word that is read back in full has plain characters only. -/
theorem plainFrom_of_lex {word : Option GoString} {c rest : GoString} {ts : List Token}
    (h : lex (.unquoted word) (c++rest)=some (.word (word.getD []++c)::ts))
    (full : weight (.word (word.getD []++c)::ts)=(c++rest).length+(word.getD []).length+1) :
    plainFrom word.isNone c=true := by
  induction c generalizing word with
  | nil => rfl
  | cons b c ih =>
    obtain ⟨now,n,later,step,read,all⟩ := lex_cons h
    cases plain : plainByte word.isNone b with
    | true =>
      have stay := next_plain plain
      rw [step] at stay
      cases stay
      have same : word.getD []++b::c=(word.getD []++[b])++c := by simp
      rw [plainFrom,plain,Bool.true_and]
      rw [List.nil_append] at all
      rw [←all,same] at read
      rw [same] at full
      change plainFrom (some (word.getD []++[b])).isNone c=true
      apply ih read
      rw [Option.getD_some,full]
      simp only [List.cons_append,List.length_cons,List.length_append,List.length_nil]
      omega
    | false =>
      exfalso
      have bound : weight later ≤ (c++rest).length+n.weight := lex_weight read
      obtain ⟨w,us,rfl,rfl⟩ | ⟨t,us,rfl,other⟩ | ⟨rfl,lower⟩ := unquoted_special step plain
      · -- the word ended before the character
        injection all with first
        injection first with first
        have lengths := congrArg List.length first
        simp at lengths
      · injection all with first
        exact other _ first.symm
      · rw [all,List.nil_append,List.cons_append,List.length_cons] at full
        omega

theorem weight_words (w : GoString) (ws : List GoString) :
    weight ((w::ws).map .word)=([32].intercalate (w::ws)).length+1 := by
  induction ws generalizing w with
  | nil => simp
  | cons v ws ih =>
    rw [List.map_cons,weight_word,ih v,List.intercalate_cons_cons]
    simp only [List.length_append,List.length_singleton]
    omega

/-- An empty word leaves no trace between two blanks. -/
theorem lex_blank (s : GoString) : lex (.unquoted none) (32::s)=lex (.unquoted none) s := by
  rw [lex]
  exact Option.map_id'

/-- A word read back in full at the front of a text, up to a blank or to the end, is bare. -/
theorem bare_of_lex {w rest : GoString} {ts : List Token}
    (h : lex (.unquoted none) (w++rest)=some (.word w::ts))
    (full : weight (.word w::ts)=(w++rest).length+1)
    (ended : rest=[] ∨ ∃ later, rest=32::later) : Bare w := by
  refine ⟨?_,?_⟩
  · intro empty
    subst empty
    obtain rfl | ⟨later,rfl⟩ := ended
    · cases h
    · rw [List.nil_append,lex_blank] at h
      have bound := lex_weight h
      rw [full,List.nil_append,List.length_cons] at bound
      exact absurd bound (Nat.not_succ_le_self _)
  · change plainFrom (none : Option GoString).isNone w=true
    exact plainFrom_of_lex h full

theorem lex_words_iff (w : GoString) (ws : List GoString) :
    lex (.unquoted none) ([32].intercalate (w::ws))=some ((w::ws).map .word) ↔
      ∀ v∈w::ws, Bare v := by
  induction ws generalizing w with
  | nil =>
    rw [List.intercalate_singleton,List.forall_mem_singleton]
    constructor
    · intro h
      have read : lex (.unquoted none) (w++[])=some [.word w] := by rw [List.append_nil]; exact h
      have full : weight [.word w]=(w++[]).length+1 := by rw [weight_word,List.append_nil]; rfl
      exact bare_of_lex read full (.inl rfl)
    · intro bare
      have read := lex_bare bare []
      rw [List.append_nil] at read
      rw [read]
      rfl
  | cons v ws ih =>
    have full := weight_words w (v::ws)
    rw [List.intercalate_cons_cons,List.append_assoc,List.singleton_append] at full ⊢
    rw [List.forall_mem_cons,←ih v]
    constructor
    · intro h
      have bare : Bare w := bare_of_lex h full (.inr ⟨_,rfl⟩)
      rw [lex_bare_blank bare,Option.map_eq_some_iff] at h
      obtain ⟨ts,read,same⟩ := h
      injection same with _ same
      exact ⟨bare,read.trans (congrArg some same)⟩
    · intro h
      rw [lex_bare_blank h.1,h.2]
      rfl

/-- Words joined by single blanks are read back as they are exactly when none of them needs
quotes. -/
theorem reading_words_iff (w : GoString) (ws : List GoString) :
    reading ([32].intercalate (w::ws))=some ((w::ws).map .word) ↔ ∀ v∈w::ws, Plain v := by
  rw [reading,Option.ite_none_right_eq_some,lex_words_iff]
  constructor
  · rintro ⟨free,bare⟩ v hv
    exact ⟨bare v hv,(unbracketed_words bare).mp free v hv⟩
  · intro plain
    have bare : ∀ v∈w::ws, Bare v := fun v hv => (plain v hv).1
    exact ⟨(unbracketed_words bare).mpr (fun v hv => (plain v hv).2),bare⟩

theorem blank_notMem {first : Bool} {w : GoString} (h : plainFrom first w=true) : 32∉w := by
  induction w generalizing first with
  | nil => exact List.not_mem_nil
  | cons b w ih =>
    rw [plainFrom,Bool.and_eq_true] at h
    intro mem
    obtain rfl | mem := List.mem_cons.mp mem
    · cases h.1
    · exact ih h.2 mem

/-- There is a blank between any two words that are joined. -/
theorem blanks_joined (w : GoString) (ws : List GoString) :
    ws.length ≤ ([32].intercalate (w::ws)).count 32 := by
  induction ws generalizing w with
  | nil => exact Nat.zero_le _
  | cons v ws ih =>
    have tail := ih v
    rw [List.intercalate_cons_cons,List.count_append,List.count_append,List.count_singleton_self,
      List.length_cons]
    omega

/-- Bare words have no other blanks. -/
theorem blanks_joined_bare {w : GoString} {ws : List GoString} (bare : ∀ v∈w::ws, Bare v) :
    ([32].intercalate (w::ws)).count 32=ws.length := by
  induction ws generalizing w with
  | nil =>
    rw [List.intercalate_singleton]
    exact List.count_eq_zero.mpr (blank_notMem (bare w List.mem_cons_self).2)
  | cons v ws ih =>
    rw [List.forall_mem_cons] at bare
    have head : w.count 32=0 := List.count_eq_zero.mpr (blank_notMem bare.1.2)
    rw [List.intercalate_cons_cons,List.count_append,List.count_append,List.count_singleton_self,
      head,ih bare.2,List.length_cons]
    omega

/-- The first blank ends the first word if the other text has no fewer blanks to come. -/
theorem first_word {w v s t : GoString} (clear : 32∉w) (blanks : s.count 32 ≤ t.count 32)
    (h : w++32::s=v++32::t) : w=v ∧ s=t := by
  obtain ⟨u,longer,rest⟩ | ⟨u,longer,rest⟩ := List.append_eq_append_iff.mp h
  · cases u with
    | nil =>
      injection rest with _ rest
      exact ⟨by rw [longer,List.append_nil],rest⟩
    | cons b u =>
      -- the other word would run on over a blank that its rest then lacks
      have rest : s=u++32::t := (List.cons.inj rest).2
      rw [rest,List.count_append,List.count_cons_self] at blanks
      omega
  · cases u with
    | nil =>
      injection rest with _ rest
      exact ⟨by rw [longer,List.append_nil],rest.symm⟩
    | cons b u =>
      injection rest with same _
      rw [longer,←same] at clear
      exact absurd (List.mem_append_right v List.mem_cons_self) clear

/-- Bare words are joined to a text that no other words, as many of them, are joined to. -/
theorem words_of_joined {w v : GoString} {ws vs : List GoString} (bare : ∀ u∈w::ws, Bare u)
    (size : ws.length=vs.length) (h : [32].intercalate (w::ws)=[32].intercalate (v::vs)) :
    w::ws=v::vs := by
  induction ws generalizing w v vs with
  | nil =>
    cases vs with
    | nil =>
      rw [List.intercalate_singleton,List.intercalate_singleton] at h
      rw [h]
    | cons v' vs => cases size
  | cons w' ws ih =>
    cases vs with
    | nil => cases size
    | cons v' vs =>
      rw [List.forall_mem_cons] at bare
      have size : ws.length=vs.length := Nat.succ.inj size
      have blanks : ([32].intercalate (w'::ws)).count 32 ≤ ([32].intercalate (v'::vs)).count 32 := by
        rw [blanks_joined_bare bare.2,size]
        exact blanks_joined v' vs
      rw [List.intercalate_cons_cons,List.intercalate_cons_cons,List.append_assoc,
        List.append_assoc,List.singleton_append,List.singleton_append] at h
      obtain ⟨same,h⟩ := first_word (blank_notMem bare.1.2) blanks h
      rw [same,ih bare.2 size h]

end Sh

end StCache
