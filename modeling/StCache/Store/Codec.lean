import Mathlib.Data.Finset.Sort
import Mathlib.Data.List.Lex
import StCache.Framework.JsonText
import StCache.Store.Fsm

namespace StCache

/-- The byte order by which `encoding/json` sorts the keys of a map. -/
def KeyLe (a b : GoString) : Prop := a.map UInt8.toNat≤b.map UInt8.toNat

instance : DecidableRel KeyLe := fun _ _ => inferInstanceAs (Decidable (_≤_))

instance : Std.Total KeyLe := ⟨fun a b => le_total (a.map UInt8.toNat) (b.map UInt8.toNat)⟩

instance : IsTrans GoString KeyLe := ⟨fun _ _ _ hab hbc => le_trans hab hbc⟩

instance : Std.Antisymm KeyLe :=
  ⟨fun _ _ hab hba =>
    List.map_injective_iff.mpr (fun _ _ => UInt8.toNat_inj.mp) (le_antisymm hab hba)⟩

/-- Bytes that are no UTF-8 are written as U+FFFD. -/
def coerce (s : GoString) : GoString := utf8 (runes s)

theorem coerce_valid (s : GoString) (h : ValidUtf8 s) : coerce s=s := by
  obtain ⟨t,rfl⟩ := h
  rw [coerce,goStr_eq,runes_utf8]

theorem validUtf8_utf8 (cs : List Char) : ValidUtf8 (utf8 cs) :=
  ⟨String.ofList cs,goStr_ofList cs⟩

theorem validUtf8_iff (s : GoString) : ValidUtf8 s ↔ coerce s=s :=
  ⟨coerce_valid s,fun h => h ▸ validUtf8_utf8 (runes s)⟩

theorem validUtf8_ascii {s : GoString} (ascii : ∀ b∈s,b.toNat<128) : ValidUtf8 s := by
  have text : utf8 (s.map (fun b => Char.ofNat b.toNat))=s := by
    induction s with
    | nil => rfl
    | cons b s ih =>
      have first := Json.utf8EncodeChar_ascii b (ascii b List.mem_cons_self)
      have rest := ih (fun c hc => ascii c (List.mem_cons_of_mem b hc))
      rw [List.map_cons,utf8,List.flatMap_cons,first]
      exact congrArg (b::·) rest
  exact text ▸ validUtf8_utf8 _

theorem validUtf8_formatInt (i : Int64) : ValidUtf8 (formatInt i) := by
  have digits (n : Nat) : ∀ b∈formatNat n,b.toNat<128 := by
    intro b hb
    have digit := List.all_eq_true.mp (formatNat_digits n) b hb
    simp only [isDigitByte,Bool.and_eq_true,decide_eq_true_eq] at digit
    omega
  refine validUtf8_ascii ?_
  unfold formatInt
  split_ifs
  · intro b hb
    cases List.mem_cons.mp hb with
    | inl minus =>
      rw [minus]
      decide
    | inr digit => exact digits _ b digit
  · exact digits _

instance (s : GoString) : Decidable (ValidUtf8 s) := decidable_of_iff' _ (validUtf8_iff s)

/-- A member of an object that is decoded into a map of strings: null stands for the empty
string, and any other value is an error. -/
def mapMember (p : GoString × Json.Value) : Option (GoString × GoString) :=
  match p.2 with
  | .string s => some (p.1,s)
  | .null => some (p.1,[])
  | _ => none

def mapValue : Json.Value → Option (GoMap GoString GoString)
  | .null => some .nil
  | .object ps => (ps.mapM mapMember).map (fun ps => .alloc (insertAll ∅ ps))
  | _ => none

/-- `json.Marshal` of a map of strings and `Decode` into one, which does not look at
what follows the value. -/
def jsonMap : MapCodec where
  marshal
    | .nil => goStr "null"
    | .alloc t =>
      Json.writeStrings ((t.keys.sort KeyLe).map (fun k => (runes k,runes ((t.lookup k).getD []))))
  decode s := (Json.decode s).bind (fun p => mapValue p.1)

theorem Utf8Table.sorted {t : Table GoString GoString} (h : Utf8Table t) :
    ∀ k∈t.keys.sort KeyLe,ValidUtf8 k ∧ ValidUtf8 ((t.lookup k).getD []) := by
  intro k hk
  rw [Finset.mem_sort,Finmap.mem_keys,←Finmap.lookup_isSome,Option.isSome_iff_exists] at hk
  obtain ⟨v,hv⟩ := hk
  rw [hv]
  exact h k v hv

theorem insertAll_sorted (t : Table GoString GoString) :
    insertAll ∅ ((t.keys.sort KeyLe).map (fun k => (k,(t.lookup k).getD [])))=t := by
  apply Finmap.ext_lookup
  intro k
  rw [lookup_insertAll_map]
  simp only [Finset.mem_sort,Finmap.mem_keys,←Finmap.lookup_isSome]
  cases t.lookup k <;> simp

theorem mapM_mapMember_strings (ps : List (GoString × GoString)) :
    (ps.map (fun p => (p.1,Json.Value.string p.2))).mapM mapMember=some ps := by
  induction ps with
  | nil => rfl
  | cons p ps ih =>
    rw [List.map_cons,List.mapM_cons,ih]
    rfl

theorem jsonMap_roundTrips : jsonMap.RoundTrips := by
  intro t ht
  have read := Json.decode_writeStrings
    ((t.keys.sort KeyLe).map (fun k => (runes k,runes ((t.lookup k).getD [])))) []
  have plain : ((t.keys.sort KeyLe).map (fun k => (runes k,runes ((t.lookup k).getD [])))).map
      (fun p => (utf8 p.1,Json.Value.string (utf8 p.2)))=
      ((t.keys.sort KeyLe).map (fun k => (k,(t.lookup k).getD []))).map
        (fun p => (p.1,Json.Value.string p.2)) := by
    rw [List.map_map,List.map_map]
    refine List.map_congr_left (fun k hk => ?_)
    have valid := ht.sorted k hk
    exact Prod.ext (coerce_valid _ valid.1) (congrArg Json.Value.string (coerce_valid _ valid.2))
  rw [List.append_nil,plain] at read
  simp only [jsonMap,read,Option.bind_some,mapValue,mapM_mapMember_strings,Option.map_some,
    insertAll_sorted]

/-- The command constants of the log. -/
def Command.ofText (s : GoString) : Command :=
  if s=goStr "SET" then .set
  else if s=goStr "DELETE" then .delete
  else if s=goStr "NOTIFY_STATUS" then .notifyStatus
  else if s=goStr "NOTIFY_TIME" then .notifyTime
  else if s=goStr "NOTIFY_EMPTY" then .notifyEmpty
  else if s=goStr "NOTIFY_EMPTY_TIME" then .notifyEmptyTime
  else .other

inductive EntryField where
  | cmd
  | key
  | value

def entryField (name : GoString) : Option EntryField :=
  let folded := Json.foldName name
  if folded="cmd".toList then some .cmd
  else if folded="key".toList then some .key
  else if folded="value".toList then some .value
  else none

/-- The zero logEntryData -/
def LogEntryData.zero : LogEntryData := ⟨.ofText [],[],[]⟩

/-- One member of the object. Unknown names are skipped and null leaves a field as it is;
none is a value that is no string. -/
def entryMember (e : LogEntryData) (p : GoString × Json.Value) : Option LogEntryData :=
  match entryField p.1,p.2 with
  | none,_ => some e
  | some _,.null => some e
  | some .cmd,.string s => some {e with cmd := .ofText s}
  | some .key,.string s => some {e with key := s}
  | some .value,.string s => some {e with value := s}
  | some _,_ => none

def entryValue : Json.Value → Option LogEntryData
  | .null => some .zero
  | .object ps => ps.foldlM entryMember .zero
  | _ => none

/-- `json.Marshal` of a logEntryData -/
def marshalEntry (cmd key value : GoString) : GoString :=
  Json.writeStrings [("Cmd".toList,runes cmd),("Key".toList,runes key),("Value".toList,runes value)]

/-- `json.Unmarshal` into a logEntryData, which refuses anything after the value. -/
def unmarshalEntry (data : GoString) : Option LogEntryData := (Json.parse data).bind entryValue

/-- Strings that `json.Unmarshal` puts into an entry are valid UTF-8. -/
def Utf8Entries (unmarshal : GoString → Option LogEntryData) : Prop :=
  ∀ d e,unmarshal d=some e → ValidUtf8 e.key ∧ ValidUtf8 e.value

/-- The key and the value of an entry are valid UTF-8. -/
def LogEntryData.Utf8 (e : LogEntryData) : Prop := ValidUtf8 e.key ∧ ValidUtf8 e.value

theorem LogEntryData.Utf8.entryMember {e f : LogEntryData} {p : GoString × Json.Value}
    (h : e.Utf8) (text : ∀ t,p.2=.string t → ValidUtf8 t) (hs : entryMember e p=some f) : f.Utf8 := by
  unfold StCache.entryMember at hs
  split at hs
  · cases hs
    exact h
  · cases hs
    exact h
  · cases hs
    exact h
  · next s _ hp =>
    cases hs
    exact ⟨text s hp,h.2⟩
  · next s _ hp =>
    cases hs
    exact ⟨h.1,text s hp⟩
  · cases hs

theorem LogEntryData.Utf8.members {e f : LogEntryData} {ps : List (GoString × Json.Value)}
    (h : e.Utf8) (texts : Json.Texts ps) (hs : ps.foldlM StCache.entryMember e=some f) : f.Utf8 := by
  induction ps generalizing e with
  | nil =>
    cases hs
    exact h
  | cons p ps ih =>
    rw [List.foldlM_cons] at hs
    obtain ⟨g,hg,hs⟩ := Option.bind_eq_some_iff.mp hs
    have text : ∀ t,p.2=.string t → ValidUtf8 t := by
      intro t ht
      obtain ⟨cs,rfl⟩ := (texts p List.mem_cons_self).2 t ht
      exact validUtf8_utf8 cs
    exact ih (h.entryMember text hg) (fun q hq => texts q (List.mem_cons_of_mem p hq)) hs

theorem unmarshalEntry_utf8 : Utf8Entries unmarshalEntry := by
  intro d e h
  obtain ⟨v,hv,he⟩ := Option.bind_eq_some_iff.mp h
  have zero : LogEntryData.zero.Utf8 := ⟨validUtf8_utf8 [],validUtf8_utf8 []⟩
  unfold entryValue at he
  split at he
  · cases he
    exact zero
  · obtain ⟨rest,read,-⟩ := (Json.parse_iff_read d _).mp hv
    exact zero.members (Json.parseValue_object _ d rest _ read) he
  · cases he

/-- An entry comes back from its JSON text with its strings made valid. -/
theorem unmarshalEntry_coerce (cmd key value : GoString) :
    unmarshalEntry (marshalEntry cmd key value)=
      some ⟨.ofText (coerce cmd),coerce key,coerce value⟩ := by
  have read := Json.decode_writeStrings
    [("Cmd".toList,runes cmd),("Key".toList,runes key),("Value".toList,runes value)] []
  rw [List.append_nil] at read
  have text := (Json.parse_iff_read _ _).mpr ⟨[],read,rfl⟩
  have cmdField : entryField (utf8 "Cmd".toList)=some .cmd := by
    rw [entryField,Json.foldName,runes_utf8]
    rfl
  have keyField : entryField (utf8 "Key".toList)=some .key := by
    rw [entryField,Json.foldName,runes_utf8]
    rfl
  have valueField : entryField (utf8 "Value".toList)=some .value := by
    rw [entryField,Json.foldName,runes_utf8]
    rfl
  rw [unmarshalEntry,marshalEntry,text,Option.bind_some,entryValue]
  simp only [List.map_cons,List.map_nil,List.foldlM_cons,List.foldlM_nil,StCache.entryMember,cmdField,
    keyField,valueField]
  rfl

end StCache
