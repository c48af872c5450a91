import StCache.Framework.GoMap
import StCache.Framework.Strconv

namespace StCache

/-- The key-value map of one replica. -/
structure CacheManager where
  data : GoMap GoString GoString
  deriving DecidableEq

/-- `encoding/json` on `map[string]string`. Decoding gives none on an error and
the nil map on a JSON null. -/
structure MapCodec where
  marshal : GoMap GoString GoString → GoString
  decode : GoString → Option (GoMap GoString GoString)

def ValidUtf8 (s : GoString) : Prop := ∃ t : String,goStr t=s

def Utf8Table (t : Table GoString GoString) : Prop :=
  ∀ k v,t.lookup k=some v → ValidUtf8 k ∧ ValidUtf8 v

/-- Maps of valid UTF-8 strings come back from their JSON text unchanged. -/
def MapCodec.RoundTrips (j : MapCodec) : Prop :=
  ∀ t,Utf8Table t → j.decode (j.marshal (.alloc t))=some (.alloc t)

namespace CacheManager

def new : CacheManager := ⟨.make⟩

/-- A missing key reads as the empty string. -/
def get (c : CacheManager) (key : GoString) : GoString := (c.data.get? key).getD []

def set (c : CacheManager) (key value : GoString) : Option CacheManager :=
  (c.data.set key value).map CacheManager.mk

def del (c : CacheManager) (key : GoString) : CacheManager := ⟨c.data.delete key⟩

def marshal (j : MapCodec) (c : CacheManager) : GoString := j.marshal c.data

/-- A decoding error leaves the cache as it was. -/
def unMarshal (j : MapCodec) (c : CacheManager) (serialized : GoString) : CacheManager :=
  match j.decode serialized with
  | none => c
  | some newData => ⟨newData⟩

def clone (c : CacheManager) : Table GoString GoString := c.data.table

theorem get?_set (c d : CacheManager) (key value k : GoString) (h : c.set key value=some d) :
    d.data.get? k=if k=key then some value else c.data.get? k := by
  simp only [set,Option.map_eq_some_iff] at h
  obtain ⟨m,hm,rfl⟩ := h
  exact GoMap.get?_set c.data m key k value hm

@[simp] theorem get?_del (c : CacheManager) (key k : GoString) :
    (c.del key).data.get? k=if k=key then none else c.data.get? k :=
  GoMap.get?_delete c.data key k

@[simp] theorem lookup_clone (c : CacheManager) (k : GoString) :
    c.clone.lookup k=c.data.get? k := GoMap.lookup_table c.data k

end CacheManager

end StCache
