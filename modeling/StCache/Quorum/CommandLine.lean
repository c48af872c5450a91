import StCache.Framework.ShellTokens
import StCache.Quorum.Shell
import StCache.Store.Http

namespace StCache

open Sh

/-- `fmt.Sprintf("%s %s %s",script,key,value)` -/
def verificationFormat (script key value : GoString) : GoString :=
  script++32::(key++32::value)

/-- The words of the shell's grammar that are not command names in first place. -/
def reservedWords : List GoString :=
  ["!","\x7b","\x7d","case","do","done","elif","else","esac","fi","for","if","in","then","until",
    "while"].map goStr

/-- A first word that is taken as the name of a command: neither reserved nor an assignment. -/
def CommandName (w : GoString) : Prop := Plain w ∧ w∉reservedWords ∧ 61∉w

instance (w : GoString) : Decidable (CommandName w) := inferInstanceAs (Decidable (_ ∧ _))

/-- `sh -c cmd` runs one simple command with these words. -/
def RunsAs (cmd : GoString) (words : List GoString) : Prop :=
  reading cmd=some (words.map .word) ∧ ∃ name∈words.head?, CommandName name

theorem runsAs_iff {script : GoString} (name : CommandName script) (args : List GoString) :
    RunsAs ([32].intercalate (script::args)) (script::args) ↔ ∀ w∈args, Plain w := by
  have first : ∃ name∈(script::args).head?, CommandName name := ⟨script,rfl,name⟩
  rw [RunsAs,and_iff_left first,reading_words_iff,List.forall_mem_cons,and_iff_right name.1]

theorem verificationFormat_words (script key value : GoString) :
    verificationFormat script key value=[32].intercalate [script,key,value] := by
  simp [verificationFormat,List.intercalate]

theorem notificationFormat_words (script key value status : GoString) :
    notificationFormat script key value status=[32].intercalate [script,key,value,status] := by
  simp [notificationFormat,List.intercalate]

/-- The second and the third word of a command line are its key and its value. -/
theorem pair_of_words {w w' key value key' value' : GoString} {rest rest' : List GoString}
    (h : w::key::value::rest=w'::key'::value'::rest') : (key,value)=(key',value') := by
  injection h with _ h
  injection h with key_same h
  injection h with value_same
  rw [key_same,value_same]

/-- Both commands run the script on the key, the value and the status as they are stored, and
no other key and value are rendered to either command line. -/
theorem commandLines_iff {script : GoString} (name : CommandName script)
    (key value status : GoString) :
    ((RunsAs (verificationFormat script key value) [script,key,value] ∧
        RunsAs (notificationFormat script key value status) [script,key,value,status]) ∧
      (∀ key' value', verificationFormat script key value=verificationFormat script key' value' →
        (key,value)=(key',value')) ∧
      ∀ key' value' status',
        notificationFormat script key value status=notificationFormat script key' value' status' →
          (key,value)=(key',value')) ↔
    Plain key ∧ Plain value ∧ Plain status := by
  simp only [verificationFormat_words,notificationFormat_words,runsAs_iff name]
  constructor
  · rintro ⟨⟨-,plain⟩,-⟩
    exact ⟨plain key (by simp),plain value (by simp),plain status (by simp)⟩
  · rintro ⟨key_plain,value_plain,status_plain⟩
    have three : ∀ w∈[key,value], Plain w := by
      simp [key_plain,value_plain]
    have four : ∀ w∈[key,value,status], Plain w := by
      simp [key_plain,value_plain,status_plain]
    refine ⟨⟨three,four⟩,?_,?_⟩
    · intro key' value' same
      have bare : ∀ w∈[script,key,value], Bare w :=
        List.forall_mem_cons.mpr ⟨name.1.1,fun w hw => (three w hw).1⟩
      exact pair_of_words (words_of_joined bare (by rfl) same)
    · intro key' value' status' same
      have bare : ∀ w∈[script,key,value,status], Bare w :=
        List.forall_mem_cons.mpr ⟨name.1.1,fun w hw => (four w hw).1⟩
      exact pair_of_words (words_of_joined bare (by rfl) same)

def verifyScript : GoString := goStr "./verify.sh"

theorem commandLines_iff_address :
    CommandName verifyScript ∧
      RunsAs (notificationFormat verifyScript (goStr "db-1") (goStr "10.0.0.1:8091") (goStr "DOWN"))
        [verifyScript,goStr "db-1",goStr "10.0.0.1:8091",goStr "DOWN"] := by
  have name : CommandName verifyScript := by decide +kernel
  have plain : Plain (goStr "db-1") ∧ Plain (goStr "10.0.0.1:8091") ∧ Plain (goStr "DOWN") := by
    decide +kernel
  exact ⟨name,((commandLines_iff name _ _ _).mpr plain).1.2⟩

/-- An opening bracket needs quotes only if a closing one completes it. -/
example : Plain (goStr "a[b") ∧ Plain (goStr "a[b/c]") ∧ Plain (goStr "[!]") ∧
    ¬Plain (goStr "a[b]") ∧ ¬Plain (goStr "[]]") := by decide +kernel

/-- A key that doSet admits ends the script's command and starts one of its own, and a blank
in a key makes two pairs one command line. -/
theorem key_runs_command :
    (doSet leading (goStr "k;reboot") (goStr "v")).response=goStr "ok\n" ∧
      reading (verificationFormat verifyScript (goStr "k;reboot") (goStr "v"))=
        some [.word verifyScript,.word (goStr "k"),.operator 59,.word (goStr "reboot"),
          .word (goStr "v")] ∧
      verificationFormat verifyScript (goStr "a b") (goStr "c")=
        verificationFormat verifyScript (goStr "a") (goStr "b c") := by
  refine ⟨?_,?_,?_⟩ <;> decide +kernel

end StCache
