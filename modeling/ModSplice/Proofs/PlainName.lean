import ModSplice.Command.Files

/-!
# Names in the directory

A path without a slash is one step from the directory. What is there under such a name can be read
if the file itself can, and a text can be written there unless a directory lies in its way or the
file is protected.
-/
namespace ModSplice.Command

theorem stepsFrom_of_no_slash {rest : List Char} (h : '/' ∉ rest) (begun : List Char) :
    stepsFrom begun rest = stepOf (begun ++ rest) := by
  induction rest generalizing begun with
  | nil => rw [stepsFrom, List.append_nil]
  | cons c rest ih =>
    have hc : c ≠ '/' := by
      rintro rfl
      exact h List.mem_cons_self
    have hrest : '/' ∉ rest := fun hmem => h (List.mem_cons_of_mem c hmem)
    rw [stepsFrom, if_neg hc, ih hrest, List.append_assoc, List.singleton_append]

structure PlainName (name : String) : Prop where
  nonempty : name ≠ ""
  oneStep : '/' ∉ name.toList
  notHere : name ≠ "."
  notUp : name ≠ ".."
  short : name.utf8ByteSize ≤ nameLimit

namespace PlainName

variable {name : String}

theorem steps_eq (h : PlainName name) : steps name = [name] := by
  rw [steps, stepsFrom_of_no_slash h.oneStep]
  simp [stepOf, h.nonempty]

theorem origin_eq (h : PlainName name) : origin name = .below [] := by
  refine if_neg fun hhead => h.oneStep ?_
  exact List.mem_of_head? hhead

theorem endsWithSlash_eq (h : PlainName name) : endsWithSlash name = false := by
  rw [endsWithSlash, beq_eq_false_iff_ne]
  intro hlast
  exact h.oneStep (List.mem_of_getLast? hlast)

theorem within_pathLimit (h : PlainName name) : ¬ pathLimit < name.utf8ByteSize := by
  have hshort := h.short
  simp only [pathLimit, nameLimit] at hshort ⊢
  omega

end PlainName

namespace Files

variable {files : Files} {name : String}

theorem file?_here (files : Files) : files.file? (.below []) = none := rfl

theorem read_plain (h : PlainName name) (file : File)
    (hfile : files.entries.lookup name = some file) : files.read name = file.read := by
  have hthere : files.file? (.below [name]) = some file := by simpa [file?] using hfile
  simp [read, h.within_pathLimit, h.steps_eq, h.origin_eq, h.endsWithSlash_eq, follow, enter,
    file?_here, Place.child?, h.notHere, h.notUp, Nat.not_lt.mpr h.short, hthere]

/-- A plain name for a file of the directory that can be written, whether or not it is there. -/
structure Plain (files : Files) (name : String) : Prop extends PlainName name where
  noDirectory : files.hasDirectory (.below [name]) = false
  mayWrite : files.mayWrite name = true

theorem write_plain (h : files.Plain name) (text : String) :
    files.write name text = .ok (files.set name text) := by
  simp [write, writeIn, h.within_pathLimit, h.steps_eq, h.origin_eq, h.endsWithSlash_eq,
    file?_here, follow, Place.child?, h.notHere, h.notUp, h.noDirectory, h.mayWrite, Nat.not_lt.mpr h.short]

end Files
end ModSplice.Command
