import Mathlib.Logic.Function.Basic
import Mathlib.Data.List.Basic
import Mathlib.Tactic

/-!
# Files with names

A file system in which several names may lead to one file, as hard links do.
Each operation is one atomic call.  A content is kept while some name leads to
it; the lemmas say which contents an operation cannot lose.
-/

namespace Wildbloom
namespace NamedFiles

variable {Path Content : Type} [DecidableEq Path]

structure Disk (Path Content : Type) where
  names : Path → Option ℕ := fun _ => none
  files : List Content := []

namespace Disk

variable (disk : Disk Path Content) (path : Path) (content : Content)

def read : Option Content :=
  (disk.names path).bind (disk.files[·]?)

/-- A new file; what the name led to before is left alone. -/
def create : Disk Path Content where
  names := Function.update disk.names path (some disk.files.length)
  files := disk.files ++ [content]

def write : Disk Path Content :=
  match disk.names path with
  | some file => { disk with files := disk.files.set file content }
  | none => disk

def link (source target : Path) : Disk Path Content :=
  { disk with names := Function.update disk.names target (disk.names source) }

def unlink : Disk Path Content :=
  { disk with names := Function.update disk.names path none }

/-- A rename takes the place of what was at the target, and does nothing if
both are names of one file. -/
def rename (source target : Path) : Disk Path Content :=
  if disk.names source = disk.names target then disk
  else (disk.link source target).unlink source

def Keeps : Prop :=
  ∃ path, disk.read path = some content

variable {disk path content} {source target : Path} {new : Content}

omit [DecidableEq Path] in
theorem read_append_of_read (hread : disk.read path = some content) (more : List Content) :
    (⟨disk.names, disk.files ++ more⟩ : Disk Path Content).read path = some content := by
  simp only [read, Option.bind_eq_some_iff] at hread ⊢
  obtain ⟨file, hname, hfile⟩ := hread
  have hlength := (List.getElem?_eq_some_iff.mp hfile).1
  refine ⟨file, hname, ?_⟩
  rw [List.getElem?_append_left hlength]
  exact hfile

omit [DecidableEq Path] in
theorem read_ne_of_none (hname : disk.names path = none) : disk.read path ≠ some content := by
  rw [read, hname]
  simp

theorem keeps_new (path : Path) (content : Content) : (disk.create path content).Keeps content := by
  refine ⟨path, ?_⟩
  simp [read, create]

theorem Keeps.create (hkeeps : disk.Keeps content) (hother : disk.read path ≠ some content) :
    (disk.create path new).Keeps content := by
  obtain ⟨found, hfound⟩ := hkeeps
  have hne : found ≠ path := by
    intro heq
    rw [heq] at hfound
    exact hother hfound
  refine ⟨found, ?_⟩
  have happend := read_append_of_read hfound [new]
  simp only [read, Disk.create, Function.update_of_ne hne] at happend ⊢
  exact happend

omit [DecidableEq Path] in
theorem keeps_written (hname : (disk.read path).isSome) : (disk.write path new).Keeps new := by
  obtain ⟨old, hold⟩ := Option.isSome_iff_exists.mp hname
  obtain ⟨file, hpath, hfile⟩ := Option.bind_eq_some_iff.mp hold
  have hlength := (List.getElem?_eq_some_iff.mp hfile).1
  refine ⟨path, ?_⟩
  simp only [read, write, hpath, Option.bind_some]
  exact List.getElem?_set_self hlength

section

variable (hkeeps : disk.Keeps content)
include hkeeps

omit [DecidableEq Path] in
theorem Keeps.write (hother : disk.read path ≠ some content) :
    (disk.write path new).Keeps content := by
  obtain ⟨found, hfound⟩ := hkeeps
  unfold Disk.write
  split
  next file hpath =>
    refine ⟨found, ?_⟩
    simp only [read, Option.bind_eq_some_iff] at hfound ⊢
    obtain ⟨number, hnumber, hcontent⟩ := hfound
    refine ⟨number, hnumber, ?_⟩
    have hne : file ≠ number := by
      intro heq
      rw [← heq] at hcontent
      apply hother
      simp only [read, hpath, Option.bind_some]
      exact hcontent
    rw [List.getElem?_set_ne hne]
    exact hcontent
  · exact ⟨found, hfound⟩

theorem Keeps.link (hother : disk.read target ≠ some content) :
    (disk.link source target).Keeps content := by
  obtain ⟨found, hfound⟩ := hkeeps
  have hne : found ≠ target := by
    intro heq
    rw [heq] at hfound
    exact hother hfound
  refine ⟨found, ?_⟩
  simp only [read, Disk.link, Function.update_of_ne hne] at hfound ⊢
  exact hfound

theorem Keeps.unlink (hother : disk.read path ≠ some content) :
    (disk.unlink path).Keeps content := by
  obtain ⟨found, hfound⟩ := hkeeps
  have hne : found ≠ path := by
    intro heq
    rw [heq] at hfound
    exact hother hfound
  refine ⟨found, ?_⟩
  simp only [read, Disk.unlink, Function.update_of_ne hne] at hfound ⊢
  exact hfound

theorem Keeps.unlink_of_same (hne : target ≠ path) (hsame : disk.names path = disk.names target) :
    (disk.unlink path).Keeps content := by
  obtain ⟨found, hfound⟩ := hkeeps
  by_cases heq : found = path
  · refine ⟨target, ?_⟩
    rw [heq] at hfound
    simp only [read, Disk.unlink, Function.update_of_ne hne] at hfound ⊢
    rw [← hsame]
    exact hfound
  · refine ⟨found, ?_⟩
    simp only [read, Disk.unlink, Function.update_of_ne heq] at hfound ⊢
    exact hfound

theorem Keeps.rename (hother : disk.read target ≠ some content) :
    (disk.rename source target).Keeps content := by
  unfold Disk.rename
  split
  · exact hkeeps
  next hdiffer =>
    have hne : target ≠ source := by
      intro heq
      rw [heq] at hdiffer
      exact hdiffer rfl
    apply (hkeeps.link hother).unlink_of_same hne
    simp only [Disk.link, Function.update_self, Function.update_of_ne hne.symm]

end

end Disk

end NamedFiles
end Wildbloom
