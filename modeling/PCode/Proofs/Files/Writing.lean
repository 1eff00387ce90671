import PCode.Files.Directory
import PCode.Proofs.Traversal

/-!
# Writing files

A file that has been written is read back through the same path, and no other file is changed.
Reading follows the path once more, among files that are one more or have another content. Every
directory that was there is there still, so the path leads to the same place.

* `write_eq_ok_iff`, `read_eq_ok_iff`: when writing and reading succeed.
* `exists_write_of_writable`: whether a file can be written does not depend on its content.
* `read_of_write`: what has been written is read.
* `file?_of_write`: the other files are as they were.
-/

namespace PCode.Files.Directory

variable {d d' : Directory} {path : String} {content : Bytes} {l l' place : Location}

/-! ## Success -/

/-- A check that throws lets pass what it does not stop. -/
theorem check_eq_ok_iff {α : Type} {stop : Bool} {e : SystemError} {rest : Except SystemError α}
    {a : α} :
    (if stop = true then do throw e; rest else rest) = .ok a ↔ stop = false ∧ rest = .ok a := by
  cases stop with
  | false => simp
  | true =>
    have hthrow : (do throw e; rest : Except SystemError α) = .error e := rfl
    simp [hthrow]

/-- The path leads to a place where a file can be written. -/
structure WritableAt (d : Directory) (path : String) (place : Location) : Prop where
  located : d.locate (Path.ofString path) = .ok place
  not_isFolder : d.isFolder place = false
  not_endsWithSlash : (Path.ofString path).endsWithSlash = false
  not_isTooLong : place.isTooLong = false

theorem write_eq_ok_iff :
    d.write path content = .ok d' ↔
      ∃ place, d.WritableAt path place ∧ d' = d.put place content := by
  simp only [write, bind_eq_ok_iff, check_eq_ok_iff, pure_eq_ok_iff, Bool.or_eq_false_iff]
  constructor
  · rintro ⟨place, hplace, ⟨hfolder, hslash⟩, hlong, rfl⟩
    exact ⟨place, ⟨hplace, hfolder, hslash, hlong⟩, rfl⟩
  · rintro ⟨place, h, rfl⟩
    exact ⟨place, h.located, ⟨h.not_isFolder, h.not_endsWithSlash⟩, h.not_isTooLong, rfl⟩

theorem read_eq_ok_iff :
    d.read path = .ok content ↔
      ∃ place, d.locate (Path.ofString path) = .ok place ∧ d.isFolder place = false ∧
        d.file? place = some content ∧ (Path.ofString path).endsWithSlash = false := by
  simp only [read, bind_eq_ok_iff, check_eq_ok_iff]
  refine exists_congr fun place => and_congr_right fun _ => and_congr_right fun _ => ?_
  cases d.file? place with
  | none => exact ⟨nofun, nofun⟩
  | some found =>
    cases (Path.ofString path).endsWithSlash with
    | true => exact ⟨nofun, nofun⟩
    | false => simp [pure, Except.pure]

/-! ## Places after a file has been put -/

theorem isFolder_put_of_isFolder (h : d.isFolder l = true) :
    (d.put place content).isFolder l = true := by
  simp only [isFolder, Bool.or_eq_true, List.any_eq_true] at h ⊢
  refine h.imp_right ?_
  rintro ⟨f, hf, hinside⟩
  by_cases hplace : f.1 = place
  · exact ⟨(place, content), List.mem_cons_self, hplace ▸ hinside⟩
  · refine ⟨f, List.mem_cons_of_mem _ (List.mem_filter.mpr ⟨hf, ?_⟩), hinside⟩
    exact bne_iff_ne.mpr hplace

/-- A file is not a directory, and what else is inside of its place was there before. -/
theorem not_isFolder_put_self (h : d.isFolder place = false) :
    (d.put place content).isFolder place = false := by
  simp only [isFolder, put, List.any_cons, List.any_filter, Bool.or_eq_false_iff,
    List.any_eq_false] at h ⊢
  refine ⟨h.1, ?_, ?_⟩
  · simp [Location.isInside]
  · intro f hf
    simp [h.2 f hf]

theorem follow_eq_ok_iff {name : String} :
    d.follow l name = .ok l' ↔ d.isFolder l = true ∧ l' = l.next name := by
  unfold follow
  cases d.isFolder l with
  | true => simp [eq_comm]
  | false => cases (d.file? l).isSome <;> simp

theorem foldlM_follow_put {names : List String} (h : names.foldlM d.follow l = .ok l') :
    names.foldlM (d.put place content).follow l = .ok l' := by
  induction names generalizing l with
  | nil => exact h
  | cons name names ih =>
    rw [List.foldlM_cons, bind_eq_ok_iff] at h ⊢
    obtain ⟨next, hnext, hrest⟩ := h
    obtain ⟨hfolder, rfl⟩ := follow_eq_ok_iff.mp hnext
    exact ⟨_, follow_eq_ok_iff.mpr ⟨isFolder_put_of_isFolder hfolder, rfl⟩, ih hrest⟩

/-- A path leads where it led before a file was put. -/
theorem locate_put {p : Path} (h : d.locate p = .ok l) :
    (d.put place content).locate p = .ok l := by
  unfold locate at h ⊢
  split at h
  next => cases h
  next hsize =>
    split at h
    next => cases h
    next hempty =>
      rw [if_neg hsize, if_neg hempty]
      exact foldlM_follow_put h

/-! ## What has been written -/

theorem WritableAt.read_put (h : d.WritableAt path place) (content : Bytes) :
    (d.put place content).read path = .ok content :=
  read_eq_ok_iff.mpr ⟨place, locate_put h.located, not_isFolder_put_self h.not_isFolder,
    file?_put_self d place content, h.not_endsWithSlash⟩

/-- A file can be written at the path. -/
def Writable (d : Directory) (path : String) : Prop := ∃ content d', d.write path content = .ok d'

theorem exists_write_of_writable (h : d.Writable path) (content : Bytes) :
    ∃ d', d.write path content = .ok d' := by
  obtain ⟨_, _, hwrite⟩ := h
  obtain ⟨place, hplace, -⟩ := write_eq_ok_iff.mp hwrite
  exact ⟨_, write_eq_ok_iff.mpr ⟨place, hplace, rfl⟩⟩

/-- **Reading after writing.** What has been written at a path is read there. -/
theorem read_of_write (h : d.write path content = .ok d') : d'.read path = .ok content := by
  obtain ⟨place, hplace, rfl⟩ := write_eq_ok_iff.mp h
  exact hplace.read_put content

/-- **Other files.** Writing at a path changes no file but the one that the path leads to. -/
theorem file?_of_write (h : d.write path content = .ok d') :
    ∃ place, d.locate (Path.ofString path) = .ok place ∧
      ∀ l ≠ place, d'.file? l = d.file? l := by
  obtain ⟨place, hplace, rfl⟩ := write_eq_ok_iff.mp h
  exact ⟨place, hplace.located, fun l hl => file?_put_of_ne d content hl⟩

end PCode.Files.Directory
