import Mathlib.Data.Set.Insert
import Steward.Proofs.Files.Places

set_option autoImplicit false

namespace Steward

inductive FileDeed
  | written (place : List String) (content : ByteArray)
  | removed (place : List String)

namespace FileDeed

def place : FileDeed → List String
  | written place _ => place
  | removed place => place

def keep (kept : Set (List String)) : FileDeed → Set (List String)
  | written place _ => insert place kept
  | removed place => kept \ {place}

def left (deeds : List FileDeed) : Set (List String) := deeds.foldl keep ∅

theorem left_concat (deeds : List FileDeed) (d : FileDeed) :
    left (deeds ++ [d]) = keep (left deeds) d := by
  simp [left]

end FileDeed

namespace FileTree

inductive Became (t : FileTree) : List FileDeed → FileTree → Prop
  | same : Became t [] t
  | directory {deeds : List FileDeed} {u : FileTree} {place : List String}
      (before : Became t deeds u) (new : u.node? place = none) :
      Became t deeds (u.put place .directory)
  | written {deeds : List FileDeed} {u : FileTree} {place : List String} (content : ByteArray)
      (modified : Moment) (before : Became t deeds u) (free : u.node? place ≠ some .directory) :
      Became t (deeds ++ [.written place content]) (u.put place (.file content modified))
  | removed {deeds : List FileDeed} {u : FileTree} {place : List String}
      (before : Became t deeds u) (there : u.file? place ≠ none) :
      Became t (deeds ++ [.removed place]) (u.drop place)

section Change

variable {t : FileTree} {place other : List String}

theorem ne_nil_of_free (free : t.node? place ≠ some .directory) : place ≠ [] := by
  rintro rfl
  exact free rfl

theorem ne_nil_of_file (there : t.file? place ≠ none) : place ≠ [] := by
  rintro rfl
  exact there rfl

theorem ne_nil_of_new (new : t.node? place = none) : place ≠ [] := by
  rintro rfl
  cases new

theorem file?_put_directory (new : t.node? place = none) :
    (t.put place .directory).file? other = t.file? other := by
  unfold file?
  rw [node?_put (ne_nil_of_new new)]
  by_cases here : other = place
  · simp [here, new]
  · rw [if_neg here]

theorem file?_put_file (free : t.node? place ≠ some .directory) (content : ByteArray)
    (modified : Moment) : (t.put place (.file content modified)).file? other =
      if other = place then some (content, modified) else t.file? other := by
  unfold file?
  rw [node?_put (ne_nil_of_free free)]
  by_cases here : other = place <;> simp [here]

theorem file?_drop (there : t.file? place ≠ none) :
    (t.drop place).file? other = if other = place then none else t.file? other := by
  unfold file?
  rw [node?_drop (ne_nil_of_file there)]
  by_cases here : other = place <;> simp [here]

end Change

namespace Became

variable {t u v : FileTree} {deeds later : List FileDeed} {place : List String}

theorem trans (first : t.Became deeds u) (second : u.Became later v) :
    t.Became (deeds ++ later) v := by
  induction second with
  | same =>
    rw [List.append_nil]
    exact first
  | directory _ new ih => exact .directory ih new
  | written content modified _ free ih =>
    rw [← List.append_assoc]
    exact .written content modified ih free
  | removed _ there ih =>
    rw [← List.append_assoc]
    exact .removed ih there

theorem ends (became : t.Became deeds u) (place : List String) :
    (place ∈ FileDeed.left deeds ∧ ∃ content modified,
        .written place content ∈ deeds ∧ u.file? place = some (content, modified)) ∨
      (place ∉ FileDeed.left deeds ∧ (u.file? place = none ∨ u.file? place = t.file? place)) := by
  induction became with
  | same => exact .inr ⟨Set.notMem_empty place, .inr rfl⟩
  | directory _ new ih =>
    rw [file?_put_directory new]
    exact ih
  | @written deeds u target content modified _ free ih =>
    rw [FileDeed.left_concat, file?_put_file free]
    by_cases here : place = target
    · subst here
      exact .inl ⟨Set.mem_insert place _, content, modified, by simp, if_pos rfl⟩
    · rw [if_neg here]
      rcases ih with ⟨kept, content, modified, member, found⟩ | ⟨gone, found⟩
      · exact .inl ⟨Set.mem_insert_of_mem target kept, content, modified,
          List.mem_append_left _ member, found⟩
      · exact .inr ⟨Set.mem_insert_iff.not.mpr (not_or_intro here gone), found⟩
  | @removed deeds u target _ there ih =>
    rw [FileDeed.left_concat, file?_drop there]
    by_cases here : place = target
    · exact .inr ⟨fun kept => kept.2 here, .inl (if_pos here)⟩
    · rw [if_neg here]
      rcases ih with ⟨kept, content, modified, member, found⟩ | ⟨gone, found⟩
      · exact .inl ⟨⟨kept, here⟩, content, modified, List.mem_append_left _ member, found⟩
      · exact .inr ⟨fun kept => gone kept.1, found⟩

theorem untouched (became : t.Became deeds u) (apart : ∀ d ∈ deeds, d.place ≠ place) :
    u.file? place = t.file? place := by
  induction became with
  | same => rfl
  | directory _ new ih => rw [file?_put_directory new, ih apart]
  | @written _ _ target _ _ _ free ih =>
    have elsewhere : target ≠ place := apart _ (List.mem_append_right _ List.mem_cons_self)
    rw [file?_put_file free, if_neg elsewhere.symm]
    exact ih fun d member => apart d (List.mem_append_left _ member)
  | @removed _ _ target _ there ih =>
    have elsewhere : target ≠ place := apart _ (List.mem_append_right _ List.mem_cons_self)
    rw [file?_drop there, if_neg elsewhere.symm]
    exact ih fun d member => apart d (List.mem_append_left _ member)

theorem same_files (became : t.Became [] u) : u.file? = t.file? :=
  funext fun _ => became.untouched nofun

theorem directories (became : t.Became deeds u) (directory : t.node? place = some .directory) :
    u.node? place = some .directory := by
  induction became with
  | same => exact directory
  | @directory _ u target _ new ih =>
    rw [node?_put (ne_nil_of_new new), ih]
    split <;> rfl
  | @written _ u target content modified _ free ih =>
    have elsewhere : place ≠ target := by
      rintro rfl
      exact free ih
    rw [node?_put (ne_nil_of_free free), if_neg elsewhere, ih]
  | @removed _ u target _ there ih =>
    have elsewhere : place ≠ target := by
      rintro rfl
      exact there (file?_eq_none_iff.mpr (.inr ih))
    rw [node?_drop (ne_nil_of_file there), if_neg elsewhere, ih]

theorem rooted (became : t.Became deeds u) (rooted : t.Rooted place) : u.Rooted place :=
  fun above name below same => became.directories (rooted above name below same)

end Became

section Operations

variable {t u : FileTree} {p : Path}

theorem makeDirectory_became (made : t.makeDirectory p = .ok u) : t.Became [] u := by
  unfold makeDirectory at made
  cases found : t.locate p with
  | error fault =>
    rw [found] at made
    cases made
  | ok place =>
    simp only [found, bind, Except.bind] at made
    split at made
    · cases made
    · next new =>
      cases made
      exact .directory .same new

theorem makeFirst_became {paths : List Path} (made : t.makeFirst paths = .ok u) :
    t.Became [] u := by
  -- Where a directory could not be made because it is there, nothing has been changed.
  have settled {t u : FileTree} {p : Path} {fault : FileFault}
      (made : (if t.isDirectoryAt p then Except.ok t else .error fault) = .ok u) :
      t.Became [] u := by
    split at made
    · cases made
      exact .same
    · cases made
  induction paths generalizing t u with
  | nil => cases made
  | cons p above ih =>
    rw [makeFirst] at made
    split at made
    · next first =>
      cases made
      exact makeDirectory_became first
    · split at made
      · cases made
      · next higher =>
        refine (ih higher).trans ?_
        split at made
        · next later =>
          cases made
          exact makeDirectory_became later
        · exact settled made
    · exact settled made

theorem makeDirectories_became (made : t.makeDirectories p = .ok u) : t.Became [] u := by
  unfold makeDirectories at made
  split at made
  · cases made
    exact .same
  · exact makeFirst_became made

theorem write_eq_ok_iff {content : ByteArray} {modified : Moment} :
    t.write p content modified = .ok u ↔ ∃ place, t.locate p = .ok place ∧
      t.node? place ≠ some .directory ∧ u = t.put place (.file content modified) := by
  unfold write
  cases t.locate p with
  | error fault => simp
  | ok place => rcases there : t.node? place with _ | _ | _ <;> simp [there, eq_comm]

theorem removeFile_eq_ok_iff : t.removeFile p = .ok u ↔
    ∃ place, t.locate p = .ok place ∧ t.file? place ≠ none ∧ u = t.drop place := by
  unfold removeFile file?
  cases t.locate p with
  | error fault => simp [bind, Except.bind]
  | ok place =>
    rcases there : t.node? place with _ | _ | _ <;>
      simp [bind, Except.bind, there, eq_comm]

theorem removeFile_eq_notFound_iff : t.removeFile p = .error .notFound ↔
    t.locate p = .error .notFound ∨ ∃ place, t.locate p = .ok place ∧ t.node? place = none := by
  unfold removeFile
  cases t.locate p with
  | error fault => simp [bind, Except.bind]
  | ok place => rcases there : t.node? place with _ | _ | _ <;> simp [bind, Except.bind, there]

end Operations

end FileTree

end Steward
