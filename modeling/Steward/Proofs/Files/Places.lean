import Mathlib.Data.List.Basic
import Steward.Typed.Coerce
import Steward.FileTree

set_option autoImplicit false

namespace Steward

namespace Path

variable {p q dir here : Path}

def Descends (p : Path) : Prop := ".." ∉ p.parts

instance (p : Path) : Decidable p.Descends := inferInstanceAs (Decidable (".." ∉ p.parts))

theorem parts_of_isAbsolute (absolute : p.isAbsolute = true) :
    p.parts = p.segments.filter (!isSkipped ·) := by
  have first : p.segments.head? = some "" := by
    unfold isAbsolute at absolute
    unfold segments
    cases spelled : p.chars with
    | nil => simp [spelled] at absolute
    | cons c cs =>
      rw [spelled, List.head?_cons, beq_iff_eq, Option.some.injEq] at absolute
      simp [absolute, Text.splitOn]
  unfold parts
  split
  · next rest dotted => simp [dotted] at first
  · rfl

theorem isAbsolute_join (absolute : dir.isAbsolute = true) : (dir.join p).isAbsolute = true := by
  unfold join
  split
  · next own => exact own
  · unfold isAbsolute chars at absolute ⊢
    cases spelled : dir.text.toList with
    | nil => simp [spelled] at absolute
    | cons c cs =>
      rw [spelled] at absolute
      split <;> simpa [spelled] using absolute

theorem isAbsolute_joinAll (absolute : dir.isAbsolute = true) (names : List String) :
    (dir.joinAll names).isAbsolute = true := by
  unfold joinAll
  induction names generalizing dir with
  | nil => exact absolute
  | cons name names ih => exact ih (isAbsolute_join absolute)

theorem isAbsolute_absolute (root : here.isAbsolute = true) (filled : p.text ≠ "") :
    (p.absolute here).isAbsolute = true := by
  have named : (p.text == "") = false := beq_false_of_ne filled
  unfold absolute absolute?
  simp only [named, Bool.false_eq_true, if_false, Option.getD_some]
  -- The directory that the names are joined to is one of slashes, or the one here.
  split
  · apply isAbsolute_join
    apply isAbsolute_joinAll
    split <;> first | exact root | decide
  · apply isAbsolute_joinAll
    split <;> first | exact root | decide

theorem text_join_ne_empty (filled : dir.text ≠ "") : (dir.join p).text ≠ "" := by
  unfold join
  split
  · next absolute =>
    intro empty
    simp [isAbsolute, chars, empty] at absolute
  · split <;> simp [filled]

-- A path that is read is one from the root, for the directory of the user has a name.
theorem isAbsolute_of_read {s : Surroundings} {text : String} (root : s.here.isAbsolute = true)
    (reads : Path.read s text = .ok p) : p.isAbsolute = true := by
  unfold Path.read at reads
  split at reads
  · cases reads
  · split at reads
    · split at reads
      · cases reads
      · next home known =>
        have filled : home.text ≠ "" := by
          unfold Surroundings.home? at known
          split at known
          · cases known
          · cases known
          · next named _ =>
            cases known
            exact named
        cases reads
        exact isAbsolute_absolute root (text_join_ne_empty filled)
    · cases reads
      exact isAbsolute_absolute root (by simp)
  · next filled _ =>
    cases reads
    exact isAbsolute_absolute root (by simpa using filled)

theorem isAbsolute_of_ofValue {s : Surroundings} {v : Value} (root : s.here.isAbsolute = true)
    (typed : Typed.ofValue s v = .ok p) : p.isAbsolute = true := by
  change (v.text? >>= fun text => Path.read s text) = .ok p at typed
  cases spelled : v.text? with
  | error fault =>
    rw [spelled] at typed
    cases typed
  | ok text =>
    rw [spelled] at typed
    exact isAbsolute_of_read root typed

theorem Descends.segments (descends : p.Descends) (absolute : p.isAbsolute = true) :
    ".." ∉ p.segments := by
  intro member
  apply descends
  rw [parts_of_isAbsolute absolute]
  exact List.mem_filter.mpr ⟨member, by decide⟩

theorem sameAs_iff (left : p.isAbsolute = true) (right : q.isAbsolute = true) :
    p.sameAs q = true ↔ p.parts = q.parts := by
  simp [sameAs, left, right]

end Path

namespace FileTree

variable {t : FileTree} {place other : List String} {n : FileNode}

def file? (t : FileTree) (place : List String) : Option (ByteArray × Moment) :=
  match t.node? place with
  | some (.file content modified) => some (content, modified)
  | _ => none

theorem isAbsolute_hereAsPath (t : FileTree) : t.hereAsPath.isAbsolute = true := by
  simp [hereAsPath, Path.isAbsolute, Path.chars]

def found (nodes : List (List String × FileNode)) (names : List String) : Option FileNode :=
  (nodes.find? (·.1 == names)).map (·.2)

theorem found_cons (e : List String × FileNode) (nodes : List (List String × FileNode)) :
    found (e :: nodes) other = if other = e.1 then some e.2 else found nodes other := by
  unfold found
  by_cases here : other = e.1
  · rw [if_pos here, List.find?_cons_of_pos (by simp [here])]
    rfl
  · rw [if_neg here, List.find?_cons_of_neg (by simpa using Ne.symm here)]

theorem found_replace (nodes : List (List String × FileNode)) :
    found (nodes.map fun e => if e.1 == place then (place, n) else e) other =
      if other = place ∧ nodes.any (·.1 == place) then some n else found nodes other := by
  induction nodes with
  | nil => simp [found]
  | cons e nodes ih =>
    rw [List.map_cons, found_cons, found_cons, ih, List.any_cons]
    by_cases own : e.1 = place
    · by_cases here : other = place <;> simp [own, here]
    · rw [beq_false_of_ne own, Bool.false_or]
      by_cases here : other = e.1
      · subst here
        simp [own]
      · simp [here]

theorem found_append (nodes : List (List String × FileNode)) (e : List String × FileNode) :
    found (nodes ++ [e]) other =
      (found nodes other).or (if other = e.1 then some e.2 else none) := by
  induction nodes with
  | nil =>
    rw [List.nil_append, found_cons]
    rfl
  | cons f nodes ih =>
    rw [List.cons_append, found_cons, found_cons, ih]
    by_cases here : other = f.1 <;> simp [here]

theorem found_of_absent {nodes : List (List String × FileNode)}
    (absent : ¬ nodes.any (·.1 == place) = true) : found nodes place = none := by
  unfold found
  rw [Option.map_eq_none_iff, List.find?_eq_none]
  intro e member here
  exact absent (List.any_eq_true.mpr ⟨e, member, here⟩)

theorem found_filter (nodes : List (List String × FileNode)) :
    found (nodes.filter (·.1 != place)) other =
      if other = place then none else found nodes other := by
  induction nodes with
  | nil => simp [found]
  | cons e nodes ih =>
    rw [List.filter_cons, found_cons]
    by_cases own : e.1 = place
    · rw [if_neg (by simpa using own), ih]
      by_cases here : other = place <;> simp [own, here]
    · by_cases here : other = e.1
      · simp [own, here, found_cons]
      · simp [own, here, found_cons, ih]

theorem node?_eq_found (filled : place ≠ []) : t.node? place = found t.nodes place := by
  rw [node?, if_neg (by simpa using filled)]
  rfl

theorem node?_put (filled : place ≠ []) (n : FileNode) :
    (t.put place n).node? other = if other = place then some n else t.node? other := by
  by_cases root : other = []
  · subst root
    rw [if_neg filled.symm]
    rfl
  · rw [node?_eq_found root, node?_eq_found root, put]
    split
    · next present => simp only [found_replace, present, and_true]
    · next absent =>
      rw [found_append]
      by_cases here : other = place
      · subst here
        simp [found_of_absent absent]
      · simp [here]

theorem node?_drop (filled : place ≠ []) :
    (t.drop place).node? other = if other = place then none else t.node? other := by
  by_cases root : other = []
  · subst root
    rw [if_neg filled.symm]
    rfl
  · rw [node?_eq_found root, node?_eq_found root]
    exact found_filter t.nodes

theorem here_put (t : FileTree) (place : List String) (n : FileNode) :
    (t.put place n).here = t.here := by
  unfold put
  split <;> rfl

theorem file?_eq_none_iff : t.file? place = none ↔
    t.node? place = none ∨ t.node? place = some .directory := by
  unfold file?
  rcases t.node? place with _ | _ | _ <;> simp

def Rooted (t : FileTree) (place : List String) : Prop :=
  ∀ above name below, place = above ++ name :: below → t.node? above = some .directory

section Walk

variable {at_ segs names : List String} {p : Path}

inductive Walks (t : FileTree) :
    List String → List String → Except FileFault (List String) → Prop
  | done {at_ : List String} : Walks t at_ [] (.ok at_)
  | missing {at_ segs : List String} (missing : t.node? at_ = none) :
      Walks t at_ segs (.error .notFound)
  | blocked {at_ segs : List String} {fault : FileFault} (other : fault ≠ .notFound) :
      Walks t at_ segs (.error fault)
  | skip {at_ rest : List String} {name : String} {r : Except FileFault (List String)}
      (skipped : Path.isSkipped name = true) (more : Walks t at_ rest r) :
      Walks t at_ (name :: rest) r
  | up {at_ rest : List String} {r : Except FileFault (List String)}
      (more : Walks t at_.dropLast rest r) : Walks t at_ (".." :: rest) r
  | down {at_ rest : List String} {name : String} {r : Except FileFault (List String)}
      (directory : t.node? at_ = some .directory) (kept : Path.isSkipped name = false)
      (more : Walks t (at_ ++ [name]) rest r) : Walks t at_ (name :: rest) r

theorem Rooted.nil (t : FileTree) : t.Rooted [] := by
  intro above name below same
  simp at same

theorem Rooted.child {name : String} (rooted : t.Rooted at_)
    (directory : t.node? at_ = some .directory) : t.Rooted (at_ ++ [name]) := by
  intro above other below same
  rcases List.eq_nil_or_concat' below with rfl | ⟨below, last, rfl⟩
  · obtain ⟨rfl, -⟩ := List.append_inj' same rfl
    exact directory
  · rw [← List.cons_append, ← List.append_assoc] at same
    obtain ⟨rfl, -⟩ := List.append_inj' same rfl
    exact rooted above other below rfl

theorem walks (t : FileTree) (at_ segs : List String) : Walks t at_ segs (t.walk at_ segs) := by
  induction segs generalizing at_ with
  | nil => exact .done
  | cons name rest ih =>
    rw [walk]
    split
    · next missing => exact .missing missing
    · exact .blocked nofun
    · next directory =>
      split
      · next skipped => exact .skip skipped (ih at_)
      · next kept =>
        split
        · next up =>
          rw [beq_iff_eq.mp up]
          exact .up (ih _)
        · split
          · exact .blocked nofun
          · exact .down directory (Bool.eq_false_iff.mpr kept) (ih _)

theorem Walks.ok (walks : Walks t at_ segs (.ok names)) (descends : ".." ∉ segs) :
    names = at_ ++ segs.filter (!Path.isSkipped ·) ∧ (t.Rooted at_ → t.Rooted names) := by
  generalize ends : Except.ok names = r at walks
  induction walks with
  | done =>
    cases ends
    simp
  | missing _ => cases ends
  | blocked _ => cases ends
  | skip skipped _ ih =>
    have rest := ih (mt (List.mem_cons_of_mem _) descends) ends
    simpa [skipped] using rest
  | up _ _ => exact absurd List.mem_cons_self descends
  | @down at_ rest name r directory kept _ ih =>
    obtain ⟨place, rooted⟩ := ih (mt (List.mem_cons_of_mem _) descends) ends
    exact ⟨by simpa [kept] using place, fun above => rooted (above.child directory)⟩

theorem Walks.notFound (walks : Walks t at_ segs (.error .notFound)) (descends : ".." ∉ segs) :
    ∃ above below, at_ ++ segs.filter (!Path.isSkipped ·) = above ++ below ∧
      t.node? above = none := by
  generalize ends : Except.error FileFault.notFound = r at walks
  induction walks with
  | done => cases ends
  | missing missing => exact ⟨_, _, rfl, missing⟩
  | blocked other =>
    cases ends
    exact absurd rfl other
  | skip skipped _ ih =>
    have rest := ih (mt (List.mem_cons_of_mem _) descends) ends
    simpa [skipped] using rest
  | up _ _ => exact absurd List.mem_cons_self descends
  | down _ kept _ ih =>
    have rest := ih (mt (List.mem_cons_of_mem _) descends) ends
    simpa [kept] using rest

theorem walk_put (filled : place ≠ []) (free : t.node? place ≠ some .directory)
    (content : ByteArray) (modified : Moment) (found : t.walk at_ segs = .ok names) :
    (t.put place (.file content modified)).walk at_ segs = .ok names := by
  induction segs generalizing at_ with
  | nil => exact found
  | cons name rest ih =>
    rw [walk] at found ⊢
    cases here : t.node? at_ with
    | none =>
      rw [here] at found
      cases found
    | some n =>
      rw [here] at found
      cases n with
      | file _ _ => cases found
      | directory =>
        have apart : at_ ≠ place := by
          rintro rfl
          exact free here
        rw [node?_put filled, if_neg apart, here]
        dsimp only at found ⊢
        split at found
        · next skipped =>
          rw [if_pos skipped]
          exact ih found
        · next kept =>
          rw [if_neg kept]
          split at found
          · next up =>
            rw [if_pos up]
            exact ih found
          · next down =>
            rw [if_neg down]
            split at found
            · cases found
            · next short =>
              rw [if_neg short]
              exact ih found

end Walk

section Locate

variable {p : Path}

theorem locate_eq (t : FileTree) (p : Path) :
    t.locate p = t.walk (if p.isAbsolute then [] else t.here) p.segments ∨
      ∃ fault, t.locate p = .error fault ∧ (fault = .notFound → p.text = "") := by
  unfold locate
  split
  · next empty => exact .inr ⟨_, rfl, fun _ => beq_iff_eq.mp empty⟩
  · split
    · exact .inr ⟨_, rfl, nofun⟩
    · split
      · exact .inr ⟨_, rfl, nofun⟩
      · exact .inl rfl

theorem locate_ok (absolute : p.isAbsolute = true) (descends : p.Descends)
    (found : t.locate p = .ok place) : place = p.parts ∧ t.Rooted p.parts := by
  rcases t.locate_eq p with walk | ⟨fault, failed, -⟩
  · rw [found, if_pos absolute] at walk
    have steps := t.walks [] p.segments
    rw [← walk] at steps
    obtain ⟨same, rooted⟩ := steps.ok (descends.segments absolute)
    rw [List.nil_append, ← Path.parts_of_isAbsolute absolute] at same
    subst same
    exact ⟨rfl, rooted (.nil t)⟩
  · cases found.symm.trans failed

theorem locate_ne_notFound (absolute : p.isAbsolute = true) (descends : p.Descends)
    (rooted : t.Rooted p.parts) (there : t.node? p.parts ≠ none) :
    t.locate p ≠ .error .notFound := by
  intro missed
  rcases t.locate_eq p with walk | ⟨fault, failed, empty⟩
  · rw [missed, if_pos absolute] at walk
    have steps := t.walks [] p.segments
    rw [← walk] at steps
    obtain ⟨above, below, same, missing⟩ := steps.notFound (descends.segments absolute)
    rw [List.nil_append, ← Path.parts_of_isAbsolute absolute] at same
    cases below with
    | nil =>
      rw [List.append_nil] at same
      rw [same] at there
      exact there missing
    | cons name below => cases missing.symm.trans (rooted above name below same)
  · cases missed.symm.trans failed
    unfold Path.isAbsolute Path.chars at absolute
    simp [empty rfl] at absolute

theorem locate_put (filled : place ≠ []) (free : t.node? place ≠ some .directory)
    (content : ByteArray) (modified : Moment) {names : List String}
    (found : t.locate p = .ok names) :
    (t.put place (.file content modified)).locate p = .ok names := by
  unfold locate at found ⊢
  rw [here_put]
  split at found
  · cases found
  · next named =>
    rw [if_neg named]
    split at found
    · cases found
    · next clean =>
      rw [if_neg clean]
      split at found
      · cases found
      · next short =>
        rw [if_neg short]
        exact walk_put filled free content modified found

end Locate

end FileTree

end Steward
