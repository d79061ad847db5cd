import Mathlib.Data.List.DropRight
import Steward.Proofs.Loading.Steadiness
import Steward.Proofs.Supervision.Reread

set_option autoImplicit false

namespace Steward

namespace Text

theorem dropWhile_of_prefix {p : Char → Bool} {cs ds : List Char} (front : ds <+: cs)
    (kept : cs.dropWhile p = cs) : ds.dropWhile p = ds := by
  obtain ⟨rest, rfl⟩ := front
  cases ds with
  | nil => rfl
  | cons d ds =>
    rw [List.dropWhile_eq_self_iff] at kept ⊢
    simpa using kept

theorem trim_trim (cs : List Char) : trim (trim cs) = trim cs := by
  have start : trimStart (trim cs) = trim cs :=
    dropWhile_of_prefix (List.rdropWhile_prefix isBlank (trimStart cs))
      (List.dropWhile_idempotent isBlank cs)
  unfold trim at start ⊢
  rw [start]
  exact List.rdropWhile_idempotent isBlank (trimStart cs)

theorem trimmed_trimmed (s : String) : trimmed (trimmed s) = trimmed s := by
  simp [trimmed, trim_trim]

end Text

namespace Section

variable {α : Type} [Typed α] {sec : Section} {s : Surroundings} {key : String}
  {checks : List (Check α)} {a : α}

theorem getChecked_checked (done : sec.getChecked s key checks = .ok (some a)) :
    Check.run checks a = .ok () := by
  obtain ⟨found, got, rest⟩ := ok_of_bind done
  cases found with
  | none => cases rest
  | some b =>
    obtain ⟨_, checked, rest⟩ := ok_of_bind rest
    cases rest
    exact (checkAt_ok_iff _ _ _).mp checked

theorem require_checked (done : sec.require s key checks = .ok a) :
    Check.run checks a = .ok () := by
  obtain ⟨found, read, rest⟩ := ok_of_bind done
  cases found with
  | none => cases rest
  | some b =>
    cases rest
    exact getChecked_checked read

end Section

namespace Step

variable {τ α : Type} [Typed α] {sec : Section} {t t' : τ} {s : Surroundings} {l l' : Loading}
  {key : String} {checks : List (Check α)}

theorem readRequired_ok {set : α → τ → τ}
    (done : LoadOr.runOn (readRequired key set checks sec t) s l = (.ok t', l')) :
    ∃ a, Check.run checks a = .ok () ∧ t' = set a t := by
  obtain ⟨a, l₁, read, rest⟩ := LoadOr.ok_of_bind done
  rw [Section.fetch_run] at read
  cases rest
  exact ⟨a, Section.require_checked (congrArg Prod.fst read), rfl⟩

theorem readField_ok {set : α → τ → τ}
    (done : LoadOr.runOn (readField key set checks sec t) s l = (.ok t', l')) :
    t' = t ∨ ∃ a, Check.run checks a = .ok () ∧ t' = set a t := by
  obtain ⟨found, l₁, read, rest⟩ := LoadOr.ok_of_bind done
  rw [Section.fetch_run] at read
  cases found with
  | none =>
    cases rest
    exact .inl rfl
  | some a =>
    cases rest
    exact .inr ⟨a, Section.getChecked_checked (congrArg Prod.fst read), rfl⟩

theorem subsection_ok {set : Section → τ → τ}
    (done : LoadOr.runOn (subsection key set sec t) s l = (.ok t', l')) :
    ∃ part, t' = set part t := by
  obtain ⟨part, l₁, -, rest⟩ := LoadOr.ok_of_bind done
  cases rest
  exact ⟨part, rfl⟩

end Step

theorem Check.nonEmpty_ok {text : String} (fine : Check.run [Check.nonEmpty] text = .ok ()) :
    Text.trimmed text ≠ "" := by
  intro blank
  rw [Check.run_cons_error _ _ _ .blank (by simp [Check.nonEmpty, blank])] at fine
  cases fine

namespace ComponentSpec

structure Neat (spec : ComponentSpec) : Prop where
  named : spec.name ≠ ""
  trimmed : Text.trimmed spec.name = spec.name

theorem neat_trimNames {t : ComponentSpec} (named : Text.trimmed t.name ≠ "") :
    (trimNames t).Neat :=
  ⟨named, Text.trimmed_trimmed t.name⟩

theorem ofSection_neat {entry : Section} {s : Surroundings} {l l' : Loading}
    {spec : ComponentSpec} (done : (ofSection entry).runOn s l = (.ok spec, l')) : spec.Neat := by
  unfold ofSection at done
  rw [Reading.run_eq_foldlM] at done
  obtain ⟨t, l₁, read, rest⟩ := LoadOr.ok_of_bind done
  cases rest
  -- The name is read first, and no later step sets it again.
  simp only [steps, fieldSteps, List.cons_append, List.nil_append, List.foldlM_cons] at read
  obtain ⟨t₁, _, named, read⟩ := LoadOr.ok_of_bind read
  obtain ⟨t₂, _, typed, read⟩ := LoadOr.ok_of_bind read
  obtain ⟨t₃, _, disabled, read⟩ := LoadOr.ok_of_bind read
  obtain ⟨t₄, _, hosts, read⟩ := LoadOr.ok_of_bind read
  obtain ⟨t₅, _, config, read⟩ := LoadOr.ok_of_bind read
  cases read
  obtain ⟨name, fine, rfl⟩ := Step.readRequired_ok named
  obtain ⟨kind, -, rfl⟩ := Step.readRequired_ok typed
  have kept : t₄.name = name := by
    rcases Step.readField_ok disabled with rfl | ⟨off, -, rfl⟩ <;>
      rcases Step.readField_ok hosts with rfl | ⟨names, -, rfl⟩ <;> rfl
  obtain ⟨part, rfl⟩ := Step.subsection_ok config
  refine neat_trimNames ?_
  rw [kept]
  exact Check.nonEmpty_ok fine

end ComponentSpec

def Fault.isRefusal : Fault → Bool
  | .config _ => true
  | .component (.duplicateName _) => true
  | .component (.unknownType _ _) => true
  | _ => false

namespace Roll

def entryAt (list : Listing) (s : Surroundings) (place : Nat) : Except ConfigFault ComponentSpec :=
  LoadOr.outcome (do ComponentSpec.ofSection (← list.get place)) s

def entries (list : Listing) (s : Surroundings) : List (Except ConfigFault ComponentSpec) :=
  (List.range list.size).map (entryAt list s)

inductive Offends (knows : String → Bool) (taken : List String) :
    Except ConfigFault ComponentSpec → Fault → Prop
  | unread (cause : ConfigFault) : Offends knows taken (.error cause) (.config cause)
  | again {spec : ComponentSpec} (used : spec.name ∈ taken) :
      Offends knows taken (.ok spec) (.component (.duplicateName spec.name))
  | unknown {spec : ComponentSpec} (new : spec.name ∉ taken) (foreign : knows spec.kind = false) :
      Offends knows taken (.ok spec) (.component (.unknownType spec.name spec.kind))

/-- The fault of the first entry that is not in order, where the names in `seen` are taken. -/
def FirstOffence (knows : String → Bool) (seen : List String)
    (entries : List (Except ConfigFault ComponentSpec)) (fault : Fault) : Prop :=
  ∃ before bad after, entries = before.map Except.ok ++ bad :: after ∧
    Orderly knows seen before ∧ Offends knows (before.map (·.name) ++ seen) bad fault

def sift (knows : String → Bool) (seen : List String) :
    List (Except ConfigFault ComponentSpec) → Except Fault (List ComponentSpec)
  | [] => .ok []
  | .error cause :: _ => .error (.config cause)
  | .ok spec :: rest =>
    if seen.contains spec.name then .error (.component (.duplicateName spec.name))
    else if !knows spec.kind then .error (.component (.unknownType spec.name spec.kind))
    else (sift knows (spec.name :: seen) rest).map (spec :: ·)

variable {knows : String → Bool} {list : Listing} {seen : List String} {s : Surroundings}

theorem get_accounts (list : Listing) (place : Nat) : (list.get place).Accounts := by
  unfold Listing.get
  split
  · exact .throw _
  · exact Section.build_accounts _ list.table includeLimit _ _

theorem entry_steady (list : Listing) (place : Nat) (s : Surroundings) :
    LoadOr.Steady (do ComponentSpec.ofSection (← list.get place)) s :=
  Load.Accounts.steady (.bind (get_accounts list place) ComponentSpec.ofSection_accounts) s

theorem readFrom_run (knows : String → Bool) (list : Listing) (seen : List String)
    (s : Surroundings) (places : List Nat) (l : Loading) :
    ((readFrom knows list seen places).runOn s l).1 =
      sift knows seen (places.map (entryAt list s)) := by
  induction places generalizing seen l with
  | nil => rfl
  | cons place places ih =>
    have entry := (entry_steady list place s).mapFault Fault.config l
    unfold readFrom
    rw [List.map_cons, LoadOr.runOn_bind]
    rw [LoadOr.outcome_mapFault] at entry
    revert entry
    rcases (LoadOr.mapFault Fault.config _).runOn s l with ⟨r, l₁⟩
    change r = (entryAt list s place).mapError Fault.config → _
    rintro rfl
    cases entryAt list s place with
    | error cause => rfl
    | ok spec =>
      unfold sift
      simp only [Except.mapError]
      split
      · rfl
      · split
        · rfl
        · rw [LoadOr.runOn_bind, ← ih (spec.name :: seen) l₁]
          rcases (readFrom knows list (spec.name :: seen) places).runOn s l₁ with ⟨r, l₂⟩
          cases r <;> rfl

theorem read_run (knows : String → Bool) (list : Listing) (s : Surroundings) (l : Loading) :
    ((read knows list).runOn s l).1 = sift knows [] (entries list s) :=
  readFrom_run knows list [] s (List.range list.size) l

theorem Orderly.cons {spec : ComponentSpec} {specs : List ComponentSpec}
    (new : spec.name ∉ seen) (known : knows spec.kind = true)
    (orderly : Orderly knows (spec.name :: seen) specs) : Orderly knows seen (spec :: specs) := by
  refine ⟨List.nodup_cons.mpr ⟨fun again => ?_, orderly.nodup⟩, ?_, ?_⟩
  · obtain ⟨other, member, same⟩ := List.mem_map.mp again
    exact orderly.new other member (by simp [same])
  · refine List.forall_mem_cons.mpr ⟨new, fun other member before => ?_⟩
    exact orderly.new other member (List.mem_cons_of_mem _ before)
  · exact List.forall_mem_cons.mpr ⟨known, orderly.known⟩

theorem sift_cons_of_new {spec : ComponentSpec} (new : spec.name ∉ seen)
    (known : knows spec.kind = true) (rest : List (Except ConfigFault ComponentSpec)) :
    sift knows seen (.ok spec :: rest) = (sift knows (spec.name :: seen) rest).map (spec :: ·) := by
  simp [sift, new, known]

theorem Offends.congr {taken taken' : List String} {entry : Except ConfigFault ComponentSpec}
    {fault : Fault} (same : ∀ name, name ∈ taken ↔ name ∈ taken')
    (offends : Offends knows taken entry fault) : Offends knows taken' entry fault := by
  cases offends with
  | unread cause => exact .unread cause
  | again used => exact .again ((same _).mp used)
  | unknown new foreign => exact .unknown (fun used => new ((same _).mpr used)) foreign

theorem Offends.sift {entry : Except ConfigFault ComponentSpec} {fault : Fault}
    (offends : Offends knows seen entry fault) (rest : List (Except ConfigFault ComponentSpec)) :
    sift knows seen (entry :: rest) = .error fault := by
  cases offends with
  | unread cause => rfl
  | again used => simp [Roll.sift, used]
  | unknown new foreign => simp [Roll.sift, new, foreign]

theorem FirstOffence.isRefusal {entries : List (Except ConfigFault ComponentSpec)} {fault : Fault}
    (offence : FirstOffence knows seen entries fault) : fault.isRefusal = true := by
  obtain ⟨before, bad, after, -, -, offends⟩ := offence
  cases offends <;> rfl

theorem FirstOffence.head {bad : Except ConfigFault ComponentSpec} {fault : Fault}
    (offends : Offends knows seen bad fault) (rest : List (Except ConfigFault ComponentSpec)) :
    FirstOffence knows seen (bad :: rest) fault :=
  ⟨[], bad, rest, rfl, ⟨List.nodup_nil, by simp, by simp⟩, offends⟩

theorem FirstOffence.cons {spec : ComponentSpec} {rest : List (Except ConfigFault ComponentSpec)}
    {fault : Fault} (new : spec.name ∉ seen) (known : knows spec.kind = true)
    (offence : FirstOffence knows (spec.name :: seen) rest fault) :
    FirstOffence knows seen (.ok spec :: rest) fault := by
  obtain ⟨before, bad, after, rfl, orderly, offends⟩ := offence
  refine ⟨spec :: before, bad, after, rfl, orderly.cons new known, offends.congr fun name => ?_⟩
  simp only [List.mem_append, List.mem_cons, List.map_cons]
  tauto

inductive Sifted (knows : String → Bool) (seen : List String)
    (entries : List (Except ConfigFault ComponentSpec)) :
    Except Fault (List ComponentSpec) → Prop
  | fine {specs : List ComponentSpec} (read : entries = specs.map Except.ok)
      (orderly : Orderly knows seen specs) : Sifted knows seen entries (.ok specs)
  | refused {fault : Fault} (offence : FirstOffence knows seen entries fault) :
      Sifted knows seen entries (.error fault)

theorem sift_sifted (knows : String → Bool) (seen : List String)
    (entries : List (Except ConfigFault ComponentSpec)) :
    Sifted knows seen entries (sift knows seen entries) := by
  induction entries generalizing seen with
  | nil => exact .fine List.map_nil.symm ⟨List.nodup_nil, by simp, by simp⟩
  | cons entry rest ih =>
    have head {fault : Fault} (offends : Offends knows seen entry fault) :
        Sifted knows seen (entry :: rest) (sift knows seen (entry :: rest)) := by
      rw [offends.sift rest]
      exact .refused (.head offends rest)
    cases entry with
    | error cause => exact head (.unread cause)
    | ok spec =>
      by_cases used : spec.name ∈ seen
      · exact head (.again used)
      · cases known : knows spec.kind with
        | false => exact head (.unknown used known)
        | true =>
          have later := ih (spec.name :: seen)
          rw [sift_cons_of_new used known]
          generalize sift knows (spec.name :: seen) rest = r at later
          cases later with
          | @fine specs read orderly =>
            have whole : .ok spec :: rest = (spec :: specs).map Except.ok := by
              rw [read, List.map_cons]
            exact .fine whole (orderly.cons used known)
          | refused offence => exact .refused (offence.cons used known)

theorem sift_of_orderly {before : List ComponentSpec} (orderly : Orderly knows seen before)
    (rest : List (Except ConfigFault ComponentSpec)) :
    sift knows seen (before.map Except.ok ++ rest) =
      (sift knows ((before.map (·.name)).reverse ++ seen) rest).map (before ++ ·) := by
  induction before generalizing seen with
  | nil => cases h : sift knows seen rest <;> simp [h, Except.map]
  | cons spec before ih =>
    have new := orderly.new spec (by simp)
    have known := orderly.known spec (by simp)
    rw [List.map_cons, List.cons_append, sift_cons_of_new new known, ih orderly.tail]
    simp only [List.map_cons, List.reverse_cons, List.append_assoc, List.cons_append,
      List.nil_append]
    cases sift knows ((before.map (·.name)).reverse ++ spec.name :: seen) rest <;> rfl

theorem sift_error_iff {entries : List (Except ConfigFault ComponentSpec)} {fault : Fault} :
    sift knows seen entries = .error fault ↔ FirstOffence knows seen entries fault := by
  constructor
  · intro failed
    have sifted := sift_sifted knows seen entries
    rw [failed] at sifted
    cases sifted with
    | refused offence => exact offence
  · rintro ⟨before, bad, after, rfl, orderly, offends⟩
    rw [sift_of_orderly orderly, Offends.sift (offends.congr fun name => by simp) after]
    rfl

theorem sift_ok {entries : List (Except ConfigFault ComponentSpec)} {specs : List ComponentSpec}
    (done : sift knows seen entries = .ok specs) :
    entries = specs.map Except.ok ∧ Orderly knows seen specs := by
  have sifted := sift_sifted knows seen entries
  rw [done] at sifted
  cases sifted with
  | fine read orderly => exact ⟨read, orderly⟩

theorem neat_of_entry {list : Listing} {s : Surroundings} {place : Nat} {spec : ComponentSpec}
    (read : entryAt list s place = .ok spec) : spec.Neat := by
  unfold entryAt LoadOr.outcome at read
  obtain ⟨entry, l₁, -, done⟩ := LoadOr.ok_of_bind (Prod.ext read rfl)
  exact ComponentSpec.ofSection_neat done

theorem neat_of_entries {list : Listing} {s : Surroundings} {specs : List ComponentSpec}
    (read : entries list s = specs.map Except.ok) : ∀ spec ∈ specs, spec.Neat := by
  intro spec member
  have found : Except.ok spec ∈ entries list s := read ▸ List.mem_map_of_mem member
  obtain ⟨place, -, entry⟩ := List.mem_map.mp found
  exact neat_of_entry entry

end Roll

end Steward
