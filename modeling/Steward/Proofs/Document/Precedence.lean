import Steward.Proofs.Document.Adoption

set_option autoImplicit false

namespace Steward.Merge

variable {s : Surroundings} {t : PropertyTable} {left : Nat} {es fs : Entries}
  {base : Option Path} {key : Value} {l l' : Loading} {m : Entries}

theorem get?_mergeIncludes (distinct : (Value.mapping es).distinct = true)
    (done : (mergeIncludes t left es base).runOn s l = (.ok m, l')) (kept : key.distinct = true)
    (other : key.string? ≠ some propertiesKey) :
    Clean m ∧ m.get? key = said s t (ofKey key) left es base :=
  mergeIncludes_reads (answered_key kept other) (fun _ involved => involved.distinct distinct) done

theorem noIncludes_iff (distinct : (Value.mapping es).distinct = true) :
    (∀ e ∈ es, Include.ofEntry? e = none) ↔ ∀ key name, key.distinct = true →
      key.string? = some name → Include.isKey name = true → es.get? key = none := by
  constructor
  · intro none key name kept text included
    refine (Entries.get?_eq_none_iff es key).mpr fun e member => ?_
    refine Bool.eq_false_iff.mpr fun same => ?_
    have found : Include.ofEntry? e = some (name, e.2) :=
      Include.ofEntry?_eq_some.mpr ⟨(Value.string?_of_same same).symm.trans text, included, rfl⟩
    rw [none e member] at found
    cases found
  · intro none e member
    by_contra other
    obtain ⟨⟨name, v⟩, found⟩ := Option.ne_none_iff_exists'.mp other
    obtain ⟨text, included, -⟩ := Include.ofEntry?_eq_some.mp found
    have kept := (((Value.distinct_mapping es).mp distinct).2 e member).1
    have apart := (Entries.get?_eq_none_iff es e.1).mp (none e.1 name kept text included) e member
    simp [Value.same_refl] at apart

theorem untagged_iff {texts : String → Bool} (distinct : (Value.mapping es).distinct = true) :
    Untagged texts es ↔ ∀ key name, key.distinct = true → key.string? = some name →
      texts name = true → (es.get? key).isSome → key = .string name := by
  simp only [Entries.get?_isSome_iff]
  constructor
  · rintro untagged key name - text among ⟨e, member, same⟩
    rw [untagged e member name ((Value.string?_of_same same).symm.trans text) among] at same
    exact Value.same_string_iff.mp same
  · intro plain e member name text among
    have kept := (((Value.distinct_mapping es).mp distinct).2 e member).1
    exact plain e.1 name kept text among ⟨e, member, Value.same_refl e.1⟩

theorem isSome_get?_mergeIncludes (distinct : (Value.mapping es).distinct = true)
    (done : (mergeIncludes t left es base).runOn s l = (.ok m, l')) (kept : key.distinct = true)
    (other : key.string? ≠ some propertiesKey) (plain : isInclude key = false) :
    (m.get? key).isSome ↔ ∃ fs, Involves s t left es base fs ∧ (fs.get? key).isSome := by
  have asks (fs : Entries) : ofKey key fs ≠ some none := by
    cases found : fs.get? key <;> simp [ofKey, plain, found]
  rw [(get?_mergeIncludes distinct done kept other).2, said_isSome_iff asks]
  simp [ofKey, plain]

theorem string?_ne_properties {name : String} (text : key.string? = some name)
    (included : Include.isKey name = true) : key.string? ≠ some propertiesKey := by
  intro named
  cases text.symm.trans named
  cases included

-- An include key that stays has a tag in one of the documents.
theorem noIncludes_mergeIncludes (distinct : (Value.mapping es).distinct = true)
    (done : (mergeIncludes t left es base).runOn s l = (.ok m, l')) :
    (∀ e ∈ m, Include.ofEntry? e = none) ↔
      ∀ fs, Involves s t left es base fs → Untagged Include.isKey fs := by
  have null : Value.null.distinct = true := rfl
  have clean := (get?_mergeIncludes distinct done null nofun).1
  rw [noIncludes_iff clean.distinct]
  constructor
  · intro none fs involved
    rw [untagged_iff (involved.distinct distinct)]
    intro key name kept text included here
    cases plain : isInclude key with
    | true =>
      obtain ⟨_, rfl⟩ := eq_string_of_isInclude plain
      cases text
      rfl
    | false =>
      -- The tagged key would have come to the merged document.
      have other := string?_ne_properties text included
      have there := (isSome_get?_mergeIncludes distinct done kept other plain).mpr
        ⟨fs, involved, here⟩
      simp [none key name kept text included] at there
  · intro untagged key name kept text included
    cases plain : isInclude key with
    | true => exact clean.clean key plain
    | false =>
      by_contra found
      have other := string?_ne_properties text included
      obtain ⟨fs, involved, here⟩ := (isSome_get?_mergeIncludes distinct done kept other plain).mp
        (Option.isSome_iff_ne_none.mpr found)
      have same := (untagged_iff (involved.distinct distinct)).mp (untagged fs involved) key name
        kept text included here
      rw [same, isInclude, included] at plain
      cases plain

theorem mergeIncludes_precedence (distinct : (Value.mapping es).distinct = true)
    (done : (mergeIncludes t left es base).runOn s l = (.ok m, l')) :
    (∀ key, key.distinct = true → key.string? ≠ some propertiesKey →
      m.get? key = said s t (ofKey key) left es base) ∧
    ((∀ e ∈ m, Include.ofEntry? e = none) ↔
      ∀ fs, Involves s t left es base fs → Untagged Include.isKey fs) ∧
    ((∀ fs, Involves s t left es base fs → Untagged (· == propertiesKey) fs) →
      ∀ key, key.distinct = true → property? m key = said s t (ofProperty key) left es base) := by
  refine ⟨fun key kept other => (get?_mergeIncludes distinct done kept other).2,
    noIncludes_mergeIncludes distinct done, fun untagged key kept => ?_⟩
  exact (mergeIncludes_reads (answered_property kept)
    (fun fs involved => ⟨involved.distinct distinct, untagged fs involved⟩) done).2

def mergedFiles : List (String × String) :=
  [("/etc/a.yaml", "v: 1\nw: 1\nproperties:\n  host: a\n  port: 1\n"),
    ("/etc/b.yaml", "include_: c.yaml\nv: 2\n"),
    ("/etc/c.yaml", "u: 3\nv: 3\nproperties:\n  port: 3\n")]

def mergedDocument : Entries :=
  [(.string "include_", .sequence [.string "a.yaml", .string "b.yaml"]),
    (.string "w", .string "own"),
    (.string "properties", .mapping [(.string "host", .string "own")])]

theorem sample_precedence :
    let s := Surroundings.ofFiles mergedFiles
    let base : Option Path := some ⟨"/etc"⟩
    let asked (key : String) := said s .empty (ofKey (.string key)) includeLimit mergedDocument base
    let property (key : String) :=
      said s .empty (ofProperty (.string key)) includeLimit mergedDocument base
    ∃ m, ((mergeIncludes .empty includeLimit mergedDocument base).runOn s {}).1 = .ok m ∧
      (∀ e ∈ m, Include.ofEntry? e = none) ∧
      (∀ key, key ≠ propertiesKey → m.lookup key = asked key) ∧
      (∀ key, property? m (.string key) = property key) ∧
      ["u", "v", "w"].map (fun key => (asked key).bind Value.scalarText?) =
        [some "3", some "2", some "own"] ∧
      ["host", "port"].map (fun key => (property key).bind Value.scalarText?) =
        [some "own", some "3"] := by
  intro s base asked property
  have distinct : (Value.mapping mergedDocument).distinct = true := by decide +kernel
  obtain ⟨m, done⟩ := Load.ok_of_isOk (m := mergeIncludes .empty includeLimit mergedDocument base)
    (s := s) (l := {}) (by decide +kernel)
  obtain ⟨keys, includes, properties⟩ := mergeIncludes_precedence distinct done
  refine ⟨m, congrArg Prod.fst done, includes.mpr (by decide +kernel), fun key other => ?_,
    fun key => properties (by decide +kernel) _ rfl, by decide +kernel, by decide +kernel⟩
  exact keys (.string key) rfl fun same => other (Option.some.inj same)

-- An include key with a tag is taken as an include and stays where it is.
theorem tagged_include_stays :
    let s := Surroundings.ofFiles mergedFiles
    let es : Entries := [(.tagged "!t" (.string "include_"), .string "c.yaml")]
    ∃ m, ((mergeIncludes .empty includeLimit es (some ⟨"/etc"⟩)).runOn s {}).1 = .ok m ∧
      ∃ e ∈ m, (Include.ofEntry? e).isSome := by
  intro s es
  obtain ⟨m, done⟩ := Load.ok_of_isOk (m := mergeIncludes .empty includeLimit es (some ⟨"/etc"⟩))
    (s := s) (l := {}) (by decide +kernel)
  have shown : ((mergeIncludes .empty includeLimit es (some ⟨"/etc"⟩)).runOn s {}).1.map
      (fun m => m.any fun e => (Include.ofEntry? e).isSome) = .ok true := by decide +kernel
  have same := congrArg Prod.fst done
  refine ⟨m, same, ?_⟩
  rw [same] at shown
  simpa [Except.map] using shown

end Steward.Merge
