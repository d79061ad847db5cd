import Steward.Proofs.Document.Homeward
import Steward.Proofs.Value.Distinctness

set_option autoImplicit false

namespace Steward

/-- What a document starts from: a file, or a value that no file holds. -/
inductive Start
  | file (p : Path)
  | value (context : String) (v : Value) (distinct : v.distinct = true)

namespace Start

def load : Start → Load Section
  | file p => Section.ofFile p
  | value context v _ => Section.ofValue context v

def homeward : Start → Homeward Sourced
  | file p => Homeward.ofFile p
  | value context v _ => Homeward.ofValue context v

def walk (start : Start) (ways : List Way) : Load Section := do (← start.load).walk ways

def listAt (start : Start) (ways : List Way) (key : String) : Load Listing := do
  (← start.walk ways).getList key

def homewardWalk (start : Start) (ways : List Way) : Homeward Sourced := do
  Homeward.walk (← start.homeward) ways

def homewardListAt (start : Start) (ways : List Way) (key : String) : Homeward SourcedListing := do
  Homeward.getList (← start.homewardWalk ways) key

end Start

inductive Written (s : Surroundings) (start : Start) : Option Path → Value → Prop
  | file {p : Path} {v : Value} (read : Load.readText p (s.stored p) = .ok v) :
      Written s start (s.directoryOf p) v
  | given {context : String} {v : Value} {distinct : v.distinct = true}
      (same : start = .value context v distinct) : Written s start none v
  | entry {home : Option Path} {es : Entries} {e : Value × Value}
      (around : Written s start home (.mapping es)) (member : e ∈ es) : Written s start home e.2
  | item {home : Option Path} {vs : List Value} {v : Value}
      (around : Written s start home (.sequence vs)) (member : v ∈ vs) : Written s start home v
  | tagged {home : Option Path} {tag : String} {v : Value}
      (around : Written s start home (.tagged tag v)) : Written s start home v

def Stands (s : Surroundings) (start : Start) (home : Option Path) (text : String) : Prop :=
  ∃ v, Written s start home v ∧ v.string? = some text

variable {s : Surroundings} {start : Start} {home : Option Path}

theorem Load.readText_distinct {p : Path} {stored : Stored} {v : Value}
    (read : Load.readText p stored = .ok v) : v.distinct = true := by
  unfold Load.readText at read
  split at read
  · cases read
  · cases read
  · split at read
    · next found =>
      cases read
      exact Yaml.read?_distinct found
    · cases read

theorem Written.distinct {v : Value} (written : Written s start home v) : v.distinct = true := by
  induction written with
  | file read => exact Load.readText_distinct read
  | @given _ _ distinct _ => exact distinct
  | entry _ member ih => exact (((Value.distinct_mapping _).mp ih).2 _ member).2
  | item _ member ih => exact (Value.distinct_sequence _).mp ih _ member
  | tagged _ ih => exact (Value.distinct_tagged _ _).symm.trans ih

theorem Written.untagged {v : Value} (written : Written s start home v) :
    Written s start home v.untagged := by
  induction v using Value.induct with
  | tagged tag v ih => exact ih written.tagged
  | _ => exact written

def Homes.Tell (s : Surroundings) (start : Start) (homes : Homes) (es : Entries) : Prop :=
  ∀ e ∈ es, Written s start (homes e.1) e.2

def Source.Tells (s : Surroundings) (start : Start) (o : Source) : Value → Prop
  | .null => True
  | .mapping es => o.entries.Tell s start es
  | v => Written s start o.home v

structure Sources.Tell (s : Surroundings) (start : Start) (o : Sources) (es : Entries) : Prop where
  distinct : (Value.mapping es).distinct = true
  each : ∀ e ∈ es, (o.inside e.1).Tells s start e.2

def Sourced.Tells (s : Surroundings) (start : Start) (src : Sourced) : Prop :=
  src.sources.Tell s start src.sec.document

def ItemsTell (s : Surroundings) (start : Start) (items : List ((Value × Option Path) × Source)) :
    Prop :=
  ∀ item ∈ items, item.1.1.distinct = true ∧ item.2.Tells s start item.1.1

def SourcedListing.Tells (s : Surroundings) (start : Start) (l : SourcedListing) : Prop :=
  ItemsTell s start l.items

theorem Written.tells {v : Value} (written : Written s start home v) :
    (Source.whole home).Tells s start v := by
  cases v with
  | null => exact True.intro
  | mapping es => exact fun e member => written.entry member
  | _ => exact written

theorem Sources.inside_properties (o : Sources) :
    o.inside (.string Merge.propertiesKey) =
      ⟨o.entries (.string Merge.propertiesKey), o.properties⟩ := by
  simp [inside, Value.same_refl]

theorem Sources.inside_other (o : Sources) {key : Value}
    (other : key ≠ .string Merge.propertiesKey) : o.inside key = .whole (o.entries key) := by
  have apart : ¬key.same (.string Merge.propertiesKey) = true :=
    fun same => other (Value.same_string_iff.mp same)
  simp [inside, Source.whole, apart]

namespace Sources.Tell

variable {o : Sources} {es fs : Entries}

theorem subperm (tell : o.Tell s start es) (sub : fs.Subperm es) : o.Tell s start fs :=
  ⟨Entries.distinct_of_subperm sub tell.distinct, fun e member => tell.each e (sub.subset member)⟩

theorem lookup (tell : o.Tell s start es) (key : String) :
    (o.inside (.string key)).Tells s start ((es.lookup key).getD .null) := by
  cases found : es.lookup key with
  | none => exact True.intro
  | some v => exact tell.each _ ((Entries.lookup_eq_some_iff tell.distinct).mp found)

theorem lookup_distinct (tell : o.Tell s start es) (key : String) :
    ((es.lookup key).getD .null).distinct = true := by
  cases found : es.lookup key with
  | none => rfl
  | some v =>
    have member := (Entries.lookup_eq_some_iff tell.distinct).mp found
    exact (((Value.distinct_mapping es).mp tell.distinct).2 _ member).2

end Sources.Tell

theorem Source.inside_document (o : Source) (key : Value) :
    o.document.inside key = .whole (o.entries key) := by
  by_cases here : key = .string Merge.propertiesKey
  · rw [here, Sources.inside_properties]
    rfl
  · exact Sources.inside_other _ here

theorem Source.Tells.document {o : Source} {es : Entries}
    (distinct : (Value.mapping es).distinct = true) (tells : o.Tells s start (.mapping es)) :
    o.document.Tell s start es where
  distinct := distinct
  each e member := by
    rw [Source.inside_document]
    exact (tells e member).tells

theorem Merge.withoutIncludes_subperm (es : Entries) : (withoutIncludes es).Subperm es := by
  unfold withoutIncludes
  generalize Include.ofEntries es = includes
  suffices step : ∀ fs : Entries, fs.Subperm es →
      (includes.foldl (fun fs e => fs.remove (.string e.1)) fs).Subperm es from
    step es (.refl es)
  induction includes with
  | nil => exact fun fs sub => sub
  | cons e includes ih => exact fun fs sub => ih _ ((Entries.remove_subperm fs _).trans sub)

namespace Homeward

section Merge

open Merge

variable {own : List Value} {homes source : Homes} {es : Entries} {e : Value × Value}

theorem insert_tell {k v : Value} (distinct : (Value.mapping es).distinct = true)
    (key : k.distinct = true) (tell : homes.Tell s start es) (written : Written s start home v) :
    (homes.put k home).Tell s start (es.insert k v) := by
  intro e member
  unfold Homes.put
  rcases Entries.mem_insert distinct key member with ⟨here, rfl⟩ | ⟨other, member⟩
  · rw [if_pos here]
    exact written
  · rw [other]
    exact tell e member

theorem insertMissing_tell (distinct : (Value.mapping es).distinct = true)
    (key : e.1.distinct = true) (tell : homes.Tell s start es)
    (written : Written s start (source e.1) e.2) :
    (Value.mapping (insertMissing own es e)).distinct = true ∧
      (putMissing own source homes e).Tell s start (insertMissing own es e) := by
  unfold insertMissing putMissing
  split
  · exact ⟨distinct, tell⟩
  · exact ⟨Entries.insert_distinct distinct key written.distinct,
      insert_tell distinct key tell written⟩

theorem foldl_insertMissing_tell {ps : Entries} (own : List Value)
    (distinct : (Value.mapping es).distinct = true) (tell : homes.Tell s start es)
    (others : (Value.mapping ps).distinct = true) (told : source.Tell s start ps) :
    (Value.mapping (ps.foldl (insertMissing own) es)).distinct = true ∧
      (ps.foldl (putMissing own source) homes).Tell s start (ps.foldl (insertMissing own) es) := by
  have keys := ((Value.distinct_mapping ps).mp others).2
  clear others
  induction ps generalizing es homes with
  | nil => exact ⟨distinct, tell⟩
  | cons p ps ih =>
    rw [List.forall_mem_cons] at keys
    obtain ⟨written, told⟩ := List.forall_mem_cons.mp told
    obtain ⟨distinct, tell⟩ := insertMissing_tell distinct keys.1.1 tell written
    exact ih distinct tell told keys.2

end Merge

end Homeward

theorem Homes.put_self (homes : Homes) (key : String) :
    homes.put (.string key) (homes (.string key)) = homes := by
  funext k
  unfold put
  split
  · next same => rw [Value.eq_of_string_same same]
  · rfl

namespace Sources.Tell

open Merge Homeward

variable {o o' : Sources} {es : Entries}

theorem insert {k v : Value} (tell : o.Tell s start es) (key : k.distinct = true)
    (value : v.distinct = true) (here : ∀ k', k.same k' = true → (o'.inside k').Tells s start v)
    (others : ∀ k', k.same k' = false → o'.inside k' = o.inside k') :
    o'.Tell s start (es.insert k v) := by
  refine ⟨Entries.insert_distinct tell.distinct key value, fun e member => ?_⟩
  rcases Entries.mem_insert tell.distinct key member with ⟨same, rfl⟩ | ⟨other, member⟩
  · exact here e.1 same
  · rw [others e.1 other]
    exact tell.each e member

theorem insert_plain {k v : Value} (tell : o.Tell s start es) (key : k.distinct = true)
    (value : v.distinct = true) (plain : k ≠ .string propertiesKey)
    (told : (Source.whole home).Tells s start v) :
    Sources.Tell s start ⟨o.entries.put k home, o.properties⟩ (es.insert k v) := by
  refine tell.insert key value (fun k' same => ?_) fun k' other => ?_
  · have apart : k' ≠ .string propertiesKey := by
      rintro rfl
      exact plain (Value.same_string_iff.mp same)
    rw [inside_other _ apart]
    simpa [Homes.put, same] using told
  · simp [inside, Homes.put, other]

theorem insert_properties {ps : Entries} (tell : o.Tell s start es) (home : Option Path)
    (homes : Homes) (block : (Value.mapping ps).distinct = true) (told : homes.Tell s start ps) :
    Sources.Tell s start ⟨o.entries.put (.string propertiesKey) home, homes⟩
      (es.insert (.string propertiesKey) (.mapping ps)) := by
  refine tell.insert rfl block (fun k' same => ?_) fun k' other => ?_
  · cases Value.eq_of_string_same same
    rw [inside_properties]
    exact told
  · have apart : k' ≠ .string propertiesKey := by
      rintro rfl
      simp [Value.same_refl] at other
    rw [inside_other _ apart, inside_other _ apart]
    simp [Homes.put, other]

theorem adoptProperties {own : Own} {source : Source} {block : Value} (tell : o.Tell s start es)
    (distinct : block.distinct = true) (told : source.Tells s start block) :
    (Homeward.adoptProperties own es o block source).Tell s start
      (Merge.adoptProperties own es block) := by
  unfold Homeward.adoptProperties Merge.adoptProperties
  cases block with
  | mapping ps =>
    dsimp only
    cases found : es.lookup propertiesKey with
    | none => exact tell.insert_properties source.home source.entries distinct told
    | some here =>
      have known := tell.lookup propertiesKey
      have once := tell.lookup_distinct propertiesKey
      rw [found, Option.getD_some] at known once
      rw [inside_properties] at known
      cases here with
      | null => exact tell.insert_properties source.home source.entries distinct told
      | mapping mine =>
        obtain ⟨block, merged⟩ := foldl_insertMissing_tell own.properties once known distinct told
        have inserted := tell.insert_properties (o.entries (.string propertiesKey)) _ block merged
        rwa [Homes.put_self] at inserted
      | _ => exact tell
  | _ => exact tell

theorem adoptEntry {own : Own} {source : Sources} {d : Entries × Sources} {e : Value × Value}
    (tell : d.2.Tell s start d.1) (key : e.1.distinct = true) (value : e.2.distinct = true)
    (told : (source.inside e.1).Tells s start e.2) :
    (Homeward.adoptEntry own source d e).2.Tell s start
      (Homeward.adoptEntry own source d e).1 := by
  unfold Homeward.adoptEntry Merge.adoptEntry
  split
  · exact tell.adoptProperties value told
  · next other =>
    have plain : e.1 ≠ .string propertiesKey := by
      intro same
      simp [same] at other
    rw [inside_other _ plain] at told
    unfold putMissing insertMissing
    split
    · exact tell
    · exact tell.insert_plain key value plain told

theorem adopt {own : Own} {d included : Entries × Sources} (tell : d.2.Tell s start d.1)
    (others : included.2.Tell s start included.1) :
    (Homeward.adopt own d included).2.Tell s start (Homeward.adopt own d included).1 := by
  have each := ((Value.distinct_mapping _).mp others.distinct).2
  have told := others.each
  unfold Homeward.adopt
  generalize included.1 = es at each told
  induction es generalizing d with
  | nil => exact tell
  | cons e es ih =>
    obtain ⟨first, each⟩ := List.forall_mem_cons.mp each
    obtain ⟨here, told⟩ := List.forall_mem_cons.mp told
    exact ih (tell.adoptEntry first.1 first.2 here) each told

end Sources.Tell

end Steward
