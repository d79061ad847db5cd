import Steward.Proofs.Document.IncludeOrder
import Steward.Proofs.Loading.Blame

set_option autoImplicit false

namespace Steward

theorem mapM_error {ε α β : Type} {f : α → Except ε β} {items : List α} {fault : ε}
    (failed : items.mapM f = .error fault) : ∃ a ∈ items, f a = .error fault := by
  induction items with
  | nil => cases failed
  | cons a items ih =>
    rw [List.mapM_cons] at failed
    rcases bind_eq_error_iff.mp failed with first | ⟨b, -, failed⟩
    · exact ⟨a, by simp, first⟩
    · rcases bind_eq_error_iff.mp failed with rest | ⟨bs, -, ended⟩
      · obtain ⟨c, member, refused⟩ := ih rest
        exact ⟨c, by simp [member], refused⟩
      · cases ended

namespace Include

theorem itemPath_place {key : String} {item : Value} {fault : ConfigFault}
    (failed : itemPath key item = .error fault) : fault.place = key := by
  unfold itemPath at failed
  split at failed
  · cases failed
  · cases failed
    rfl

theorem paths_place {key : String} {v : Value} {fault : ConfigFault}
    (failed : paths key v = .error fault) : fault.place = key := by
  cases v with
  | sequence items =>
    obtain ⟨item, -, refused⟩ := mapM_error failed
    exact itemPath_place refused
  | null => cases failed
  | string path => cases failed
  | _ =>
    cases failed
    rfl

theorem isKey_of_ofEntry? {e : Value × Value} {found : String × Value}
    (is : ofEntry? e = some found) : isKey found.1 = true := by
  unfold ofEntry? at is
  obtain ⟨name, kept, rfl⟩ := Option.map_eq_some_iff.mp is
  exact (Option.filter_eq_some_iff.mp kept).2

theorem undotted {key : String} (marked : isKey key = true) : '.' ∉ key.toList := by
  have digits : (suffix key).toList.all Char.isDigit = true := by
    unfold isKey at marked
    unfold suffix
    split at marked
    · next rest found => simpa using marked
    · cases marked
  rw [toList_of_isKey marked]
  intro member
  rcases List.mem_append.mp member with front | back
  · exact absurd front (by decide)
  · exact absurd (List.all_eq_true.mp digits '.' back) (by decide)

end Include

theorem Node.isKey_of_includes {a : Node} {e : String × Value} (member : e ∈ a.includes) :
    Include.isKey e.1 = true := by
  have ofEntries {es : Entries} (member : e ∈ Include.ofEntries es) : Include.isKey e.1 = true := by
    unfold Include.ofEntries at member
    rw [List.mem_mergeSort] at member
    obtain ⟨entry, -, is⟩ := List.mem_filterMap.mp member
    exact Include.isKey_of_ofEntry? is
  unfold includes at member
  split at member
  · exact ofEntries member
  · exact ofEntries member
  · exact ofEntries member
  · obtain ⟨v, -, alone⟩ := List.mem_filterMap.mp member
    unfold Listing.loneInclude? at alone
    split at alone
    · exact Include.isKey_of_ofEntry? alone
    · cases alone
  · cases member

namespace Section

theorem checkAt_place {α : Type} {place : String} {checks : List (Check α)} {a : α}
    {fault : ConfigFault} (failed : checkAt place checks a = .error fault) :
    fault.place = place := by
  unfold checkAt at failed
  split at failed
  · cases failed
  · cases failed
    rfl

section Fields

variable {α : Type} [Typed α] {sec : Section} {s : Surroundings} {key : String}
  {checks : List (Check α)} {fault : ConfigFault}

theorem get_place (failed : sec.get (α := α) s key = .error fault) :
    fault.place = sec.placeOf key := by
  unfold get at failed
  split at failed
  · cases failed
  · split at failed
    · cases failed
    · cases failed
      rfl

theorem getChecked_place (failed : sec.getChecked s key checks = .error fault) :
    fault.place = sec.placeOf key := by
  unfold getChecked at failed
  rcases bind_eq_error_iff.mp failed with refused | ⟨found, -, failed⟩
  · exact get_place refused
  · cases found with
    | none => cases failed
    | some a =>
      rcases bind_eq_error_iff.mp failed with refused | ⟨_, -, ended⟩
      · exact checkAt_place refused
      · cases ended

theorem require_place (failed : sec.require s key checks = .error fault) :
    fault.place = sec.placeOf key := by
  unfold require at failed
  rcases bind_eq_error_iff.mp failed with refused | ⟨found, -, failed⟩
  · exact getChecked_place refused
  · cases found with
    | some a => cases failed
    | none =>
      cases failed
      rfl

end Fields

/-- The fault says where it comes from: from the field at `place` or below it, or from a file to
which one of the nodes refers. -/
inductive Located (s : Surroundings) (t : PropertyTable) (below : Node → Prop) (place : String) :
    ConfigFault → Prop
  | place {fault : ConfigFault} (rest : String) (named : fault.place = place ++ rest) :
      Located s t below place fault
  | file {b : Node} {p : Path} {fault : ConfigFault} (met : below b) (refers : b.Refers s t p)
      (named : fault.place = p.text) : Located s t below place fault

/-- An include of one of the nodes gives no paths. Its fault names the key of the include, and
nothing of the place at which it stands. -/
inductive Misnamed (below : Node → Prop) (place : String) : ConfigFault → Prop
  | include_ {b : Node} {e : String × Value} {fault : ConfigFault} (met : below b)
      (member : e ∈ b.includes) (misnamed : Include.paths e.1 e.2 = .error fault)
      (bare : fault.place = e.1) (apart : ∀ rest, fault.place ≠ place ++ rest) :
      Misnamed below place fault

theorem located_or_misnamed {s : Surroundings} {t : PropertyTable} {below : Node → Prop}
    {place : String} {fault : ConfigFault} (dotted : '.' ∈ place.toList)
    (blamed : Node.Blamed s t below fault) :
    Located s t below place fault ∨ Misnamed below place fault := by
  cases blamed with
  | file met refers named => exact .inl (.file met refers named)
  | @key b e _ met member misnamed =>
    have bare := Include.paths_place misnamed
    refine .inr (.include_ met member misnamed bare fun rest same => ?_)
    apply Include.undotted (Node.isKey_of_includes member)
    rw [← bare, same, String.toList_append]
    exact List.mem_append_left _ dotted

theorem faults_located {sec : Section} (placed : sec.context ≠ "") (s : Surroundings)
    (key : String) :
    let place := sec.context ++ "." ++ key
    let v := (sec.raw? key).getD .null
    (∀ (α : Type) [Typed α] (checks : List (Check α)) (fault : ConfigFault),
      (sec.get (α := α) s key = .error fault → fault.place = place) ∧
      (sec.getChecked s key checks = .error fault → fault.place = place) ∧
      (sec.require s key checks = .error fault → fault.place = place)) ∧
    (∀ l fault, ((sec.getSection key).runOn s l).1 = .error fault →
      let below := Below s sec.table place v sec.base
      Located s sec.table below place fault ∨ Misnamed below place fault) ∧
    ∀ l fault, ((sec.getList key).runOn s l).1 = .error fault →
      let below := (Node.list v sec.base).Leads s sec.table
      Located s sec.table below place fault ∨ Misnamed below place fault := by
  intro place v
  have here : sec.placeOf key = place := joinPlace_of_ne placed key
  have dotted : '.' ∈ place.toList := by simp [place]
  have nonempty : place ≠ "" := by
    intro empty
    simp [empty] at dotted
  have root : orRoot place = place := by simp [orRoot, nonempty]
  refine ⟨fun α _ checks fault => ?_, fun l fault failed => ?_, fun l fault failed => ?_⟩
  · rw [← here]
    exact ⟨get_place, getChecked_place, require_place⟩
  · have whole : sec.getSection key = build place sec.table includeLimit v sec.base := by
      rw [← here]
      rfl
    rw [whole] at failed
    rcases (build_blames place v sec.base).run failed with named | named | blamed
    · exact .inl (.place "" (by rw [named, root, String.append_empty]))
    · rw [joinPlace_of_ne nonempty, String.append_assoc] at named
      exact .inl (.place _ named)
    · exact located_or_misnamed dotted blamed
  · have whole : sec.getList key = Listing.build place sec.table v sec.base := by
      rw [← here]
      rfl
    rw [whole] at failed
    rcases (Listing.build_blames place v sec.base).run failed with named | blamed
    · exact .inl (.place "" (by rw [named, root, String.append_empty]))
    · exact located_or_misnamed dotted blamed

theorem sample_faults_located :
    let sec : Section := { context := "server", document := [(.string "port", .string "abc")] }
    let s := Surroundings.ofFiles []
    (∃ fault, sec.get (α := Int) s "port" = .error fault ∧ fault.place = "server.port") ∧
      ∃ fault, ((sec.getSection "port").runOn s {}).1 = .error fault ∧
        let below := Below s .empty "server.port" (.string "abc") none
        Located s .empty below "server.port" fault ∨ Misnamed below "server.port" fault := by
  intro sec s
  have placed : sec.context ≠ "" := by decide
  obtain ⟨fields, sections, -⟩ := faults_located placed s "port"
  constructor
  · have refused : (sec.get (α := Int) s "port").isOk = false := by decide +kernel
    cases read : sec.get (α := Int) s "port" with
    | ok found =>
      rw [read] at refused
      cases refused
    | error fault => exact ⟨fault, rfl, (fields Int [] fault).1 read⟩
  · obtain ⟨fault, l', ends⟩ :=
      Load.error_of_isOk (m := sec.getSection "port") (s := s) (l := {}) (by decide +kernel)
    have failed : ((sec.getSection "port").runOn s {}).1 = .error fault := congrArg Prod.fst ends
    exact ⟨fault, failed, sections {} fault failed⟩

-- The include is a truth value, and its fault says `include_` wherever that stands.
theorem include_not_located :
    let es : Entries := [(.string "include_", .bool true)]
    let sec : Section := { context := "a", document := [(.string "b", .mapping es)] }
    let s := Surroundings.ofFiles []
    let fault : ConfigFault := .malformed "include_" .includeValue
    ((sec.getSection "b").runOn s {}).1 = .error fault ∧
      ¬Located s .empty (Below s .empty "a.b" (.mapping es) none) "a.b" fault := by
  intro es sec s fault
  have alone (p : Path) : ¬(Node.section (.mapping es) none).Refers s .empty p := by
    intro refers
    cases refers with
    | document named =>
      obtain ⟨e, member, raws, same, -⟩ := named
      have includes : es.filterMap Include.ofEntry? = [("include_", .bool true)] := rfl
      have only : e = ("include_", .bool true) := by
        simpa [Include.ofEntries, includes] using member
      cases only
      cases same
  have failed : ((sec.getSection "b").runOn s {}).1.map (fun _ => ()) = .error fault := by
    decide +kernel
  refine ⟨?_, fun located => ?_⟩
  · cases ends : ((sec.getSection "b").runOn s {}).1 with
    | ok part =>
      rw [ends] at failed
      cases failed
    | error other =>
      rw [ends] at failed
      cases failed
      rfl
  cases located with
  | place rest named =>
    have same := congrArg String.toList named
    simp [fault, ConfigFault.place] at same
  | file met refers named =>
    cases met with
    | document leads =>
      cases leads with
      | here => exact alone _ refers
      | next first => exact alone _ first
    | properties gathered =>
      have failed : ((gather "a.b" .empty includeLimit (.mapping es) none).outcome s).isOk =
          false := by decide +kernel
      rw [gathered] at failed
      cases failed

end Section

end Steward
