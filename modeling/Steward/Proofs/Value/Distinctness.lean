import Mathlib.Data.List.Perm.Subperm
import Steward.Proofs.Value.Sameness
import Steward.Yaml.Reader

set_option autoImplicit false

namespace Steward

namespace Value

theorem same_string_iff {k : Value} {key : String} :
    k.same (.string key) = true ↔ k = .string key := by
  constructor
  · intro same
    cases k with
    | string s => simpa [Value.same] using same
    | _ => simp [Value.same] at same
  · rintro rfl
    exact same_refl _

theorem same_comm {v w : Value} (left : v.distinct = true) (right : w.distinct = true) :
    v.same w = w.same v :=
  Bool.eq_iff_iff.mpr ⟨fun same => same_symm same left, fun same => same_symm same right⟩

end Value

namespace Entries

variable {es : Entries} {k v : Value} {e : Value × Value}

theorem mem_insert (distinct : (Value.mapping es).distinct = true) (key : k.distinct = true)
    (member : e ∈ es.insert k v) :
    (k.same e.1 = true ∧ e.2 = v) ∨ (k.same e.1 = false ∧ e ∈ es) := by
  rw [Value.distinct_mapping] at distinct
  obtain ⟨apart, -⟩ := distinct
  induction es with
  | nil =>
    cases List.mem_singleton.mp member
    exact .inl ⟨Value.same_refl k, rfl⟩
  | cons f es ih =>
    obtain ⟨first, apart⟩ := List.pairwise_cons.mp apart
    by_cases here : k.same f.1 = true
    · simp only [insert, here, if_true, List.mem_cons] at member
      rcases member with rfl | member
      · exact .inl ⟨here, rfl⟩
      · refine .inr ⟨?_, .tail _ member⟩
        have other := first e member
        by_contra again
        rw [Bool.not_eq_false] at again
        simp [Value.same_trans (Value.same_symm here key) again] at other
    · simp only [insert, here, Bool.false_eq_true, if_false, List.mem_cons] at member
      rcases member with rfl | member
      · exact .inr ⟨by simpa using here, .head _⟩
      · exact (ih member apart).imp_right fun found => ⟨found.1, .tail _ found.2⟩

theorem insert_distinct (distinct : (Value.mapping es).distinct = true) (key : k.distinct = true)
    (value : v.distinct = true) : (Value.mapping (es.insert k v)).distinct = true := by
  induction es with
  | nil => simp [insert, key, value]
  | cons f es ih =>
    rw [Value.distinct_mapping, List.pairwise_cons, List.forall_mem_cons] at distinct
    obtain ⟨⟨first, apart⟩, this, others⟩ := distinct
    have rest := (Value.distinct_mapping es).mpr ⟨apart, others⟩
    by_cases here : k.same f.1 = true
    · simp only [insert, here, if_true]
      rw [Value.distinct_mapping, List.pairwise_cons, List.forall_mem_cons]
      exact ⟨⟨first, apart⟩, ⟨this.1, value⟩, others⟩
    · simp only [insert, here, Bool.false_eq_true, if_false]
      have inserted := (Value.distinct_mapping _).mp (ih rest)
      rw [Value.distinct_mapping, List.pairwise_cons, List.forall_mem_cons]
      refine ⟨⟨fun e member => ?_, inserted.1⟩, this, inserted.2⟩
      rcases mem_insert rest key member with ⟨same, -⟩ | ⟨-, member⟩
      · by_contra again
        rw [Bool.not_eq_false] at again
        exact here (Value.same_trans same (Value.same_symm again this.1))
      · exact first e member

theorem distinct_of_subperm {fs : Entries} (sub : fs.Subperm es)
    (distinct : (Value.mapping es).distinct = true) : (Value.mapping fs).distinct = true := by
  rw [Value.distinct_mapping] at distinct ⊢
  obtain ⟨apart, each⟩ := distinct
  refine ⟨?_, fun e member => each e (sub.subset member)⟩
  have both : es.Pairwise fun e f => e.1.same f.1 = false ∧ f.1.same e.1 = false :=
    apart.imp_of_mem fun {e f} left right other =>
      ⟨other, Value.same_comm (each e left).1 (each f right).1 ▸ other⟩
  obtain ⟨gs, perm, sublist⟩ := sub
  have listed := perm.pairwise (both.sublist sublist) fun other => other.symm
  exact listed.imp fun other => other.1

theorem replaceFirst_subperm (key : Value) (last : Value × Value) (es : Entries) :
    (replaceFirst key last es).Subperm (last :: es) := by
  induction es with
  | nil => exact List.nil_subperm
  | cons e es ih =>
    unfold replaceFirst
    split
    · exact ((List.sublist_cons_self e es).cons_cons last).subperm
    · exact ((List.subperm_cons e).mpr ih).trans (List.Perm.swap last e es).subperm

theorem remove_subperm (es : Entries) (key : Value) : (es.remove key).Subperm es := by
  unfold remove
  split
  · exact List.nil_subperm
  · next last found =>
    obtain ⟨front, rfl⟩ := List.getLast?_eq_some_iff.mp found
    rw [List.dropLast_concat]
    split
    · exact (List.sublist_append_left front [last]).subperm
    · split
      · exact (replaceFirst_subperm key last front).trans
          (List.perm_append_singleton last front).symm.subperm
      · exact List.Subperm.refl _

theorem get?_eq_none_iff (es : Entries) (k : Value) :
    es.get? k = none ↔ ∀ e ∈ es, k.same e.1 = false := by
  simp [get?]

end Entries

namespace Yaml

namespace Scalar

variable {s : String} {v : Value}

theorem null?_distinct (read : null? s = some v) : v.distinct = true := by
  unfold null? at read
  split at read <;> cases read
  rfl

theorem bool?_distinct (read : bool? s = some v) : v.distinct = true := by
  unfold bool? at read
  split at read
  · cases read
    rfl
  · split at read <;> cases read
    rfl

theorem int?_distinct {cs : List Char} (read : int? cs = some (some v)) : v.distinct = true := by
  unfold int? at read
  split at read
  · cases read
  · split at read
    · cases read
      rfl
    · split at read <;> cases read

theorem ofPlain_distinct (read : ofPlain s = some v) : v.distinct = true := by
  unfold ofPlain at read
  split at read
  · cases read
    rfl
  · split at read
    · next found =>
      cases read
      cases null : null? s with
      | some w =>
        rw [null] at found
        cases found
        exact null?_distinct null
      | none =>
        rw [null] at found
        exact bool?_distinct found
    · dsimp only at read
      split at read
      · next found => exact int?_distinct (read ▸ found)
      · split at read
        · cases read
          rfl
        · split at read <;> cases read <;> rfl

theorem ofUntagged_distinct {plain : Bool} (read : ofUntagged plain s = some v) :
    v.distinct = true := by
  unfold ofUntagged at read
  split at read
  · exact ofPlain_distinct read
  · cases read
    rfl

theorem ofTagged_distinct {tag : String} (read : ofTagged tag s = some v) :
    v.distinct = true := by
  unfold ofTagged at read
  split at read
  · exact bool?_distinct read
  · split at read
    · exact int?_distinct (Option.join_eq_some_iff.mp read)
    · split at read
      · obtain ⟨x, -, rfl⟩ := Option.map_eq_some_iff.mp read
        rfl
      · split at read
        · exact null?_distinct read
        · cases read
          rfl

end Scalar

theorem withTag_distinct (label : Label) {v : Value} (distinct : v.distinct = true) :
    (withTag label v).distinct = true := by
  unfold withTag
  split
  · exact distinct
  · exact distinct

def Follow.Gives {α : Type} (m : Follow α) (P : α → Prop) : Prop :=
  ∀ left a rest, m.run left = some (a, rest) → P a

namespace Follow.Gives

variable {α β : Type} {m : Follow α} {f : α → Follow β} {P : α → Prop} {Q : β → Prop}

theorem pure {a : α} (holds : P a) : Gives (Pure.pure a : Follow α) P := by
  rintro left _ _ ⟨⟩
  exact holds

theorem bind (first : m.Gives P) (rest : ∀ a, P a → (f a).Gives Q) : (m >>= f).Gives Q := by
  intro left b final done
  rw [StateT.run_bind] at done
  obtain ⟨⟨a, left'⟩, begun, done⟩ := Option.bind_eq_some_iff.mp done
  exact rest a (first left a left' begun) left' b final done

theorem after (rest : ∀ a, (f a).Gives Q) : (m >>= f).Gives Q :=
  bind (P := fun _ => True) (fun _ _ _ _ => True.intro) fun a _ => rest a

theorem failure : Gives (Alternative.failure : Follow α) P := by
  rintro left _ _ ⟨⟩

theorem lift {r : Option α} (each : ∀ a, r = some a → P a) : Gives (liftM r) P := by
  intro left a rest done
  cases r with
  | none => cases done
  | some _ =>
    cases done
    exact each a rfl

theorem mapM {g : β → Follow α} {items : List β} (each : ∀ b, (g b).Gives P) :
    (items.mapM g).Gives fun as => ∀ a ∈ as, P a := by
  induction items with
  | nil => exact pure nofun
  | cons b items ih =>
    rw [List.mapM_cons]
    refine (each b).bind fun a holds => ih.bind fun as others => pure ?_
    exact List.forall_mem_cons.mpr ⟨holds, others⟩

theorem foldlM {g : α → β → Follow α} {items : List β} {a : α} (holds : P a)
    (each : ∀ a b, P a → (g a b).Gives P) : (items.foldlM g a).Gives P := by
  induction items generalizing a with
  | nil => exact pure holds
  | cons b items ih =>
    rw [List.foldlM_cons]
    exact (each a b holds).bind fun a holds => ih holds

end Follow.Gives

theorem concat_distinct {es : Entries} {k v : Value}
    (distinct : (Value.mapping es).distinct = true) (key : k.distinct = true)
    (value : v.distinct = true) (absent : (es.get? k).isSome = false) :
    (Value.mapping (es ++ [(k, v)])).distinct = true := by
  rw [Value.distinct_mapping] at distinct ⊢
  rw [Option.isSome_eq_false_iff, Option.isNone_iff_eq_none, Entries.get?_eq_none_iff] at absent
  refine ⟨List.pairwise_append.mpr ⟨distinct.1, List.pairwise_singleton _ _, ?_⟩, ?_⟩
  · intro e member _ added
    cases List.mem_singleton.mp added
    rw [Value.same_comm (distinct.2 e member).1 key]
    exact absent e member
  · intro e member
    rcases List.mem_append.mp member with member | added
    · exact distinct.2 e member
    · cases List.mem_singleton.mp added
      exact ⟨key, value⟩

theorem scalar_distinct (label : Label) (plain : Bool) (text : String) :
    Follow.Gives (match label.tag, ownTag? label.tag with
      | none, _ => liftM (Scalar.ofUntagged plain text)
      | some _, some own => do return .tagged own (← liftM (Scalar.ofUntagged plain text))
      | some tag, none => liftM (Scalar.ofTagged tag text)) fun v => v.distinct = true := by
  split
  · exact .lift fun v read => Scalar.ofUntagged_distinct read
  · exact Follow.Gives.bind (.lift fun v read => Scalar.ofUntagged_distinct read)
      fun v distinct => .pure distinct
  · exact .lift fun v read => Scalar.ofTagged_distinct read

theorem value_distinct (anchors : Anchors) (depth : Nat) (n : Node) :
    (value anchors depth n).Gives fun v => v.distinct = true := by
  induction depth generalizing n with
  | zero =>
    rw [value]
    refine .after fun n => ?_
    cases n with
    | scalar label plain text => exact scalar_distinct label plain text
    | _ => exact .failure
  | succ depth ih =>
    rw [value]
    refine .after fun n => ?_
    cases n with
    | scalar label plain text => exact scalar_distinct label plain text
    | sequence label items =>
      refine (Follow.Gives.mapM ih).bind fun vs each => .pure (withTag_distinct label ?_)
      exact (Value.distinct_sequence vs).mpr each
    | mapping label entries =>
      refine Follow.Gives.bind (P := fun es => (Value.mapping es).distinct = true)
        (.foldlM rfl ?_) fun es distinct => .pure (withTag_distinct label distinct)
      rintro es ⟨k, v⟩ distinct
      refine (ih k).bind fun k key => ?_
      dsimp only
      split
      · exact Follow.Gives.bind (P := fun _ => False) .failure fun _ => False.elim
      · next absent =>
        refine (ih v).bind fun v value => .pure (concat_distinct distinct key value ?_)
        simpa using absent
    | _ => exact .failure

theorem read?_distinct {text : String} {v : Value} (read : read? text = some v) :
    v.distinct = true := by
  unfold read? at read
  split at read
  · cases read
    rfl
  · obtain ⟨root, -, read⟩ := Option.bind_eq_some_iff.mp read
    obtain ⟨⟨anchors, root⟩, -, read⟩ := Option.bind_eq_some_iff.mp read
    obtain ⟨⟨w, rest⟩, read, same⟩ := Option.bind_eq_some_iff.mp read
    cases same
    exact value_distinct anchors depthLimit root _ v rest read

end Yaml

end Steward
