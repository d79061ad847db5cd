import Steward.Proofs.Loading.Limits

set_option autoImplicit false

namespace Steward

variable {α β γ : Type} {s : Surroundings} {t : PropertyTable}

namespace Load

abbrev Blames (m : Load α) (s : Surroundings) (P : ConfigFault → Prop) : Prop :=
  m.Ends s fun r _ => ∀ fault, r = .error fault → P fault

namespace Blames

variable {m : Load α} {f : α → Load β} {P Q : ConfigFault → Prop}

theorem run (blames : Blames m s P) {l : Loading} {fault : ConfigFault}
    (failed : (m.runOn s l).1 = .error fault) : P fault := by
  obtain ⟨r, trail, leaves, holds⟩ := blames
  have ends : (m.runOn s l).1 = r := congrArg Prod.fst (leaves.run l)
  exact holds fault (ends.symm.trans failed)

theorem mono (blames : Blames m s P) (weaker : ∀ fault, P fault → Q fault) : Blames m s Q :=
  LoadOr.Ends.mono blames fun _ _ holds fault failed => weaker fault (holds fault failed)

theorem bind (first : Blames m s P) (rest : ∀ a, m.outcome s = .ok a → Blames (f a) s P) :
    Blames (m >>= f) s P := by
  obtain ⟨r, front, leaves, holds⟩ := first
  have comes := leaves.outcome
  cases r with
  | error fault =>
    refine ⟨.error fault, front, leaves.bind_error, ?_⟩
    rintro _ ⟨⟩
    exact holds fault rfl
  | ok a =>
    obtain ⟨r, back, after, behind⟩ := rest a comes
    exact ⟨r, front ++ back, leaves.bind after, behind⟩

theorem of_leaves {a : α} {trail : List Mark} (leaves : m.Leaves s (.ok a) trail) : Blames m s P :=
  LoadOr.Ends.of_leaves leaves nofun

theorem pure (a : α) : Blames (Pure.pure a) s P := of_leaves (.pure a)

theorem throw {fault : ConfigFault} (blamed : P fault) :
    Blames (MonadExcept.throw fault : Load α) s P := by
  refine LoadOr.Ends.throw ?_
  rintro _ ⟨⟩
  exact blamed

theorem lift {r : Except ConfigFault α} (failed : ∀ fault, r = .error fault → P fault)
    (rest : ∀ a, r = .ok a → Blames (f a) s P) : Blames (liftM r >>= f) s P :=
  bind (LoadOr.Ends.of_leaves (.lift r) failed) fun a same =>
    rest a ((LoadOr.Leaves.lift r).outcome.symm.trans same)

theorem known {a : α} {trail : List Mark} (leaves : m.Leaves s (.ok a) trail)
    (rest : Blames (f a) s P) : Blames (m >>= f) s P := by
  refine bind (of_leaves leaves) fun b same => ?_
  rw [leaves.outcome] at same
  cases same
  exact rest

theorem foldlM {f : β → γ → Load β} {items : List γ}
    (each : ∀ b, ∀ c ∈ items, Blames (f b c) s P) (b : β) : Blames (items.foldlM f b) s P := by
  induction items generalizing b with
  | nil => exact pure b
  | cons c items ih =>
    rw [List.foldlM_cons]
    exact (each b c (by simp)).bind fun b _ => ih (fun b c member => each b c (by simp [member])) b

theorem mapM {f : γ → Load β} {items : List γ} (each : ∀ c ∈ items, Blames (f c) s P) :
    Blames (items.mapM f) s P := by
  induction items with
  | nil => exact pure []
  | cons c items ih =>
    rw [List.mapM_cons]
    have others := ih fun c member => each c (by simp [member])
    exact (each c (by simp)).bind fun b _ => others.bind fun bs _ => pure (b :: bs)

theorem opened {f : Value → Load β} {p : Path}
    (named : ∀ fault : ConfigFault, fault.place = p.text → P fault)
    (rest : ∀ v, readText p (s.stored p) = .ok v → Blames (f v) s P) :
    Blames (readYaml p >>= f) s P := by
  have leaves := readYaml_leaves (s := s) p
  refine bind (LoadOr.Ends.of_leaves leaves fun fault failed => named fault ?_) fun v same =>
    rest v (leaves.outcome.symm.trans same)
  revert failed
  unfold readText
  split
  · rintro ⟨⟩
    rfl
  · rintro ⟨⟩
    rfl
  · split <;> rintro ⟨⟩
    rfl

end Blames

end Load

namespace Node

def includes : Node → List (String × Value)
  | .section (.mapping es) _ => Include.ofEntries es
  | .block es _ => Include.ofEntries es
  | .properties es _ => Include.ofEntries es
  | .list (.sequence vs) _ => vs.filterMap Listing.loneInclude?
  | _ => []

inductive Leads (s : Surroundings) (t : PropertyTable) : Node → Node → Prop
  | here (a : Node) : Leads s t a a
  | next {a b c : Node} {p : Path} (refers : a.Refers s t p) (found : a.follow s p = .ok b)
      (rest : Leads s t b c) : Leads s t a c

inductive Blamed (s : Surroundings) (t : PropertyTable) (below : Node → Prop) :
    ConfigFault → Prop
  | file {b : Node} {p : Path} {fault : ConfigFault} (met : below b) (refers : b.Refers s t p)
      (named : fault.place = p.text) : Blamed s t below fault
  | key {b : Node} {e : String × Value} {fault : ConfigFault} (met : below b)
      (member : e ∈ b.includes) (misnamed : Include.paths e.1 e.2 = .error fault) :
      Blamed s t below fault

def BlamedFrom (s : Surroundings) (t : PropertyTable) (a : Node) (p : Path)
    (fault : ConfigFault) : Prop :=
  fault.place = p.text ∨ ∃ b, a.follow s p = .ok b ∧ Blamed s t (b.Leads s t) fault

variable {a : Node} {p : Path} {fault : ConfigFault}

theorem Blamed.mono {below deeper : Node → Prop} (blamed : Blamed s t below fault)
    (within : ∀ b, below b → deeper b) : Blamed s t deeper fault := by
  cases blamed with
  | file met refers named => exact .file (within _ met) refers named
  | key met member misnamed => exact .key (within _ met) member misnamed

theorem Refers.blamed (refers : a.Refers s t p) (blamed : a.BlamedFrom s t p fault) :
    Blamed s t (a.Leads s t) fault := by
  rcases blamed with named | ⟨b, found, blamed⟩
  · exact .file (.here a) refers named
  · exact blamed.mono fun c leads => .next refers found leads

theorem follow_eq {v : Value} (read : Load.readText p (s.stored p) = .ok v) :
    a.follow s p = a.found s p v := by
  rw [follow, read]
  rfl

end Node

open Load (Blames)
open Node (Blamed BlamedFrom)

theorem Load.Blames.part {a : Node} {p : Path} {v : Value} {r : Except ConfigFault α}
    {node : α → Node} {f : α → Load β} (read : Load.readText p (s.stored p) = .ok v)
    (takes : a.found s p v = r.map node)
    (named : ∀ fault, r = .error fault → fault.place = p.text)
    (rest : ∀ x, Blames (f x) s (Blamed s t ((node x).Leads s t))) :
    Blames (liftM r >>= f) s (a.BlamedFrom s t p) := by
  refine .lift (fun fault failed => .inl (named fault failed)) fun x same => ?_
  refine (rest x).mono fun fault blamed => .inr ⟨node x, ?_, blamed⟩
  rw [Node.follow_eq read, takes, same]
  rfl

theorem Load.Blames.at_limit {a : Node} {p : Path} :
    Blames (MonadExcept.throw (.tooDeep p.text) : Load α) s (a.BlamedFrom s t p) :=
  .throw (.inl rfl)

namespace Merge

theorem documentEntries_place {p : Path} {v : Value} {fault : ConfigFault}
    (failed : documentEntries p v = .error fault) : fault.place = p.text := by
  revert failed
  cases v <;> rintro ⟨⟩ <;> rfl

theorem mergeWith_blames {file : Path → Load Entries} {es : Entries} {base : Option Path}
    (each : ∀ p, Blames (file p) s ((Node.section (.mapping es) base).BlamedFrom s t p)) :
    Blames (mergeWith file t es base) s
      (Blamed s t ((Node.section (.mapping es) base).Leads s t)) := by
  unfold mergeWith
  refine Blames.foldlM (fun fs e member => ?_) _
  refine .lift (fun fault failed => .key (.here _) member failed) fun raws same => ?_
  refine Blames.foldlM (fun fs raw named => ?_) fs
  have refers : (Node.section (.mapping es) base).Refers s t
      (s.resolve (t.expand s.env raw) base) := .document ⟨e, member, raws, same, named⟩
  refine .known (Load.resolve_leaves t raw base) ?_
  refine ((each _).mono fun fault => refers.blamed).bind fun included _ => ?_
  exact .known (Load.note_leaves _) (.pure _)

theorem included_blames (left : Nat) (p : Path) (es : Entries) (base : Option Path) :
    Blames (included t left p) s ((Node.section (.mapping es) base).BlamedFrom s t p) := by
  induction left generalizing p es base with
  | zero => exact .at_limit
  | succ left ih =>
    unfold included
    refine .opened (fun fault => .inl) fun v read => ?_
    refine .part read rfl (fun fault => documentEntries_place) fun fs => ?_
    refine .known (Load.register_leaves p) (.known (Load.note_leaves _) ?_)
    exact .known (Load.directoryOf_leaves p) (mergeWith_blames fun q => ih q fs _)

end Merge

namespace Listing

theorem listEntries_place {p : Path} {v : Value} {fault : ConfigFault}
    (failed : listEntries p v = .error fault) : fault.place = p.text := by
  revert failed
  cases v <;> rintro ⟨⟩ <;> rfl

theorem spliceWith_blames {file : Path → Load (List (Value × Option Path))} {vs : List Value}
    {base : Option Path}
    (each : ∀ p, Blames (file p) s ((Node.list (.sequence vs) base).BlamedFrom s t p)) :
    Blames (spliceWith file t vs base) s
      (Blamed s t ((Node.list (.sequence vs) base).Leads s t)) := by
  unfold spliceWith
  refine Blames.bind (.mapM fun v member => ?_) fun parts _ => .pure _
  split
  · exact .pure _
  · next key value alone =>
    have listed : (key, value) ∈ (Node.list (.sequence vs) base).includes :=
      List.mem_filterMap.mpr ⟨v, member, alone⟩
    refine .lift (fun fault failed => .key (.here _) listed failed) fun raws same => ?_
    refine Blames.bind (.mapM fun raw named => ?_) fun parts _ => .pure _
    have refers : (Node.list (.sequence vs) base).Refers s t
        (s.resolve (t.expand s.env raw) base) := .item member alone same named
    exact .known (Load.resolve_leaves t raw base) ((each _).mono fun fault => refers.blamed)

theorem spliceFile_blames (context : String) (left : Nat) (p : Path) (v : Value)
    (base : Option Path) :
    Blames (spliceFile context t left p) s ((Node.list v base).BlamedFrom s t p) := by
  induction left generalizing p v base with
  | zero => exact .at_limit
  | succ left ih =>
    unfold spliceFile
    refine .opened (fun fault => .inl) fun loaded read => ?_
    refine .known (Load.register_leaves p) (.known (Load.note_leaves _) ?_)
    refine .part read rfl (fun fault => listEntries_place) fun vs => ?_
    exact .known (Load.directoryOf_leaves p) (spliceWith_blames fun q => ih q _ _)

theorem build_blames (context : String) (v : Value) (base : Option Path) :
    Blames (build context t v base) s fun fault =>
      fault.place = Section.orRoot context ∨ Blamed s t ((Node.list v base).Leads s t) fault := by
  have file (p : Path) := spliceFile_blames (s := s) (t := t) context includeLimit p v base
  unfold build
  split
  · exact .pure _
  · exact ((spliceWith_blames file).mono fun fault => .inr).bind fun items _ => .pure _
  · next text =>
    have refers : (Node.list (.string text) base).Refers s t
        (s.resolve (t.expand s.env text) base) := .whole
    refine .known (Load.resolve_leaves t text base) ?_
    exact ((file _).mono fun fault blamed => .inr (refers.blamed blamed)).bind fun items _ =>
      .pure _
  · exact .throw (.inl rfl)

end Listing

namespace PropertyBlock

theorem fileEntries_place {p : Path} {v : Value} {fault : ConfigFault}
    (failed : fileEntries p v = .error fault) : fault.place = p.text := by
  revert failed
  cases v <;> rintro ⟨⟩ <;> rfl

theorem readFile_blames (left : Nat) (p : Path) {a : Node} (takes : ∀ p v, a.found s p v =
    (fileEntries p v).map fun es => .properties es (s.directoryOf p)) :
    Blames (readFile left p) s (a.BlamedFrom s t p) := by
  induction left generalizing p a with
  | zero => exact .at_limit
  | succ left ih =>
    unfold readFile
    refine .known (Load.note_leaves _) (.opened (fun fault => .inl) fun v read => ?_)
    refine .part read (takes p v) (fun fault => fileEntries_place) fun es => ?_
    refine .known (Load.directoryOf_leaves p) (Blames.bind ?_ fun acc _ => .pure _)
    refine Blames.foldlM (fun acc e member => ?_) _
    refine .lift (fun fault failed => .key (.here _) member failed) fun raws same => ?_
    refine Blames.foldlM (fun acc raw named => ?_) acc
    have refers : (Node.properties es (s.directoryOf p)).Refers s t
        (s.resolve raw (s.directoryOf p)) := .property ⟨e, member, raws, same, named⟩
    refine .look (fun s' here _ => ?_) (Blames.bind ?_ fun result _ => .pure _)
    · simp [Surroundings.resolve, Surroundings.absolute, here]
    · exact (ih _ fun _ _ => rfl).mono fun fault => refers.blamed

variable {own : List String} {base : Option Path} {P : ConfigFault → Prop} {R : Path → Prop}

theorem takeFiles_blames {f : List Path × PropertyTable → Load β} {behind : List String}
    (each : ∀ p, R p → Blames (readFile includeLimit p) s P)
    (rest : ∀ acc, (∀ p, Reaches s own base acc.2 behind p → R p) → Blames (f acc) s P)
    (raws : List String) (acc : List Path × PropertyTable)
    (reached : ∀ p, Reaches s own base acc.2 (raws ++ behind) p → R p) :
    Blames (raws.foldlM (takeFile own base) acc >>= f) s P := by
  induction raws generalizing acc with
  | nil => exact rest acc reached
  | cons raw raws ih =>
    rw [List.foldlM_cons, bind_assoc, takeFile, bind_assoc]
    refine .known (Load.resolve_leaves acc.2 raw base) ?_
    rw [bind_assoc]
    refine (each _ (reached _ (.here acc.2 raw _))).bind fun taken same => ?_
    exact ih (acc.1 ++ taken.2, adopt own acc.2 taken.1) fun p further =>
      reached p (.later same further)

theorem takeIncludes_blames (each : ∀ p, R p → Blames (readFile includeLimit p) s P)
    (includes : List (String × Value)) (acc : List Path × PropertyTable)
    (misnamed : ∀ e ∈ includes, ∀ fault, Include.paths e.1 e.2 = .error fault → P fault)
    (reached : ∀ p, Reaches s own base acc.2 (Include.texts includes) p → R p) :
    Blames (includes.foldlM (takeInclude own base) acc) s P := by
  induction includes generalizing acc with
  | nil => exact .pure acc
  | cons e includes ih =>
    obtain ⟨first, others⟩ := List.forall_mem_cons.mp misnamed
    rw [List.foldlM_cons, takeInclude, bind_assoc]
    refine .lift first fun raws same => ?_
    rw [Include.texts_cons same] at reached
    exact takeFiles_blames each (fun acc => ih acc others) raws acc reached

theorem add_blames (block : Entries) :
    Blames (add t block base) s (Blamed s t ((Node.block block base).Leads s t)) := by
  have each (p : Path) (refers : (Node.block block base).Refers s t p) :
      Blames (readFile includeLimit p) s (Blamed s t ((Node.block block base).Leads s t)) :=
    (readFile_blames includeLimit p fun _ _ => rfl).mono fun fault => refers.blamed
  rw [add_eq_takeIncludes]
  refine .known (Load.note_leaves _) (.look (fun s' here env => by simp only [env]) ?_)
  refine Blames.known (Load.note_leaves _) ?_
  split
  · exact .pure _
  · refine Blames.bind (takeIncludes_blames each _ _ ?_ fun p => .block) fun result _ => ?_
    · exact fun e member fault failed => .key (.here _) member failed
    · exact .look (fun s' here env => by simp only [env])
        (Blames.known (Load.note_leaves _) (Blames.pure _))

end PropertyBlock

namespace Section

theorem gather_mapping_blames (context : String) (left : Nat) (es : Entries)
    (base : Option Path) :
    Blames (gather context t left (.mapping es) base) s
      (Blamed s t ((Node.section (.mapping es) base).Leads s t)) := by
  rw [gather_mapping]
  exact (Merge.mergeWith_blames fun p => Merge.included_blames left p es base).bind
    fun es _ => .pure _

theorem gather_blames (context : String) (left : Nat) (v : Value) (base : Option Path) :
    Blames (gather context t left v base) s fun fault =>
      fault.place = orRoot context ∨ Blamed s t ((Node.section v base).Leads s t) fault := by
  have mapping (left : Nat) (es : Entries) (base : Option Path) :
      Blames (gather context t left (.mapping es) base) s fun fault =>
        fault.place = orRoot context ∨
          Blamed s t ((Node.section (.mapping es) base).Leads s t) fault :=
    (gather_mapping_blames context left es base).mono fun fault => .inr
  have null (left : Nat) (base : Option Path) : Blames (gather context t left .null base) s
      fun fault => fault.place = orRoot context ∨
        Blamed s t ((Node.section .null base).Leads s t) fault := by
    have none : Include.ofEntries [] = [] := by simp [Include.ofEntries]
    rw [gather_null, gather_mapping]
    unfold Merge.mergeIncludes Merge.mergeWith
    rw [none]
    exact .pure _
  induction left generalizing v base with
  | zero =>
    cases v with
    | null => exact null 0 base
    | mapping es => exact mapping 0 es base
    | string text =>
      refine .known (Load.resolve_leaves t text base) (.throw (.inr ?_))
      exact .file (.here _) .redirection rfl
    | _ => exact .throw (.inl rfl)
  | succ left ih =>
    cases v with
    | null => exact null (left + 1) base
    | mapping es => exact mapping (left + 1) es base
    | string text =>
      have refers : (Node.section (.string text) base).Refers s t
          (s.resolve (t.expand s.env text) base) := .redirection
      refine .known (Load.resolve_leaves t text base) (.known (Load.note_leaves _) ?_)
      refine .opened (fun fault named => .inr (.file (.here _) refers named)) fun v read => ?_
      refine .known (Load.register_leaves _) (.known (Load.directoryOf_leaves _) ?_)
      refine (ih v _).mono fun fault blamed => blamed.imp_right fun blamed => ?_
      exact refers.blamed (.inr ⟨_, Node.follow_eq read, blamed⟩)
    | _ => exact .throw (.inl rfl)

theorem furnish_blames (context : String) (es : Entries) (base : Option Path) :
    Blames (furnish context t (es, base)) s fun fault =>
      fault.place = joinPlace context Merge.propertiesKey ∨ ∃ block,
        es.lookup Merge.propertiesKey = some (.mapping block) ∧
          Blamed s t ((Node.block block base).Leads s t) fault := by
  unfold furnish
  dsimp only
  split
  · exact .pure _
  · exact .pure _
  · next block said =>
    refine (Blames.mono (PropertyBlock.add_blames block) ?_).bind fun result _ => ?_
    · exact fun fault blamed => .inr ⟨block, said, blamed⟩
    · exact .known (Load.registerAll_leaves result.2 s) (.pure _)
  · exact .throw (.inl rfl)

inductive Below (s : Surroundings) (t : PropertyTable) (context : String) (v : Value)
    (base : Option Path) (b : Node) : Prop
  | document (leads : (Node.section v base).Leads s t b)
  | properties {es block : Entries} {dir : Option Path}
      (gathered : (gather context t includeLimit v base).outcome s = .ok (es, dir))
      (own : es.lookup Merge.propertiesKey = some (.mapping block))
      (leads : (Node.block block dir).Leads s t b)

theorem build_blames (context : String) (v : Value) (base : Option Path) :
    Blames (build context t includeLimit v base) s fun fault =>
      fault.place = orRoot context ∨ fault.place = joinPlace context Merge.propertiesKey ∨
        Blamed s t (Below s t context v base) fault := by
  rw [build_eq]
  refine ((gather_blames context includeLimit v base).mono fun fault blamed => ?_).bind
    fun gathered same => ?_
  · exact blamed.imp_right fun blamed => .inr (blamed.mono fun b => .document)
  · obtain ⟨es, dir⟩ := gathered
    refine (furnish_blames context es dir).mono ?_
    rintro fault (named | ⟨block, own, blamed⟩)
    · exact .inr (.inl named)
    · exact .inr (.inr (blamed.mono fun b => .properties same own))

end Section

end Steward
