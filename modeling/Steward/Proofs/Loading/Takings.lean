import Mathlib.Data.List.Forall2
import Steward.Proofs.Loading.Chains

set_option autoImplicit false

namespace Steward

open List (Forall₂)

variable {s : Surroundings} {α β γ : Type}

namespace LoadOr.Yields

variable {ε : Type} {front : List Mark}

theorem imp {m : LoadOr ε α} {back : List Mark} {P Q : α → Prop}
    (yields : m.Yields s front fun a _ => P a) (weaker : ∀ a, P a → Q a) :
    m.Yields s back fun a _ => Q a := by
  obtain ⟨r, trail, leaves, holds⟩ := yields
  exact ⟨r, trail, leaves, fun a same => weaker a (holds a same)⟩

theorem mapM {f : α → LoadOr ε β} {R : α → β → Prop} {items : List α}
    (each : ∀ a ∈ items, ∀ trail, (f a).Yields s trail fun b _ => R a b) :
    (items.mapM f).Yields s front fun bs _ => Forall₂ R items bs := by
  induction items generalizing front with
  | nil => exact .pure .nil
  | cons a items ih =>
    rw [List.mapM_cons]
    refine (each a (by simp) front).bind fun b trail first => ?_
    refine (ih fun a member => each a (by simp [member])).bind fun bs trail others => ?_
    exact .pure (.cons first others)

theorem steps {f : β → α → LoadOr ε β} {R : α → γ → Prop} {step : β → γ → β} {items : List α}
    (each : ∀ a ∈ items, ∀ b trail,
      (f b a).Yields s trail fun c _ => ∃ x, R a x ∧ c = step b x) (b : β) (front : List Mark) :
    (items.foldlM f b).Yields s front fun c _ =>
      ∃ xs, Forall₂ R items xs ∧ c = xs.foldl step b := by
  induction items generalizing b front with
  | nil => exact .pure ⟨[], .nil, rfl⟩
  | cons a items ih =>
    rw [List.foldlM_cons]
    refine (each a (by simp) b front).bind ?_
    rintro _ trail ⟨x, first, rfl⟩
    have others := ih (fun a member => each a (by simp [member])) (step b x) trail
    refine others.imp fun c found => ?_
    obtain ⟨xs, rest, rfl⟩ := found
    exact ⟨x :: xs, .cons first rest, rfl⟩

end LoadOr.Yields

namespace Include

def through (f : β → String → Load β) (b : β) (e : String × Value) : Load β := do
  let raws ← liftM (paths e.1 e.2)
  raws.foldlM f b

theorem through_yields {f : β → String → Load β} {R : String → γ → Prop} {step : β → γ → β}
    {includes : List (String × Value)}
    (each : ∀ raw ∈ texts includes, ∀ b trail,
      (f b raw).Yields s trail fun c _ => ∃ x, R raw x ∧ c = step b x) (b : β)
    (front : List Mark) :
    (includes.foldlM (through f) b).Yields s front fun c _ =>
      ∃ xs, Forall₂ R (texts includes) xs ∧ c = xs.foldl step b := by
  induction includes generalizing b front with
  | nil => exact .pure ⟨[], .nil, rfl⟩
  | cons e includes ih =>
    rw [List.foldlM_cons, through, bind_assoc]
    refine .after_ok (.lift _) fun raws same => ?_
    rw [texts_cons same] at each ⊢
    refine (LoadOr.Yields.steps (fun raw member => each raw (by simp [member])) b _).bind ?_
    rintro _ trail ⟨xs, first, rfl⟩
    have others := ih (fun raw member => each raw (by simp [member])) (xs.foldl step b) trail
    refine others.imp fun c found => ?_
    obtain ⟨ys, rest, rfl⟩ := found
    exact ⟨xs ++ ys, List.rel_append first rest, by rw [List.foldl_append]⟩

end Include

def latest (answer : α → Option γ) (items : List α) : Option γ := items.reverse.findSome? answer

@[simp] theorem latest_nil (answer : α → Option γ) : latest answer [] = none := rfl

theorem latest_cons (answer : α → Option γ) (a : α) (items : List α) :
    latest answer (a :: items) = (latest answer items).or (answer a) := by
  simp [latest, List.findSome?_append]

theorem latest_eq_none_iff {answer : α → Option γ} {items : List α} :
    latest answer items = none ↔ ∀ a ∈ items, answer a = none := by
  simp [latest]

theorem latest_isSome_iff {answer : α → Option γ} {items : List α} :
    (latest answer items).isSome ↔ ∃ a ∈ items, (answer a).isSome := by
  simp [latest, List.findSome?_isSome_iff]

theorem latest_forall₂ {answer : α → Option γ} {answer' : β → Option γ} {items : List α}
    {items' : List β} (same : Forall₂ (fun a b => answer a = answer' b) items items') :
    latest answer items = latest answer' items' := by
  induction same with
  | nil => rfl
  | cons first _ ih => rw [latest_cons, latest_cons, first, ih]

theorem latest_eq_some_iff {answer : α → Option γ} {items : List α} {c : γ}
    (agree : ∀ a ∈ items, ∀ b ∈ items, ∀ x y, answer a = some x → answer b = some y → x = y) :
    latest answer items = some c ↔ ∃ a ∈ items, answer a = some c := by
  constructor
  · intro found
    obtain ⟨a, member, same⟩ := List.exists_of_findSome?_eq_some found
    exact ⟨a, List.mem_reverse.mp member, same⟩
  · rintro ⟨a, member, same⟩
    have some : (latest answer items).isSome :=
      latest_isSome_iff.mpr ⟨a, member, Option.isSome_iff_exists.mpr ⟨c, same⟩⟩
    obtain ⟨x, found⟩ := Option.isSome_iff_exists.mp some
    obtain ⟨b, among, other⟩ := List.exists_of_findSome?_eq_some found
    rw [found, agree a member b (List.mem_reverse.mp among) c x same other]

theorem latest_filter (keep : α → Bool) (answer : α → Option γ) (items : List α) :
    latest answer (items.filter keep) =
      latest (fun a => if keep a then answer a else none) items := by
  induction items with
  | nil => rfl
  | cons a items ih =>
    rw [List.filter_cons, latest_cons, ← ih]
    split <;> simp [latest_cons]

theorem latest_gated (gate : Bool) (answer : α → Option γ) (items : List α) :
    latest (fun a => if gate then none else answer a) items =
      if gate then none else latest answer items := by
  cases gate with
  | true => simp [latest]
  | false => rfl

theorem foldl_latest_of (Holds : β → Prop) (read : β → Option γ) {answer : α → Option γ}
    {step : β → α → β} {items : List α}
    (each : ∀ b, Holds b → ∀ a ∈ items,
      Holds (step b a) ∧ read (step b a) = (answer a).or (read b)) {b : β} (start : Holds b) :
    Holds (items.foldl step b) ∧
      read (items.foldl step b) = (latest answer items).or (read b) := by
  induction items generalizing b with
  | nil => exact ⟨start, rfl⟩
  | cons a items ih =>
    obtain ⟨holds, first⟩ := each b start a (by simp)
    obtain ⟨after, rest⟩ := ih (fun b holds a member => each b holds a (by simp [member])) holds
    refine ⟨after, rest.trans ?_⟩
    rw [first, latest_cons, Option.or_assoc]

theorem foldl_latest (read : β → Option γ) {answer : α → Option γ} {step : β → α → β}
    {items : List α} (each : ∀ b, ∀ a ∈ items, read (step b a) = (answer a).or (read b)) (b : β) :
    read (items.foldl step b) = (latest answer items).or (read b) :=
  (foldl_latest_of (fun _ => True) read
    (fun b _ a member => ⟨True.intro, each b a member⟩) True.intro).2

end Steward
