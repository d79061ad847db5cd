import Mathlib.Tactic.ByContra
import Steward.Watch.Polling

set_option autoImplicit false

namespace Steward

variable {ω : Type}

def Listener.recorded (l : Listener ω) : Listener (ω × List Path) where
  onChange file := do
    modify fun s => { s with world := (s.world.1, s.world.2 ++ [file]) }
    Stage.within Prod.fst (fun world w => (world, w.2)) (l.onChange file)
  onError file fault := Stage.within Prod.fst (fun world w => (world, w.2)) (l.onError file fault)
  isBusy w := l.isBusy w.1

theorem Watch.of_poll? {w : Watch} {period start : Nat} {today : Moment} {p : Poll}
    (begun : w.poll? period start today = some p) : p.files = w.files ∧ p.seen = today := by
  unfold poll? at begun
  by_cases none : period = 0
  · simp [none] at begun
  · simp only [none, if_false, Option.some.injEq] at begun
    simp [← begun]

namespace Stage

def withDiary (s : Stage ω) (diary : List Path) : Stage (ω × List Path) :=
  ⟨(s.world, diary), s.watch, s.log⟩

def bare (s : Stage (ω × List Path)) : Stage ω := ⟨s.world.1, s.watch, s.log⟩

end Stage

namespace Poll

variable (look : ω → Surroundings) (l : Listener ω)

theorem scan_recorded (seen : Moment) (files : List Path) (s : Stage (ω × List Path)) :
    scan look l seen files s.bare =
      ((scan (look ∘ Prod.fst) l.recorded seen files s).1,
        (scan (look ∘ Prod.fst) l.recorded seen files s).2.bare) := by
  induction files generalizing s with
  | nil => rfl
  | cons file rest ih =>
    rw [scan_cons, scan_cons]
    have bare : s.bare.world = s.world.1 := rfl
    simp only [bare, Function.comp_apply]
    cases (look s.world.1).modified file with
    | error fault =>
      have told : l.recorded.onError file fault s =
          ((l.onError file fault s.bare).1,
            (l.onError file fault s.bare).2.withDiary s.world.2) := rfl
      simp only [told]
      rcases l.onError file fault s.bare with ⟨_ | _, t⟩
      · exact ih (t.withDiary s.world.2)
      · rfl
    | ok m =>
      by_cases newer : seen < m
      · simp only [newer, if_true]
        rfl
      · simp only [newer, if_false]
        exact ih s

theorem tick_recorded (p : Poll) (now : Nat) (s : Stage (ω × List Path)) :
    p.tick look l now s.bare =
      ((p.tick (look ∘ Prod.fst) l.recorded now s).1,
        (p.tick (look ∘ Prod.fst) l.recorded now s).2.bare) := by
  rw [tick_run, tick_run]
  have scanned := scan_recorded look l p.seen p.files
    (s.write [.debug .watching ("轮询 " ++ toString p.files.length ++ " 个文件")])
  have written (records : List Record) : s.bare.write records = (s.write records).bare := rfl
  rw [written, scanned]
  rcases scan (look ∘ Prod.fst) l.recorded p.seen p.files _ with ⟨⟨_ | _, seen⟩, t⟩ <;> rfl

theorem scan_of_statted {seen : Moment} {files : List Path} {s : Stage ω} {f : Path → Moment}
    (statted : ∀ file ∈ files, (look s.world).modified file = .ok (f file)) :
    scan look l seen files s =
      match files.find? (seen < f ·) with
      | some file =>
        let r := l.onChange file (noteChange file (f file) s).2
        ((r.1, f file), r.2)
      | none => ((.goOn, seen), s) := by
  induction files with
  | nil => rfl
  | cons file rest ih =>
    rw [List.forall_mem_cons] at statted
    rw [scan_cons, statted.1, List.find?_cons]
    by_cases newer : seen < f file <;> simp [newer, ih statted.2]

def newer? (f : Path → Moment) (p : Poll) : Option Path := p.files.find? (p.seen < f ·)

def next (f : Path → Moment) (p : Poll) (now : Nat) : Poll :=
  { p with seen := ((p.newer? f).map f).getD p.seen, due := p.nextDue now }

theorem tick_of_statted {p : Poll} {s : Stage ω} {f : Path → Moment}
    (statted : ∀ file ∈ p.files, (look s.world).modified file = .ok (f file))
    (tireless : ∀ file s, (l.onChange file s).1 = .goOn) (now : Nat) :
    (p.tick look l now s).1 = some (p.next f now) := by
  rw [tick_run, scan_of_statted look l (s := s.write _) statted]
  unfold next newer?
  cases p.files.find? (p.seen < f ·) with
  | none => rfl
  | some file => simp [tireless]

theorem tick_stage (p : Poll) (now : Nat) (s : Stage ω) :
    (p.tick look l now s).2 =
      (scan look l p.seen p.files
        (s.write [.debug .watching ("轮询 " ++ toString p.files.length ++ " 个文件")])).2 := by
  rw [tick_run]
  rcases scan look l p.seen p.files _ with ⟨⟨_ | _, seen⟩, t⟩ <;> rfl

def told (look : ω → Surroundings) (l : Listener ω) (p : Poll) (now : Nat) (s : Stage ω) :
    List Path :=
  (p.tick (look ∘ Prod.fst) l.recorded now (s.withDiary [])).2.world.2

theorem told_of_statted {p : Poll} {s : Stage ω} {f : Path → Moment}
    (statted : ∀ file ∈ p.files, (look s.world).modified file = .ok (f file)) (now : Nat) :
    p.told look l now s = (p.newer? f).toList := by
  rw [told, tick_stage, scan_of_statted (look ∘ Prod.fst) l.recorded
    (s := (s.withDiary []).write _) statted]
  unfold newer?
  cases p.files.find? (p.seen < f ·) <;> rfl

theorem seen_next_lt {p : Poll} {f : Path → Moment} {now : Nat} {m : Moment} :
    (p.next f now).seen < m ↔ p.seen < m ∧ ∀ file ∈ (p.newer? f).toList, f file < m := by
  cases newer : p.newer? f with
  | none => simp [next, newer]
  | some file =>
    have behind : p.seen < f file := by simpa using List.find?_some newer
    simp only [next, newer, Option.map_some, Option.getD_some, Option.toList_some,
      List.mem_singleton, forall_eq]
    exact ⟨fun earlier => ⟨Int.lt_trans behind earlier, earlier⟩, And.right⟩

theorem seen_takeAll (p : Poll) (files : List Path) : (p.takeAll files).seen = p.seen := by
  induction files generalizing p with
  | nil => rfl
  | cons file rest ih =>
    apply (ih (p.take file)).trans
    unfold take
    split <;> rfl

theorem prefix_takeAll (p : Poll) (files : List Path) : p.files <+: (p.takeAll files).files := by
  induction files generalizing p with
  | nil => exact List.prefix_rfl
  | cons file rest ih =>
    apply List.IsPrefix.trans _ (ih (p.take file))
    unfold take
    split <;> simp

section InFront

variable {p : Poll} {f : Path → Moment} {front back : List Path} {file : Path}

theorem newer_or_front (files : p.files = front ++ file :: back) (newer : p.seen < f file) :
    p.newer? f = some file ∨ ∃ g ∈ front, p.seen < f g ∧ p.newer? f = some g := by
  have split : p.newer? f = (front.find? (p.seen < f ·)).or (some file) := by
    simp [newer?, files, List.find?_append, newer]
  cases first : front.find? (p.seen < f ·) with
  | none => exact .inl (by simp [split, first])
  | some g =>
    have earlier : p.seen < f g := by simpa using List.find?_some first
    exact .inr ⟨g, List.mem_of_find?_eq_some first, earlier, by simp [split, first]⟩

theorem front_of_newer (files : p.files = front ++ file :: back) (apart : file ∉ front)
    (told : p.newer? f = some file) : p.seen < f file ∧ ∀ g ∈ front, f g ≤ p.seen := by
  refine ⟨by simpa using List.find?_some told, fun g among => ?_⟩
  by_contra behind
  have found : (front.find? (p.seen < f ·)).isSome :=
    List.find?_isSome.mpr ⟨g, among, by simpa using behind⟩
  obtain ⟨first, firstIs⟩ := Option.isSome_iff_exists.mp found
  have same : some first = some file := by
    rw [← told, newer?, files, List.find?_append, firstIs, Option.some_or]
  cases same
  exact apart (List.mem_of_find?_eq_some firstIs)

end InFront

end Poll

section Count

variable {α : Type} {before after marked : α → Bool} {xs : List α}

theorem countP_le_of_marked
    (others : ∀ y ∈ xs, after y = true → before y = true ∨ marked y = true) :
    xs.countP after ≤ xs.countP before + xs.countP marked := by
  induction xs with
  | nil => simp
  | cons y rest ih =>
    rw [List.forall_mem_cons] at others
    have rest_le := ih others.2
    have here := others.1
    cases counted : after y <;> cases earlier : before y <;> cases mark : marked y <;>
      simp_all <;> omega

theorem countP_lt_of_marked {x : α} (among : x ∈ xs) (counted : before x = true)
    (left : after x = true → marked x = true)
    (others : ∀ y ∈ xs, after y = true → before y = true ∨ marked y = true) :
    xs.countP after + 1 ≤ xs.countP before + xs.countP marked := by
  obtain ⟨front, back, rfl⟩ := List.append_of_mem among
  rw [List.forall_mem_append, List.forall_mem_cons] at others
  have front_le := countP_le_of_marked others.1
  have back_le := countP_le_of_marked others.2.2
  simp only [List.countP_append, List.countP_cons, counted, if_true]
  cases again : after x with
  | false => simp; omega
  | true => simp [left again]; omega

end Count

/-- The course of a polling: what each tick finds, when it happens, and the files that have come
through the queue before it. -/
structure Patrol (ω : Type) where
  look : ω → Surroundings
  listener : Listener ω
  first : Poll
  stage : Nat → Stage ω
  clock : Nat → Nat
  fresh : Nat → List Path

namespace Patrol

variable (c : Patrol ω)

def poll : Nat → Option Poll
  | 0 => some (c.first.takeAll (c.fresh 0))
  | k + 1 => (poll k).bind fun p =>
    (p.tick c.look c.listener (c.clock k) (c.stage k)).1.map (·.takeAll (c.fresh (k + 1)))

def told (k : Nat) : List Path :=
  match c.poll k with
  | some p => p.told c.look c.listener (c.clock k) (c.stage k)
  | none => []

structure Sighted (moments : Nat → Path → Moment) : Prop where
  tireless : ∀ file s, (c.listener.onChange file s).1 = .goOn
  statted : ∀ k p, c.poll k = some p → ∀ file ∈ p.files,
    (c.look (c.stage k).world).modified file = .ok (moments k file)

def alterations (moments : Nat → Path → Moment) (files : List Path) (t : Nat) : Nat → Nat
  | 0 => 0
  | n + 1 => alterations moments files t n +
    files.countP fun file => moments (t + n + 1) file != moments (t + n) file

variable {c} {moments : Nat → Path → Moment}

namespace Sighted

theorem poll_succ (sighted : c.Sighted moments) {k : Nat} {p : Poll} (now : c.poll k = some p) :
    c.poll (k + 1) = some ((p.next (moments k) (c.clock k)).takeAll (c.fresh (k + 1))) := by
  rw [poll, now, Option.bind_some,
    Poll.tick_of_statted c.look c.listener (sighted.statted k p now) sighted.tireless,
    Option.map_some]

theorem told_eq (sighted : c.Sighted moments) {k : Nat} {p : Poll} (now : c.poll k = some p) :
    c.told k = (p.newer? (moments k)).toList := by
  simp only [told, now]
  exact Poll.told_of_statted c.look c.listener (sighted.statted k p now) (c.clock k)

theorem poll_is (sighted : c.Sighted moments) (k : Nat) :
    ∃ p, c.poll k = some p ∧ c.first.files <+: p.files ∧
      ∀ m, p.seen < m ↔ c.first.seen < m ∧ ∀ j < k, ∀ g ∈ c.told j, moments j g < m := by
  induction k with
  | zero => exact ⟨_, rfl, Poll.prefix_takeAll _ _, by simp [Poll.seen_takeAll]⟩
  | succ k ih =>
    obtain ⟨p, now, files, seen⟩ := ih
    have later := Poll.prefix_takeAll (p.next (moments k) (c.clock k)) (c.fresh (k + 1))
    refine ⟨_, sighted.poll_succ now, files.trans later, fun m => ?_⟩
    rw [Poll.seen_takeAll, Poll.seen_next_lt, seen, ← sighted.told_eq now,
      Nat.forall_lt_succ_right, and_assoc]

def pending (files : List Path) (moments : Nat → Path → Moment) (k : Nat) (p : Poll) : Nat :=
  files.countP fun file => p.seen < moments k file

section Wait

variable {front back : List Path} {file : Path} {m : Moment}

theorem pending_succ {k : Nat} {p q : Poll} {g : Path} (among : g ∈ front)
    (behind : p.seen < moments k g) (seen : q.seen = moments k g) :
    pending front moments (k + 1) q + 1 ≤
      pending front moments k p +
        front.countP fun file => moments (k + 1) file != moments k file := by
  apply countP_lt_of_marked among (by simpa using behind)
  · intro still
    simp only [seen, decide_eq_true_eq] at still
    simpa using (Int.ne_of_gt still)
  · intro y _ still
    simp only [seen, decide_eq_true_eq, bne_iff_ne] at still ⊢
    by_cases same : moments (k + 1) y = moments k y
    · exact .inl (Int.lt_trans behind (same ▸ still))
    · exact .inr same

theorem front_told (sighted : c.Sighted moments) (files : c.first.files = front ++ file :: back)
    {k : Nat} {p : Poll} (now : c.poll k = some p) (newer : p.seen < moments k file)
    (untold : file ∉ c.told k) :
    ∃ g ∈ front, p.seen < moments k g ∧ p.newer? (moments k) = some g := by
  obtain ⟨q, same, ⟨more, whole⟩, -⟩ := sighted.poll_is k
  cases now.symm.trans same
  have split : p.files = front ++ file :: (back ++ more) := by simp [← whole, files]
  apply (Poll.newer_or_front split newer).resolve_left
  intro told
  exact untold (by simp [sighted.told_eq now, told])

theorem waits (sighted : c.Sighted moments) (files : c.first.files = front ++ file :: back)
    {t n : Nat} (stays : ∀ k, t ≤ k → k ≤ t + n → moments k file = m)
    (ahead : ∀ k, t ≤ k → k ≤ t + n → ∀ g ∈ front, moments k g < m)
    (untold : ∀ k, t ≤ k → k ≤ t + n → file ∉ c.told k)
    {p : Poll} (now : c.poll t = some p) (newer : p.seen < m) :
    ∃ q, c.poll (t + n) = some q ∧ q.seen < m ∧
      pending front moments (t + n) q + n ≤
        pending front moments t p + alterations moments front t n := by
  induction n with
  | zero => exact ⟨p, now, newer, by simp [alterations]⟩
  | succ n ih =>
    obtain ⟨q, before, behind, count⟩ := ih (fun k lower upper => stays k lower (by omega))
      (fun k lower upper => ahead k lower (by omega))
      (fun k lower upper => untold k lower (by omega))
    have here : moments (t + n) file = m := stays (t + n) (by omega) (by omega)
    obtain ⟨g, among, earlier, told⟩ := sighted.front_told files before (here ▸ behind)
      (untold (t + n) (by omega) (by omega))
    obtain ⟨r, after, seen⟩ : ∃ r, c.poll (t + n + 1) = some r ∧ r.seen = moments (t + n) g :=
      ⟨_, sighted.poll_succ before, by simp [Poll.seen_takeAll, Poll.next, told]⟩
    have fewer := pending_succ among earlier seen
    have nearer : r.seen < m := seen ▸ ahead (t + n) (by omega) (by omega) g among
    refine ⟨r, after, nearer, ?_⟩
    simp only [alterations, ← Nat.add_assoc]
    omega

end Wait

end Sighted

theorem told_of_newest (c : Patrol ω) {w : Watch} {period start : Nat} {today : Moment}
    (begun : w.poll? period start today = some c.first) {front back : List Path} {file : Path}
    (files : w.files = front ++ file :: back) (apart : file ∉ front)
    {moments : Nat → Path → Moment} (sighted : c.Sighted moments) {t n : Nat} {m : Moment}
    (stays : ∀ k, t ≤ k → k < t + n → moments k file = m) :
    (today < m → (∀ k < t, ∀ g ∈ c.told k, moments k g < m) →
      (∀ k, t ≤ k → k < t + n → ∀ g ∈ front, moments k g < m) →
      front.length + alterations moments front t (n - 1) < n →
      ∃ k, t ≤ k ∧ k < t + n ∧ file ∈ c.told k) ∧
    ∀ k, t ≤ k → k < t + n → file ∈ c.told k →
      today < m ∧ (∀ j < k, ∀ g ∈ c.told j, moments j g < m) ∧ ∀ g ∈ front, moments k g < m := by
  obtain ⟨sameFiles, firstSeen⟩ := Watch.of_poll? begun
  have firstFiles : c.first.files = front ++ file :: back := sameFiles.trans files
  constructor
  · intro later earlier ahead enough
    by_contra! untold
    obtain ⟨n, rfl⟩ : ∃ last, n = last + 1 := ⟨n - 1, by omega⟩
    obtain ⟨p, now, -, seen⟩ := sighted.poll_is t
    have newer : p.seen < m := (seen m).mpr ⟨firstSeen ▸ later, earlier⟩
    obtain ⟨q, last, behind, count⟩ := sighted.waits (n := n) firstFiles
      (fun k lower upper => stays k lower (by omega))
      (fun k lower upper => ahead k lower (by omega))
      (fun k lower upper => untold k lower (by omega)) now newer
    -- At the last tick there is still one in front to tell of.
    have here : moments (t + n) file = m := stays (t + n) (by omega) (by omega)
    obtain ⟨g, among, pendingStill, -⟩ := sighted.front_told firstFiles last (here ▸ behind)
      (untold (t + n) (by omega) (by omega))
    have some : 0 < Sighted.pending front moments (t + n) q :=
      List.countP_pos_iff.mpr ⟨g, among, by simpa using pendingStill⟩
    have most : Sighted.pending front moments t p ≤ front.length := List.countP_le_length
    simp only [Nat.add_sub_cancel] at enough
    omega
  · intro k lower upper told
    obtain ⟨p, now, ⟨more, whole⟩, seen⟩ := sighted.poll_is k
    have split : p.files = front ++ file :: (back ++ more) := by simp [← whole, firstFiles]
    have newest : p.newer? (moments k) = Option.some file := by
      simpa [sighted.told_eq now] using told
    obtain ⟨behind, ahead⟩ := Poll.front_of_newer split apart newest
    rw [stays k lower upper] at behind
    obtain ⟨later, earlier⟩ := (seen m).mp behind
    exact ⟨firstSeen ▸ later, earlier, fun g among => Int.lt_of_le_of_lt (ahead g among) behind⟩

def ofMoments (first : Poll) (moments : Nat → Path → Moment) : Patrol (Path → Moment) where
  look f := { stored := fun _ => .missing, modified := fun file => .ok (f file), here := ⟨"/"⟩,
              env := fun _ => none }
  listener := { onChange := fun _ => return .goOn, onError := fun _ _ => return .goOn }
  first
  stage k := { world := moments k }
  clock := id
  fresh _ := []

theorem ofMoments_sighted (first : Poll) (moments : Nat → Path → Moment) :
    (ofMoments first moments).Sighted moments where
  tireless _ _ := rfl
  statted _ _ _ _ _ := rfl

def pair : Watch := { files := [⟨"/a"⟩, ⟨"/b"⟩] }

-- The file in front changes twice, and then the other has its turn.
def busyMoments (k : Nat) (file : Path) : Moment :=
  if file = ⟨"/b"⟩ then 9 else if k = 0 then 3 else 4

theorem busy_told :
    ∃ k, 0 ≤ k ∧ k < 0 + 3 ∧ ⟨"/b"⟩ ∈ (ofMoments ⟨pair.files, 0, 5, 5⟩ busyMoments).told k := by
  have begun : pair.poll? 5 0 0 = some (ofMoments ⟨pair.files, 0, 5, 5⟩ busyMoments).first := rfl
  have files : pair.files = [⟨"/a"⟩] ++ ⟨"/b"⟩ :: [] := rfl
  have told := told_of_newest (ofMoments ⟨pair.files, 0, 5, 5⟩ busyMoments) begun files (by decide)
    (ofMoments_sighted _ busyMoments) (t := 0) (n := 3) (m := 9) (fun k _ _ => rfl)
  apply told.1 (by decide) (by simp)
  · intro k _ _ g among
    rw [List.mem_singleton.mp among]
    by_cases first : k = 0 <;> simp [busyMoments, first]
  · decide +kernel

-- The file in front carries the later time, and the change of the other comes a tick later.
def lateMoments (k : Nat) (file : Path) : Moment :=
  if file = ⟨"/b"⟩ then (if k < 2 then 1 else 5) else if k = 0 then 1 else 9

theorem change_lost :
    ¬ ∀ (c : Patrol (Path → Moment)) (w : Watch) (period start : Nat) (today : Moment)
      (moments : Nat → Path → Moment) (registered : Path → Moment) (t : Nat) (file : Path)
      (m : Moment), w.poll? period start today = some c.first → c.Sighted moments →
      file ∈ w.files → registered file < m → (∀ k < t, moments k file < m) →
      (∀ k, t ≤ k → moments k file = m) →
      ∃ k, t ≤ k ∧ k ≤ t + w.files.length ∧ file ∈ c.told k := by
  intro prompt
  have late (k : Nat) (lower : 2 ≤ k) : lateMoments k ⟨"/b"⟩ = 5 := by
    simp [lateMoments, Nat.not_lt.mpr lower]
  obtain ⟨k, lower, upper, told⟩ := prompt (ofMoments ⟨pair.files, 3, 5, 5⟩ lateMoments) pair 5 0 3
    lateMoments (lateMoments 0) 2 ⟨"/b"⟩ 5 rfl (ofMoments_sighted _ lateMoments) (by decide)
    (by decide) (by decide) late
  have untold : ∀ k < 5, 2 ≤ k →
      ⟨"/b"⟩ ∉ (ofMoments ⟨pair.files, 3, 5, 5⟩ lateMoments).told k := by
    decide +kernel
  exact untold k (Nat.lt_succ_of_le upper) lower told

end Patrol

end Steward
