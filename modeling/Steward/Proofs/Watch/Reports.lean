import Steward.Proofs.Watch.Interleaving
import Steward.Proofs.Watch.Notice

set_option autoImplicit false

namespace Steward

variable {ω : Type}

theorem Watch.Handled.lastChange {v w : Watch} (handled : v.Handled w) :
    w.lastChange = v.lastChange := by
  induction handled with
  | idle => rfl
  | @added w file _ ih =>
    have kept : (w.add file).lastChange = w.lastChange := by
      unfold Watch.add
      split
      · rfl
      · split <;> rfl
    rw [kept, ih]
  | stopped _ ih => exact ih

structure Listener.Tireless (l : Listener ω) : Prop where
  onChange : ∀ file s, (l.onChange file s).1 = .goOn
  onError : ∀ file fault s, (l.onError file fault s).1 = .goOn

namespace Poll

variable {f g : Path → Except FileFault Moment} {seen m : Moment} {files : List Path}

def later? (f : Path → Except FileFault Moment) (seen : Moment) (file : Path) : Option Moment :=
  match f file with
  | .ok m => if seen < m then some m else none
  | .error _ => none

def report? (f : Path → Except FileFault Moment) (seen : Moment) (files : List Path) :
    Option (Path × Moment) :=
  files.findSome? fun file => (later? f seen file).map (file, ·)

theorem later?_eq_some_iff {file : Path} :
    later? f seen file = some m ↔ f file = .ok m ∧ seen < m := by
  unfold later?
  split
  · next m' found =>
    rw [found, Option.ite_none_right_eq_some, Option.some.injEq, Except.ok.injEq]
    constructor
    · rintro ⟨behind, rfl⟩
      exact ⟨rfl, behind⟩
    · rintro ⟨rfl, behind⟩
      exact ⟨behind, rfl⟩
  · next found => simp [found]

theorem report?_eq_some {file : Path} (reported : report? f seen files = some (file, m)) :
    file ∈ files ∧ f file = .ok m ∧ seen < m := by
  obtain ⟨other, member, here⟩ := List.exists_of_findSome?_eq_some reported
  obtain ⟨_, later, same⟩ := Option.map_eq_some_iff.mp here
  cases same
  exact ⟨member, later?_eq_some_iff.mp later⟩

theorem report?_eq_none_iff :
    report? f seen files = none ↔ ∀ file ∈ files, later? f seen file = none := by
  simp [report?, List.findSome?_eq_none_iff]

theorem report?_congr (same : ∀ file ∈ files, f file = g file) :
    report? f seen files = report? g seen files := by
  unfold report?
  induction files with
  | nil => rfl
  | cons file rest ih =>
    obtain ⟨here, others⟩ := List.forall_mem_cons.mp same
    rw [List.findSome?_cons, List.findSome?_cons, ih others, later?, later?, here]

theorem scan_report {α : Type} (l : Listener ω) (found : Surroundings) (view : Stage ω → α)
    (tireless : ∀ file fault s, (l.onError file fault s).1 = .goOn)
    (quiet : ∀ file fault s, view (l.onError file fault s).2 = view s) (seen : Moment)
    (files : List Path) (s : Stage ω) :
    ∃ t, view t = view s ∧
      scan (fun _ => found) l seen files s =
        match report? found.modified seen files with
        | some (file, m) =>
          let r := l.onChange file (noteChange file m t).2
          ((r.1, m), r.2)
        | none => ((.goOn, seen), t) := by
  induction files generalizing s with
  | nil => exact ⟨s, rfl, rfl⟩
  | cons file rest ih =>
    rw [scan_cons, report?, List.findSome?_cons, later?]
    cases found.modified file with
    | error fault =>
      obtain ⟨t, kept, scanned⟩ := ih (l.onError file fault s).2
      refine ⟨t, kept.trans (quiet file fault s), ?_⟩
      have goesOn := tireless file fault s
      dsimp only
      generalize l.onError file fault s = answer at goesOn scanned ⊢
      obtain ⟨flow, u⟩ := answer
      cases goesOn
      exact scanned
    | ok m =>
      by_cases newer : seen < m
      · refine ⟨s, rfl, ?_⟩
        simp only [newer, if_true]
        rfl
      · simp only [newer, if_false]
        exact ih s

theorem told_report {l : Listener ω} (tireless : l.Tireless) (found : Surroundings) (p : Poll)
    (now : Nat) (s : Stage ω) :
    p.told (fun _ => found) l now s =
      (report? found.modified p.seen p.files).toList.map Prod.fst := by
  obtain ⟨t, diary, scanned⟩ := scan_report l.recorded found (fun s => s.world.2)
    (fun file fault s => tireless.onError file fault s.bare) (fun _ _ _ => rfl) p.seen p.files
    ((s.withDiary []).write [.debug .watching ("轮询 " ++ toString p.files.length ++ " 个文件")])
  have blank : t.world.2 = [] := diary
  rw [told, tick_stage]
  change (scan (fun _ => found) l.recorded p.seen p.files _).2.world.2 = _
  rw [scanned]
  cases report? found.modified p.seen p.files with
  | none => exact blank
  | some report =>
    have noted : (l.recorded.onChange report.1 (noteChange report.1 report.2 t).2).2.world.2 =
        t.world.2 ++ [report.1] := rfl
    simp [noted, blank]

theorem tick_report {l : Listener ω} (tireless : l.Tireless) (orderly : l.Orderly)
    (found : Surroundings) (p : Poll) (now : Nat) (s : Stage ω) :
    ∃ t, p.tick (fun _ => found) l now s =
        (some { p with
          seen := ((report? found.modified p.seen p.files).map Prod.snd).getD p.seen
          due := p.nextDue now }, t) ∧
      t.watch.lastChange =
        ((report? found.modified p.seen p.files).map Prod.snd).or s.watch.lastChange := by
  obtain ⟨u, kept, scanned⟩ := scan_report l found (fun s => s.watch.lastChange)
    tireless.onError (fun file fault s => (orderly.onError file fault s).lastChange) p.seen p.files
    (s.write [.debug .watching ("轮询 " ++ toString p.files.length ++ " 个文件")])
  rw [tick_run, scanned]
  cases report? found.modified p.seen p.files with
  | none => exact ⟨u, rfl, kept⟩
  | some report =>
    have goesOn := tireless.onChange report.1 (noteChange report.1 report.2 u).2
    have handled := orderly.onChange report.1 (noteChange report.1 report.2 u).2
    refine ⟨(l.onChange report.1 (noteChange report.1 report.2 u).2).2, ?_, handled.lastChange⟩
    simp [goesOn]

def pending (f : Path → Except FileFault Moment) (p : Poll) : Nat :=
  p.files.countP fun file => (later? f p.seen file).isSome

theorem pending_le (f : Path → Except FileFault Moment) (p : Poll) : p.pending f ≤ p.files.length :=
  List.countP_le_length

theorem pending_eq_zero_iff {p : Poll} :
    p.pending f = 0 ↔ ∀ file ∈ p.files, later? f p.seen file = none := by
  simp [pending, List.countP_eq_zero]

theorem pending_of_report {p q : Poll} {file : Path} (same : q.files = p.files)
    (reported : report? f p.seen p.files = some (file, m)) (seen : q.seen = m) :
    q.pending f + 1 ≤ p.pending f := by
  obtain ⟨member, found, behind⟩ := report?_eq_some reported
  have fewer : q.pending f + 1 ≤ p.pending f + p.files.countP fun _ => false := by
    unfold pending
    rw [same, seen]
    refine countP_lt_of_marked member (by simp [later?, found, behind]) (by simp [later?, found])
      fun other _ still => .inl ?_
    obtain ⟨m', later⟩ := Option.isSome_iff_exists.mp still
    obtain ⟨there, further⟩ := later?_eq_some_iff.mp later
    simp [later?, there, Int.lt_trans behind further]
  simpa using fewer

end Poll

/-- The course of a polling: what each tick finds, when it happens, what becomes of the stage before
it, and the files that have come through the queue by then. -/
structure Rounds (ω : Type) where
  listener : Listener ω
  first : Poll
  stage : Stage ω
  finds : Nat → Surroundings
  clock : Nat → Nat
  between : Nat → Stage ω → Stage ω
  fresh : Nat → List Path

namespace Rounds

variable (r : Rounds ω)

def due : Nat → Option Poll × Stage ω
  | 0 => (some (r.first.takeAll (r.fresh 0)), r.between 0 r.stage)
  | k + 1 =>
    match due k with
    | (some p, s) =>
      let (p?, t) := p.tick (fun _ => r.finds k) r.listener (r.clock k) s
      (p?.map (·.takeAll (r.fresh (k + 1))), r.between (k + 1) t)
    | (none, s) => (none, r.between (k + 1) s)

def told (k : Nat) : List Path :=
  match r.due k with
  | (some p, s) => p.told (fun _ => r.finds k) r.listener (r.clock k) s
  | (none, _) => []

def reported (n : Nat) : List Moment :=
  (List.range n).flatMap fun k =>
    (r.told k).filterMap fun file => ((r.finds k).modified file).toOption

structure Steady : Prop where
  tireless : r.listener.Tireless
  orderly : r.listener.Orderly
  handled : ∀ k (s : Stage ω), s.watch.Handled (r.between k s).watch

variable {r}

theorem reported_succ (n : Nat) :
    r.reported (n + 1) = r.reported n ++
      (r.told n).filterMap fun file => ((r.finds n).modified file).toOption := by
  simp [reported, List.range_succ]

def report? (r : Rounds ω) (k : Nat) (p : Poll) : Option (Path × Moment) :=
  Poll.report? (r.finds k).modified p.seen p.files

namespace Steady

variable {k : Nat} {p : Poll} {s : Stage ω}

theorem told_eq (steady : r.Steady) (now : r.due k = (some p, s)) :
    r.told k = (r.report? k p).toList.map Prod.fst := by
  rw [told, now]
  exact Poll.told_report steady.tireless _ p _ s

theorem reported_eq (steady : r.Steady) (now : r.due k = (some p, s)) :
    r.reported (k + 1) = r.reported k ++ ((r.report? k p).map Prod.snd).toList := by
  rw [reported_succ, steady.told_eq now]
  cases reported : r.report? k p with
  | none => rfl
  | some report =>
    obtain ⟨-, found, -⟩ := Poll.report?_eq_some reported
    simp [found, Except.toOption]

theorem due_succ (steady : r.Steady) (now : r.due k = (some p, s)) :
    ∃ q t, r.due (k + 1) = (some q, t) ∧ (r.fresh (k + 1) = [] → q.files = p.files) ∧
      q.seen = ((r.report? k p).map Prod.snd).getD p.seen ∧
      t.watch.lastChange = ((r.report? k p).map Prod.snd).or s.watch.lastChange := by
  obtain ⟨t, ticked, changed⟩ :=
    Poll.tick_report steady.tireless steady.orderly (r.finds k) p (r.clock k) s
  rw [due, now]
  simp only [ticked, Option.map_some]
  refine ⟨_, _, rfl, fun none => ?_, Poll.seen_takeAll _ _, ?_⟩
  · rw [none]
    rfl
  · rw [(steady.handled (k + 1) t).lastChange, changed]
    rfl

end Steady

structure OnCourse (r : Rounds ω) (n : Nat) (p : Poll) (s : Stage ω) : Prop where
  due : r.due n = (some p, s)
  seen : p.seen = (r.reported n).getLast?.getD r.first.seen
  last : s.watch.lastChange = (r.reported n).getLast?.or r.stage.watch.lastChange
  rising : (r.first.seen :: r.reported n).Pairwise (· < ·)
  top : ∀ m ∈ r.first.seen :: r.reported n, m ≤ p.seen

namespace Steady

theorem start (steady : r.Steady) :
    r.OnCourse 0 (r.first.takeAll (r.fresh 0)) (r.between 0 r.stage) where
  due := rfl
  seen := Poll.seen_takeAll _ _
  last := (steady.handled 0 r.stage).lastChange
  rising := by simp [reported]
  top := by simp [reported, Poll.seen_takeAll]

theorem step (steady : r.Steady) {n : Nat} {p : Poll} {s : Stage ω} (course : r.OnCourse n p s) :
    ∃ q t, r.OnCourse (n + 1) q t ∧ (r.fresh (n + 1) = [] → q.files = p.files) ∧
      q.seen = ((r.report? n p).map Prod.snd).getD p.seen := by
  obtain ⟨q, t, next, files, seen, last⟩ := steady.due_succ course.due
  have more := steady.reported_eq course.due
  refine ⟨q, t, ?_, files, seen⟩
  cases reported : r.report? n p with
  | none =>
    simp only [reported, Option.map_none, Option.toList_none, List.append_nil, Option.getD_none,
      Option.none_or] at more seen last
    exact ⟨next, by rw [more, seen, course.seen], by rw [more, last, course.last],
      more ▸ course.rising, by rw [more, seen]; exact course.top⟩
  | some report =>
    obtain ⟨-, -, behind⟩ := Poll.report?_eq_some reported
    simp only [reported, Option.map_some, Option.toList_some, Option.getD_some,
      Option.some_or] at more seen last
    have below : ∀ m ∈ r.first.seen :: r.reported n, m < report.2 :=
      fun m member => Int.lt_of_le_of_lt (course.top m member) behind
    refine ⟨next, by simp [more, seen], by simp [more, last], ?_, ?_⟩
    · rw [more, ← List.cons_append, List.pairwise_append]
      exact ⟨course.rising, List.pairwise_singleton _ _, by simpa using below⟩
    · rw [more, ← List.cons_append, seen, List.forall_mem_append]
      exact ⟨fun m member => Int.le_of_lt (below m member), by simp⟩

theorem course (steady : r.Steady) (n : Nat) : ∃ p s, r.OnCourse n p s := by
  induction n with
  | zero => exact ⟨_, _, steady.start⟩
  | succ n ih =>
    obtain ⟨p, s, here⟩ := ih
    obtain ⟨q, t, next, -⟩ := steady.step here
    exact ⟨q, t, next⟩

theorem dwindles (steady : r.Steady) {t : Nat} {p : Poll} {s : Stage ω} (course : r.OnCourse t p s)
    (still : ∀ k, t ≤ k → ∀ file ∈ p.files,
      (r.finds k).modified file = (r.finds t).modified file)
    (none : ∀ k, t < k → r.fresh k = []) (n : Nat) :
    ∃ q u, r.OnCourse (t + n) q u ∧ q.files = p.files ∧
      q.pending (r.finds t).modified ≤ p.pending (r.finds t).modified - n := by
  induction n with
  | zero => exact ⟨p, s, course, rfl, Nat.le_refl _⟩
  | succ n ih =>
    obtain ⟨q, u, here, files, fewer⟩ := ih
    obtain ⟨q', u', next, same, seen⟩ := steady.step here
    have files' := same (none (t + n + 1) (by omega))
    have found : r.report? (t + n) q =
        Poll.report? (r.finds t).modified q.seen q.files :=
      Poll.report?_congr fun file member => still (t + n) (by omega) file (files ▸ member)
    refine ⟨q', u', next, files'.trans files, ?_⟩
    rw [found] at seen
    cases reported : Poll.report? (r.finds t).modified q.seen q.files with
    | none =>
      rw [reported] at seen
      have nothing : q'.pending (r.finds t).modified = 0 := by
        rw [Poll.pending_eq_zero_iff, seen, files']
        exact Poll.report?_eq_none_iff.mp reported
      omega
    | some report =>
      rw [reported] at seen
      have left := Poll.pending_of_report files' reported seen
      omega

end Steady

theorem reports_run_out (r : Rounds ω) (steady : r.Steady) :
    (∀ k, r.told k = [] ∨
      ∃ file m, r.told k = [file] ∧ (r.finds k).modified file = .ok m) ∧
    (∀ n, (r.first.seen :: r.reported n).Pairwise (· < ·)) ∧
    (∀ n, ∃ p s, r.due n = (some p, s) ∧ p.seen = (r.reported n).getLast?.getD r.first.seen ∧
      s.watch.lastChange = (r.reported n).getLast?.or r.stage.watch.lastChange) ∧
    ∀ t p, (r.due t).1 = some p →
      (∀ k, t ≤ k → ∀ file ∈ p.files,
        (r.finds k).modified file = (r.finds t).modified file) →
      (∀ k, t < k → r.fresh k = []) →
      ∀ k, t + p.files.length ≤ k → r.told k = [] ∧
        ∃ q, (r.due k).1 = some q ∧ q.files = p.files ∧
          ∀ file ∈ p.files, ∀ m, (r.finds t).modified file = .ok m → m ≤ q.seen := by
  refine ⟨fun k => ?_, fun n => ?_, fun n => ?_, fun t p now still none k late => ?_⟩
  · obtain ⟨p, s, course⟩ := steady.course k
    rw [steady.told_eq course.due]
    cases reported : r.report? k p with
    | none => exact .inl rfl
    | some report =>
      obtain ⟨-, found, -⟩ := Poll.report?_eq_some reported
      exact .inr ⟨report.1, report.2, rfl, found⟩
  · obtain ⟨p, s, course⟩ := steady.course n
    exact course.rising
  · obtain ⟨p, s, course⟩ := steady.course n
    exact ⟨p, s, course.due, course.seen, course.last⟩
  · obtain ⟨p', s, course⟩ := steady.course t
    rw [course.due] at now
    cases now
    obtain ⟨n, rfl⟩ := Nat.exists_eq_add_of_le (Nat.le_trans (Nat.le_add_right _ _) late)
    obtain ⟨q, u, here, files, fewer⟩ := steady.dwindles course still none n
    have most := Poll.pending_le (r.finds t).modified p
    have nothing : q.pending (r.finds t).modified = 0 := by omega
    rw [Poll.pending_eq_zero_iff, files] at nothing
    refine ⟨?_, q, by rw [here.due], files, fun file member m found => ?_⟩
    · have found : r.report? (t + n) q = Option.none := by
        rw [report?, files, Poll.report?_congr (still (t + n) (by omega))]
        exact Poll.report?_eq_none_iff.mpr nothing
      rw [steady.told_eq here.due, found]
      rfl
    · by_contra behind
      have later := Poll.later?_eq_some_iff.mpr ⟨found, Int.not_le.mp behind⟩
      rw [nothing file member] at later
      cases later

def sample : Rounds Unit where
  listener := { onChange := fun _ => return .goOn, onError := Poll.warnError }
  first := ⟨[⟨"/a"⟩, ⟨"/b"⟩, ⟨"/c"⟩], 0, 5, 5⟩
  stage := { world := () }
  finds k := { stored := fun _ => .missing, here := ⟨"/"⟩, env := fun _ => none,
               modified := fun file =>
                 if file = ⟨"/a"⟩ then .error .notFound
                 else if file = ⟨"/b"⟩ then .ok 4 else .ok (if k = 0 then 0 else 9) }
  clock k := 5 * k + 5
  between _ s := s
  fresh _ := []

theorem sample_steady : sample.Steady where
  tireless := ⟨fun _ _ => rfl, fun _ _ _ => rfl⟩
  orderly := ⟨fun _ _ => .idle _, fun _ _ _ => .idle _⟩
  handled _ _ := .idle _

theorem sample_run_out : sample.reported 3 = [4, 9] ∧ ∀ k, 4 ≤ k → sample.told k = [] := by
  obtain ⟨-, -, -, quiet⟩ := reports_run_out sample sample_steady
  refine ⟨by decide +kernel, fun k late => ?_⟩
  have kept (k : Nat) (later : 1 ≤ k) : sample.finds k = sample.finds 1 := by
    have changed : k ≠ 0 := by omega
    simp [sample, changed]
  exact (quiet 1 ⟨sample.first.files, 4, 5, 10⟩ rfl (fun k later file _ => by rw [kept k later])
    (fun _ _ => rfl) k late).1

end Rounds

end Steward
