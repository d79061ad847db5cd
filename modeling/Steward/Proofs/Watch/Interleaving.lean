import Mathlib.Tactic.ByContra
import Steward.Watch.Account

set_option autoImplicit false

namespace Steward

theorem Path.sameAs_comm (p q : Path) : p.sameAs q = q.sameAs p := by
  simp [Path.sameAs, Bool.beq_comm]

inductive WatchPhase.Moves : WatchPhase → WatchPhase → Prop
  | stay (phase : WatchPhase) : Moves phase phase
  | start : Moves .unstarted .watching
  | finish : Moves .watching .stopped
  | skip : Moves .unstarted .stopped

theorem WatchPhase.Moves.trans {first next last : WatchPhase} (before : first.Moves next)
    (later : next.Moves last) : first.Moves last := by
  cases before <;> cases later <;> constructor

theorem WatchPhase.Moves.of_stopped {phase : WatchPhase} (moves : Moves .stopped phase) :
    phase = .stopped := by
  cases moves
  rfl

theorem WatchPhase.Moves.of_unstarted {phase : WatchPhase} (moves : phase.Moves .unstarted) :
    phase = .unstarted := by
  cases moves
  rfl

theorem WatchPhase.Moves.to_stopped (phase : WatchPhase) : phase.Moves .stopped := by
  cases phase <;> constructor

namespace Watch

inductive Handled : Watch → Watch → Prop
  | idle (w : Watch) : Handled w w
  | added {v w : Watch} (file : Path) (before : Handled v w) : Handled v (w.add file)
  | stopped {v w : Watch} (before : Handled v w) : Handled v w.stop

theorem Handled.trans {u v w : Watch} (before : u.Handled v) (later : v.Handled w) :
    u.Handled w := by
  induction later with
  | idle => exact before
  | added file _ ih => exact .added file ih
  | stopped _ ih => exact .stopped ih

def Apart (files : List Path) : Prop := files.Pairwise fun p q => p.sameAs q = false

theorem holds_eq_false {files : List Path} {p : Path} :
    holds files p = false ↔ ∀ q ∈ files, q.sameAs p = false := by
  simp [holds, Path.sameAs_comm p]

theorem apart_concat {files : List Path} {p : Path} :
    Apart (files ++ [p]) ↔ Apart files ∧ holds files p = false := by
  simp [Apart, List.pairwise_append, holds_eq_false]

theorem apart_add {w : Watch} (apart : Apart w.files) (p : Path) : Apart (w.add p).files := by
  rw [files_add]
  by_cases held : holds w.files p = true
  · simpa [held] using apart
  · simpa [held] using apart_concat.mpr ⟨apart, by simpa using held⟩

theorem mem_add {w : Watch} {p q : Path} (member : q ∈ (w.add p).files) : q ∈ w.files ∨ q = p := by
  rw [files_add] at member
  split at member
  · exact .inl member
  · simpa using member

theorem queue_add (w : Watch) (p : Path) :
    (w.add p).queue =
      if holds w.files p = false ∧ w.phase = .watching then w.queue.map (· ++ [p])
      else w.queue := by
  unfold add
  by_cases held : holds w.files p = true <;> by_cases watching : w.phase = .watching <;>
    simp [held, watching]

end Watch

theorem Poll.take_of_apart {p : Poll} {file : Path} {rest : List Path}
    (apart : Watch.Apart (p.files ++ file :: rest)) :
    p.take file = { p with files := p.files ++ [file] } := by
  have split : p.files ++ file :: rest = (p.files ++ [file]) ++ rest := by simp
  have fresh : Watch.holds p.files file = false := by
    rw [split] at apart
    exact (Watch.apart_concat.mp (List.pairwise_append.mp apart).1).2
  simp [Poll.take, fresh]

/-- Where the task of a polling is: it has not begun or has ended, it polls, or it has left the
loop and is about to end. -/
inductive Watchman
  | away
  | polling (poll : Poll)
  | leaving
  deriving DecidableEq, Repr, Inhabited

def Watchman.ofPoll : Option Poll → Watchman
  | some poll => .polling poll
  | none => .away

/-- A watch with the task that polls it. What was in the queue when it was closed has been sent,
and can still be received. -/
structure Lookout where
  watch : Watch := {}
  task : Watchman := .away
  sent : List Path := []
  tasks : Nat := 0
  deriving DecidableEq, Repr, Inhabited

namespace Lookout

inductive Turn
  | add (file : Path)
  | start (period now : Nat) (today : Moment)
  | stop
  | receive
  | tick (found : Option Moment) (due : Nat)
  | leave
  | exit
  deriving DecidableEq, Repr, Inhabited

def waiting (o : Lookout) : List Path := o.sent ++ o.watch.queue.getD []

def start (o : Lookout) (period now : Nat) (today : Moment) : Lookout :=
  match o.watch.start? with
  | some watch =>
    { o with
      watch
      task := .ofPoll (watch.poll? period now today)
      tasks := o.tasks + 1 }
  | none => o

-- One file is taken from the queue. The loop waits at an empty queue and ends at a closed one.
def receive (o : Lookout) (p : Poll) : Lookout :=
  match o.sent, o.watch.queue with
  | file :: rest, _ => { o with sent := rest, task := .polling (p.take file) }
  | [], some (file :: rest) =>
    { o with watch := { o.watch with queue := some rest }, task := .polling (p.take file) }
  | [], some [] => o
  | [], none => { o with task := .leaving }

def tick (o : Lookout) (p : Poll) (found : Option Moment) (due : Nat) : Lookout :=
  { o with
    watch := found.elim o.watch o.watch.sawChange
    task := .polling { p with seen := found.getD p.seen, due } }

-- A turn that the task is not ready for does nothing.
def take (o : Lookout) (turn : Turn) : Lookout :=
  match turn, o.task with
  | .add file, _ => { o with watch := o.watch.add file }
  | .start period now today, _ => o.start period now today
  | .stop, _ => { o with watch := o.watch.stop, sent := o.waiting }
  | .receive, .polling p => o.receive p
  | .tick found due, .polling p => o.tick p found due
  | .leave, .polling _ => { o with task := .leaving }
  | .exit, .leaving => { o with watch := o.watch.stop, task := .away }
  | _, _ => o

def after (o : Lookout) (turns : List Turn) : Lookout := turns.foldl take o

@[simp] theorem after_nil (o : Lookout) : o.after [] = o := rfl

@[simp] theorem after_cons (o : Lookout) (turn : Turn) (turns : List Turn) :
    o.after (turn :: turns) = (o.take turn).after turns := rfl

theorem after_append (o : Lookout) (front back : List Turn) :
    o.after (front ++ back) = (o.after front).after back := by
  simp [after]

variable {o : Lookout}

theorem of_after {P : Lookout → Prop} {turns : List Turn} (first : P o)
    (kept : ∀ o : Lookout, P o → ∀ turn ∈ turns, P (o.take turn)) : P (o.after turns) :=
  List.foldlRecOn turns take first kept

theorem of_turn {P : Lookout → Prop} {turn : Turn} {turns : List Turn} (member : turn ∈ turns)
    (brought : ∀ o : Lookout, P (o.take turn))
    (kept : ∀ o : Lookout, P o → ∀ turn, P (o.take turn)) : P (o.after turns) := by
  obtain ⟨front, back, rfl⟩ := List.append_of_mem member
  rw [after_append, after_cons]
  exact of_after (brought _) fun o holds turn _ => kept o holds turn

structure Lawful (o : Lookout) : Prop where
  apart : Watch.Apart o.watch.files
  early : o.watch.phase = .unstarted → o.task = .away ∧ o.tasks = 0
  once : o.tasks ≤ 1
  queued : o.watch.queue.isSome ↔ o.watch.phase = .watching
  closed : o.watch.phase ≠ .stopped → o.sent = []
  polled : ∀ p, o.task = .polling p →
    p.files ++ o.waiting <+: o.watch.files ∧
      (o.watch.phase = .watching → p.files ++ o.waiting = o.watch.files)

theorem start_of_unstarted (unstarted : o.watch.phase = .unstarted) (period now : Nat)
    (today : Moment) :
    o.start period now today =
      { o with
        watch := { o.watch with phase := .watching, queue := some [] }
        task := .ofPoll (if period = 0 then none
          else some ⟨o.watch.files, today, period, now + period⟩)
        tasks := o.tasks + 1 } := by
  simp [start, Watch.start?, Watch.poll?, unstarted]

theorem start_of_started (started : o.watch.phase ≠ .unstarted) (period now : Nat)
    (today : Moment) : o.start period now today = o := by
  simp [start, Watch.start?, started]

theorem Lawful.empty : ({} : Lookout).Lawful where
  apart := .nil
  early := by simp
  once := by simp
  queued := by simp
  closed := by simp
  polled := by simp

theorem Lawful.waiting_of_watching (lawful : o.Lawful) (watching : o.watch.phase = .watching) :
    ∃ files, o.watch.queue = some files ∧ o.waiting = files := by
  obtain ⟨files, queue⟩ := Option.isSome_iff_exists.mp (lawful.queued.mpr watching)
  refine ⟨files, queue, ?_⟩
  simp [waiting, queue, lawful.closed (by simp [watching])]

theorem Lawful.add (lawful : o.Lawful) (file : Path) :
    Lawful { o with watch := o.watch.add file } := by
  constructor
  case apart => exact Watch.apart_add lawful.apart file
  case early => simpa [Watch.phase_add] using lawful.early
  case once => exact lawful.once
  case queued =>
    simp only [Watch.queue_add, Watch.phase_add]
    split <;> simpa using lawful.queued
  case closed => simpa [Watch.phase_add] using lawful.closed
  case polled =>
    intro p polling
    have polled := lawful.polled p polling
    simp only [Watch.phase_add]
    by_cases watching : o.watch.phase = .watching
    · -- A new file goes to the end of the registered files and of the queue alike.
      obtain ⟨files, queue, waits⟩ := lawful.waiting_of_watching watching
      have whole := polled.2 watching
      have sent := lawful.closed (by simp [watching])
      have same : p.files ++ waiting { o with watch := o.watch.add file } =
          (o.watch.add file).files := by
        by_cases held : Watch.holds o.watch.files file = true
        · simpa [Watch.add_of_holds held, waiting] using whole
        · rw [waits] at whole
          simp [waiting, sent, Watch.queue_add, Watch.files_add, held, watching, queue]
          rw [← List.append_assoc, whole]
      exact ⟨same ▸ List.prefix_rfl, fun _ => same⟩
    · have queue : (o.watch.add file).queue = o.watch.queue := by simp [Watch.queue_add, watching]
      refine ⟨?_, fun now => absurd now watching⟩
      simpa [waiting, queue] using polled.1.trans (Watch.prefix_add o.watch file)

theorem Lawful.start (lawful : o.Lawful) (period now : Nat) (today : Moment) :
    (o.start period now today).Lawful := by
  by_cases unstarted : o.watch.phase = .unstarted
  · rw [start_of_unstarted unstarted]
    have sent := lawful.closed (by simp [unstarted])
    constructor
    case apart => exact lawful.apart
    case early => simp
    case once => simp [(lawful.early unstarted).2]
    case queued => simp
    case closed => simpa using sent
    case polled =>
      by_cases none : period = 0
      · simp [none, Watchman.ofPoll]
      · simp [none, Watchman.ofPoll, waiting, sent]
  · rwa [start_of_started unstarted]

theorem Lawful.stop (lawful : o.Lawful) :
    Lawful { o with watch := o.watch.stop, sent := o.waiting } := by
  constructor
  case apart => exact lawful.apart
  case early => simp [Watch.stop]
  case once => exact lawful.once
  case queued => simp [Watch.stop]
  case closed => simp [Watch.stop]
  case polled =>
    intro p polling
    simpa [waiting, Watch.stop] using (lawful.polled p polling).1

theorem Lawful.leave (lawful : o.Lawful) (begun : o.watch.phase ≠ .unstarted) :
    Lawful { o with task := .leaving } :=
  { lawful with
    early := fun unstarted => absurd unstarted begun
    polled := nofun }

theorem Lawful.begun (lawful : o.Lawful) (present : o.task ≠ .away) :
    o.watch.phase ≠ .unstarted := fun unstarted => present (lawful.early unstarted).1

theorem Lawful.receive (lawful : o.Lawful) {p : Poll} (polling : o.task = .polling p) :
    (o.receive p).Lawful := by
  have begun : o.watch.phase ≠ .unstarted := lawful.begun (by simp [polling])
  have polled := lawful.polled p polling
  -- The file in front moves from the queue to the end of the list of the loop.
  have taken (file : Path) (rest : List Path) (front : o.waiting = file :: rest) :
      (p.take file).files ++ rest = p.files ++ o.waiting := by
    have apart : Watch.Apart (p.files ++ file :: rest) :=
      front ▸ lawful.apart.sublist polled.1.sublist
    simp [Poll.take_of_apart apart, front]
  unfold Lookout.receive
  split
  case h_1 file rest sent =>
    have files := taken file (rest ++ o.watch.queue.getD []) (by simp [waiting, sent])
    have stopped : o.watch.phase = .stopped := by
      by_contra unended
      simp [lawful.closed unended] at sent
    refine { lawful with
      early := fun unstarted => absurd unstarted begun
      closed := fun unended => absurd stopped unended
      polled := ?_ }
    simpa [waiting, files] using polled
  case h_2 file rest sent queue =>
    have files := taken file rest (by simp [waiting, sent, queue])
    refine { lawful with
      early := fun unstarted => absurd unstarted begun
      queued := by simpa [queue] using lawful.queued
      polled := ?_ }
    simpa [waiting, files, sent] using polled
  case h_3 => exact lawful
  case h_4 => exact lawful.leave begun

theorem Lawful.tick (lawful : o.Lawful) {p : Poll} (polling : o.task = .polling p)
    (found : Option Moment) (due : Nat) : (o.tick p found due).Lawful := by
  have begun : o.watch.phase ≠ .unstarted := lawful.begun (by simp [polling])
  have polled := lawful.polled p polling
  cases found with
  | none =>
    exact { lawful with
      early := fun unstarted => absurd unstarted begun
      polled := by simpa [Lookout.tick, waiting] using polled }
  | some m =>
    exact { lawful with
      early := fun unstarted => absurd unstarted begun
      polled := by simpa [Lookout.tick, waiting, Watch.sawChange] using polled }

theorem Lawful.exit (lawful : o.Lawful) : Lawful { o with watch := o.watch.stop, task := .away } :=
  { lawful with
    early := nofun
    queued := by simp [Watch.stop]
    closed := by simp [Watch.stop]
    polled := nofun }

theorem Lawful.take (lawful : o.Lawful) (turn : Turn) : (o.take turn).Lawful := by
  unfold Lookout.take
  split
  case h_1 => exact lawful.add _
  case h_2 => exact lawful.start _ _ _
  case h_3 => exact lawful.stop
  case h_4 polling => exact lawful.receive polling
  case h_5 polling => exact lawful.tick polling _ _
  case h_6 polling => exact lawful.leave (lawful.begun (by simp [polling]))
  case h_7 => exact lawful.exit
  case h_8 => exact lawful

theorem Lawful.after (lawful : o.Lawful) (turns : List Turn) : (o.after turns).Lawful :=
  of_after lawful fun _ lawful turn _ => lawful.take turn

theorem moves_take (o : Lookout) (turn : Turn) : o.watch.phase.Moves (o.take turn).watch.phase := by
  cases turn with
  | add file => simpa [take, Watch.phase_add] using WatchPhase.Moves.stay o.watch.phase
  | start period now today =>
    by_cases unstarted : o.watch.phase = .unstarted
    · simpa [take, start_of_unstarted unstarted, unstarted] using WatchPhase.Moves.start
    · simpa [take, start_of_started unstarted] using WatchPhase.Moves.stay o.watch.phase
  | stop => exact .to_stopped o.watch.phase
  | receive =>
    cases task : o.task <;> simp only [take, task, receive] <;> repeat' split
    all_goals exact .stay o.watch.phase
  | tick found due =>
    cases task : o.task <;> cases found <;> simp only [take, task, tick]
    all_goals exact .stay o.watch.phase
  | leave => cases task : o.task <;> simpa [take, task] using WatchPhase.Moves.stay o.watch.phase
  | exit =>
    cases task : o.task <;> simp only [take, task]
    case leaving => exact .to_stopped o.watch.phase
    all_goals exact .stay o.watch.phase

theorem files_take (o : Lookout) {turn : Turn} (other : ∀ file, turn ≠ .add file) :
    (o.take turn).watch.files = o.watch.files := by
  cases turn with
  | add file => exact absurd rfl (other file)
  | start period now today =>
    by_cases unstarted : o.watch.phase = .unstarted
    · simp [take, start_of_unstarted unstarted]
    · simp [take, start_of_started unstarted]
  | stop => rfl
  | receive =>
    cases task : o.task <;> simp only [take, task, receive] <;> repeat' split
    all_goals rfl
  | tick found due =>
    cases task : o.task <;> cases found <;> simp only [take, task, tick]
    all_goals rfl
  | leave => cases task : o.task <;> simp [take, task]
  | exit => cases task : o.task <;> simp [take, task, Watch.stop]

theorem prefix_take (o : Lookout) (turn : Turn) : o.watch.files <+: (o.take turn).watch.files := by
  by_cases added : ∃ file, turn = .add file
  · obtain ⟨file, rfl⟩ := added
    exact Watch.prefix_add o.watch file
  · exact o.files_take (not_exists.mp added) ▸ List.prefix_rfl

theorem mem_take {file : Path} {turn : Turn} (member : file ∈ (o.take turn).watch.files) :
    file ∈ o.watch.files ∨ turn = .add file := by
  by_cases added : ∃ other, turn = .add other
  · obtain ⟨other, rfl⟩ := added
    rcases Watch.mem_add member with old | rfl
    · exact .inl old
    · exact .inr rfl
  · exact .inl (o.files_take (not_exists.mp added) ▸ member)

theorem moves_after (o : Lookout) (turns : List Turn) :
    o.watch.phase.Moves (o.after turns).watch.phase :=
  of_after (P := fun now => o.watch.phase.Moves now.watch.phase) (.stay _)
    fun now moves turn _ => moves.trans (moves_take now turn)

theorem prefix_after (o : Lookout) (turns : List Turn) :
    o.watch.files <+: (o.after turns).watch.files :=
  of_after (P := fun now => o.watch.files <+: now.watch.files) List.prefix_rfl
    fun now grown turn _ => grown.trans (prefix_take now turn)

theorem holds_of_added {file : Path} {turns : List Turn} (added : .add file ∈ turns) :
    Watch.holds (o.after turns).watch.files file = true :=
  of_turn (P := fun now => Watch.holds now.watch.files file = true) added
    (fun before => before.watch.holds_add_self file)
    fun now held turn => Watch.holds_of_prefix (prefix_take now turn) held

theorem added_of_mem {turns : List Turn} :
    ∀ file ∈ (o.after turns).watch.files, file ∈ o.watch.files ∨ .add file ∈ turns := by
  refine of_after
    (P := fun now => ∀ file ∈ now.watch.files, file ∈ o.watch.files ∨ .add file ∈ turns)
    (fun _ old => .inl old) fun now known turn among file member => ?_
  rcases mem_take member with early | rfl
  · exact known file early
  · exact .inr among

theorem stopped_of_stop {turns : List Turn} (stop : .stop ∈ turns) :
    (o.after turns).watch.phase = .stopped :=
  of_turn (P := fun now => now.watch.phase = .stopped) stop (fun _ => rfl)
    fun now stopped turn => (stopped ▸ moves_take now turn).of_stopped

theorem started_of_start {period clock : Nat} {today : Moment} {turns : List Turn}
    (start : .start period clock today ∈ turns) : (o.after turns).watch.phase ≠ .unstarted := by
  refine of_turn (P := fun now => now.watch.phase ≠ .unstarted) start (fun before => ?_)
    fun now started turn unstarted => started (unstarted ▸ moves_take now turn).of_unstarted
  by_cases unstarted : before.watch.phase = .unstarted
  · simp [take, start_of_unstarted unstarted]
  · simpa [take, start_of_started unstarted] using unstarted

def Unstopped (o : Lookout) : Prop := ∀ p, o.task = .polling p → o.watch.phase = .watching

theorem Unstopped.take (unstopped : o.Unstopped) {turn : Turn} (other : turn ≠ .stop) :
    (o.take turn).Unstopped := by
  cases turn with
  | add file => simpa [Unstopped, Lookout.take, Watch.phase_add] using unstopped
  | start period now today =>
    by_cases unstarted : o.watch.phase = .unstarted
    · simp [Unstopped, Lookout.take, start_of_unstarted unstarted]
    · simpa [Unstopped, Lookout.take, start_of_started unstarted] using unstopped
  | stop => exact absurd rfl other
  | receive =>
    cases task : o.task with
    | polling p =>
      have watching := unstopped p task
      simp only [Lookout.take, task, receive]
      repeat' split
      all_goals simp [Unstopped, watching]
    | away | leaving => simp [Unstopped, Lookout.take, task]
  | tick found due =>
    cases task : o.task with
    | polling p =>
      have watching := unstopped p task
      cases found <;> simp [Unstopped, Lookout.take, task, tick, Watch.sawChange, watching]
    | away | leaving => simp [Unstopped, Lookout.take, task]
  | leave => cases task : o.task <;> simp [Unstopped, Lookout.take, task]
  | exit =>
    cases task : o.task with
    | polling p => simp [Unstopped, Lookout.take, task, unstopped p task]
    | away | leaving => simp [Unstopped, Lookout.take, task]

theorem Unstopped.after (unstopped : o.Unstopped) {turns : List Turn} (others : .stop ∉ turns) :
    (o.after turns).Unstopped :=
  of_after unstopped fun _ unstopped _ among =>
    unstopped.take fun stop => others (stop ▸ among)

theorem after_handled {v w : Watch} (handled : v.Handled w) (watch : o.watch = v) :
    ∃ turns, (o.after turns).watch = w ∧ (o.after turns).task = o.task := by
  induction handled with
  | idle => exact ⟨[], watch, rfl⟩
  | added file _ ih =>
    obtain ⟨turns, now, task⟩ := ih
    exact ⟨turns ++ [.add file], by simp [after_append, take, now],
      by simp [after_append, take, task]⟩
  | stopped _ ih =>
    obtain ⟨turns, now, task⟩ := ih
    exact ⟨turns ++ [.stop], by simp [after_append, take, now], by simp [after_append, take, task]⟩

theorem after_receive {p : Poll} {files : List Path} (task : o.task = .polling p)
    (sent : o.sent = []) (queue : o.watch.queue = some files) :
    ∃ turns, (o.after turns).watch = { o.watch with queue := some [] } ∧
      (o.after turns).task = .polling (p.takeAll files) := by
  induction files generalizing o p with
  | nil => exact ⟨[], by simp [← queue], task⟩
  | cons file rest ih =>
    have step : o.take .receive =
        { o with
          watch := { o.watch with queue := some rest }
          task := .polling (p.take file) } := by
      simp [take, task, receive, sent, queue]
    obtain ⟨turns, watch, last⟩ := ih (o := o.take .receive) (p := p.take file) (by simp [step])
      (by simp [step, sent]) (by simp [step])
    refine ⟨.receive :: turns, ?_, by simpa [Poll.takeAll] using last⟩
    rw [after_cons, watch, step]

theorem after_close {p : Poll} (task : o.task = .polling p) (queue : o.watch.queue = none) :
    ∃ turns, (o.after turns).watch = o.watch.stop ∧ (o.after turns).task = .away := by
  cases o with
  | mk watch place sent tasks =>
    cases task
    induction sent generalizing p with
    | nil =>
      refine ⟨[.receive, .exit], ?_, ?_⟩ <;> simp_all [take, receive]
    | cons file rest ih =>
      obtain ⟨turns, last⟩ := ih (p := p.take file) queue
      exact ⟨.receive :: turns, last⟩

theorem after_leave {p : Poll} (task : o.task = .polling p) :
    ∃ turns, (o.after turns).watch = o.watch.stop ∧ (o.after turns).task = .away :=
  ⟨[.leave, .exit], by simp [take, task], by simp [take, task]⟩

end Lookout

structure Listener.Orderly {ω : Type} (l : Listener ω) : Prop where
  onChange : ∀ file (s : Stage ω), s.watch.Handled (l.onChange file s).2.watch
  onError : ∀ file fault (s : Stage ω), s.watch.Handled (l.onError file fault s).2.watch

variable {ω : Type} (look : ω → Surroundings) {l : Listener ω}
  {pass : Nat → StateM (Stage ω) Unit}

theorem Lookout.after_scan (orderly : l.Orderly) {s : Stage ω} {o : Lookout} {p : Poll}
    (watch : o.watch = s.watch) (task : o.task = .polling p) (files : List Path) (due : Nat) :
    ∃ turns, (o.after turns).watch = (Poll.scan look l p.seen files s).2.watch ∧
      (o.after turns).task =
        .polling { p with seen := (Poll.scan look l p.seen files s).1.2, due } := by
  induction files generalizing s o with
  | nil => exact ⟨[.tick none due], by simp [take, task, tick, Poll.scan_nil, watch],
      by simp [take, task, tick, Poll.scan_nil]⟩
  | cons file rest ih =>
    rw [Poll.scan_cons]
    cases (look s.world).modified file with
    | error fault =>
      obtain ⟨front, now, polling⟩ := after_handled (orderly.onError file fault s) watch
      rw [task] at polling
      revert now
      dsimp only
      rcases l.onError file fault s with ⟨_ | _, t⟩ <;> intro now
      · obtain ⟨back, last⟩ := ih now polling
        exact ⟨front ++ back, by simpa [after_append] using last⟩
      · exact ⟨front ++ [.tick none due], by simp [after_append, take, polling, tick, now],
          by simp [after_append, take, polling, tick]⟩
    | ok m =>
      by_cases newer : p.seen < m
      · -- The change is noted before the listener is told of it.
        have noted : (o.take (.tick (some m) due)).watch = (Poll.noteChange file m s).2.watch := by
          simp [take, task, tick, watch]
          rfl
        obtain ⟨back, last⟩ :=
          after_handled (orderly.onChange file (Poll.noteChange file m s).2) noted
        refine ⟨.tick (some m) due :: back, ?_⟩
        simp only [newer, if_true]
        simpa [take, task, tick] using last
      · simp only [newer, if_false]
        exact ih watch task

namespace Vigil

structure Passes (look : ω → Surroundings) (l : Listener ω) (pass : Nat → StateM (Stage ω) Unit)
    (R : Stage (Vigil ω) → Stage (Vigil ω) → Prop) : Prop where
  refl : ∀ s, R s s
  trans : ∀ {s t u}, R s t → R t u → R s u
  receive : ∀ s, R s (receive s).2
  elapse : ∀ n s, R s (elapse pass n s).2
  tick : ∀ p s, s.world.poll = some p → R s (tick look l p s).2

namespace Passes

variable {look : ω → Surroundings} {R : Stage (Vigil ω) → Stage (Vigil ω) → Prop}

theorem waitIn (passes : Passes look l pass R) (rounds n : Nat) (s : Stage (Vigil ω)) :
    R s (waitIn look l pass rounds n s).2 := by
  induction rounds generalizing n s with
  | zero => exact passes.refl s
  | succ rounds ih =>
    have received : R s (if l.isBusy s.world.world then s else (Vigil.receive s).2) := by
      split
      · exact passes.refl s
      · exact passes.receive s
    rw [waitIn_run]
    revert received
    generalize (if l.isBusy s.world.world then s else (Vigil.receive s).2) = t
    intro received
    apply passes.trans received
    dsimp only
    split
    case h_1 d p _ poll =>
      apply passes.trans (passes.elapse d t)
      apply passes.trans (passes.tick p (Vigil.elapse pass d t).2 poll)
      split
      · exact passes.refl _
      · exact ih (n - d) _
    case h_2 => exact passes.elapse n t

theorem wait (passes : Passes look l pass R) (n : Nat) (s : Stage (Vigil ω)) :
    R s (wait look l pass n s).2 := by
  rw [wait_run]
  exact passes.trans (passes.waitIn (roundsIn n) n s) (passes.elapse _ _)

end Passes

structure Shows (s : Stage (Vigil ω)) (o : Lookout) : Prop where
  lawful : o.Lawful
  watch : o.watch = s.watch
  task : o.task = .ofPoll s.world.poll

def Turned (s t : Stage (Vigil ω)) : Prop := ∀ o, Shows s o → ∃ turns, Shows t (o.after turns)

variable {s t u : Stage (Vigil ω)}

theorem Turned.refl (s : Stage (Vigil ω)) : Turned s s := fun _ shows => ⟨[], shows⟩

theorem Turned.trans (before : Turned s t) (later : Turned t u) : Turned s u := by
  intro o shows
  obtain ⟨front, now⟩ := before o shows
  obtain ⟨back, last⟩ := later _ now
  exact ⟨front ++ back, by rwa [Lookout.after_append]⟩

theorem turned_of (each : ∀ o : Lookout, o.Lawful → o.watch = s.watch →
    o.task = .ofPoll s.world.poll →
    ∃ turns, (o.after turns).watch = t.watch ∧ (o.after turns).task = .ofPoll t.world.poll) :
    Turned s t := by
  intro o shows
  obtain ⟨turns, watch, task⟩ := each o shows.lawful shows.watch shows.task
  exact ⟨turns, shows.lawful.after turns, watch, task⟩

theorem turned_of_handled (handled : s.watch.Handled t.watch)
    (poll : t.world.poll = s.world.poll) : Turned s t := by
  apply turned_of
  intro o _ watch task
  obtain ⟨turns, now, same⟩ := Lookout.after_handled handled watch
  exact ⟨turns, now, by rw [same, task, poll]⟩

theorem receive_turned (s : Stage (Vigil ω)) : Turned s (receive s).2 := by
  apply turned_of
  intro o lawful watch task
  cases poll : s.world.poll with
  | none =>
    have run : (receive s).2 = s := by simp [receive_run, poll]
    exact ⟨[], by simpa [run] using watch, by simpa [run] using task⟩
  | some p =>
    simp only [poll, Watchman.ofPoll] at task
    cases queue : s.watch.queue with
    | some files =>
      have watching := lawful.queued.mp (by simp [watch, queue])
      have sent := lawful.closed (by simp [watching])
      obtain ⟨turns, now, last⟩ := Lookout.after_receive task sent (by rw [watch, queue])
      exact ⟨turns, by simp [receive_run, poll, queue, now, watch],
        by simp [receive_run, poll, queue, last, Watchman.ofPoll]⟩
    | none =>
      obtain ⟨turns, now, last⟩ := Lookout.after_close task (by rw [watch, queue])
      exact ⟨turns, by simp [receive_run, poll, queue, now, watch],
        by simp [receive_run, poll, queue, last, Watchman.ofPoll]⟩

theorem start_turned (period : Nat) (today : Moment) (s : Stage (Vigil ω)) :
    Turned s (start period today s).2 := by
  apply turned_of
  intro o _ watch task
  refine ⟨[.start period s.world.now today], ?_, ?_⟩
  all_goals
    simp only [Lookout.after_cons, Lookout.after_nil, Lookout.take, Lookout.start, start, watch]
    cases s.watch.start? <;> simp [watch, task]

theorem tick_turned (orderly : l.Orderly) {p : Poll} (s : Stage (Vigil ω))
    (poll : s.world.poll = some p) : Turned s (tick look l p s).2 := by
  apply turned_of
  intro o _ watch task
  rw [poll, Watchman.ofPoll] at task
  rw [tick_run, Poll.tick_run]
  obtain ⟨turns, now, polling⟩ := Lookout.after_scan look orderly
    (s := Stage.write ⟨s.world.world, s.watch, s.log⟩ _) watch task p.files (p.nextDue s.world.now)
  revert now polling
  rcases Poll.scan look l p.seen p.files _ with ⟨⟨_ | _, seen⟩, t⟩
  · intro now polling
    exact ⟨turns, now, polling⟩
  · intro now polling
    obtain ⟨more, last, away⟩ := Lookout.after_leave polling
    exact ⟨turns ++ more, by rw [Lookout.after_append, last, now],
      by rw [Lookout.after_append, away, Watchman.ofPoll]⟩

def Steadies (pass : Nat → StateM (Stage ω) Unit) : Prop :=
  ∀ n (s : Stage ω), s.watch.Handled (pass n s).2.watch

theorem elapse_turned (steady : Steadies pass) (n : Nat) (s : Stage (Vigil ω)) :
    Turned s (elapse pass n s).2 :=
  turned_of_handled (steady n ⟨s.world.world, s.watch, s.log⟩) rfl

theorem turning (orderly : l.Orderly) (steady : Steadies pass) :
    Passes look l pass Turned where
  refl := .refl
  trans := .trans
  receive := receive_turned
  elapse := elapse_turned steady
  tick _ := tick_turned look orderly

theorem wait_turned (orderly : l.Orderly) (steady : Steadies pass) (n : Nat)
    (s : Stage (Vigil ω)) : Turned s (wait look l pass n s).2 :=
  (turning look orderly steady).wait n s

/-- The vigils of a program in which a watch is used by its operations alone. -/
inductive Reached : Stage (Vigil ω) → Prop
  | fresh {s : Stage (Vigil ω)} (watch : s.watch = .empty) (poll : s.world.poll = none) : Reached s
  | handled {s t : Stage (Vigil ω)} (before : Reached s) (handled : s.watch.Handled t.watch)
      (poll : t.world.poll = s.world.poll) : Reached t
  | start {s : Stage (Vigil ω)} (before : Reached s) (period : Nat) (today : Moment) :
      Reached (start period today s).2
  | wait {s : Stage (Vigil ω)} (before : Reached s) (look : ω → Surroundings) {l : Listener ω}
      (orderly : l.Orderly) {pass : Nat → StateM (Stage ω) Unit} (steady : Steadies pass)
      (n : Nat) : Reached (wait look l pass n s).2

theorem Reached.shown (reached : Reached s) : ∃ turns, Shows s (({} : Lookout).after turns) := by
  have step {s t : Stage (Vigil ω)} (ih : ∃ turns, Shows s (({} : Lookout).after turns))
      (turned : Turned s t) : ∃ turns, Shows t (({} : Lookout).after turns) := by
    obtain ⟨front, now⟩ := ih
    obtain ⟨back, last⟩ := turned _ now
    exact ⟨front ++ back, by rwa [Lookout.after_append]⟩
  induction reached with
  | fresh watch poll => exact ⟨[], .empty, watch.symm, by rw [poll]; rfl⟩
  | handled _ handled poll ih => exact step ih (turned_of_handled handled poll)
  | start _ period today ih => exact step ih (start_turned period today _)
  | wait _ look orderly steady n ih => exact step ih (wait_turned look orderly steady n _)

end Vigil

theorem Account.listener_orderly (p : Patience) : (Account.listener p).Orderly where
  onChange file s := .idle s.watch
  onError file fault s := by
    unfold Account.listener Account.onError
    cases p.lenient <;> exact .idle s.watch

theorem Lookout.files_of_any_order (front back : List Lookout.Turn) :
    let before := ({} : Lookout).after front
    let now := ({} : Lookout).after (front ++ back)
    before.watch.phase.Moves now.watch.phase ∧
      (∀ period clock today, .start period clock today ∈ front ++ back →
        now.watch.phase ≠ .unstarted) ∧
      (.stop ∈ front ++ back → now.watch.phase = .stopped) ∧
      now.tasks ≤ 1 ∧
      (now.watch.files.Pairwise fun p q => p.sameAs q = false) ∧
      before.watch.files <+: now.watch.files ∧
      (∀ file, .add file ∈ front ++ back → Watch.holds now.watch.files file = true) ∧
      (∀ file ∈ now.watch.files, .add file ∈ front ++ back) ∧
      (∀ p, now.task = .polling p → .stop ∉ front ++ back →
        p.files ++ now.waiting = now.watch.files) ∧
      ∀ {ω : Type} {s : Stage (Vigil ω)}, Vigil.Reached s →
        ∃ turns, Vigil.Shows s (({} : Lookout).after turns) := by
  intro before now
  have lawful : now.Lawful := Lawful.empty.after (front ++ back)
  have later : now = before.after back := after_append {} front back
  have moves : before.watch.phase.Moves now.watch.phase := later ▸ moves_after before back
  have grown : before.watch.files <+: now.watch.files := later ▸ prefix_after before back
  have polled (p : Poll) (polling : now.task = .polling p) (others : .stop ∉ front ++ back) :
      p.files ++ now.waiting = now.watch.files := by
    have unstopped : ({} : Lookout).Unstopped := by simp [Unstopped]
    exact (lawful.polled p polling).2 (unstopped.after others p polling)
  have added (file : Path) (member : file ∈ now.watch.files) : .add file ∈ front ++ back := by
    rcases added_of_mem file member with early | added
    · cases early
    · exact added
  exact ⟨moves, fun _ _ _ => started_of_start, stopped_of_stop, lawful.once, lawful.apart,
    grown, fun _ => holds_of_added, added, polled, fun reached => reached.shown⟩

theorem Lookout.sample_files_of_any_order :
    let now := ({} : Lookout).after
      ([.add ⟨"/a"⟩, .start 5 0 0] ++ [.add ⟨"/b"⟩, .add ⟨"//a"⟩, .receive, .add ⟨"/c"⟩])
    now.task = .polling ⟨[⟨"/a"⟩, ⟨"/b"⟩], 0, 5, 5⟩ ∧ now.waiting = [⟨"/c"⟩] ∧
      now.watch.files = [⟨"/a"⟩, ⟨"/b"⟩, ⟨"/c"⟩] ∧ now.watch.phase ≠ .unstarted ∧
      Watch.holds now.watch.files ⟨"//a"⟩ = true := by
  intro now
  obtain ⟨-, started, -, -, -, -, held, -, polled, -⟩ :=
    files_of_any_order [.add ⟨"/a"⟩, .start 5 0 0]
      [.add ⟨"/b"⟩, .add ⟨"//a"⟩, .receive, .add ⟨"/c"⟩]
  have polling : now.task = .polling ⟨[⟨"/a"⟩, ⟨"/b"⟩], 0, 5, 5⟩ := by decide +kernel
  have waiting : now.waiting = [⟨"/c"⟩] := by decide +kernel
  have whole := polled _ polling (by decide +kernel)
  rw [waiting] at whole
  exact ⟨polling, waiting, whole.symm, started 5 0 0 (by decide +kernel),
    held ⟨"//a"⟩ (by decide +kernel)⟩

end Steward
