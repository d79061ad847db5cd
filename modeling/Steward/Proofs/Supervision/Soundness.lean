import Steward.Proofs.Supervision.Request

set_option autoImplicit false

namespace Steward

open Run

variable {ι ω : Type}

structure Ledger.Sound (l : Ledger ι) : Prop where
  nodup : l.order.Nodup
  active : ∀ name ∈ l.order, (l.active? name).isSome = true
  named : l.Named
  members : ∀ name m, l.roster.get? name = some m → m.Sound

namespace Ledger.Sound

variable {l : Ledger ι}

theorem absent (sound : l.Sound) {name : String} (idle : l.active? name = none) :
    name ∉ l.order := by
  intro member
  have active := sound.active name member
  rw [idle] at active
  cases active

theorem running (sound : l.Sound) {name : String} {m : Member ι}
    (member : l.roster.get? name = some m) (runs : m.state = .running) :
    ∃ i, m.instance? = some i ∧ l.active? name = some i := by
  have live : m.instance? ≠ none := fun none => by
    simp [(sound.members name m member).instance_.mpr none] at runs
  obtain ⟨i, live⟩ := Option.ne_none_iff_exists'.mp live
  refine ⟨i, live, ?_⟩
  rw [active?_of_get? member]
  simp [Member.active?, Member.isRunning, runs, live]

theorem callAll (sound : l.Sound) (calls : List (Call ι)) : (l.callAll calls).Sound :=
  ⟨sound.nodup, sound.active, sound.named, sound.members⟩

theorem call (sound : l.Sound) (c : Call ι) : (l.call c).Sound :=
  sound.callAll [c]

theorem leave (sound : l.Sound) (name : String) : (l.leave name).Sound :=
  ⟨sound.nodup.filter _, fun other member => sound.active other (List.mem_filter.mp member).1,
    sound.named, sound.members⟩

theorem enroll (sound : l.Sound) {m : Member ι} (member : m.Sound) (out : m.name ∉ l.order) :
    (l.enroll m).Sound := by
  refine ⟨sound.nodup, fun name ordered => ?_, sound.named.enroll m, fun name m' found => ?_⟩
  · have apart : name ≠ m.name := fun same => out (same ▸ ordered)
    rw [active?_enroll, if_neg apart]
    exact sound.active name ordered
  · rw [roster_enroll, Table.get?_insert] at found
    split at found
    · cases found
      exact member
    · exact sound.members name m' found

theorem strike (sound : l.Sound) {name : String} (out : name ∉ l.order) :
    (l.strike name).Sound := by
  refine ⟨sound.nodup, fun other ordered => ?_, fun other m found => ?_, fun other m found => ?_⟩
  · have apart : other ≠ name := fun same => out (same ▸ ordered)
    rw [active?_strike, if_neg apart]
    exact sound.active other ordered
  · rw [roster_strike, Table.get?_erase] at found
    split at found
    · cases found
    · exact sound.named other m found
  · rw [roster_strike, Table.get?_erase] at found
    split at found
    · cases found
    · exact sound.members other m found

theorem reconfigure (sound : l.Sound) (name : String) (config : Section) :
    (l.alter name fun m => { m with config }).Sound := by
  refine ⟨sound.nodup, fun other ordered => ?_, sound.named.alter name fun _ => rfl,
    fun other m found => ?_⟩
  · rw [active?_alter]
    split
    · next same =>
      subst same
      obtain ⟨i, active⟩ := Option.isSome_iff_exists.mp (sound.active other ordered)
      obtain ⟨m, found, runs, live⟩ := get?_of_active? active
      simp only [found, Option.map_some, Option.bind_some]
      simpa [Member.active?, Member.isRunning, live] using runs
    · exact sound.active other ordered
  · rw [roster_alter, Table.get?_update] at found
    split at found
    · obtain ⟨before, registered, rfl⟩ := Option.map_eq_some_iff.mp found
      have member := sound.members name before registered
      exact ⟨member.instance_, member.flag⟩
    · exact sound.members other m found

theorem start (sound : l.Sound) {name : String} {m : Member ι} {i : ι}
    (found : l.roster.get? name = some m) (live : m.instance? = some i)
    (idle : l.active? name = none) :
    ((l.alter name fun m => { m with state := .running }).join name).Sound := by
  refine ⟨?_, fun other ordered => ?_, sound.named.alter name fun _ => rfl,
    fun other m' member => ?_⟩
  · refine List.nodup_append.mpr ⟨sound.nodup, List.nodup_singleton name, ?_⟩
    intro other ordered last joined same
    have again : other = name := same.trans (List.mem_singleton.mp joined)
    exact sound.absent idle (again ▸ ordered)
  · rw [active?_start found live]
    split
    · rfl
    · next apart =>
      rcases List.mem_append.mp ordered with ordered | last
      · exact sound.active other ordered
      · exact absurd (List.mem_singleton.mp last) apart
  · rw [roster_join, roster_alter, Table.get?_update, found] at member
    split at member
    · cases member
      exact (sound.members name m found).started live
    · exact sound.members other m' member

theorem clear (l : Ledger ι) : l.clear.Sound :=
  ⟨List.nodup_nil, nofun, nofun, nofun⟩

end Ledger.Sound

theorem Stopped.sound {name : String} {l l' : Ledger ι} {active : Option ι}
    {r : Except Fault Unit} (stop : Stopped name l active r l') (sound : l.Sound) : l'.Sound := by
  cases stop with
  | idle => exact sound
  | stopped i => exact (sound.leave name).call _
  | failed i cause => exact (sound.leave name).call _

theorem Stopped.out {name : String} {l l' : Ledger ι} {active : Option ι}
    {r : Except Fault Unit} (stop : Stopped name l active r l')
    (idle : active = none → name ∉ l.order) : name ∉ l'.order := by
  cases stop with
  | idle => exact idle rfl
  | stopped i => simp
  | failed i cause => simp

theorem Stopped.sound_removed {name : String} {l l' : Ledger ι} {r : Except Fault Unit}
    (stop : Stopped name (l.strike name) (l.active? name) r l') (sound : l.Sound) : l'.Sound := by
  -- The order must not have a name without a record, so the name leaves it first.
  have left : ((l.leave name).strike name).Sound := (sound.leave name).strike (by simp)
  generalize active : l.active? name = a at stop
  cases stop with
  | idle => exact sound.strike (sound.absent active)
  | stopped i => exact left.call _
  | failed i cause => exact left.call _

theorem Move.sound {l l' : Ledger ι} (move : Move l l') (sound : l.Sound) : l'.Sound := by
  cases move with
  | asked c quiet => exact sound.call c
  | kept runs cause => exact sound.call _
  | left runs cause => exact (sound.leave _).call _
  | lost runs kind config cause => exact ((sound.leave _).call _).call _
  | renewed member idle stop made own =>
    exact ((stop.sound sound).callAll made).enroll member (stop.out sound.absent)
  | reconfigured name config => exact sound.reconfigure name config
  | removed stop => exact stop.sound_removed sound
  | started member live idle => exact (sound.call _).start member live idle

theorem Moves.sound {l l' : Ledger ι} (moves : Moves l l') (sound : l.Sound) : l'.Sound := by
  induction moves with
  | refl => exact sound
  | tail _ move ih => exact move.sound ih

theorem perform_moves (crew : Crew ι ω) (p : Policy) (request : Request)
    (h : House ι (Chronicle ι ω)) (sound : h.ledger.Sound) :
    Ends (request.perform crew.chronicled p) h fun _ h' =>
      ∃ l, Moves h.ledger l ∧
        (h'.ledger = l ∨ (request = .unloadAll ∧ h'.ledger = l.clear)) := by
  cases request with
  | reconcile list initial =>
    refine (reconcile_ends crew p list initial h sound.named).mono ?_
    rintro r h' (⟨fault, -, ledger⟩ | ⟨specs, begun, -, orderly, reconciled⟩)
    · exact ⟨h.ledger, .refl, .inl ledger⟩
    · have nodup := orderly.nodup
      rw [← Supervisor.turns_names crew.chronicled p specs begun] at nodup
      exact ⟨h'.ledger, reconciled.moves nodup, .inl rfl⟩
  | unload name =>
    refine (unload_ends crew name h sound.named).bind ?_ ?_
    · rintro found h' (⟨-, -, ledger⟩ | ⟨stop, -, stopped⟩)
      · exact .pure ⟨h.ledger, .refl, .inl ledger⟩
      · exact .pure ⟨h'.ledger, .single (.removed stopped), .inl rfl⟩
    · rintro fault h' (⟨-, result, -⟩ | ⟨stop, -, stopped⟩)
      · cases result
      · exact ⟨h'.ledger, .single (.removed stopped), .inl rfl⟩
  | unloadAll =>
    refine (unloadAll_ends crew h sound.named sound.nodup sound.active).mono ?_
    rintro r h' ⟨faults, l, -, removed, ledger⟩
    exact ⟨l, removed.moves, .inr ⟨rfl, ledger⟩⟩

structure Ledger.Kept (P : Ledger ι → Prop) : Prop where
  move : ∀ l l', l.Sound → Move l l' → P l → P l'
  clear : ∀ l, P l → P l.clear

namespace Ledger.Kept

variable {P : Ledger ι → Prop}

theorem moves (kept : Kept P) {l l' : Ledger ι} (moves : Moves l l') (sound : l.Sound)
    (holds : P l) : P l' := by
  induction moves with
  | refl => exact holds
  | tail moved last ih => exact kept.move _ _ (Moves.sound moved sound) last ih

theorem take (kept : Kept P) (crew : Crew ι ω) (p : Policy) (h : House ι (Chronicle ι ω))
    (event : Event ω) (sound : h.ledger.Sound) (holds : P h.ledger) :
    (event.chronicled.take crew.chronicled p h).ledger.Sound ∧
      P (event.chronicled.take crew.chronicled p h).ledger := by
  cases event with
  | passed change => exact ⟨sound, holds⟩
  | asked request =>
    obtain ⟨l, moved, same | ⟨-, cleared⟩⟩ := perform_moves crew p request h sound
    · have after := And.intro (Moves.sound moved sound) (kept.moves moved sound holds)
      rw [← same] at after
      exact after
    · have after := And.intro (Sound.clear l) (kept.clear l (kept.moves moved sound holds))
      rw [← cleared] at after
      exact after

theorem after (kept : Kept P) (crew : Crew ι ω) (p : Policy) (h : House ι (Chronicle ι ω))
    (events : List (Event ω)) (sound : h.ledger.Sound) (holds : P h.ledger) :
    (House.after crew.chronicled p h (events.map .chronicled)).ledger.Sound ∧
      P (House.after crew.chronicled p h (events.map .chronicled)).ledger := by
  induction events generalizing h with
  | nil => exact ⟨sound, holds⟩
  | cons event events ih =>
    obtain ⟨sound, holds⟩ := kept.take crew p h event sound holds
    exact ih _ sound holds

theorem recorded (kept : Kept P) (empty : P {}) (crew : Crew ι ω) (p : Policy) (stage : Stage ω)
    (events : List (Event ω)) :
    (House.recorded crew p stage events).ledger.Sound ∧
      P (House.recorded crew p stage events).ledger :=
  kept.after crew p _ events (.clear {}) empty

end Ledger.Kept

theorem Ledger.Sound.reported {h : House ι (Chronicle ι ω)} (sound : h.ledger.Sound)
    {status : Status} (reported : status ∈ h.status) :
    ∃ m, h.roster.get? status.name = some m ∧ m.state = status.state := by
  obtain ⟨⟨name, m⟩, row, rfl⟩ := List.mem_map.mp reported
  have found := (h.roster.mem_rows_iff name m).mp row
  have same : m.name = name := sound.named name m found
  subst same
  exact ⟨m, found, rfl⟩

theorem House.recorded_sound (crew : Crew ι ω) (p : Policy) (stage : Stage ω)
    (events : List (Event ω)) : (House.recorded crew p stage events).ledger.Sound := by
  have kept : Ledger.Kept fun _ : Ledger ι => True := ⟨fun _ _ _ _ _ => trivial, fun _ _ => trivial⟩
  exact (kept.recorded trivial crew p stage events).1

end Steward
