import Mathlib.Data.List.Basic
import Mathlib.Data.List.TakeWhile
import Steward.Proofs.Typed.Literals
import Steward.Typed.Scalar

set_option autoImplicit false

namespace Steward.Span

variable {cs ds : List Char} {x total : Binary64}

inductive Numeral : List Char → Binary64 → Prop
  | whole {digits : List Char} (figures : ∀ c ∈ digits, c.isDigit = true) (some : digits ≠ []) :
      Numeral digits (.ofDecimal false (Decimal.ofDigits digits) 0)
  | pointed {whole fraction : List Char} (figures : ∀ c ∈ whole ++ fraction, c.isDigit = true)
      (some : whole ++ fraction ≠ []) :
      Numeral (whole ++ '.' :: fraction)
        (.ofDecimal false (Decimal.ofDigits (whole ++ fraction)) (-fraction.length))

def units : List (String × Nat) :=
  [("ns", 1), ("us", tenTo 3), ("µs", tenTo 3), ("μs", tenTo 3), ("ms", tenTo 6), ("s", tenTo 9),
    ("m", 60 * tenTo 9), ("h", 3600 * tenTo 9), ("d", 86400 * tenTo 9)]

inductive Item : List Char → Binary64 → Prop
  | intro {number : List Char} {x : Binary64} {unit : String × Nat} (numeral : Numeral number x)
      (listed : unit ∈ units) : Item (number ++ unit.1.toList) (x.mul (.ofNat unit.2))

def sum (total : Binary64) (items : List (List Char × Binary64)) : Binary64 :=
  items.foldl (fun total item => total.add item.2) total

theorem takeWhile_dropWhile_iff {p : Char → Bool} {front rest : List Char} :
    cs.takeWhile p = front ∧ cs.dropWhile p = rest ↔
      cs = front ++ rest ∧ (∀ c ∈ front, p c = true) ∧ ∀ c ∈ rest.head?, p c = false := by
  constructor
  · rintro ⟨rfl, rfl⟩
    refine ⟨List.takeWhile_append_dropWhile.symm, fun c => List.mem_takeWhile_imp, fun c head => ?_⟩
    obtain ⟨tail, same⟩ := List.head?_eq_some_iff.mp head
    have stopped := List.head_dropWhile_not p (l := cs) (by simp [same])
    simpa [same] using stopped
  · rintro ⟨rfl, inside, stop⟩
    rw [List.takeWhile_append_of_pos inside, List.dropWhile_append_of_pos inside]
    cases rest with
    | nil => simp
    | cons c rest =>
      have stops : p c = false := stop c rfl
      simp [stops]

theorem exists_split (p : Char → Bool) (cs : List Char) :
    ∃ front rest, cs = front ++ rest ∧ (∀ c ∈ front, p c = true) ∧
      ∀ c ∈ rest.head?, p c = false :=
  ⟨_, _, takeWhile_dropWhile_iff.mp ⟨rfl, rfl⟩⟩

section Numerals

theorem isNumeral_iff {c : Char} : isNumeral c = true ↔ c.isDigit = true ∨ c = '.' := by
  simp [isNumeral]

theorem Numeral.isNumeral (numeral : Numeral cs x) : ∀ c ∈ cs, Span.isNumeral c = true := by
  intro c member
  rw [isNumeral_iff]
  cases numeral with
  | whole figures => exact .inl (figures c member)
  | pointed figures =>
    simp only [List.mem_append, List.mem_cons] at member figures
    rcases member with inWhole | rfl | inFraction
    · exact .inl (figures c (.inl inWhole))
    · exact .inr rfl
    · exact .inl (figures c (.inr inFraction))

theorem Numeral.ne_nil (numeral : Numeral cs x) : cs ≠ [] := by
  cases numeral with
  | whole _ some => exact some
  | pointed => simp

theorem toNat_of_isNumeral {c : Char} (numeral : isNumeral c = true) :
    c.toNat = 46 ∨ 48 ≤ c.toNat ∧ c.toNat ≤ 57 := by
  rcases isNumeral_iff.mp numeral with digit | rfl
  · exact .inr ((Text.isDigit_iff c).mp digit)
  · exact .inl rfl

theorem lower_ne_word {word : String} {letter : Char} (numerals : ∀ c ∈ cs, isNumeral c = true)
    (high : 58 ≤ letter.toNat) (member : letter ∈ word.toList) :
    String.ofList (cs.map Char.toLower) ≠ word := by
  rintro rfl
  rw [String.toList_ofList] at member
  obtain ⟨c, inside, rfl⟩ := List.mem_map.mp member
  have code := toNat_of_isNumeral (numerals c inside)
  rw [Text.toNat_toLower] at high
  split at high <;> omega

theorem readFloat?_eq (numerals : ∀ c ∈ cs, isNumeral c = true) :
    Decimal.readFloat? cs = Decimal.unsigned? false cs := by
  have unsigned : ∀ c ∈ cs.head?, Integer.isSign c = false := by
    intro c head
    have code := toNat_of_isNumeral (numerals c (List.mem_of_mem_head? head))
    rw [Bool.eq_false_iff]
    intro sign
    simp only [Integer.isSign, Bool.or_eq_true, beq_iff_eq] at sign
    rcases sign with rfl | rfl <;> revert code <;> decide
  have high : 58 ≤ 'n'.toNat := by decide
  have inf := lower_ne_word numerals high (by decide +kernel : 'n' ∈ "inf".toList)
  have infinity := lower_ne_word numerals high (by decide +kernel : 'n' ∈ "infinity".toList)
  have nan := lower_ne_word numerals high (by decide +kernel : 'n' ∈ "nan".toList)
  simp [Decimal.readFloat?, Integer.takeSign_of_unsigned unsigned, inf, infinity, nan]

theorem unsigned?_whole (figures : ∀ c ∈ cs, c.isDigit = true) (some : cs ≠ []) :
    Decimal.unsigned? false cs = .some (.ofDecimal false (Decimal.ofDigits cs) 0) := by
  obtain ⟨front, none⟩ := takeWhile_dropWhile_iff.mpr
    ⟨(List.append_nil cs).symm, figures, by simp⟩
  simp [Decimal.unsigned?, front, none, some, Decimal.exponent?]

theorem unsigned?_pointed {whole fraction rest : List Char}
    (figures : ∀ c ∈ whole ++ fraction, c.isDigit = true)
    (stop : ∀ c ∈ rest.head?, c.isDigit = false) :
    Decimal.unsigned? false (whole ++ '.' :: (fraction ++ rest)) =
      if whole ++ fraction = [] then none
      else (Decimal.exponent? rest).map fun e =>
        .ofDecimal false (Decimal.ofDigits (whole ++ fraction)) (e - fraction.length) := by
  simp only [List.mem_append] at figures
  have ends : ∀ c ∈ ('.' :: (fraction ++ rest)).head?, c.isDigit = false := by simp
  obtain ⟨front, point⟩ := takeWhile_dropWhile_iff.mpr
    ⟨rfl, fun c inside => figures c (.inl inside), ends⟩
  obtain ⟨behind, after⟩ := takeWhile_dropWhile_iff.mpr
    ⟨rfl, fun c inside => figures c (.inr inside), stop⟩
  simp [Decimal.unsigned?, front, point, behind, after]

theorem readFloat?_numeral (numeral : Numeral cs x) : Decimal.readFloat? cs = some x := by
  rw [readFloat?_eq numeral.isNumeral]
  cases numeral with
  | whole figures some => exact unsigned?_whole figures some
  | @pointed whole fraction figures some =>
    have ends : ∀ c ∈ ([] : List Char).head?, c.isDigit = false := by simp
    have read := unsigned?_pointed figures ends
    simpa only [List.append_nil, if_neg some, Decimal.exponent?, Option.map_some, Int.zero_sub]
      using read

theorem exponent?_isSome_iff (numerals : ∀ c ∈ cs, isNumeral c = true) :
    (Decimal.exponent? cs).isSome = true ↔ cs = [] := by
  cases cs with
  | nil => simp [Decimal.exponent?]
  | cons c cs =>
    have code := toNat_of_isNumeral (numerals c List.mem_cons_self)
    have noLetter : ¬(c = 'e' ∨ c = 'E') := by
      rintro (rfl | rfl) <;> revert code <;> decide
    simp [Decimal.exponent?, noLetter]

theorem numeral_of_readFloat? (numerals : ∀ c ∈ cs, isNumeral c = true)
    (read : Decimal.readFloat? cs = some x) : Numeral cs x := by
  rw [readFloat?_eq numerals] at read
  obtain ⟨whole, behind, rfl, figures, stop⟩ := exists_split Char.isDigit cs
  cases behind with
  | nil =>
    rw [List.append_nil] at read ⊢
    by_cases some : whole = []
    · cases some
      cases read
    · rw [unsigned?_whole figures some, Option.some.injEq] at read
      exact read ▸ .whole figures some
  | cons point behind =>
    have isPoint : point = '.' := by
      have numeral := isNumeral_iff.mp (numerals point (by simp))
      exact numeral.resolve_left (by simpa using stop point rfl)
    obtain ⟨fraction, rest, rfl, figures', stop'⟩ := exists_split Char.isDigit behind
    have all : ∀ c ∈ whole ++ fraction, c.isDigit = true :=
      fun c inside => (List.mem_append.mp inside).elim (figures c) (figures' c)
    rw [isPoint, unsigned?_pointed all stop'] at read
    split at read
    · cases read
    · next some =>
      obtain ⟨e, found, -⟩ := Option.map_eq_some_iff.mp read
      have behind : ∀ c ∈ rest, isNumeral c = true := fun c inside => numerals c (by simp [inside])
      obtain rfl : rest = [] := (exponent?_isSome_iff behind).mp (by rw [found]; rfl)
      simp only [Decimal.exponent?, Option.map_some, Int.zero_sub, Option.some.injEq] at read
      rw [isPoint, List.append_nil]
      exact read ▸ .pointed all some

end Numerals

section Units

variable {unit : List Char} {n : Nat}

theorem unitNanos?_eq_some_iff : unitNanos? unit = some n ↔ (String.ofList unit, n) ∈ units := by
  unfold unitNanos?
  generalize String.ofList unit = name
  split
  case h_10 unlisted => simp_all [units]
  all_goals simp [units, eq_comm]

theorem unit_chars {unit : String × Nat} (listed : unit ∈ units) :
    unit.1.toList ≠ [] ∧ ∀ c ∈ unit.1.toList, isNumeral c = false := by
  have table : ∀ unit ∈ units,
      unit.1.toList ≠ [] ∧ (unit.1.toList.all fun c => !isNumeral c) = true := by
    decide +kernel
  simpa using table unit listed

end Units

section Passes

variable {text : String} {n : Nat} {r : Except TypedFault Binary64}
  {items : List (List Char × Binary64)}

def pass (text : String) (total : Binary64) (cs : List Char) :
    Except TypedFault (Binary64 × List Char) :=
  let number := cs.takeWhile isNumeral
  if number = [] then .error (.notSpan text)
  else
    match Decimal.readFloat? number with
    | none => .error (.notSpan text)
    | some x =>
      let rest := cs.dropWhile isNumeral
      let unit := rest.takeWhile (!isNumeral ·)
      if unit.isEmpty then .error (.unitMissing text)
      else
        match unitNanos? unit with
        | none => .error (.unitUnknown (String.ofList unit) text)
        | some n => .ok (total.add (x.mul (.ofNat n)), rest.dropWhile (!isNumeral ·))

inductive Passes (text : String) :
    Nat → Binary64 → List Char → Except TypedFault Binary64 → Prop
  | done {total : Binary64} : Passes text 0 total [] (.ok total)
  | fault {total : Binary64} {cs : List Char} {cause : TypedFault} (more : cs ≠ [])
      (failed : pass text total cs = .error cause) : Passes text 1 total cs (.error cause)
  | next {n : Nat} {total total' : Binary64} {cs ds : List Char} {r : Except TypedFault Binary64}
      (more : cs ≠ []) (passed : pass text total cs = .ok (total', ds))
      (rest : Passes text n total' ds r) : Passes text (n + 1) total cs r

theorem item_of_pass {total' : Binary64} (passed : pass text total cs = .ok (total', ds)) :
    ∃ front x, cs = front ++ ds ∧ Item front x ∧ total' = total.add x ∧
      ∀ c ∈ ds.head?, isNumeral c = true := by
  obtain ⟨number, behind, rfl, numerals, stop⟩ := exists_split isNumeral cs
  obtain ⟨unit, rest, rfl, letters, stop'⟩ := exists_split (!isNumeral ·) behind
  obtain ⟨front, after⟩ := takeWhile_dropWhile_iff.mpr ⟨rfl, numerals, stop⟩
  obtain ⟨front', after'⟩ := takeWhile_dropWhile_iff.mpr ⟨rfl, letters, stop'⟩
  simp only [pass, front, after, front', after'] at passed
  split at passed
  · cases passed
  split at passed
  · cases passed
  next x read =>
  split at passed
  · cases passed
  split at passed
  · cases passed
  next nanos found =>
  simp only [Except.ok.injEq, Prod.mk.injEq] at passed
  obtain ⟨rfl, rfl⟩ := passed
  have item := Item.intro (numeral_of_readFloat? numerals read) (unitNanos?_eq_some_iff.mp found)
  rw [String.toList_ofList] at item
  exact ⟨number ++ unit, _, (List.append_assoc ..).symm, item, rfl, by simpa using stop'⟩

theorem pass_item {front : List Char} (item : Item front x)
    (stop : ∀ c ∈ ds.head?, isNumeral c = true) :
    pass text total (front ++ ds) = .ok (total.add x, ds) := by
  obtain @⟨number, x, unit, numeral, listed⟩ := item
  obtain ⟨filled, letters⟩ := unit_chars listed
  have behind : ∀ c ∈ (unit.1.toList ++ ds).head?, isNumeral c = false := by
    rw [List.head?_append_of_ne_nil _ filled]
    exact fun c head => letters c (List.mem_of_mem_head? head)
  obtain ⟨front, after⟩ := takeWhile_dropWhile_iff.mpr ⟨rfl, numeral.isNumeral, behind⟩
  obtain ⟨front', after'⟩ := takeWhile_dropWhile_iff (p := (!isNumeral ·)) |>.mpr
    ⟨rfl, by simpa using letters, by simpa using stop⟩
  have found : unitNanos? unit.1.toList = some unit.2 := by
    rwa [unitNanos?_eq_some_iff, String.ofList_toList]
  simp [pass, List.append_assoc, front, after, front', after', found, filled, numeral.ne_nil,
    readFloat?_numeral numeral]

theorem pass_eq_ok_iff {total' : Binary64} : pass text total cs = .ok (total', ds) ↔
    ∃ front x, cs = front ++ ds ∧ Item front x ∧ total' = total.add x ∧
      ∀ c ∈ ds.head?, isNumeral c = true := by
  refine ⟨item_of_pass, ?_⟩
  rintro ⟨front, x, rfl, item, rfl, stop⟩
  exact pass_item item stop

theorem readItems_eq (text : String) (total : Binary64) (cs : List Char) :
    readItems text total cs =
      if cs = [] then .ok total
      else (pass text total cs).bind fun left => readItems text left.1 left.2 := by
  rw [readItems]
  unfold pass
  split
  · rfl
  dsimp only
  split
  · rfl
  cases Decimal.readFloat? (cs.takeWhile isNumeral) with
  | none => rfl
  | some x =>
    dsimp only
    split
    · rfl
    · cases unitNanos? ((cs.dropWhile isNumeral).takeWhile (!isNumeral ·)) <;> rfl

theorem Item.ne_nil (item : Item cs x) : cs ≠ [] := by
  cases item with
  | intro numeral listed => simp [numeral.ne_nil]

theorem Item.head (item : Item cs x) : ∀ c ∈ cs.head?, isNumeral c = true := by
  cases item with
  | @intro number x unit numeral listed =>
    rw [List.head?_append_of_ne_nil _ numeral.ne_nil]
    exact fun c head => numeral.isNumeral c (List.mem_of_mem_head? head)

theorem readItems_passes (text : String) (total : Binary64) (cs : List Char) :
    ∃ n ≤ cs.length, Passes text n total cs (readItems text total cs) := by
  induction length : cs.length using Nat.strongRecOn generalizing total cs with
  | ind k ih =>
    subst length
    rw [readItems_eq]
    by_cases empty : cs = []
    · subst empty
      exact ⟨0, Nat.le_refl _, .done⟩
    · rw [if_neg empty]
      have filled := List.length_pos_iff.mpr empty
      cases passed : pass text total cs with
      | error cause => exact ⟨1, filled, .fault empty passed⟩
      | ok left =>
        obtain ⟨total', ds⟩ := left
        obtain ⟨front, x, rfl, item, -⟩ := pass_eq_ok_iff.mp passed
        have shorter : ds.length < (front ++ ds).length := by
          have := List.length_pos_iff.mpr item.ne_nil
          simpa using this
        obtain ⟨n, few, rest⟩ := ih _ shorter total' ds rfl
        exact ⟨n + 1, by omega, .next empty passed rest⟩

theorem Passes.exists_items {total' : Binary64} (passes : Passes text n total cs r)
    (ok : r = .ok total') :
    ∃ items : List (List Char × Binary64), items.length = n ∧
      (∀ item ∈ items, Item item.1 item.2) ∧ cs = items.flatMap (·.1) ∧
      total' = sum total items := by
  induction passes with
  | done => exact ⟨[], rfl, by simp, rfl, by cases ok; rfl⟩
  | fault => cases ok
  | next _ passed _ ih =>
    obtain ⟨front, x, rfl, item, rfl, -⟩ := pass_eq_ok_iff.mp passed
    obtain ⟨items, rfl, all, rfl, rfl⟩ := ih ok
    exact ⟨(front, x) :: items, rfl, List.forall_mem_cons.mpr ⟨item, all⟩, rfl, rfl⟩

theorem readItems_items (all : ∀ item ∈ items, Item item.1 item.2) :
    readItems text total (items.flatMap (·.1)) = .ok (sum total items) := by
  induction items generalizing total with
  | nil => rw [readItems_eq]; rfl
  | cons item items ih =>
    obtain ⟨first, others⟩ := List.forall_mem_cons.mp all
    -- The unit ends where the next item begins with its number.
    have stop : ∀ c ∈ (items.flatMap (·.1)).head?, isNumeral c = true := by
      cases items with
      | nil => simp
      | cons next items =>
        have head := (others next List.mem_cons_self)
        rw [List.flatMap_cons, List.head?_append_of_ne_nil _ head.ne_nil]
        exact head.head
    rw [List.flatMap_cons, readItems_eq, if_neg (by simp [first.ne_nil]), pass_item first stop]
    exact ih others

theorem flatMap_items_eq_nil_iff (all : ∀ item ∈ items, Item item.1 item.2) :
    items.flatMap (·.1) = [] ↔ items = [] := by
  cases items with
  | nil => simp
  | cons item items => simp [(all item List.mem_cons_self).ne_nil]

theorem readItems_eq_ok_iff {total' : Binary64} : readItems text total cs = .ok total' ↔
    ∃ items : List (List Char × Binary64), (∀ item ∈ items, Item item.1 item.2) ∧
      cs = items.flatMap (·.1) ∧ total' = sum total items := by
  constructor
  · intro read
    obtain ⟨n, -, passes⟩ := readItems_passes text total cs
    obtain ⟨items, -, rest⟩ := passes.exists_items read
    exact ⟨items, rest⟩
  · rintro ⟨items, all, rfl, rfl⟩
    exact readItems_items all

end Passes

theorem read_items (s : String) (noNumber : Decimal.readFloat? (Text.trim s.toList) = none) :
    (∃ n ≤ (Text.trim s.toList).length, ∃ r,
      Passes (String.ofList (Text.trim s.toList)) n .zero (Text.trim s.toList) r ∧
        (Text.trim s.toList ≠ [] → read s = r.map ofNanos)) ∧
      ∀ d, read s = .ok d ↔
        ∃ items : List (List Char × Binary64), items ≠ [] ∧ (∀ item ∈ items, Item item.1 item.2) ∧
          Text.trim s.toList = items.flatMap (·.1) ∧ d = ofNanos (sum .zero items) := by
  unfold read
  generalize Text.trim s.toList = text at *
  constructor
  · obtain ⟨n, few, passes⟩ := readItems_passes (String.ofList text) .zero text
    exact ⟨n, few, _, passes, fun filled => by simp [filled, noNumber]⟩
  · intro d
    by_cases empty : text = []
    · subst empty
      constructor
      · intro read
        simp at read
      · rintro ⟨items, some, all, same, -⟩
        exact absurd ((flatMap_items_eq_nil_iff all).mp same.symm) some
    · have read : (readItems (String.ofList text) .zero text).map ofNanos = .ok d ↔
          ∃ total, readItems (String.ofList text) .zero text = .ok total ∧ d = ofNanos total := by
        cases readItems (String.ofList text) .zero text <;> simp [Except.map, eq_comm]
      simp only [List.isEmpty_iff, empty, if_false, noNumber, read, readItems_eq_ok_iff]
      constructor
      · rintro ⟨_, ⟨items, all, same, rfl⟩, named⟩
        exact ⟨items, fun none => empty (by simp [same, none]), all, same, named⟩
      · rintro ⟨items, -, all, same, named⟩
        exact ⟨_, ⟨items, all, same, rfl⟩, named⟩

theorem sample_items :
    Decimal.readFloat? (Text.trim " 1h30m.5µs ".toList) = none ∧
      read " 1h30m.5µs " = .ok ⟨5400000000500⟩ := by
  have noNumber : Decimal.readFloat? (Text.trim " 1h30m.5µs ".toList) = none := by decide +kernel
  have parts : Text.trim " 1h30m.5µs ".toList =
      "1h".toList ++ ("30m".toList ++ (".5µs".toList ++ [])) := by decide +kernel
  have added {x y z : Binary64} (first : Item "1h".toList x) (second : Item "30m".toList y)
      (third : Item ".5µs".toList z) : read " 1h30m.5µs " =
        .ok (ofNanos (((Binary64.zero.add x).add y).add z)) :=
    ((read_items _ noNumber).2 _).mpr
      ⟨[("1h".toList, x), ("30m".toList, y), (".5µs".toList, z)], by simp,
        by simp only [List.forall_mem_cons]; exact ⟨first, second, third, by simp⟩, parts, rfl⟩
  have hour : Item "1h".toList _ :=
    .intro (.whole (by simp : ∀ c ∈ ['1'], c.isDigit = true) (by decide))
      (by decide : ("h", 3600 * tenTo 9) ∈ units)
  have minutes : Item "30m".toList _ :=
    .intro (.whole (by simp : ∀ c ∈ ['3', '0'], c.isDigit = true) (by decide))
      (by decide : ("m", 60 * tenTo 9) ∈ units)
  have half : Item ".5µs".toList _ :=
    .intro (.pointed (by simp : ∀ c ∈ [] ++ ['5'], c.isDigit = true) (by decide))
      (by decide : ("µs", tenTo 3) ∈ units)
  exact ⟨noNumber, (added hour minutes half).trans (by decide +kernel)⟩

end Steward.Span
