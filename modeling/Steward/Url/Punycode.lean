set_option autoImplicit false

namespace Steward.Punycode

def adapt (delta count : Nat) (first : Bool) : Nat :=
  let delta := if first then delta / 700 else delta / 2
  let delta := delta + delta / count
  -- Halving by 35 ends below 456, and a delta of a text is far below 35 ^ 40.
  let rec go : Nat → Nat → Nat → Nat
    | 0, k, d => k + 36 * d / (d + 38)
    | n + 1, k, d => if d > 455 then go n (k + 36) (d / 35) else k + 36 * d / (d + 38)
  go 40 0 delta

def digit (d : Nat) : Char := if d < 26 then Char.ofNat (97 + d) else Char.ofNat (22 + d)

def digit? (c : Char) : Option Nat :=
  if c.isDigit then some (c.toNat - 22)
  else if 'a' ≤ c && c ≤ 'z' then some (c.toNat - 97)
  else if 'A' ≤ c && c ≤ 'Z' then some (c.toNat - 65)
  else none

def threshold (k bias : Nat) : Nat := if k ≤ bias then 1 else if k ≥ bias + 26 then 26 else k - bias

def varint (bias : Nat) : Nat → Nat → Nat → List Char
  | 0, _, q => [digit q]
  | n + 1, k, q =>
    let t := threshold k bias
    if q < t then [digit q]
    else digit (t + (q - t) % (36 - t)) :: varint bias n (k + 36) ((q - t) / (36 - t))

structure State where
  delta : Nat
  bias : Nat
  written : Nat
  out : List Char

def encode (label : List Char) : String :=
  let basic := label.filter fun c => c.toNat < 128
  let others := ((label.filter fun c => c.toNat ≥ 128).map Char.toNat).mergeSort.eraseDups
  let step := fun (acc : State × Nat × Bool) (n : Nat) =>
    let (s, last, first) := acc
    let s := { s with delta := s.delta + (n - last) * (s.written + 1) }
    let go := fun (acc : State × Bool) (c : Char) =>
      let (s, first) := acc
      if c.toNat < n then ({ s with delta := s.delta + 1 }, first)
      else if c.toNat = n then
        ({ delta := 0
           bias := adapt s.delta (s.written + 1) first
           written := s.written + 1
           out := s.out ++ varint s.bias 64 36 s.delta }, false)
      else (s, first)
    let (s, first) := label.foldl go (s, first)
    ({ s with delta := s.delta + 1 }, n + 1, first)
  let lead := if basic.isEmpty then [] else basic ++ ['-']
  let start : State := { delta := 0, bias := 72, written := basic.length, out := lead }
  let (s, _, _) := others.foldl step (start, 128, true)
  String.ofList s.out

def readVarint? (bias : Nat) : List Char → Nat → Nat → Nat → Option (Nat × List Char)
  | [], _, _, _ => none
  | c :: cs, k, weight, acc =>
    match digit? c with
    | none => none
    | some d =>
      let t := threshold k bias
      let acc := acc + d * weight
      if d < t then some (acc, cs) else readVarint? bias cs (k + 36) (weight * (36 - t)) acc

def insertPoints : Nat → List Char → Nat → Nat → Nat → Bool → List Char → Option (List Char)
  | _, [], _, _, _, _, out => some out
  | 0, _ :: _, _, _, _, _, _ => none
  | fuel + 1, cs, i, n, bias, first, out =>
    match readVarint? bias cs 36 1 0 with
    | none => none
    | some (d, rest) =>
      let i := i + d
      let size := out.length + 1
      let n := n + i / size
      let pos := i % size
      if n > 0x10FFFF || (0xD800 ≤ n && n ≤ 0xDFFF) then none
      else
        insertPoints fuel rest (pos + 1) n (adapt d size first) false
          (out.take pos ++ Char.ofNat n :: out.drop pos)

def decode? (label : List Char) : Option (List Char) :=
  let basic := (label.reverse.dropWhile (· != '-')).drop 1 |>.reverse
  let rest := if label.contains '-' then (label.reverse.takeWhile (· != '-')).reverse else label
  if label.all (fun c => c.toNat < 128) then insertPoints label.length rest 0 128 72 true basic
  else none

end Steward.Punycode
