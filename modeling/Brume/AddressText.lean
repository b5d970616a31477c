import Brume.Lib.Text
import Brume.Net

/-!
# Addresses from text (`std::net::parser`)

The standard library's recursive descent parser behind `IpAddr::from_str`. A
parser takes the text that is left and gives a value with the rest, or `none`
and leaves the text as it was.
-/

namespace Brume
open Lib

namespace AddressText

def readGivenChar (c : Char) : Text → Option Text
  | d :: s => if d = c then some s else none
  | [] => none

/-- A run of digits, at most `maxDigits` long, with a value below `limit`. -/
def readNumber (radix maxDigits : ℕ) (allowZeroPrefix : Bool) (limit : ℕ) (s : Text) :
    Option (ℕ × Text) :=
  let digits := s.takeWhile fun c => (toDigit radix c).isSome
  if maxDigits < digits.length then none
  else if digits = [] then none
  else if !allowZeroPrefix && decide (s.head? = some '0') && decide (1 < digits.length) then none
  else
    match (digitsVal radix digits).filter (· < limit) with
    | some n => some (n, s.dropWhile fun c => (toDigit radix c).isSome)
    | none => none

/-- `inner`, behind a separator except at the first index. -/
def readSeparator {α : Type} (sep : Char) (index : ℕ) (inner : Text → Option (α × Text)) (s : Text) :
    Option (α × Text) :=
  if 0 < index then (readGivenChar sep s).bind inner else inner s

def readIpv4Addr (s : Text) : Option (Ipv4Addr × Text) := do
  let (a, s) ← readSeparator '.' 0 (readNumber 10 3 false 256) s
  let (b, s) ← readSeparator '.' 1 (readNumber 10 3 false 256) s
  let (c, s) ← readSeparator '.' 2 (readNumber 10 3 false 256) s
  let (d, s) ← readSeparator '.' 3 (readNumber 10 3 false 256) s
  some (⟨buffer [UInt8.ofNat a, UInt8.ofNat b, UInt8.ofNat c, UInt8.ofNat d] rfl⟩, s)

/-- `read_groups` from index `i` with `n` slots left: the groups as 16-bit
numbers, and whether the last two came from an embedded IPv4 address. -/
def readGroups : ℕ → ℕ → Text → List ℕ × Bool × Text
  | 0, _, s => ([], false, s)
  | n + 1, i, s =>
    match if 0 < n then readSeparator ':' i readIpv4Addr s else none with
    | some (ip, s') => ([ip.toNat / 65536, ip.toNat % 65536], true, s')
    | none =>
      match readSeparator ':' i (readNumber 16 4 true 65536) s with
      | some (g, s') =>
        let (gs, ipv4, rest) := readGroups n (i + 1) s'
        (g :: gs, ipv4, rest)
      | none => ([], false, s)

/-- `Ipv6Addr::from([u16; 8])`. -/
def ofGroups (groups : List ℕ) : Ipv6Addr :=
  ⟨buffer (((groups ++ List.replicate 8 0).take 8).flatMap (beBytes 2))
    (by rw [length_flatMap_beBytes]; simp)⟩

def readIpv6Addr (s : Text) : Option (Ipv6Addr × Text) :=
  let (head, headIpv4, s) := readGroups 8 0 s
  if head.length = 8 then some (ofGroups head, s)
  else if headIpv4 then none
  else do
    let s ← readGivenChar ':' s
    let s ← readGivenChar ':' s
    let (tail, _, s) := readGroups (8 - (head.length + 1)) 0 s
    some (ofGroups (head ++ List.replicate (8 - head.length - tail.length) 0 ++ tail), s)

def readIpAddr (s : Text) : Option (IpAddr × Text) :=
  match readIpv4Addr s with
  | some (ip, s) => some (.v4 ip, s)
  | none => (readIpv6Addr s).map fun (ip, s) => (.v6 ip, s)

/-- A run of digits of any length: `read_number` without a maximum. -/
def readDecimal (limit : ℕ) (s : Text) : Option (ℕ × Text) := readNumber 10 s.length true limit s

def readPort (s : Text) : Option (UInt16 × Text) := do
  let s ← readGivenChar ':' s
  let (port, s) ← readDecimal 65536 s
  some (UInt16.ofNat port, s)

def readScopeId (s : Text) : Option (UInt32 × Text) := do
  let s ← readGivenChar '%' s
  let (scopeId, s) ← readDecimal 4294967296 s
  some (UInt32.ofNat scopeId, s)

def readSocketAddrV4 (s : Text) : Option (SocketAddr × Text) := do
  let (ip, s) ← readIpv4Addr s
  let (port, s) ← readPort s
  some (.v4 ip port, s)

def readSocketAddrV6 (s : Text) : Option (SocketAddr × Text) := do
  let s ← readGivenChar '[' s
  let (ip, s) ← readIpv6Addr s
  let (scopeId, s) := (readScopeId s).getD (0, s)
  let s ← readGivenChar ']' s
  let (port, s) ← readPort s
  some (.v6 ip port 0 scopeId, s)

def readSocketAddr (s : Text) : Option (SocketAddr × Text) :=
  (readSocketAddrV4 s).or (readSocketAddrV6 s)

end AddressText

/-- `s.parse::<SocketAddr>()`: the whole text is one address with a port. -/
def parseSocketAddr (s : Text) : Option SocketAddr :=
  match AddressText.readSocketAddr s with
  | some (address, []) => some address
  | _ => none

/-- `s.parse::<IpAddr>()`: the whole text is one address. -/
def parseIpAddr (s : Text) : Option IpAddr :=
  match AddressText.readIpAddr s with
  | some (ip, []) => some ip
  | _ => none

end Brume
