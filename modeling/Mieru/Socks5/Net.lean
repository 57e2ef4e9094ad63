import Mathlib.Data.UInt
import Mathlib.Tactic.Common

/-! # Network addresses

The parts of the Go packages `net` and `net/netip` that the egress decision
reads: classification of an IP address, text to address, and CIDR ranges.
Strings are byte strings, as in Go. -/
namespace Mieru.Net

abbrev Bytes := List UInt8

scoped instance : LawfulBEq Bytes := List.instLawfulBEq

def ascii (s : String) : Bytes := s.toList.map fun c => UInt8.ofNat c.toNat

/-- A non-nil `net.IP`: four bytes or sixteen. -/
@[ext] structure IP where
  bytes : Bytes
  length_eq : bytes.length = 4 ∨ bytes.length = 16
  deriving DecidableEq

def v4InV6Header : Bytes := [0, 0, 0, 0, 0, 0, 0, 0, 0, 0, 0xff, 0xff]

/-- `IP.To4`: the four bytes of an IPv4 or IPv4-mapped address. -/
def IP.to4 (ip : IP) : Option Bytes :=
  if ip.bytes.length = 4 then some ip.bytes
  else if ip.bytes.take 12 = v4InV6Header then some (ip.bytes.drop 12)
  else none

def IP.to16 (ip : IP) : Bytes :=
  if ip.bytes.length = 4 then v4InV6Header ++ ip.bytes else ip.bytes

def ipv4zero : IP := ⟨v4InV6Header ++ [0, 0, 0, 0], by decide⟩
def ipv6unspecified : IP := ⟨List.replicate 16 0, by decide⟩
def ipv6loopback : IP := ⟨List.replicate 15 0 ++ [1], by decide⟩
def ipv4loopback : IP := ⟨v4InV6Header ++ [127, 0, 0, 1], by decide⟩

/-- An IPv4 address and its IPv4-mapped form are equal. -/
def IP.equal (ip x : IP) : Bool :=
  if ip.bytes.length = x.bytes.length then ip.bytes = x.bytes else ip.to16 = x.to16

def IP.isUnspecified (ip : IP) : Bool := ip.equal ipv4zero || ip.equal ipv6unspecified

def IP.isLoopback (ip : IP) : Bool :=
  match ip.to4 with
  | some ip4 => ip4.headD 0 = 127
  | none => ip.equal ipv6loopback

def IP.isPrivate (ip : IP) : Bool :=
  match ip.to4 with
  | some ip4 =>
    let b0 := ip4.getD 0 0
    let b1 := ip4.getD 1 0
    b0 = 10 ∨ (b0 = 172 ∧ b1 &&& 0xf0 = 16) ∨ (b0 = 192 ∧ b1 = 168)
  | none => ip.bytes.headD 0 &&& 0xfe = 0xfc

structure UDPAddr where
  ip : Option IP
  port : ℕ
  zone : Bytes
  deriving DecidableEq

/-- What decides `UDPAddr.String`; an IPv4 address and its mapped form print alike. -/
def UDPAddr.key (a : UDPAddr) : Option Bytes × ℕ × Bytes := (a.ip.map IP.to16, a.port, a.zone)

theorem isUnspecified_cases {ip : IP} (h : ip.isUnspecified = true) :
    ip = ⟨[0, 0, 0, 0], Or.inl rfl⟩ ∨ ip = ipv4zero ∨ ip = ipv6unspecified := by
  obtain ⟨bytes, hlen⟩ := ip
  have hzero : ipv4zero.bytes.length = 16 := rfl
  have hunspec : ipv6unspecified.bytes.length = 16 := rfl
  simp only [IP.isUnspecified, IP.equal, Bool.or_eq_true, hzero, hunspec] at h
  rcases hlen with h4 | h16
  · simp only [h4, Nat.reduceEqDiff, if_false, IP.to16, hzero, hunspec, if_true,
      decide_eq_true_eq] at h
    rcases h with h | h
    · exact Or.inl (IP.ext (List.append_cancel_left h))
    · have hhead := congrArg (List.take 12) h
      rw [List.take_left' (by decide)] at hhead
      exact absurd hhead (by decide)
  · simp only [h16, if_true, decide_eq_true_eq] at h
    rcases h with h | h
    · exact Or.inr (Or.inl (IP.ext h))
    · exact Or.inr (Or.inr (IP.ext h))

theorem isUnspecified_unchecked {ip : IP} (h : ip.isUnspecified = true) :
    ip.isPrivate = false ∧ ip.isLoopback = false := by
  rcases isUnspecified_cases h with rfl | rfl | rfl
  · decide
  · decide
  · decide

/-! ## Text to address -/

def isDigit (c : UInt8) : Bool := 48 ≤ c ∧ c ≤ 57

/-- `parseIPv4Fields`: the previous byte detects empty fields, `rest = []` a trailing dot. -/
def parseIPv4Loop (val digLen : ℕ) (prev : Option UInt8) (fields : Bytes) :
    Bytes → Option Bytes
  | [] => if fields.length < 3 then none else some (fields ++ [UInt8.ofNat val])
  | c :: rest =>
    if isDigit c then
      if digLen = 1 ∧ val = 0 then none
      else
        let val := val * 10 + (c.toNat - 48)
        if val > 255 then none else parseIPv4Loop val (digLen + 1) (some c) fields rest
    else if c = 46 then
      if prev = none ∨ rest = [] ∨ prev = some 46 then none
      else if fields.length = 3 then none
      else parseIPv4Loop 0 0 (some c) (fields ++ [UInt8.ofNat val]) rest
    else none

def parseIPv4 (s : Bytes) : Option Bytes := parseIPv4Loop 0 0 none [] s

def hexDigit (c : UInt8) : Option ℕ :=
  if isDigit c then some (c.toNat - 48)
  else if 97 ≤ c ∧ c ≤ 102 then some (c.toNat - 97 + 10)
  else if 65 ≤ c ∧ c ≤ 70 then some (c.toNat - 65 + 10)
  else none

/-- One group of at most four hexadecimal digits: its value, its length and what follows. -/
def parseHexGroup (acc off : ℕ) : Bytes → Option (ℕ × ℕ × Bytes)
  | [] => some (acc, off, [])
  | c :: rest =>
    match hexDigit c with
    | none => some (acc, off, c :: rest)
    | some d => if off > 3 then none else parseHexGroup (acc * 16 + d) (off + 1) rest

/-- The main loop of `parseIPv6`; `ip` holds the bytes parsed so far. At most eight rounds. -/
def parseIPv6Loop : ℕ → Bytes → Option ℕ → Bytes → Option (Bytes × Option ℕ × Bytes)
  | 0, ip, ellipsis, s => some (ip, ellipsis, s)
  | n + 1, ip, ellipsis, s =>
    if ip.length ≥ 16 then some (ip, ellipsis, s)
    else
      match parseHexGroup 0 0 s with
      | none => none
      | some (acc, off, rest) =>
        if off = 0 then none
        else if rest.head? = some 46 then
          if ellipsis = none ∧ ip.length ≠ 12 then none
          else if ip.length + 4 > 16 then none
          else (parseIPv4 s).map fun fields => (ip ++ fields, ellipsis, [])
        else
          let ip := ip ++ [UInt8.ofNat (acc / 256), UInt8.ofNat acc]
          match rest with
          | [] => some (ip, ellipsis, [])
          | [_] => none
          | c :: d :: rest =>
            if c ≠ 58 then none
            else if d = 58 then
              if ellipsis ≠ none then none
              else if rest = [] then some (ip, some ip.length, [])
              else parseIPv6Loop n ip (some ip.length) rest
            else parseIPv6Loop n ip ellipsis (d :: rest)

def parseIPv6Bytes (s : Bytes) : Option Bytes :=
  let leading := s.take 2 = [58, 58]
  let body := if leading then s.drop 2 else s
  if leading ∧ body = [] then some (List.replicate 16 0)
  else
    match parseIPv6Loop 9 [] (if leading then some 0 else none) body with
    | none => none
    | some (ip, ellipsis, rest) =>
      if rest ≠ [] then none
      else if ip.length < 16 then
        ellipsis.map fun e => ip.take e ++ List.replicate (16 - ip.length) 0 ++ ip.drop e
      else if ellipsis ≠ none then none
      else some ip

structure Addr where
  ip : IP
  zone : Bytes
  deriving DecidableEq

def mkIP (bs : Bytes) : Option IP :=
  if h : bs.length = 4 ∨ bs.length = 16 then some ⟨bs, h⟩ else none

def parseIPv6 (s : Bytes) : Option Addr :=
  let body := s.takeWhile (· ≠ 37)
  let zone := (s.dropWhile (· ≠ 37)).drop 1
  if body.length < s.length ∧ zone = [] then none
  else (parseIPv6Bytes body).bind fun bs => (mkIP bs).map fun ip => ⟨ip, zone⟩

/-- `netip.ParseAddr`: the first `.`, `:` or `%` decides the family. -/
def parseAddr (s : Bytes) : Option Addr :=
  match s.find? fun c => c = 46 ∨ c = 58 ∨ c = 37 with
  | some 46 => (parseIPv4 s).bind fun bs => (mkIP bs).map fun ip => ⟨ip, []⟩
  | some 58 => parseIPv6 s
  | _ => none

/-! ## CIDR ranges -/

structure IPNet where
  ip : Bytes
  mask : Bytes
  deriving DecidableEq

def cidrMask (ones len : ℕ) : Bytes :=
  (List.range len).map fun i =>
    if 8 * (i + 1) ≤ ones then 0xff
    else if 8 * i < ones then UInt8.ofNat (256 - 2 ^ (8 * (i + 1) - ones))
    else 0

/-- `dtoi` on a whole string: decimal digits only, and below `0xFFFFFF`. -/
def dtoi (s : Bytes) : Option ℕ :=
  if s = [] ∨ ¬ s.all isDigit then none
  else
    let n := s.foldl (fun acc c => acc * 10 + (c.toNat - 48)) 0
    if n ≥ 0xFFFFFF then none else some n

def andBytes (xs ys : Bytes) : Bytes := List.zipWith (· &&& ·) xs ys

def parseCIDR (s : Bytes) : Option IPNet :=
  let addr := s.takeWhile (· ≠ 47)
  if addr.length = s.length then none
  else
    match parseAddr addr, dtoi (s.drop (addr.length + 1)) with
    | some a, some n =>
      let len := a.ip.bytes.length
      if a.zone ≠ [] ∨ n > 8 * len then none
      else
        let mask := cidrMask n len
        some ⟨andBytes a.ip.bytes mask, mask⟩
    | _, _ => none

/-- `networkNumberAndMask`: an IPv4-mapped network is compared as an IPv4 one. -/
def IPNet.numberAndMask (n : IPNet) : Bytes × Bytes :=
  if n.ip.length = 16 ∧ n.ip.take 12 = v4InV6Header then (n.ip.drop 12, n.mask.drop 12)
  else (n.ip, n.mask)

def IPNet.contains (n : IPNet) (ip : IP) : Bool :=
  let (number, mask) := n.numberAndMask
  let bytes := ip.to4.getD ip.bytes
  bytes.length = number.length ∧ andBytes number mask = andBytes bytes mask

example : (parseAddr (ascii "::ffff:10.0.0.1")).map (·.ip.bytes) =
    some [0, 0, 0, 0, 0, 0, 0, 0, 0, 0, 255, 255, 10, 0, 0, 1] := by decide

example : ((parseCIDR (ascii "10.1.0.0/12")).map (·.mask)) = some [255, 240, 0, 0] := by decide

end Mieru.Net
