import Mathlib.Data.List.GetD
import Mathlib.Data.List.TakeWhile
import Mathlib.Data.Nat.Digits.Lemmas
import Mieru.Socks5.Net

/-! # Addresses as text

How Go prints an IP address and a port number, and takes a printed address apart again. What
is printed for an address without a zone is read back as this address. -/
namespace Mieru.Net

/-! ## Printing -/

def digitByte (d : ℕ) : UInt8 := (ascii "0123456789abcdef").getD d 0

def decimalText (x : ℕ) : Bytes :=
  (if 100 ≤ x then [digitByte (x / 100)] else []) ++
    (if 10 ≤ x then [digitByte (x / 10 % 10)] else []) ++ [digitByte (x % 10)]

def hexText (x : ℕ) : Bytes :=
  (if 0x1000 ≤ x then [digitByte (x / 0x1000)] else []) ++
    (if 0x100 ≤ x then [digitByte (x / 0x100 % 16)] else []) ++
    (if 0x10 ≤ x then [digitByte (x / 0x10 % 16)] else []) ++ [digitByte (x % 16)]

def ipv4Text (ip : Bytes) : Bytes := [46].intercalate (ip.map fun b => decimalText b.toNat)

def groups : Bytes → List ℕ
  | hi :: lo :: rest => (hi.toNat * 256 + lo.toNat) :: groups rest
  | _ => []

/-- Start and end of the first longest run of at least two zero groups, or 255 twice. -/
def zeroRun (gs : List ℕ) : ℕ × ℕ :=
  (List.range 8).foldl
    (fun (run : ℕ × ℕ) i =>
      let l := ((gs.drop i).takeWhile (· = 0)).length
      if 2 ≤ l ∧ run.2 - run.1 < l then (i, i + l) else run)
    (255, 255)

def colonText (gs : List ℕ) : Bytes := [58].intercalate (gs.map hexText)

def ipv6Text (ip : Bytes) : Bytes :=
  let gs := groups ip
  let (zeroStart, zeroEnd) := zeroRun gs
  if zeroStart = 255 then colonText gs
  else colonText (gs.take zeroStart) ++ [58, 58] ++ colonText (gs.drop zeroEnd)

/-- `IP.String`: an IPv4-mapped address is printed as an IPv4 one. -/
def IP.string (ip : IP) : Bytes :=
  match ip.to4 with
  | some ip4 => ipv4Text ip4
  | none => ipv6Text ip.bytes

def itoa (n : ℕ) : Bytes :=
  if n = 0 then [48] else (Nat.digits 10 n).reverse.map digitByte

def itoaInt (n : ℤ) : Bytes := if n < 0 then 45 :: itoa n.natAbs else itoa n.natAbs

/-- A host with a colon is put in brackets. -/
def joinHostPort (host port : Bytes) : Bytes :=
  if 58 ∈ host then 91 :: (host ++ [93, 58] ++ port) else host ++ [58] ++ port

/-- `ipEmptyString` and the zone. -/
def UDPAddr.hostText (a : UDPAddr) : Bytes :=
  let ip := (a.ip.map IP.string).getD []
  if a.zone = [] then ip else ip ++ [37] ++ a.zone

def UDPAddr.string (a : UDPAddr) : Bytes := joinHostPort a.hostText (itoa a.port)

/-! ## Reading -/

/-- `net.SplitHostPort`: the port starts after the last colon. -/
def splitHostPort (hostport : Bytes) : Except String (Bytes × Bytes) :=
  let port := (hostport.reverse.takeWhile (· ≠ 58)).reverse
  if port.length = hostport.length then .error "missing port in address"
  else
    let i := hostport.length - port.length - 1
    if hostport.head? = some 91 then
      let stop := hostport.idxOf 93
      if stop = hostport.length then .error "missing ']' in address"
      else if stop + 1 = hostport.length then .error "missing port in address"
      else if stop + 1 ≠ i then
        if hostport.getD (stop + 1) 0 = 58 then .error "too many colons in address"
        else .error "missing port in address"
      else if 91 ∈ hostport.drop 1 then .error "unexpected '[' in address"
      else if 93 ∈ hostport.drop (stop + 1) then .error "unexpected ']' in address"
      else .ok ((hostport.take stop).drop 1, port)
    else
      let host := hostport.take i
      if 58 ∈ host then .error "too many colons in address"
      else if 91 ∈ hostport then .error "unexpected '[' in address"
      else if 93 ∈ hostport then .error "unexpected ']' in address"
      else .ok (host, port)

def atoi (s : Bytes) : Except String ℤ :=
  let negative := s.head? = some 45
  let digits := if negative ∨ s.head? = some 43 then s.drop 1 else s
  if digits = [] ∨ ¬ digits.all isDigit then .error "invalid syntax"
  else
    let n : ℕ := digits.foldl (fun acc c => acc * 10 + (c.toNat - 48)) 0
    if negative then if 2 ^ 63 < n then .error "value out of range" else .ok (-n)
    else if 2 ^ 63 ≤ n then .error "value out of range"
    else .ok n

theorem to16_short {ip : IP} (h : ip.bytes.length = 4) : ip.to16 = v4InV6Header ++ ip.bytes :=
  if_pos h

theorem to16_long {ip : IP} (h : ip.bytes.length = 16) : ip.to16 = ip.bytes :=
  if_neg (by omega)

theorem length_to16 (ip : IP) : ip.to16.length = 16 := by
  rcases ip.length_eq with h | h
  · rw [to16_short h]
    simp [h, v4InV6Header]
  · rw [to16_long h, h]

def IP.as16 (ip : IP) : IP := ⟨ip.to16, Or.inr (length_to16 ip)⟩

theorem to16_as16 (ip : IP) : ip.as16.to16 = ip.to16 := to16_long (length_to16 ip)

theorem equal_iff {ip x : IP} : ip.equal x = true ↔ ip.to16 = x.to16 := by
  unfold IP.equal
  split_ifs with hlen
  · rw [decide_eq_true_iff]
    rcases ip.length_eq with h | h
    · rw [to16_short h, to16_short (hlen ▸ h), List.append_cancel_left_eq]
    · rw [to16_long h, to16_long (hlen ▸ h)]
  · rw [decide_eq_true_iff]

/-- `net.ParseIP`: sixteen bytes, and no zone. -/
def parseIP (s : Bytes) : Option IP :=
  match parseAddr s with
  | some a => if a.zone = [] then some a.ip.as16 else none
  | none => none

example : (UDPAddr.string ⟨mkIP ([0x20, 1, 0xd, 0xb8] ++ List.replicate 11 0 ++ [1]), 53, []⟩) =
    ascii "[2001:db8::1]:53" := by decide

/-! ## Single numbers -/

theorem isDigit_digitByte {d : ℕ} (hd : d < 10) : isDigit (digitByte d) = true := by
  interval_cases d <;> decide

theorem digitByte_toNat {d : ℕ} (hd : d < 10) : (digitByte d).toNat - 48 = d := by
  interval_cases d <;> decide

theorem hexDigit_digitByte {d : ℕ} (hd : d < 16) : hexDigit (digitByte d) = some d := by
  interval_cases d <;> decide

theorem digitByte_plain (d : ℕ) : digitByte d ∉ [37, 46, 58, 91, 93] := by
  by_cases hd : d < 16
  · interval_cases d <;> decide
  · have hout : digitByte d = 0 := List.getD_eq_default _ _ (Nat.le_of_not_lt hd)
    rw [hout]
    decide

theorem digitByte_notMem {seps : Bytes} (d : ℕ) (h : seps ⊆ [37, 46, 58, 91, 93]) :
    digitByte d ∉ seps :=
  fun hmem => digitByte_plain d (h hmem)

theorem mem_decimalText {c : UInt8} {x : ℕ} (h : c ∈ decimalText x) : ∃ d, c = digitByte d := by
  simp only [decimalText, List.mem_append, List.mem_ite_nil_right, List.mem_singleton] at h
  rcases h with (⟨-, h⟩ | ⟨-, h⟩) | h <;> exact ⟨_, h⟩

theorem mem_hexText {c : UInt8} {x : ℕ} (h : c ∈ hexText x) : ∃ d, c = digitByte d := by
  simp only [hexText, List.mem_append, List.mem_ite_nil_right, List.mem_singleton] at h
  rcases h with ((⟨-, h⟩ | ⟨-, h⟩) | ⟨-, h⟩) | h <;> exact ⟨_, h⟩

theorem hexText_cons (x : ℕ) : ∃ c rest, hexText x = c :: rest ∧ c ∉ [37, 46, 58, 91, 93] := by
  cases h : hexText x with
  | nil => simp [hexText] at h
  | cons c rest =>
    obtain ⟨d, rfl⟩ := mem_hexText (h ▸ List.mem_cons_self)
    exact ⟨_, rest, rfl, digitByte_plain d⟩

theorem parseIPv4Loop_digit {val digLen d : ℕ} {prev : Option UInt8} {fields rest : Bytes}
    (hd : d < 10) (hzero : ¬ (digLen = 1 ∧ val = 0)) (hval : val * 10 + d ≤ 255) :
    parseIPv4Loop val digLen prev fields (digitByte d :: rest) =
      parseIPv4Loop (val * 10 + d) (digLen + 1) (some (digitByte d)) fields rest := by
  rw [parseIPv4Loop, if_pos (isDigit_digitByte hd), if_neg hzero, digitByte_toNat hd]
  exact if_neg (by omega)

theorem parseIPv4Loop_decimalText {x : ℕ} (hx : x < 256) (prev : Option UInt8)
    (fields rest : Bytes) :
    ∃ digLen c, c ≠ 46 ∧ parseIPv4Loop 0 0 prev fields (decimalText x ++ rest) =
      parseIPv4Loop x digLen (some c) fields rest := by
  have hplain : digitByte (x % 10) ≠ 46 := fun h => digitByte_plain (x % 10) (by simp [h])
  unfold decimalText
  by_cases h100 : 100 ≤ x
  · refine ⟨3, digitByte (x % 10), hplain, ?_⟩
    rw [if_pos h100, if_pos (by omega)]
    simp only [List.cons_append, List.nil_append]
    rw [parseIPv4Loop_digit (by omega) (by omega) (by omega),
      parseIPv4Loop_digit (by omega) (by omega) (by omega),
      parseIPv4Loop_digit (by omega) (by omega) (by omega)]
    congr 1
    omega
  · by_cases h10 : 10 ≤ x
    · refine ⟨2, digitByte (x % 10), hplain, ?_⟩
      rw [if_neg h100, if_pos h10]
      simp only [List.cons_append, List.nil_append]
      rw [parseIPv4Loop_digit (by omega) (by omega) (by omega),
        parseIPv4Loop_digit (by omega) (by omega) (by omega)]
      congr 1
      omega
    · refine ⟨1, digitByte (x % 10), hplain, ?_⟩
      rw [if_neg h100, if_neg h10]
      simp only [List.cons_append, List.nil_append]
      rw [parseIPv4Loop_digit (by omega) (by omega) (by omega)]
      congr 1
      omega

theorem parseHexGroup_digit {acc off d : ℕ} {rest : Bytes} (hd : d < 16) (hoff : off ≤ 3) :
    parseHexGroup acc off (digitByte d :: rest) = parseHexGroup (acc * 16 + d) (off + 1) rest := by
  rw [parseHexGroup, hexDigit_digitByte hd]
  exact if_neg (by omega)

def Stops (rest : Bytes) : Prop := rest = [] ∨ rest.head? = some 58

theorem parseHexGroup_stops {acc off : ℕ} {rest : Bytes} (h : Stops rest) :
    parseHexGroup acc off rest = some (acc, off, rest) := by
  rcases h with rfl | h
  · rfl
  · cases rest with
    | nil => cases h
    | cons c rest =>
      cases h
      rfl

theorem parseHexGroup_hexText {x : ℕ} (hx : x < 0x10000) (rest : Bytes) (h : Stops rest) :
    ∃ off, 0 < off ∧ parseHexGroup 0 0 (hexText x ++ rest) = some (x, off, rest) := by
  have hdone : ∀ acc off, acc = x → parseHexGroup acc off rest = some (x, off, rest) := by
    rintro acc off rfl
    exact parseHexGroup_stops h
  unfold hexText
  by_cases h3 : 0x1000 ≤ x
  · refine ⟨4, by omega, ?_⟩
    rw [if_pos h3, if_pos (by omega), if_pos (by omega)]
    simp only [List.cons_append, List.nil_append]
    rw [parseHexGroup_digit (by omega) (by omega), parseHexGroup_digit (by omega) (by omega),
      parseHexGroup_digit (by omega) (by omega), parseHexGroup_digit (by omega) (by omega)]
    exact hdone _ _ (by omega)
  by_cases h2 : 0x100 ≤ x
  · refine ⟨3, by omega, ?_⟩
    rw [if_neg h3, if_pos h2, if_pos (by omega)]
    simp only [List.cons_append, List.nil_append]
    rw [parseHexGroup_digit (by omega) (by omega), parseHexGroup_digit (by omega) (by omega),
      parseHexGroup_digit (by omega) (by omega)]
    exact hdone _ _ (by omega)
  by_cases h1 : 0x10 ≤ x
  · refine ⟨2, by omega, ?_⟩
    rw [if_neg h3, if_neg h2, if_pos h1]
    simp only [List.cons_append, List.nil_append]
    rw [parseHexGroup_digit (by omega) (by omega), parseHexGroup_digit (by omega) (by omega)]
    exact hdone _ _ (by omega)
  · refine ⟨1, by omega, ?_⟩
    rw [if_neg h3, if_neg h2, if_neg h1]
    simp only [List.cons_append, List.nil_append]
    rw [parseHexGroup_digit (by omega) (by omega)]
    exact hdone _ _ (by omega)

/-! ## IPv4 -/

theorem parseIPv4Loop_field (b : UInt8) (prev : Option UInt8) (fields : Bytes) {rest : Bytes}
    (hfields : fields.length < 3) (hrest : rest ≠ []) :
    parseIPv4Loop 0 0 prev fields (decimalText b.toNat ++ 46 :: rest) =
      parseIPv4Loop 0 0 (some 46) (fields ++ [b]) rest := by
  obtain ⟨digLen, c, hc, hloop⟩ := parseIPv4Loop_decimalText b.toNat_lt prev fields (46 :: rest)
  rw [hloop, parseIPv4Loop, if_neg (by decide), if_pos rfl, if_neg (by simp [hrest, hc]),
    if_neg (by omega), UInt8.ofNat_toNat]

theorem parseIPv4_ipv4Text {ip : Bytes} (h : ip.length = 4) :
    parseIPv4 (ipv4Text ip) = some ip := by
  obtain ⟨a, b, c, d, rfl⟩ : ∃ a b c d, ip = [a, b, c, d] := by
    match ip, h with
    | [a, b, c, d], _ => exact ⟨a, b, c, d, rfl⟩
  have htext : ipv4Text [a, b, c, d] = decimalText a.toNat ++ 46 :: (decimalText b.toNat ++
      46 :: (decimalText c.toNat ++ 46 :: (decimalText d.toNat ++ []))) := by
    simp [ipv4Text, List.intercalate]
  have hne : ∀ (x : ℕ) (rest : Bytes), decimalText x ++ rest ≠ [] := by
    intro x rest
    simp [decimalText]
  unfold parseIPv4
  rw [htext]
  rw [parseIPv4Loop_field a none [] (by simp) (hne b.toNat _), List.nil_append,
    parseIPv4Loop_field b _ [a] (by simp) (hne c.toNat _), List.singleton_append,
    parseIPv4Loop_field c _ [a, b] (by simp) (hne d.toNat _)]
  obtain ⟨digLen, last, -, hlast⟩ :=
    parseIPv4Loop_decimalText d.toNat_lt (some 46) ([a, b] ++ [c]) []
  rw [hlast]
  simp [parseIPv4Loop]

/-! ## IPv6 -/

def groupBytes (gs : List ℕ) : Bytes := gs.flatMap fun g => [UInt8.ofNat (g / 256), UInt8.ofNat g]

@[simp] theorem length_groupBytes (gs : List ℕ) : (groupBytes gs).length = 2 * gs.length := by
  induction gs with
  | nil => rfl
  | cons g gs ih =>
    simp only [groupBytes, List.flatMap_cons, List.length_append, List.length_cons,
      List.length_nil] at ih ⊢
    omega

theorem groupBytes_append (gs hs : List ℕ) :
    groupBytes (gs ++ hs) = groupBytes gs ++ groupBytes hs := List.flatMap_append

theorem groupBytes_zeros (n : ℕ) : groupBytes (List.replicate n 0) = List.replicate (2 * n) 0 := by
  induction n with
  | zero => rfl
  | succ n ih =>
    rw [List.replicate_succ, ← List.singleton_append, groupBytes_append, ih,
      show 2 * (n + 1) = 2 + 2 * n by omega, ← List.replicate_append_replicate]
    rfl

theorem groupBytes_groups (ip : Bytes) (n : ℕ) (h : ip.length = 2 * n) :
    groupBytes (groups ip) = ip ∧ (groups ip).length = n ∧ ∀ g ∈ groups ip, g < 0x10000 := by
  induction n generalizing ip with
  | zero =>
    rw [List.length_eq_zero_iff.mp h]
    exact ⟨rfl, rfl, by simp [groups]⟩
  | succ n ih =>
    match ip, h with
    | hi :: lo :: rest, h =>
      obtain ⟨hbytes, hlen, hlt⟩ := ih rest (by simp at h; omega)
      have hhi := hi.toNat_lt
      have hlo := lo.toNat_lt
      refine ⟨?_, by simp [groups, hlen], ?_⟩
      · have hfst : UInt8.ofNat ((hi.toNat * 256 + lo.toNat) / 256) = hi := by
          rw [show (hi.toNat * 256 + lo.toNat) / 256 = hi.toNat by omega, UInt8.ofNat_toNat]
        have hsnd : UInt8.ofNat (hi.toNat * 256 + lo.toNat) = lo := by
          apply UInt8.toNat_inj.mp
          simp
        unfold groups
        rw [← List.singleton_append, groupBytes_append, hbytes]
        simp [groupBytes, hfst, hsnd]
      · intro g hg
        rcases List.mem_cons.mp hg with rfl | hg
        · omega
        · exact hlt g hg

theorem colonText_cons (g g' : ℕ) (gs : List ℕ) :
    colonText (g :: g' :: gs) = hexText g ++ 58 :: colonText (g' :: gs) := by
  simp [colonText, List.intercalate]

theorem colonText_singleton (g : ℕ) : colonText [g] = hexText g := by
  simp [colonText, List.intercalate]

theorem colonText_head (g : ℕ) (gs : List ℕ) :
    ∃ c rest, colonText (g :: gs) = c :: rest ∧ c ∉ [37, 46, 58, 91, 93] := by
  obtain ⟨c, rest, htext, hc⟩ := hexText_cons g
  cases gs with
  | nil => exact ⟨c, rest, by rw [colonText_singleton, htext], hc⟩
  | cons g' gs => exact ⟨c, _, by rw [colonText_cons, htext, List.cons_append], hc⟩

section rounds

variable {n g : ℕ} {ip rest : Bytes} {ellipsis : Option ℕ}

theorem parseIPv6Loop_last (hg : g < 0x10000) (hip : ip.length < 16) :
    parseIPv6Loop (n + 1) ip ellipsis (hexText g) = some (ip ++ groupBytes [g], ellipsis, []) := by
  obtain ⟨off, hoff, hgroup⟩ := parseHexGroup_hexText hg [] (Or.inl rfl)
  rw [List.append_nil] at hgroup
  rw [parseIPv6Loop, if_neg (by omega), hgroup]
  simp only [if_neg hoff.ne']
  rfl

theorem parseIPv6Loop_next (hg : g < 0x10000) (hip : ip.length < 16) {d : UInt8} (hd : d ≠ 58) :
    parseIPv6Loop (n + 1) ip ellipsis (hexText g ++ 58 :: d :: rest) =
      parseIPv6Loop n (ip ++ groupBytes [g]) ellipsis (d :: rest) := by
  obtain ⟨off, hoff, hgroup⟩ := parseHexGroup_hexText hg (58 :: d :: rest) (Or.inr rfl)
  rw [parseIPv6Loop, if_neg (by omega), hgroup]
  simp only [if_neg hoff.ne', ne_eq, not_true_eq_false, if_false, if_neg hd]
  rfl

theorem parseIPv6Loop_gap (hg : g < 0x10000) (hip : ip.length < 16) :
    parseIPv6Loop (n + 1) ip none (hexText g ++ 58 :: 58 :: rest) =
      if rest = [] then some (ip ++ groupBytes [g], some (ip.length + 2), [])
      else parseIPv6Loop n (ip ++ groupBytes [g]) (some (ip.length + 2)) rest := by
  obtain ⟨off, hoff, hgroup⟩ := parseHexGroup_hexText hg (58 :: 58 :: rest) (Or.inr rfl)
  rw [parseIPv6Loop, if_neg (by omega), hgroup]
  simp only [if_neg hoff.ne', ne_eq, not_true_eq_false, if_false, if_true, List.length_append]
  rfl

end rounds

theorem parseIPv6Loop_colonText {gs : List ℕ} (hgs : gs ≠ []) (hlt : ∀ g ∈ gs, g < 0x10000) {n : ℕ}
    {ip : Bytes} {ellipsis : Option ℕ} (hn : gs.length ≤ n) (hip : ip.length + 2 * gs.length ≤ 16) :
    parseIPv6Loop n ip ellipsis (colonText gs) = some (ip ++ groupBytes gs, ellipsis, []) := by
  induction gs generalizing n ip with
  | nil => exact absurd rfl hgs
  | cons g gs ih =>
    have hg : g < 0x10000 := hlt g List.mem_cons_self
    simp only [List.length_cons] at hn hip
    obtain ⟨m, rfl⟩ : ∃ m, n = m + 1 := ⟨n - 1, by omega⟩
    cases gs with
    | nil =>
      rw [colonText_singleton, parseIPv6Loop_last hg (by omega)]
    | cons g' gs =>
      have htail : ∀ h ∈ g' :: gs, h < 0x10000 := fun h hh => hlt h (List.mem_cons_of_mem g hh)
      obtain ⟨c, rest, htext, hc⟩ := colonText_head g' gs
      have hnot : c ≠ 58 := fun h => hc (by simp [h])
      rw [colonText_cons, htext, parseIPv6Loop_next hg (by omega) hnot, ← htext,
        ih (by simp) htail (by omega) (by simp at hip ⊢; omega), List.append_assoc,
        ← groupBytes_append, List.singleton_append]

theorem parseIPv6Loop_ellipsis {gs hs : List ℕ} (hgs : gs ≠ []) (hlt : ∀ g ∈ gs ++ hs, g < 0x10000)
    {n : ℕ} {ip : Bytes} (hn : gs.length + hs.length ≤ n)
    (hip : ip.length + 2 * (gs.length + hs.length) ≤ 16) :
    parseIPv6Loop n ip none (colonText gs ++ 58 :: 58 :: colonText hs) =
      some (ip ++ groupBytes (gs ++ hs), some (ip.length + 2 * gs.length), []) := by
  induction gs generalizing n ip with
  | nil => exact absurd rfl hgs
  | cons g gs ih =>
    have hg : g < 0x10000 := hlt g List.mem_cons_self
    simp only [List.length_cons] at hn hip
    obtain ⟨m, rfl⟩ : ∃ m, n = m + 1 := ⟨n - 1, by omega⟩
    cases gs with
    | nil =>
      rw [colonText_singleton, parseIPv6Loop_gap hg (by omega)]
      cases hs with
      | nil => rfl
      | cons h hs =>
        obtain ⟨c, rest, htext, -⟩ := colonText_head h hs
        have htail : ∀ k ∈ h :: hs, k < 0x10000 := fun k hk => hlt k (List.mem_cons_of_mem g hk)
        rw [if_neg (by simp [htext]),
          parseIPv6Loop_colonText (by simp) htail (by simp at hn ⊢; omega)
            (by simp at hip ⊢; omega), List.append_assoc, ← groupBytes_append]
        rfl
    | cons g' gs =>
      have htail : ∀ h ∈ (g' :: gs) ++ hs, h < 0x10000 :=
        fun h hh => hlt h (List.mem_cons_of_mem g hh)
      obtain ⟨c, rest, htext, hc⟩ := colonText_head g' gs
      have hnot : c ≠ 58 := fun h => hc (by simp [h])
      rw [colonText_cons, List.append_assoc, List.cons_append, htext, List.cons_append,
        parseIPv6Loop_next hg (by omega) hnot, ← List.cons_append, ← htext,
        ih (by simp) htail (by omega) (by simp at hip ⊢; omega), List.append_assoc,
        ← groupBytes_append]
      simp
      omega

/-- A run of zeros that is worth a double colon. -/
def ZeroRun (gs : List ℕ) (run : ℕ × ℕ) : Prop :=
  run.1 + 2 ≤ run.2 ∧ run.2 ≤ gs.length ∧
    gs = gs.take run.1 ++ List.replicate (run.2 - run.1) 0 ++ gs.drop run.2

theorem zeroRun_takeWhile {gs : List ℕ} {i : ℕ} (h : 2 ≤ ((gs.drop i).takeWhile (· = 0)).length) :
    ZeroRun gs (i, i + ((gs.drop i).takeWhile (· = 0)).length) := by
  have hle := (List.takeWhile_sublist (· = 0) (l := gs.drop i)).length_le
  have hzeros : (gs.drop i).takeWhile (· = 0) =
      List.replicate ((gs.drop i).takeWhile (· = 0)).length 0 := by
    rw [List.eq_replicate_iff]
    refine ⟨rfl, ?_⟩
    intro x hx
    simpa using List.mem_takeWhile_imp hx
  have hrest : gs.drop (i + ((gs.drop i).takeWhile (· = 0)).length) =
      (gs.drop i).dropWhile (· = 0) := by
    have hsplit : gs.drop i = (gs.drop i).takeWhile (· = 0) ++ (gs.drop i).dropWhile (· = 0) :=
      List.takeWhile_append_dropWhile.symm
    rw [← List.drop_drop]
    calc (gs.drop i).drop ((gs.drop i).takeWhile (· = 0)).length
        = ((gs.drop i).takeWhile (· = 0) ++ (gs.drop i).dropWhile (· = 0)).drop
            ((gs.drop i).takeWhile (· = 0)).length := by rw [← hsplit]
      _ = (gs.drop i).dropWhile (· = 0) := List.drop_left
  rw [List.length_drop] at hle
  refine ⟨by omega, by dsimp; omega, ?_⟩
  dsimp only
  rw [Nat.add_sub_cancel_left, ← hzeros, List.append_assoc, hrest,
    List.takeWhile_append_dropWhile, List.take_append_drop]

theorem zeroRun_spec (gs : List ℕ) : zeroRun gs = (255, 255) ∨ ZeroRun gs (zeroRun gs) := by
  unfold zeroRun
  generalize List.range 8 = is
  suffices h : ∀ run, run = (255, 255) ∨ ZeroRun gs run →
      is.foldl _ run = (255, 255) ∨ ZeroRun gs (is.foldl _ run) from h _ (Or.inl rfl)
  induction is with
  | nil => exact fun run h => h
  | cons i is ih =>
    intro run h
    rw [List.foldl_cons]
    apply ih
    dsimp only
    split_ifs with hl
    · exact Or.inr (zeroRun_takeWhile hl.1)
    · exact h

theorem groupBytes_gap {pre post : List ℕ} {k : ℕ} (h : pre.length + k + post.length = 8) :
    (groupBytes (pre ++ post)).take (2 * pre.length) ++
        List.replicate (16 - (groupBytes (pre ++ post)).length) 0 ++
        (groupBytes (pre ++ post)).drop (2 * pre.length) =
      groupBytes (pre ++ List.replicate k 0 ++ post) := by
  have hmissing : 16 - (groupBytes (pre ++ post)).length = 2 * k := by
    simp
    omega
  rw [hmissing, groupBytes_append, groupBytes_append, groupBytes_append, groupBytes_zeros,
    List.take_left' (by simp), List.drop_left' (by simp)]

section filling

variable {s ip : Bytes} {e : ℕ}

theorem parseIPv6Bytes_whole (hs : s.take 2 ≠ [58, 58])
    (hloop : parseIPv6Loop 9 [] none s = some (ip, none, [])) (hip : ip.length = 16) :
    parseIPv6Bytes s = some ip := by
  simp [parseIPv6Bytes, hs, hloop, hip]

theorem parseIPv6Bytes_inner (hs : s.take 2 ≠ [58, 58])
    (hloop : parseIPv6Loop 9 [] none s = some (ip, some e, [])) (hip : ip.length < 16) :
    parseIPv6Bytes s = some (ip.take e ++ List.replicate (16 - ip.length) 0 ++ ip.drop e) := by
  simp [parseIPv6Bytes, hs, hloop, hip]

theorem parseIPv6Bytes_leading (hs : s ≠ [])
    (hloop : parseIPv6Loop 9 [] (some 0) s = some (ip, some e, [])) (hip : ip.length < 16) :
    parseIPv6Bytes (58 :: 58 :: s) =
      some (ip.take e ++ List.replicate (16 - ip.length) 0 ++ ip.drop e) := by
  simp [parseIPv6Bytes, hs, hloop, hip]

end filling

theorem parseIPv6Bytes_gap {pre post : List ℕ} {k : ℕ} (hk : 2 ≤ k)
    (h : pre.length + k + post.length = 8) (hlt : ∀ g ∈ pre ++ post, g < 0x10000) :
    parseIPv6Bytes (colonText pre ++ 58 :: 58 :: colonText post) =
      some (groupBytes (pre ++ List.replicate k 0 ++ post)) := by
  have hshort : (groupBytes (pre ++ post)).length < 16 := by
    simp
    omega
  rw [← groupBytes_gap h]
  cases pre with
  | nil =>
    cases post with
    | nil => rfl
    | cons g post =>
      obtain ⟨c, rest, htext, -⟩ := colonText_head g post
      have hloop : parseIPv6Loop 9 [] (some 0) (colonText (g :: post)) =
          some (groupBytes (g :: post), some 0, []) :=
        parseIPv6Loop_colonText (by simp) hlt (by simp at h ⊢; omega) (by simp at h ⊢; omega)
      exact parseIPv6Bytes_leading (by simp [htext]) hloop hshort
  | cons g pre =>
    obtain ⟨c, rest, htext, hc⟩ := colonText_head g pre
    have hloop : parseIPv6Loop 9 [] none (colonText (g :: pre) ++ 58 :: 58 :: colonText post) =
        some (groupBytes (g :: pre ++ post), some (0 + 2 * (g :: pre).length), []) :=
      parseIPv6Loop_ellipsis (by simp) hlt (by omega) (by simp at h ⊢; omega)
    rw [Nat.zero_add] at hloop
    refine parseIPv6Bytes_inner ?_ hloop hshort
    rw [htext]
    intro hcolon
    exact hc (by simp [(List.cons.inj hcolon).1])

theorem parseIPv6Bytes_ipv6Text {ip : Bytes} (h : ip.length = 16) :
    parseIPv6Bytes (ipv6Text ip) = some ip := by
  obtain ⟨hbytes, hlen, hlt⟩ := groupBytes_groups ip 8 h
  unfold ipv6Text
  rcases zeroRun_spec (groups ip) with hrun | hrun
  · obtain ⟨g, gs, hgs⟩ := List.exists_cons_of_length_eq_add_one hlen
    obtain ⟨c, rest, htext, hc⟩ := colonText_head g gs
    have hloop : parseIPv6Loop 9 [] none (colonText (groups ip)) =
        some (groupBytes (groups ip), none, []) :=
      parseIPv6Loop_colonText (by simp [hgs]) hlt (by omega) (by simp; omega)
    rw [hbytes] at hloop
    simp only [hrun, if_true]
    refine parseIPv6Bytes_whole ?_ hloop h
    rw [hgs, htext]
    intro hcolon
    exact hc (by simp [(List.cons.inj hcolon).1])
  · obtain ⟨hle, hend, hsplit⟩ := hrun
    have hstart : (zeroRun (groups ip)).1 ≠ 255 := by omega
    simp only [if_neg hstart, List.append_assoc, List.cons_append, List.nil_append]
    rw [parseIPv6Bytes_gap (k := (zeroRun (groups ip)).2 - (zeroRun (groups ip)).1) (by omega)
      (by simp; omega), ← hsplit, hbytes]
    intro g hg
    apply hlt
    rw [hsplit]
    simp only [List.mem_append] at hg ⊢
    tauto

/-! ## Whole addresses -/

theorem mem_intercalate {sep c : UInt8} {xs : List Bytes} (h : c ∈ [sep].intercalate xs) :
    c = sep ∨ ∃ x ∈ xs, c ∈ x := by
  induction xs with
  | nil => simp [List.intercalate] at h
  | cons x xs ih =>
    cases xs with
    | nil =>
      refine Or.inr ⟨x, List.mem_cons_self, ?_⟩
      simpa [List.intercalate] using h
    | cons y xs =>
      have hsplit : [sep].intercalate (x :: y :: xs) = x ++ sep :: [sep].intercalate (y :: xs) := by
        simp [List.intercalate]
      rw [hsplit, List.mem_append, List.mem_cons] at h
      rcases h with h | h | h
      · exact Or.inr ⟨x, List.mem_cons_self, h⟩
      · exact Or.inl h
      · rcases ih h with h | ⟨z, hz, h⟩
        · exact Or.inl h
        · exact Or.inr ⟨z, List.mem_cons_of_mem x hz, h⟩

theorem mem_ipv4Text {c : UInt8} {ip : Bytes} (h : c ∈ ipv4Text ip) :
    c = 46 ∨ ∃ d, c = digitByte d := by
  rcases mem_intercalate h with h | ⟨x, hx, h⟩
  · exact Or.inl h
  · obtain ⟨b, -, rfl⟩ := List.mem_map.mp hx
    exact Or.inr (mem_decimalText h)

theorem mem_colonText {c : UInt8} {gs : List ℕ} (h : c ∈ colonText gs) :
    c = 58 ∨ ∃ d, c = digitByte d := by
  rcases mem_intercalate h with h | ⟨x, hx, h⟩
  · exact Or.inl h
  · obtain ⟨g, -, rfl⟩ := List.mem_map.mp hx
    exact Or.inr (mem_hexText h)

theorem mem_ipv6Text {c : UInt8} {ip : Bytes} (h : c ∈ ipv6Text ip) :
    c = 58 ∨ ∃ d, c = digitByte d := by
  unfold ipv6Text at h
  simp only at h
  split_ifs at h
  · exact mem_colonText h
  · rcases List.mem_append.mp h with h | h
    · rcases List.mem_append.mp h with h | h
      · exact mem_colonText h
      · exact Or.inl (by simpa using h)
    · exact mem_colonText h

theorem colon_mem_ipv6Text {ip : Bytes} (h : ip.length = 16) : 58 ∈ ipv6Text ip := by
  obtain ⟨-, hlen, -⟩ := groupBytes_groups ip 8 h
  unfold ipv6Text
  simp only
  split_ifs
  · match groups ip, hlen with
    | g :: g' :: gs, _ => simp [colonText_cons]
  · simp

theorem find_eq_some {p : UInt8 → Bool} {s : Bytes} {c : UInt8} (hc : c ∈ s) (hp : p c = true)
    (honly : ∀ x ∈ s, p x = true → x = c) : s.find? p = some c := by
  cases hfind : s.find? p with
  | none => exact absurd hp (List.find?_eq_none.mp hfind c hc)
  | some x => rw [honly x (List.mem_of_find?_eq_some hfind) (List.find?_some hfind)]

theorem parseAddr_ipv4Text {ip : Bytes} (h : ip.length = 4) :
    parseAddr (ipv4Text ip) = some ⟨⟨ip, Or.inl h⟩, []⟩ := by
  have hdot : 46 ∈ ipv4Text ip := by
    match ip, h with
    | [a, b, c, d], _ => simp [ipv4Text, List.intercalate]
  have hfind : (ipv4Text ip).find? (fun c => c = 46 ∨ c = 58 ∨ c = 37) = some 46 := by
    refine find_eq_some hdot (by decide) ?_
    intro x hx hsep
    rcases mem_ipv4Text hx with rfl | ⟨d, rfl⟩
    · rfl
    · have hplain : digitByte d ∉ [46, 58, 37] := digitByte_notMem d (by simp)
      exact absurd (by simpa using hsep) hplain
  unfold parseAddr
  rw [hfind]
  simp [parseIPv4_ipv4Text h, mkIP, h]

theorem parseAddr_ipv6Text {ip : Bytes} (h : ip.length = 16) :
    parseAddr (ipv6Text ip) = some ⟨⟨ip, Or.inr h⟩, []⟩ := by
  have hfind : (ipv6Text ip).find? (fun c => c = 46 ∨ c = 58 ∨ c = 37) = some 58 := by
    refine find_eq_some (colon_mem_ipv6Text h) (by decide) ?_
    intro x hx hsep
    rcases mem_ipv6Text hx with rfl | ⟨d, rfl⟩
    · rfl
    · have hplain : digitByte d ∉ [46, 58, 37] := digitByte_notMem d (by simp)
      exact absurd (by simpa using hsep) hplain
  have hbody : (ipv6Text ip).takeWhile (· ≠ 37) = ipv6Text ip := by
    rw [List.takeWhile_eq_self_iff]
    intro x hx
    rcases mem_ipv6Text hx with rfl | ⟨d, rfl⟩
    · decide
    · have hplain : digitByte d ∉ [37] := digitByte_notMem d (by simp)
      simpa using hplain
  have hzone : (ipv6Text ip).dropWhile (· ≠ 37) = [] := by
    have hsplit := List.takeWhile_append_dropWhile (p := (· ≠ 37)) (l := ipv6Text ip)
    rw [hbody] at hsplit
    exact List.self_eq_append_right.mp hsplit.symm
  unfold parseAddr
  rw [hfind]
  simp only [parseIPv6]
  rw [hbody, hzone, parseIPv6Bytes_ipv6Text h]
  simp [mkIP, h]

theorem to16_of_to4 {ip : IP} {ip4 : Bytes} (h : ip.to4 = some ip4) :
    ip4.length = 4 ∧ ip.to16 = v4InV6Header ++ ip4 := by
  unfold IP.to4 at h
  unfold IP.to16
  split_ifs at h with hlen hmapped
  · cases h
    exact ⟨hlen, if_pos hlen⟩
  · cases h
    have hlong := ip.length_eq.resolve_left hlen
    refine ⟨by simp [hlong], ?_⟩
    rw [if_neg hlen, ← hmapped, List.take_append_drop]

theorem parseIP_string (ip : IP) : parseIP ip.string = some ip.as16 := by
  unfold parseIP IP.string
  cases hto4 : ip.to4 with
  | some ip4 =>
    obtain ⟨hlen, h16⟩ := to16_of_to4 hto4
    simp only [parseAddr_ipv4Text hlen, if_true]
    congr 1
    apply IP.ext
    change IP.to16 _ = ip.to16
    rw [h16, to16_short hlen]
  | none =>
    have hlen : ip.bytes.length = 16 := by
      refine ip.length_eq.resolve_left ?_
      intro h
      simp [IP.to4, h] at hto4
    simp only [parseAddr_ipv6Text hlen, if_true]

theorem string_plain {ip : IP} {c : UInt8} (h : c ∈ ip.string) : c ∉ [37, 91, 93] := by
  have hplain : ∀ d, digitByte d ∉ [37, 91, 93] := fun d => digitByte_notMem d (by simp)
  unfold IP.string at h
  split at h
  · rcases mem_ipv4Text h with rfl | ⟨d, rfl⟩
    · decide
    · exact hplain d
  · rcases mem_ipv6Text h with rfl | ⟨d, rfl⟩
    · decide
    · exact hplain d

theorem mem_of_parseIPv4Loop {val digLen : ℕ} {prev : Option UInt8} {fields s ip : Bytes}
    (h : parseIPv4Loop val digLen prev fields s = some ip) :
    ∀ c ∈ s, isDigit c = true ∨ c = 46 := by
  induction s generalizing val digLen prev fields with
  | nil => simp
  | cons c s ih =>
    rw [parseIPv4Loop] at h
    simp only at h
    split_ifs at h with hdigit hzero hval hdot hempty hfields
    · exact List.forall_mem_cons.mpr ⟨Or.inl hdigit, ih h⟩
    · exact List.forall_mem_cons.mpr ⟨Or.inr hdot, ih h⟩

theorem length_parseIPv6Bytes {text bs : Bytes} (h : parseIPv6Bytes text = some bs) :
    16 ≤ bs.length := by
  unfold parseIPv6Bytes at h
  extract_lets leading body at h
  by_cases hzero : leading ∧ body = []
  · rw [if_pos hzero] at h
    cases h
    simp
  · rw [if_neg hzero] at h
    split at h
    · cases h
    · rename_i ip ellipsis rest _
      split_ifs at h with hrest hshort hellipsis
      · obtain ⟨e, -, rfl⟩ := Option.map_eq_some_iff.mp h
        simp only [List.length_append, List.length_take, List.length_replicate, List.length_drop]
        omega
      · cases h
        omega

theorem parseIP_of_percent {s : Bytes} (h : 37 ∈ s) : parseIP s = none := by
  unfold parseIP
  cases hparse : parseAddr s with
  | none => rfl
  | some a =>
    suffices hzone : a.zone ≠ [] from if_neg hzone
    unfold parseAddr at hparse
    split at hparse
    · obtain ⟨bs, hbs, -⟩ := Option.bind_eq_some_iff.mp hparse
      exact absurd (mem_of_parseIPv4Loop hbs 37 h) (by decide)
    · unfold parseIPv6 at hparse
      simp only at hparse
      split_ifs at hparse with hempty
      obtain ⟨bs, -, hip⟩ := Option.bind_eq_some_iff.mp hparse
      obtain ⟨ip, -, rfl⟩ := Option.map_eq_some_iff.mp hip
      intro hzone
      apply hempty
      refine ⟨?_, hzone⟩
      have hle := (List.takeWhile_sublist (· ≠ 37) (l := s)).length_le
      refine lt_of_le_of_ne hle ?_
      intro hlen
      have hself := (List.takeWhile_sublist (· ≠ 37) (l := s)).eq_of_length hlen
      have hpercent := List.takeWhile_eq_self_iff.mp hself 37 h
      simp at hpercent
    · cases hparse

/-! ## Ports -/

theorem itoa_all_digits {n : ℕ} {c : UInt8} (h : c ∈ itoa n) : ∃ d, d < 10 ∧ c = digitByte d := by
  unfold itoa at h
  split_ifs at h
  · exact ⟨0, by decide, List.mem_singleton.mp h⟩
  · obtain ⟨d, hd, rfl⟩ := List.mem_map.mp h
    exact ⟨d, Nat.digits_lt_base (by decide) (List.mem_reverse.mp hd), rfl⟩

theorem itoa_value (n : ℕ) : (itoa n).foldl (fun acc c => acc * 10 + (c.toNat - 48)) 0 = n := by
  unfold itoa
  split_ifs with hn
  · rw [hn]
    rfl
  · have hvalue : ∀ ds : List ℕ, (∀ d ∈ ds, d < 10) →
        (ds.reverse.map digitByte).foldl (fun acc c => acc * 10 + (c.toNat - 48)) 0 =
          Nat.ofDigits 10 ds := by
      intro ds hds
      induction ds with
      | nil => rfl
      | cons d ds ih =>
        obtain ⟨hd, hds⟩ := List.forall_mem_cons.mp hds
        rw [List.reverse_cons, List.map_append, List.foldl_append, ih hds, Nat.ofDigits_cons]
        simp only [List.map_cons, List.map_nil, List.foldl_cons, List.foldl_nil,
          digitByte_toNat hd]
        omega
    rw [hvalue _ fun d hd => Nat.digits_lt_base (by decide) hd, Nat.ofDigits_digits]

theorem itoa_digits (n : ℕ) : itoa n ≠ [] ∧ (itoa n).all isDigit = true := by
  constructor
  · unfold itoa
    split_ifs with hn
    · simp
    · simpa using Nat.digits_ne_nil_iff_ne_zero.mpr hn
  · rw [List.all_eq_true]
    intro c hc
    obtain ⟨d, hd, rfl⟩ := itoa_all_digits hc
    exact isDigit_digitByte hd

theorem head_of_digits {s : Bytes} (h : s.all isDigit = true) :
    s.head? ≠ some 45 ∧ s.head? ≠ some 43 := by
  have hsign (c : UInt8) (hc : isDigit c = false) : s.head? ≠ some c := by
    intro hhead
    rw [List.all_eq_true.mp h c (List.mem_of_head? hhead)] at hc
    cases hc
  exact ⟨hsign 45 (by decide), hsign 43 (by decide)⟩

theorem atoi_itoa (n : ℕ) :
    atoi (itoa n) = if 2 ^ 63 ≤ n then .error "value out of range" else .ok (n : ℤ) := by
  obtain ⟨hne, hdigits⟩ := itoa_digits n
  obtain ⟨hminus, hplus⟩ := head_of_digits hdigits
  unfold atoi
  simp only [hminus, hplus, or_self, if_false, hne, hdigits, not_true_eq_false, itoa_value]

theorem atoi_itoaInt {n : ℤ} (hlow : -2 ^ 63 ≤ n) (hhigh : n < 2 ^ 63) :
    atoi (itoaInt n) = .ok n := by
  unfold itoaInt
  split_ifs with hneg
  · obtain ⟨hne, hdigits⟩ := itoa_digits n.natAbs
    unfold atoi
    simp only [List.head?_cons, true_or, if_true, List.drop_one, List.tail_cons, hne, hdigits,
      not_true_eq_false, or_self, if_false, itoa_value]
    rw [if_neg (by omega)]
    congr
    omega
  · rw [atoi_itoa, if_neg (by omega)]
    congr
    omega

/-! ## Host and port -/

theorem afterLastColon {front port : Bytes} (h : 58 ∉ port) :
    ((front ++ 58 :: port).reverse.takeWhile (· ≠ 58)).reverse = port := by
  have hport : ∀ c ∈ port.reverse, decide (c ≠ 58) = true := by
    intro c hc
    simp only [ne_eq, decide_eq_true_eq]
    rintro rfl
    exact h (List.mem_reverse.mp hc)
  rw [List.reverse_append, List.reverse_cons, List.append_assoc,
    List.takeWhile_append_of_pos hport]
  simp

theorem colonIndex (front port : Bytes) :
    (front ++ 58 :: port).length - port.length - 1 = front.length := by
  simp
  omega

theorem colon_hides (front port : Bytes) : port.length ≠ (front ++ 58 :: port).length := by
  simp
  omega

theorem eq_of_splitHostPort_join {host port : Bytes} {r : Bytes × Bytes} (hport : 58 ∉ port)
    (hhead : host.head? ≠ some 91) (h : splitHostPort (joinHostPort host port) = .ok r) :
    r = (host, port) := by
  unfold joinHostPort at h
  split_ifs at h with hcolon
  · have hjoin : 91 :: (host ++ [93, 58] ++ port) = (91 :: (host ++ [93])) ++ 58 :: port := by simp
    rw [hjoin] at h
    simp only [splitHostPort, afterLastColon hport, colonIndex] at h
    simp only [List.cons_append, List.head?_cons, if_true] at h
    split_ifs at h with hnone hmissing hend hlast hcolons hopen hclose
    cases h
    have hstop := not_not.mp hlast
    rw [List.length_cons, List.length_append, List.length_singleton, Nat.add_right_cancel_iff]
      at hstop
    rw [hstop]
    simp
  · have hjoin : host ++ [58] ++ port = host ++ 58 :: port := by simp
    rw [hjoin] at h
    have hnot : (host ++ 58 :: port).head? ≠ some 91 := by
      cases host with
      | nil => simp
      | cons c host => exact hhead
    simp only [splitHostPort, afterLastColon hport, colonIndex, if_neg hnot] at h
    split_ifs at h with hnone hcolons hopen hclose
    cases h
    simp

theorem splitHostPort_join {host port : Bytes} (hport : ∀ c ∈ port, c ∉ [58, 91, 93])
    (hhost : ∀ c ∈ host, c ∉ [91, 93]) :
    splitHostPort (joinHostPort host port) = .ok (host, port) := by
  have hcolon : 58 ∉ port := fun h => hport 58 h (by simp)
  have hport91 : 91 ∉ port := fun h => hport 91 h (by simp)
  have hport93 : 93 ∉ port := fun h => hport 93 h (by simp)
  have hhost91 : 91 ∉ host := fun h => hhost 91 h (by simp)
  have hhost93 : 93 ∉ host := fun h => hhost 93 h (by simp)
  unfold joinHostPort
  split_ifs with hcolons
  · have hjoin : 91 :: (host ++ [93, 58] ++ port) = (91 :: (host ++ [93])) ++ 58 :: port := by simp
    have hstop : ((91 :: (host ++ [93])) ++ 58 :: port).idxOf 93 = host.length + 1 := by
      rw [← hjoin, List.idxOf_cons_ne _ (by decide), List.append_assoc,
        List.idxOf_append_of_notMem hhost93]
      simp
    rw [hjoin]
    simp only [splitHostPort, afterLastColon hcolon, colonIndex, if_neg (colon_hides _ _), hstop]
    simp [hport91, hport93, hhost91]
  · have hjoin : host ++ [58] ++ port = host ++ 58 :: port := by simp
    have hopen : 91 ∉ host ++ 58 :: port := by simp [hhost91, hport91]
    have hhead : (host ++ 58 :: port).head? ≠ some 91 := fun h => hopen (List.mem_of_head? h)
    rw [hjoin]
    simp only [splitHostPort, afterLastColon hcolon, colonIndex, if_neg (colon_hides _ _),
      if_neg hhead]
    simp [hcolons, hport91, hport93, hhost91, hhost93]

theorem itoa_plain {n : ℕ} {c : UInt8} (h : c ∈ itoa n) : c ∉ [58, 91, 93] := by
  obtain ⟨d, -, rfl⟩ := itoa_all_digits h
  exact digitByte_notMem d (by simp)

theorem splitHostPort_string {a : UDPAddr} {r : Bytes × Bytes}
    (h : splitHostPort a.string = .ok r) : r = (a.hostText, itoa a.port) := by
  have hplain : ∀ ip : IP, ip.string.head? ≠ some 91 :=
    fun ip h => string_plain (List.mem_of_head? h) (by simp)
  refine eq_of_splitHostPort_join (fun h => itoa_plain h (by simp)) ?_ h
  unfold UDPAddr.hostText
  cases hip : a.ip with
  | none =>
    split_ifs
    · simp
    · simp
  | some ip =>
    have hip := hplain ip
    split_ifs
    · exact hip
    · cases hs : ip.string with
      | nil => simp [hs]
      | cons c rest =>
        rw [hs] at hip
        simpa [hs] using hip

theorem splitHostPort_string_of_ip {a : UDPAddr} {ip : IP} (hip : a.ip = some ip)
    (hzone : a.zone = []) : splitHostPort a.string = .ok (ip.string, itoa a.port) := by
  have hhost : a.hostText = ip.string := by simp [UDPAddr.hostText, hip, hzone]
  unfold UDPAddr.string
  rw [hhost]
  refine splitHostPort_join (fun c hc => itoa_plain hc) ?_
  intro c hc hmem
  exact string_plain hc (List.mem_cons_of_mem _ hmem)

end Mieru.Net
