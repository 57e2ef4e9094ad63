import Mathlib.Data.Finset.Sort
import Mathlib.Data.Int.ConditionallyCompleteOrder
import Mathlib.Data.Finset.Range
import Mieru.Lib.Result
import Mieru.Socks5.AddressText

/-! # Port bindings

A binding names one port or a range of ports for a transport protocol. The flat form of a list
of bindings has one binding for each port, TCP first and in order. -/
namespace Mieru.AppCtl

open Net Result

abbrev TransportProtocol := ℤ

def unknownTransportProtocol : TransportProtocol := 0
def udp : TransportProtocol := 1
def tcp : TransportProtocol := 2

structure PortBinding where
  port : Option Int32 := none
  protocol : Option TransportProtocol := none
  portRange : Option Bytes := none
  deriving DecidableEq

namespace PortBinding

def getPort (b : PortBinding) : ℤ := (b.port.getD 0).toInt

def getProtocol (b : PortBinding) : TransportProtocol := b.protocol.getD unknownTransportProtocol

def getPortRange (b : PortBinding) : Bytes := b.portRange.getD []

end PortBinding

inductive PortError where
  | protocolNotSet
  | invalidPort (port : ℤ)
  | unknownProtocol (protocol : TransportProtocol)
  | unparsedRange (text : Bytes)
  | unparsedInt (text : Bytes)
  | reversed (small big : ℤ)
  deriving DecidableEq

/-- The two groups of `^(\d+)-(\d+)$`. -/
def validPortRange (s : Bytes) : Option (Bytes × Bytes) :=
  match s.dropWhile isDigit with
  | 45 :: big =>
    if s.takeWhile isDigit ≠ [] ∧ big ≠ [] ∧ big.all isDigit then
      some (s.takeWhile isDigit, big)
    else none
  | _ => none

def checkPort (port : ℤ) : Except PortError Unit :=
  ensure (1 ≤ port ∧ port ≤ 65535) (.invalidPort port)

def portsBetween (small big : ℤ) : Finset ℤ :=
  (Finset.range (big + 1 - small).toNat).image fun k : ℕ => small + k

/-- A port that is set goes before the range. -/
def bindingPorts (b : PortBinding) : Except PortError (Finset ℤ) :=
  if b.getPort ≠ 0 then do
    checkPort b.getPort
    return {b.getPort}
  else
    match validPortRange b.getPortRange with
    | none => .error (.unparsedRange b.getPortRange)
    | some (smallText, bigText) => do
      let small ← (atoi smallText).mapError fun _ => .unparsedInt smallText
      let big ← (atoi bigText).mapError fun _ => .unparsedInt bigText
      checkPort small
      checkPort big
      ensure (small ≤ big) (.reversed small big)
      return portsBetween small big

def addBinding (ports : Finset ℤ × Finset ℤ) (b : PortBinding) :
    Except PortError (Finset ℤ × Finset ℤ) := do
  ensure (b.getProtocol ≠ unknownTransportProtocol) .protocolNotSet
  let added ← bindingPorts b
  if b.getProtocol = tcp then return (ports.1 ∪ added, ports.2)
  else if b.getProtocol = udp then return (ports.1, ports.2 ∪ added)
  else .error (.unknownProtocol b.getProtocol)

def singlePort (protocol : TransportProtocol) (port : ℤ) : PortBinding :=
  { port := some (Int32.ofInt port), protocol := some protocol }

def flatPortBindings (bindings : List PortBinding) : Except PortError (List PortBinding) := do
  let (tcpPorts, udpPorts) ← bindings.foldlM addBinding (∅, ∅)
  return tcpPorts.sort.map (singlePort tcp) ++ udpPorts.sort.map (singlePort udp)

/-! ## How a binding is written -/

theorem mem_portsBetween {small big n : ℤ} : n ∈ portsBetween small big ↔ small ≤ n ∧ n ≤ big := by
  unfold portsBetween
  rw [Finset.mem_image]
  constructor
  · rintro ⟨k, hk, rfl⟩
    have hlt := Finset.mem_range.mp hk
    omega
  · rintro ⟨hsmall, hbig⟩
    exact ⟨(n - small).toNat, Finset.mem_range.mpr (by omega), by omega⟩

theorem validPortRange_join {small big : Bytes} (hsmall : small ≠ [])
    (hsmalls : small.all isDigit = true) (hbig : big ≠ []) (hbigs : big.all isDigit = true) :
    validPortRange (small ++ 45 :: big) = some (small, big) := by
  have hdigits := List.all_eq_true.mp hsmalls
  have hdash : isDigit 45 = false := by decide
  have htake : (small ++ 45 :: big).takeWhile isDigit = small := by
    rw [List.takeWhile_append_of_pos hdigits, List.takeWhile_cons_of_neg (by simp [hdash]),
      List.append_nil]
  have hdrop : (small ++ 45 :: big).dropWhile isDigit = 45 :: big := by
    rw [List.dropWhile_append_of_pos hdigits, List.dropWhile_cons_of_neg (by simp [hdash])]
  unfold validPortRange
  rw [hdrop, htake]
  exact if_pos ⟨hsmall, hbig, hbigs⟩

theorem join_of_validPortRange {text small big : Bytes}
    (h : validPortRange text = some (small, big)) :
    text = small ++ 45 :: big ∧ small ≠ [] ∧ small.all isDigit = true ∧ big ≠ [] ∧
      big.all isDigit = true := by
  unfold validPortRange at h
  split at h
  · rename_i rest hrest
    split_ifs at h with hparts
    cases h
    refine ⟨?_, hparts.1, ?_, hparts.2⟩
    · rw [← hrest, List.takeWhile_append_dropWhile]
    · exact List.all_takeWhile
  · cases h

theorem bindingPorts_port {n : ℤ} (hn : 1 ≤ n ∧ n ≤ 65535) (protocol : Option TransportProtocol) :
    bindingPorts { port := some (Int32.ofInt n), protocol := protocol } = .ok {n} := by
  have hport : PortBinding.getPort { port := some (Int32.ofInt n), protocol := protocol } = n :=
    Int32.toInt_ofInt_of_le (by omega) (by omega)
  unfold bindingPorts
  rw [hport, if_pos (by omega), checkPort, ensure_true hn]
  rfl

theorem bindingPorts_text {text small big : Bytes} {m n : ℤ}
    (htext : validPortRange text = some (small, big)) (hm : atoi small = .ok m)
    (hn : atoi big = .ok n) (hrange : 1 ≤ m ∧ m ≤ n ∧ n ≤ 65535)
    (protocol : Option TransportProtocol) :
    bindingPorts { portRange := some text, protocol := protocol } = .ok (portsBetween m n) := by
  have hport : PortBinding.getPort { portRange := some text, protocol := protocol } = 0 := rfl
  unfold bindingPorts
  rw [if_neg (not_not.mpr hport)]
  simp only [PortBinding.getPortRange, Option.getD_some, htext, hm, hn]
  simp only [Except.mapError, ok_bind, checkPort]
  rw [ensure_true (by omega), ok_bind, ensure_true (by omega), ok_bind, ensure_true hrange.2.1]
  rfl

/-! ## What the flat form tells -/

def PortBinding.Has (b : PortBinding) (protocol : TransportProtocol) (port : ℤ) : Prop :=
  b.getProtocol = protocol ∧ ∃ ports, bindingPorts b = .ok ports ∧ port ∈ ports

def PortBinding.Accepted (b : PortBinding) : Prop :=
  (b.getProtocol = tcp ∨ b.getProtocol = udp) ∧ ∃ ports, bindingPorts b = .ok ports

theorem checkPort_eq_ok {port : ℤ} : checkPort port = .ok () ↔ 1 ≤ port ∧ port ≤ 65535 :=
  ensure_eq_ok

theorem bindingPorts_range {b : PortBinding} {ports : Finset ℤ} (h : bindingPorts b = .ok ports)
    {n : ℤ} (hn : n ∈ ports) : 1 ≤ n ∧ n ≤ 65535 := by
  unfold bindingPorts at h
  split_ifs at h
  · obtain ⟨hport, h⟩ := check_bind_eq_ok.mp h
    cases h
    rw [Finset.mem_singleton.mp hn]
    exact checkPort_eq_ok.mp hport
  · split at h
    · cases h
    · obtain ⟨small, -, h⟩ := bind_eq_ok.mp h
      obtain ⟨big, -, h⟩ := bind_eq_ok.mp h
      simp only [check_bind_eq_ok, checkPort_eq_ok, ensure_eq_ok] at h
      obtain ⟨hsmall, hbig, -, h⟩ := h
      cases h
      have hmem := mem_portsBetween.mp hn
      omega

theorem accepted_of_addBinding {ports ports' : Finset ℤ × Finset ℤ} {b : PortBinding}
    (h : addBinding ports b = .ok ports') : b.Accepted := by
  obtain ⟨-, h⟩ := ensure_bind_eq_ok.mp h
  obtain ⟨added, hadded, h⟩ := bind_eq_ok.mp h
  split_ifs at h with htcp hudp
  · exact ⟨.inl htcp, added, hadded⟩
  · exact ⟨.inr hudp, added, hadded⟩

theorem addBinding_of_accepted {b : PortBinding} (h : b.Accepted) (ports : Finset ℤ × Finset ℤ) :
    ∃ ports', addBinding ports b = .ok ports' ∧
      (∀ n, n ∈ ports'.1 ↔ n ∈ ports.1 ∨ b.Has tcp n) ∧
      ∀ n, n ∈ ports'.2 ↔ n ∈ ports.2 ∨ b.Has udp n := by
  obtain ⟨hprotocol, added, hadded⟩ := h
  have hhas (protocol : TransportProtocol) (n : ℤ) :
      b.Has protocol n ↔ b.getProtocol = protocol ∧ n ∈ added := by
    simp [PortBinding.Has, hadded]
  have hne : tcp ≠ udp := by decide
  rcases hprotocol with hprotocol | hprotocol
  · refine ⟨(ports.1 ∪ added, ports.2), ?_, ?_, ?_⟩
    · unfold addBinding
      rw [hprotocol, ensure_true (by decide), ok_bind, hadded]
      rfl
    · intro n
      simp [hhas, hprotocol]
    · intro n
      simp [hhas, hprotocol, hne]
  · refine ⟨(ports.1, ports.2 ∪ added), ?_, ?_, ?_⟩
    · unfold addBinding
      rw [hprotocol, ensure_true (by decide), ok_bind, hadded]
      rfl
    · intro n
      simp [hhas, hprotocol, hne.symm]
    · intro n
      simp [hhas, hprotocol]

theorem accepted_of_foldlM {bindings : List PortBinding} {ports ports' : Finset ℤ × Finset ℤ}
    (h : bindings.foldlM addBinding ports = .ok ports') : ∀ b ∈ bindings, b.Accepted := by
  induction bindings generalizing ports with
  | nil => simp
  | cons b bindings ih =>
    rw [List.foldlM_cons] at h
    obtain ⟨next, hb, h⟩ := bind_eq_ok.mp h
    exact List.forall_mem_cons.mpr ⟨accepted_of_addBinding hb, ih h⟩

theorem foldlM_of_accepted {bindings : List PortBinding} (h : ∀ b ∈ bindings, b.Accepted)
    (ports : Finset ℤ × Finset ℤ) :
    ∃ ports', bindings.foldlM addBinding ports = .ok ports' ∧
      (∀ n, n ∈ ports'.1 ↔ n ∈ ports.1 ∨ ∃ b ∈ bindings, b.Has tcp n) ∧
      ∀ n, n ∈ ports'.2 ↔ n ∈ ports.2 ∨ ∃ b ∈ bindings, b.Has udp n := by
  induction bindings generalizing ports with
  | nil => exact ⟨ports, rfl, by simp, by simp⟩
  | cons b bindings ih =>
    obtain ⟨hb, hbindings⟩ := List.forall_mem_cons.mp h
    obtain ⟨next, hnext, htcp, hudp⟩ := addBinding_of_accepted hb ports
    obtain ⟨last, hlast, htcp', hudp'⟩ := ih hbindings next
    refine ⟨last, ?_, ?_, ?_⟩
    · rw [List.foldlM_cons, hnext, ok_bind, hlast]
    · intro n
      rw [htcp', htcp, List.exists_mem_cons_iff, or_assoc]
    · intro n
      rw [hudp', hudp, List.exists_mem_cons_iff, or_assoc]

theorem accepted_of_flat {bindings flat : List PortBinding}
    (h : flatPortBindings bindings = .ok flat) : ∀ b ∈ bindings, b.Accepted := by
  obtain ⟨ports, hports, -⟩ := bind_eq_ok.mp h
  exact accepted_of_foldlM hports

theorem flat_of_accepted {bindings : List PortBinding} (h : ∀ b ∈ bindings, b.Accepted) :
    ∃ tcpPorts udpPorts : Finset ℤ, flatPortBindings bindings =
        .ok (tcpPorts.sort.map (singlePort tcp) ++ udpPorts.sort.map (singlePort udp)) ∧
      (∀ n, n ∈ tcpPorts ↔ ∃ b ∈ bindings, b.Has tcp n) ∧
      ∀ n, n ∈ udpPorts ↔ ∃ b ∈ bindings, b.Has udp n := by
  obtain ⟨ports, hports, htcp, hudp⟩ := foldlM_of_accepted h (∅, ∅)
  refine ⟨ports.1, ports.2, ?_, ?_, ?_⟩
  · rw [flatPortBindings, hports]
    rfl
  · intro n
    simpa using htcp n
  · intro n
    simpa using hudp n

theorem singlePort_inj {protocol protocol' : TransportProtocol} {m n : ℤ}
    (hm : 1 ≤ m ∧ m ≤ 65535) (hn : 1 ≤ n ∧ n ≤ 65535)
    (h : singlePort protocol m = singlePort protocol' n) : protocol = protocol' ∧ m = n := by
  simp only [singlePort, PortBinding.mk.injEq, Option.some.injEq, and_true] at h
  obtain ⟨hport, hprotocol⟩ := h
  refine ⟨hprotocol, ?_⟩
  have hint := congrArg Int32.toInt hport
  rwa [Int32.toInt_ofInt_of_le (by omega) (by omega),
    Int32.toInt_ofInt_of_le (by omega) (by omega)] at hint

theorem PortBinding.Has.range {b : PortBinding} {protocol : TransportProtocol} {n : ℤ}
    (h : b.Has protocol n) : 1 ≤ n ∧ n ≤ 65535 := by
  obtain ⟨-, ports, hports, hn⟩ := h
  exact bindingPorts_range hports hn

theorem has_iff_mem_flat {bindings flat : List PortBinding}
    (h : flatPortBindings bindings = .ok flat) {protocol : TransportProtocol} {n : ℤ} :
    (∃ b ∈ bindings, b.Has protocol n) ↔ (1 ≤ n ∧ n ≤ 65535) ∧ singlePort protocol n ∈ flat := by
  have haccepted := accepted_of_flat h
  obtain ⟨tcpPorts, udpPorts, hflat, htcp, hudp⟩ := flat_of_accepted haccepted
  cases h.symm.trans hflat
  rw [List.mem_append]
  constructor
  · rintro ⟨b, hb, hhas⟩
    refine ⟨hhas.range, ?_⟩
    rcases (haccepted b hb).1 with hprotocol | hprotocol
    · cases hhas.1.symm.trans hprotocol
      exact .inl (List.mem_map_of_mem ((Finset.mem_sort _).mpr ((htcp n).mpr ⟨b, hb, hhas⟩)))
    · cases hhas.1.symm.trans hprotocol
      exact .inr (List.mem_map_of_mem ((Finset.mem_sort _).mpr ((hudp n).mpr ⟨b, hb, hhas⟩)))
  · rintro ⟨hn, hmem | hmem⟩
    · obtain ⟨m, hm, heq⟩ := List.mem_map.mp hmem
      obtain ⟨b, hb, hhas⟩ := (htcp m).mp ((Finset.mem_sort _).mp hm)
      obtain ⟨hprotocol, hport⟩ := singlePort_inj hhas.range hn heq
      exact ⟨b, hb, hprotocol ▸ hport ▸ hhas⟩
    · obtain ⟨m, hm, heq⟩ := List.mem_map.mp hmem
      obtain ⟨b, hb, hhas⟩ := (hudp m).mp ((Finset.mem_sort _).mp hm)
      obtain ⟨hprotocol, hport⟩ := singlePort_inj hhas.range hn heq
      exact ⟨b, hb, hprotocol ▸ hport ▸ hhas⟩

/-- Two accepted lists have one flat form exactly when they have the same ports. -/
theorem flat_eq_iff {bindings bindings' : List PortBinding} (h : ∀ b ∈ bindings, b.Accepted)
    (h' : ∀ b ∈ bindings', b.Accepted) :
    flatPortBindings bindings = flatPortBindings bindings' ↔
      ∀ protocol n, (∃ b ∈ bindings, b.Has protocol n) ↔ ∃ b ∈ bindings', b.Has protocol n := by
  obtain ⟨tcpPorts, udpPorts, hflat, htcp, hudp⟩ := flat_of_accepted h
  obtain ⟨tcpPorts', udpPorts', hflat', htcp', hudp'⟩ := flat_of_accepted h'
  constructor
  · intro heq protocol n
    rw [has_iff_mem_flat hflat, has_iff_mem_flat (heq ▸ hflat)]
  · intro hports
    have htcps : tcpPorts = tcpPorts' := by
      ext n
      rw [htcp, htcp', hports]
    have hudps : udpPorts = udpPorts' := by
      ext n
      rw [hudp, hudp', hports]
    rw [hflat, hflat', htcps, hudps]

end Mieru.AppCtl
