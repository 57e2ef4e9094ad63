import Mieru.Protocol.PacketServer

/-! # Sessions and their users

Segments go to sessions by ID, whoever sent them. A session that takes a segment of
another user stops the program. -/
namespace Mieru.Protocol

open Cipher Clock Result ServerUser ProtocolType

/-! ## Segments and sessions with a user -/

structure ServerSegment.Known (seg : ServerSegment) : Prop where
  name_ne : seg.userName ≠ ""
  policy_eq : seg.serverUserPolicy.name = seg.userName

namespace ServerSession

/-- The session has had one user from the start. -/
structure Owned (s : ServerSession) : Prop where
  owner : ∃ policy, s.userPolicy = some policy ∧ policy.name ≠ "" ∧
    ∀ block, s.block = some block → block.val.userName = policy.name
  queue : ∀ seg ∈ s.recvChan, seg.Known

/-- Nothing in the channel is from anybody else. -/
structure Private (s : ServerSession) : Prop extends Owned s where
  own : ∀ seg ∈ s.recvChan, s.user = some seg.userName

variable {s s' : ServerSession} {seg : ServerSegment}

theorem Owned.input_ok (hs : s.Owned) (h : s.input seg = .ok s') :
    s' = { s with block := some seg.block } ∧ s.user = some seg.userName := by
  obtain ⟨policy, hpolicy, -, -⟩ := hs.owner
  obtain ⟨-, h⟩ := ensure_bind_eq_ok.mp h
  obtain ⟨-, -, h⟩ := bind_eq_ok.mp h
  obtain ⟨kept, hkeep, h⟩ := bind_eq_ok.mp h
  simp only [keepPolicy, hpolicy] at hkeep
  obtain ⟨hname, hkeep⟩ := ensure_bind_eq_ok.mp hkeep
  obtain ⟨-, hkeep⟩ := ensure_bind_eq_ok.mp hkeep
  cases hkeep
  cases h
  refine ⟨?_, ?_⟩
  · rw [← hpolicy]
  · rw [user, hpolicy, ← hname]
    rfl

theorem Owned.input_not_panicked (hs : s.Owned) (hseg : seg.Known)
    (huser : s.user = some seg.userName) (msg : String) :
    s.input seg ≠ .error (.panicked msg) := by
  obtain ⟨policy, hpolicy, hne, hblock⟩ := hs.owner
  have hname : policy.name = seg.userName := by
    rw [user, hpolicy] at huser
    exact Option.some.inj huser
  have hcheck : s.checkBlock seg = .ok () := by
    unfold checkBlock
    cases hb : s.block with
    | none => rfl
    | some block =>
      have hprev := hblock block hb
      simp only [ensure_true (hprev.trans_ne hne), ensure_true hseg.name_ne,
        ensure_true (hprev.trans hname), ok_bind]
  have hkeep : s.keepPolicy seg = .ok (some policy) := by
    have hsame : ¬(seg.serverUserPolicy.name ≠ "" ∧ policy.name ≠ seg.serverUserPolicy.name) :=
      fun hdiff => hdiff.2 (hname.trans hseg.policy_eq.symm)
    simp only [keepPolicy, hpolicy, ensure_true hname, ensure_true hsame, ok_bind]
    rfl
  intro h
  simp only [input, hcheck, hkeep, ok_bind] at h
  by_cases hclient : isFromClient seg.packet.protocol = true
  · rw [ensure_true hclient] at h
    cases h
  · rw [ensure, if_neg hclient] at h
    cases h

/-- What a session may turn into by itself. -/
structure Later (s s' : ServerSession) : Prop where
  policy : s'.userPolicy = s.userPolicy
  queue : s'.recvChan ⊆ s.recvChan
  block : ∀ block, s'.block = some block →
    s.block = some block ∨ s.user = some block.val.userName

theorem Owned.later (hs : s.Owned) (h : s.Later s') : s'.Owned := by
  obtain ⟨policy, hpolicy, hne, hblock⟩ := hs.owner
  refine ⟨⟨policy, h.policy.trans hpolicy, hne, ?_⟩, fun seg hmem => hs.queue seg (h.queue hmem)⟩
  intro block hb
  rcases h.block block hb with hold | huser
  · exact hblock block hold
  · rw [user, hpolicy] at huser
    exact (Option.some.inj huser).symm

theorem Private.later (hs : s.Private) (h : s.Later s') : s'.Private := by
  refine ⟨hs.toOwned.later h, ?_⟩
  intro seg hmem
  rw [user, h.policy]
  exact hs.own seg (h.queue hmem)

theorem Owned.push (hs : s.Owned) (hseg : seg.Known) : (s.push seg).Owned := by
  refine ⟨hs.owner, ?_⟩
  intro seg' hmem
  rcases List.mem_append.mp hmem with hmem | hmem
  · exact hs.queue seg' hmem
  · rw [List.mem_singleton.mp hmem]
    exact hseg

theorem Private.push (hs : s.Private) (hseg : seg.Known) (huser : s.user = some seg.userName) :
    (s.push seg).Private := by
  refine ⟨hs.toOwned.push hseg, ?_⟩
  intro seg' hmem
  rcases List.mem_append.mp hmem with hmem | hmem
  · exact hs.own seg' hmem
  · rw [List.mem_singleton.mp hmem]
    exact huser

end ServerSession

/-! ## Users of segments -/

namespace PacketServer

variable {cfg : ServerConfig} {u u' : PacketServer} {a : ServerAction cfg.kdf}
  {out : List ServerEvent} {r : Arrival cfg.kdf} {seg : ServerSegment}
  {session : ServerSession} {accepted : Bool}

def All (P : ServerSession → Prop) (u : PacketServer) : Prop := ∀ s ∈ u.sessionMap.items, P s

theorem decryptMetadata_known (hu : u.All ServerSession.Owned) {encryptedMeta : Bytes}
    {opened : OpenedMeta} (h : u.decryptMetadata r encryptedMeta = .ok opened) :
    opened.block.val.userName ≠ "" ∧ opened.policy.name = opened.block.val.userName := by
  unfold decryptMetadata at h
  split at h
  · rename_i hexisting
    cases h
    obtain ⟨s, hs, hopen⟩ := List.mem_filterMap.mp (List.mem_of_getElem? hexisting)
    obtain ⟨policy, hpolicy, hne, hblock⟩ := (hu s hs).owner
    unfold ServerSession.tryDecrypt at hopen
    split at hopen
    · cases hopen
    · rename_i block hb
      split_ifs at hopen
      split at hopen
      · cases hopen
      · cases hopen
        rw [hpolicy, Option.getD_some, hblock block hb]
        exact ⟨hne, rfl⟩
  · obtain ⟨found, hfound, h⟩ := bind_eq_ok.mp h
    cases h
    obtain ⟨state, hstate, user, hmem, _, _, hpolicy, hblock⟩ := discover_eq_ok hfound
    have hname := u.users.property state hstate user hmem
    simp only [hpolicy, hblock]
    refine ⟨?_, hname⟩
    intro hempty
    exact user.name_ne (by rw [hempty]; decide +kernel)

theorem readOneSegment_known (hu : u.All ServerSession.Owned) (h : u.readOneSegment r = .ok seg) :
    seg.Known := by
  obtain ⟨-, h⟩ := ensure_bind_eq_ok.mp h
  obtain ⟨opened, hopened, h⟩ := bind_eq_ok.mp h
  obtain ⟨-, h⟩ := ensure_bind_eq_ok.mp h
  obtain ⟨packet, -, h⟩ := bind_eq_ok.mp h
  obtain ⟨-, -, h⟩ := bind_eq_ok.mp h
  cases h
  obtain ⟨hne, hpolicy⟩ := decryptMetadata_known hu hopened
  exact ⟨hne, hpolicy⟩

theorem newSession_private (u : PacketServer) (r : Arrival cfg.kdf) (hseg : seg.Known) :
    (u.newSession r seg).Private ∧ (u.newSession r seg).user = some seg.userName := by
  have hne : seg.serverUserPolicy.name ≠ "" := hseg.policy_eq.trans_ne hseg.name_ne
  have hpolicy : (u.newSession r seg).userPolicy = some seg.serverUserPolicy := if_pos hne
  refine ⟨⟨⟨⟨_, hpolicy, hne, ?_⟩, ?_⟩, ?_⟩, ?_⟩
  · intro block hblock
    cases hblock
  · intro seg' hmem
    cases hmem
  · intro seg' hmem
    cases hmem
  · rw [ServerSession.user, hpolicy, Option.map_some, hseg.policy_eq]

/-! ## What all sessions keep -/

theorem Change.all {P : ServerSession → Prop} (hown : ∀ s, P s → s.Owned)
    (hlater : ∀ s s', P s → s.Later s' → P s')
    (hpush : ∀ session seg, .delivered session seg ∈ out → P session → P (session.push seg))
    (hnew : ∀ r seg, u.Reads a r seg → P (u.newSession r seg))
    (hu : u.All P) (h : Change u a u' out) : u'.All P := by
  cases h with
  | quiet hsub => exact fun s hs => hu s (hsub hs)
  | ended hsub => exact fun s hs => hu s (hsub hs)
  | @delivered r seg session hreads haddressed hlookup haccepted =>
    have hsession := hu session (KeyedMap.mem_of_lookup hlookup).1
    exact KeyedMap.forall_set hu (hpush session seg (List.mem_singleton.mpr rfl) hsession)
  | @opened r seg hreads =>
    have hsession := hnew r seg hreads
    exact KeyedMap.forall_set (KeyedMap.forall_loadOrStore hu hsession)
      (hpush _ seg (List.mem_singleton.mpr rfl) hsession)
  | @openedInVain r seg hreads => exact KeyedMap.forall_loadOrStore hu (hnew r seg hreads)
  | answered => exact hu
  | unanswered => exact hu
  | @closed session hmem =>
    exact KeyedMap.forall_set hu (hlater session _ (hu session hmem)
      ⟨rfl, List.Subset.refl _, fun block hb => .inl hb⟩)
  | @refused session seg rest hmem hnext =>
    refine KeyedMap.forall_set hu (hlater session _ (hu session hmem) ⟨rfl, ?_, ?_⟩)
    · rw [hnext]
      exact List.subset_cons_self seg rest
    · exact fun block hb => .inl hb
  | @taken session next seg rest closed hmem hnext hinput =>
    have hsession := hu session hmem
    obtain ⟨rfl, huser⟩ := (hown session hsession).input_ok hinput
    refine KeyedMap.forall_set hu (hlater session _ hsession ⟨rfl, ?_, ?_⟩)
    · rw [hnext]
      exact List.subset_cons_self seg rest
    · intro block hb
      cases hb
      exact .inr huser
  | panicked => exact hu

theorem Change.delivered_cases (h : Change u a u' out)
    (hmem : .delivered session seg ∈ out) :
    ∃ r, u.Reads a r seg ∧ (session = u.newSession r seg ∨
      isAddressed seg.packet.protocol = true ∧
        u.sessionMap.lookup seg.packet.metadata.sessionID = some session ∧
        r.accepted = true) := by
  cases h with
  | @delivered r _ _ hreads haddressed hlookup haccepted =>
    cases List.mem_singleton.mp hmem
    exact ⟨r, hreads, .inr ⟨haddressed, hlookup, haccepted⟩⟩
  | @opened r _ hreads =>
    cases List.mem_singleton.mp hmem
    exact ⟨r, hreads, .inl rfl⟩
  | _ => simp at hmem

theorem Change.delivered_known (hu : u.All ServerSession.Owned) (h : Change u a u' out)
    (hmem : .delivered session seg ∈ out) : seg.Known := by
  obtain ⟨r, hreads, -⟩ := h.delivered_cases hmem
  exact readOneSegment_known hu hreads.reads

theorem step_owned (hu : u.All ServerSession.Owned) (h : step cfg u a = some (u', out)) :
    u'.All ServerSession.Owned := by
  have hchange := step_change h
  refine hchange.all (fun s hs => hs) (fun s s' hs => hs.later) ?_ ?_ hu
  · intro session seg hmem hsession
    exact hsession.push (hchange.delivered_known hu hmem)
  · intro r seg hreads
    exact (newSession_private u r (readOneSegment_known hu hreads.reads)).1.toOwned

/-! ## Segments that go astray -/

/-- The check that is missing: the session with the ID of the segment belongs to its sender. -/
def OwnSession (u : PacketServer) (seg : ServerSegment) : Prop :=
  ∀ session, u.sessionMap.lookup seg.packet.metadata.sessionID = some session →
    session.user = some seg.userName

/-- What a session takes because of its ID passes the check. -/
def TakesOwn (u : PacketServer) (a : ServerAction cfg.kdf) : Prop :=
  ∀ r seg, u.Reads a r seg → isAddressed seg.packet.protocol = true → r.accepted = true →
    u.OwnSession seg

def Rightful : ServerEvent → Prop
  | .delivered session seg => session.user = some seg.userName
  | _ => True

instance : DecidablePred Rightful
  | .delivered session seg => inferInstanceAs (Decidable (session.user = some seg.userName))
  | .sent _ _ | .returned _ | .panicked _ => inferInstanceAs (Decidable True)

theorem step_receive (hcrashed : u.crashed = false) (hrunning : u.running = true)
    (r : Arrival cfg.kdf) : step cfg u (.receive r) = u.receive r := by
  simp only [step, hcrashed, hrunning, Bool.false_eq_true, ↓reduceIte, loopStep]

theorem step_eq_receive (h : step cfg u (.receive r) = some (u', out)) :
    u.receive r = some (u', out) := by
  unfold step at h
  split_ifs at h
  exact h

/-- Nobody is asked whose session it is. -/
theorem step_delivers (hreads : u.Reads a r seg)
    (haddressed : isAddressed seg.packet.protocol = true)
    (hlookup : u.sessionMap.lookup seg.packet.metadata.sessionID = some session)
    (haccepted : r.accepted = true) (h : step cfg u a = some (u', out)) :
    out = [.delivered session seg] := by
  obtain ⟨rfl, hread⟩ := hreads
  have hreceive := step_eq_receive h
  simp only [receive, hread, dispatch] at hreceive
  have hdeliver : u.deliverSegmentToSession r.accepted session seg = some (u', out) := by
    cases hmeta : seg.packet.metadata with
    | dataAck das =>
      rw [hmeta] at hlookup
      simp only [hmeta, onDataAck] at hreceive
      change u.sessionMap.lookup das.sessionID = some session at hlookup
      rw [hlookup] at hreceive
      exact hreceive
    | session ss =>
      simp only [hmeta] at hreceive
      simp only [isAddressed, Packet.protocol, hmeta, Metadata.protocol] at haddressed
      cases hprotocol : ss.protocol with
      | closeSessionRequest =>
        simpa only [hprotocol, onCloseSession, hlookup] using hreceive
      | closeSessionResponse =>
        simpa only [hprotocol, onCloseSession, hlookup] using hreceive
      | _ =>
        have hsession := ss.isSession
        rw [hprotocol] at haddressed hsession
        first
          | exact absurd hsession (by decide)
          | exact absurd haddressed (by decide)
  rcases deliverSegmentToSession_cases hdeliver with ⟨-, -, hout⟩ | ⟨hrefused, -, -⟩
  · exact hout
  · rw [haccepted] at hrefused
    cases hrefused

theorem rightful_iff (hu : u.All ServerSession.Owned) (h : step cfg u a = some (u', out)) :
    TakesOwn u a ↔ ∀ o ∈ out, Rightful o := by
  constructor
  · intro hown o ho
    cases o with
    | delivered session seg =>
      obtain ⟨r, hreads, hnew | ⟨haddressed, hlookup, haccepted⟩⟩ :=
        (step_change h).delivered_cases ho
      · rw [hnew]
        exact (newSession_private u r (readOneSegment_known hu hreads.reads)).2
      · exact hown r seg hreads haddressed haccepted session hlookup
    | _ => trivial
  · intro hout r seg hreads haddressed haccepted session hlookup
    have heq := step_delivers hreads haddressed hlookup haccepted h
    exact hout (.delivered session seg) (heq ▸ List.mem_singleton.mpr rfl)

theorem step_private (hown : TakesOwn u a) (hu : u.All ServerSession.Private)
    (h : step cfg u a = some (u', out)) :
    u'.All ServerSession.Private ∧ ∀ msg, .panicked msg ∉ out := by
  have howned : u.All ServerSession.Owned := fun s hs => (hu s hs).toOwned
  have hchange := step_change h
  refine ⟨hchange.all (fun s hs => hs.toOwned) (fun s s' hs => hs.later) ?_ ?_ hu, ?_⟩
  · intro session seg hmem hsession
    exact hsession.push (hchange.delivered_known howned hmem)
      ((rightful_iff howned h).mp hown _ hmem)
  · intro r seg hreads
    exact (newSession_private u r (readOneSegment_known howned hreads.reads)).1
  · intro msg hmem
    cases hchange with
    | @panicked session seg rest _ hsession hnext hinput =>
      have hseg : seg ∈ session.recvChan := by
        rw [hnext]
        exact List.mem_cons_self
      have hpriv := hu session hsession
      exact hpriv.toOwned.input_not_panicked (hpriv.queue seg hseg) (hpriv.own seg hseg) _ hinput
    | _ => simp at hmem

def start (users : Users) (hintMandatory : Bool) : PacketServer :=
  { users := users, hintMandatory := hintMandatory }

theorem start_all (P : ServerSession → Prop) (users : Users) (hintMandatory : Bool) :
    (start users hintMandatory).All P := fun _ hs => absurd hs List.not_mem_nil

theorem not_panicked {users : Users} {hintMandatory : Bool} {es : List (ServerAction cfg.kdf)}
    {outs : List ServerEvent} {s : PacketServer}
    (h : Machine.Reaches (step cfg) TakesOwn (start users hintMandatory) es outs s) :
    ∀ msg, .panicked msg ∉ outs := by
  have hboth : s.All ServerSession.Private ∧ ∀ msg, .panicked msg ∉ outs := by
    refine h.invariant (I := fun u outs => u.All ServerSession.Private ∧
      ∀ msg, .panicked msg ∉ outs) ⟨start_all _ users hintMandatory, by simp⟩ ?_
    intro u outs a u' out ⟨hu, houts⟩ hown hstep
    obtain ⟨hu', hout⟩ := step_private hown hu hstep
    refine ⟨hu', fun msg hmem => ?_⟩
    rcases List.mem_append.mp hmem with hmem | hmem
    · exact houts msg hmem
    · exact hout msg hmem
  exact hboth.2

/-- In every run segments go to the sessions of their senders if and only if no session takes
a segment that somebody else has sent to its ID, and then no session stops the program. -/
theorem delivered_rightly_iff {users : Users} {hintMandatory : Bool}
    {es : List (ServerAction cfg.kdf)} {outs : List ServerEvent} {s : PacketServer}
    (h : Machine.Reaches (step cfg) Machine.Free (start users hintMandatory) es outs s) :
    ((∀ o ∈ outs, Rightful o) ↔
      Machine.Reaches (step cfg) TakesOwn (start users hintMandatory) es outs s) ∧
    (Machine.Reaches (step cfg) TakesOwn (start users hintMandatory) es outs s →
      ∀ msg, .panicked msg ∉ outs) :=
  ⟨Machine.emitted_iff_guarded_of_invariant (start_all _ users hintMandatory)
    (fun _ _ _ _ => step_owned) (fun _ _ _ _ => rightful_iff) h, not_panicked⟩

/-! ## Two users -/

def aliceUser : RegistryUser where
  id := 1
  name := "alice"
  credential := Vector.replicate 32 1
  policy := { name := "alice" }
  name_ne := by decide +kernel
  name_le := by decide +kernel

def bobUser : RegistryUser where
  id := 2
  name := "bob"
  credential := Vector.replicate 32 2
  policy := { name := "bob" }
  name_ne := by decide +kernel
  name_le := by decide +kernel

def twoUsersState : State where
  users := [aliceUser, bobUser]
  cache := none
  dense := by
    rintro (_ | _ | i) user h
    · cases h
      rfl
    · cases h
      rfl
    · cases h

def twoUsers : Users where
  val := some twoUsersState
  property := by
    intro state hstate user hmem
    cases hstate
    rcases List.mem_cons.mp hmem with rfl | hmem
    · rfl
    · rw [List.mem_singleton.mp hmem]
      rfl

def serverConfig : ServerConfig where
  kdf := pbkdf2Sha256
  mtu := 1400
  trafficPattern := none
  host := ⟨fun _ => 0, "host"⟩

/-- The clients are one step of the salts behind: theirs is the first that the server tries. -/
def behindCipher (user : RegistryUser) : StatelessCipher :=
  saltCipher pbkdf2Sha256 user.password
    (saltAt (add (round 1750000000000000000 keyRefreshInterval) (-keyRefreshInterval)))

def cipherOf (user : RegistryUser) : StatelessCipher :=
  ⟨{ (behindCipher user).val with userName := user.name }, rfl⟩

def nonceOf (user : RegistryUser) : Nonce :=
  withHint (userBytes user.name) PacketUnderlay.zeroDraws.nonce

def sentBy (user : RegistryUser) (plaintextMetadata : Bytes) (port : ℕ)
    (writeError : Option String) : Arrival serverConfig.kdf where
  bytes := datagramBytes (cipherOf user).val (nonceOf user) plaintextMetadata [] [] []
  addr := ⟨none, port, []⟩
  replayed := false
  pick := 0
  env := ⟨fun _ => none, fun _ => none, fun _ => 1750000000000000000, fun _ => 0⟩
  now := 1750000000
  accepted := true
  draws := PacketUnderlay.zeroDraws
  writeError := writeError

theorem decryptors_sentBy (user : RegistryUser) (plaintext : Bytes)
    {env : DecryptorEnv serverConfig.kdf} (henv : env.now user = 1750000000000000000) :
    decryptors env user ((nonceOf user).val ++
      (cipherOf user).val.aead.sealBytes (nonceOf user).val plaintext) =
      some (behindCipher user, plaintext) := by
  have hopen : decryptStateless (behindCipher user)
      ((nonceOf user).val ++ (cipherOf user).val.aead.sealBytes (nonceOf user).val plaintext) =
        .ok plaintext := by
    have hkey : (behindCipher user).val.aead = (cipherOf user).val.aead := rfl
    rw [decryptStateless, BlockCipher.decrypt_stateless (behindCipher user).property hkey]
    rfl
  rw [decryptors, tryDecryptAt_eq user.password_ne, selectDecryptStateless, henv, saltFromTime]
  change List.findSome? _ (behindCipher user :: _) = _
  rw [List.findSome?_cons, hopen]

theorem candidates_sentBy {user : RegistryUser} (huser : user = aliceUser ∨ user = bobUser)
    (hintMandatory : Bool) :
    ∃ rest, allCandidates twoUsersState (nonceOf user) [] hintMandatory = user :: rest := by
  have hhint : user.hinted (nonceOf user) = true := OpenRequest.hinted_withHint user _
  rcases huser with rfl | rfl
  · exact ⟨_, by simp only [allCandidates, candidates, cachedCandidates, registryCandidates,
      twoUsersState, List.filter_cons, hhint]; rfl⟩
  · have hother : aliceUser.hinted (nonceOf bobUser) = false := by decide +kernel
    exact ⟨_, by simp only [allCandidates, candidates, cachedCandidates, registryCandidates,
      twoUsersState, List.filter_cons, hhint, hother]; rfl⟩

theorem readOneSegment_sentBy {user : RegistryUser}
    (huser : user = aliceUser ∨ user = bobUser) (husers : u.users = twoUsers)
    (hfresh : ∀ encryptedMeta addr, u.tryDecryptExistingSession encryptedMeta addr 0 = none)
    {plaintext : Bytes} (hlen : plaintext.length = metadataLength) {packet : Packet}
    (hparse : parseSegment (cipherOf user).val 1750000000 plaintext (nonceOf user).val [] =
      .ok packet)
    (hvalid : OpenedMeta.validate ⟨plaintext, cipherOf user, user.policy, true⟩ packet = .ok ())
    (port : ℕ) (writeError : Option String) :
    u.readOneSegment (sentBy user plaintext port writeError) =
      .ok ⟨packet, cipherOf user, user.policy⟩ := by
  have hbytes : (sentBy user plaintext port writeError).bytes = (nonceOf user).val ++
      (cipherOf user).val.aead.sealBytes (nonceOf user).val plaintext := by
    simp only [sentBy, datagramBytes, List.append_nil]
  have hsize : ((nonceOf user).val ++
      (cipherOf user).val.aead.sealBytes (nonceOf user).val plaintext).length =
        packetNonHeaderPosition := by
    rw [List.length_append, (nonceOf user).property, BlockCipher.length_sealed, hlen]
    rfl
  have hopened : u.decryptMetadata (sentBy user plaintext port writeError) ((nonceOf user).val ++
      (cipherOf user).val.aead.sealBytes (nonceOf user).val plaintext) =
        .ok ⟨plaintext, cipherOf user, user.policy, true⟩ := by
    obtain ⟨rest, hrest⟩ := candidates_sentBy huser u.hintMandatory
    have hdiscover : discover (decryptors (sentBy user plaintext port writeError).env)
        u.users.val u.hintMandatory ((nonceOf user).val ++
          (cipherOf user).val.aead.sealBytes (nonceOf user).val plaintext)
        (sourceFromAddr (sentBy user plaintext port writeError).addr) =
          .ok ⟨cipherOf user, plaintext, user.id, user.name, user.policy⟩ := by
      have hfound : (allCandidates twoUsersState (nonceOf user) [] u.hintMandatory).findSome?
          (tryUser (decryptors (sentBy user plaintext port writeError).env) ((nonceOf user).val ++
            (cipherOf user).val.aead.sealBytes (nonceOf user).val plaintext)) =
          some ⟨behindCipher user, plaintext, user.id, user.name, user.policy⟩ := by
        rw [hrest, List.findSome?_cons, tryUser, decryptors_sentBy user plaintext rfl]
        rfl
      rw [husers]
      exact discover_of_found hfound
    have hid : decide (user.id ≠ 0) = true := by rcases huser with rfl | rfl <;> rfl
    have hnone : u.tryDecryptExistingSession ((nonceOf user).val ++
        (cipherOf user).val.aead.sealBytes (nonceOf user).val plaintext)
        (sentBy user plaintext port writeError).addr
        (sentBy user plaintext port writeError).pick = none := hfresh _ _
    rw [decryptMetadata, hnone]
    simp only [serverTryDecryptMetadataForNewSession, hdiscover, ok_bind, hid]
    rfl
  have hshort : packetNonHeaderPosition ≤ maxDatagramSize := by decide
  have hreplayed : (sentBy user plaintext port writeError).replayed = false := rfl
  simp only [readOneSegment, hbytes, List.take_of_length_le (hsize.trans_le hshort), hsize,
    List.take_of_length_le hsize.le, List.drop_of_length_le hsize.le, hopened, ok_bind,
    BlockCipher.take_nonce, ensure_true (Nat.le_refl packetNonHeaderPosition),
    ensure_true hreplayed]
  change (parseSegment (cipherOf user).val 1750000000 plaintext (nonceOf user).val [] >>=
    fun packet => _) = _
  rw [hparse, ok_bind, hvalid, ok_bind]
  rfl

def openStruct : SessionStruct where
  protocol := .openSessionRequest
  sessionID := 1
  seq := 0

def ackStruct : DataAckStruct where
  protocol := .ackClientToServer
  sessionID := 1
  seq := 0
  unAckSeq := 1
  windowSize := 16

def openArrival : Arrival serverConfig.kdf :=
  sentBy aliceUser (openStruct.marshal 1750000000) 1000 none

def ackArrival (user : RegistryUser) (writeError : Option String) : Arrival serverConfig.kdf :=
  sentBy user (ackStruct.marshal 1750000000) 2000 writeError

def openSegment : ServerSegment :=
  ⟨⟨.session (openStruct.stamp 1750000000), []⟩, cipherOf aliceUser, aliceUser.policy⟩

def ackSegment (user : RegistryUser) : ServerSegment :=
  ⟨⟨.dataAck (ackStruct.stamp 1750000000), []⟩, cipherOf user, user.policy⟩

theorem readOneSegment_open (husers : u.users = twoUsers)
    (hfresh : ∀ encryptedMeta addr, u.tryDecryptExistingSession encryptedMeta addr 0 = none) :
    u.readOneSegment openArrival = .ok openSegment := by
  refine readOneSegment_sentBy (.inl rfl) husers hfresh rfl ?_ rfl 1000 none
  rw [parseSegment_session _ _ (by decide) (by decide), parseSessionSegment_nil _ rfl rfl]

theorem readOneSegment_ack {user : RegistryUser} (huser : user = aliceUser ∨ user = bobUser)
    (husers : u.users = twoUsers)
    (hfresh : ∀ encryptedMeta addr, u.tryDecryptExistingSession encryptedMeta addr 0 = none)
    (writeError : Option String) :
    u.readOneSegment (ackArrival user writeError) = .ok (ackSegment user) := by
  refine readOneSegment_sentBy huser husers hfresh (ackStruct.length_marshal _) ?_ rfl 2000
    writeError
  have hcarried : ackStruct.Carried := ⟨rfl, rfl, rfl, rfl⟩
  have hparse : parseDataAckSegment (cipherOf user).val (ackStruct.stamp 1750000000)
      (nonceOf user).val ([] ++ []) = .ok ⟨.dataAck (ackStruct.stamp 1750000000), []⟩ :=
    parseDataAckSegment_nil _ hcarried rfl rfl rfl
  rw [parseSegment_dataAck _ _ (by decide) hcarried]
  exact hparse

def openedSession : ServerSession := (start twoUsers false).newSession openArrival openSegment

def requested : PacketServer :=
  { start twoUsers false with
    sessionMap := (KeyedMap.empty.loadOrStore openedSession).set (openedSession.push openSegment) }

theorem step_open : step serverConfig (start twoUsers false) (.receive openArrival) =
    some (requested, [.delivered openedSession openSegment]) := by
  have hread : (start twoUsers false).readOneSegment openArrival = .ok openSegment :=
    readOneSegment_open rfl fun _ _ => rfl
  rw [step_receive rfl rfl, receive, hread]
  rfl

def acknowledged (user : RegistryUser) : PacketServer :=
  { requested with
    sessionMap :=
      requested.sessionMap.set ((openedSession.push openSegment).push (ackSegment user)) }

theorem step_ack {user : RegistryUser} (huser : user = aliceUser ∨ user = bobUser) :
    step serverConfig requested (.receive (ackArrival user none)) =
      some (acknowledged user,
        [.delivered (openedSession.push openSegment) (ackSegment user)]) := by
  have hread : requested.readOneSegment (ackArrival user none) = .ok (ackSegment user) :=
    readOneSegment_ack huser rfl (fun _ _ => rfl) none
  rw [step_receive rfl rfl, receive, hread]
  rfl

/-- The first user opens a session, somebody acknowledges, and the session takes both. -/
def ackRun (user : RegistryUser) : List (ServerAction serverConfig.kdf) := [
  .receive openArrival, .receive (ackArrival user none), .input 1 false, .input 1 false]

def panicOf : ServerEvent → Option String
  | .panicked msg => some msg
  | _ => none

theorem ackRun_reaches {user : RegistryUser} (huser : user = aliceUser ∨ user = bobUser)
    {outs : List ServerEvent} {s : PacketServer}
    (h : Machine.run (step serverConfig) (acknowledged user) [.input 1 false, .input 1 false] =
      some (s, outs)) :
    Machine.Reaches (step serverConfig) Machine.Free (start twoUsers false) (ackRun user)
      ([.delivered openedSession openSegment,
        .delivered (openedSession.push openSegment) (ackSegment user)] ++ outs) s :=
  (Machine.Reaches.next (.next .start trivial step_open) trivial (step_ack huser)).append_run h

theorem own_ack_delivered : ∃ outs s,
    Machine.Reaches (step serverConfig) Machine.Free (start twoUsers false) (ackRun aliceUser)
      outs s ∧
    Machine.Reaches (step serverConfig) TakesOwn (start twoUsers false) (ackRun aliceUser)
      outs s ∧
    ∀ msg, .panicked msg ∉ outs := by
  have hsummary : (Machine.run (step serverConfig) (acknowledged aliceUser)
      [.input 1 false, .input 1 false]).map (fun r => r.2.length) = some 0 := by
    decide +kernel
  obtain ⟨⟨s, outs⟩, hrun, hlen⟩ := Option.map_eq_some_iff.mp hsummary
  obtain rfl : outs = [] := List.eq_nil_of_length_eq_zero hlen
  have hreach := ackRun_reaches (.inl rfl) hrun
  have hall := delivered_rightly_iff hreach
  have hguarded := hall.1.mp (by
    intro o ho
    rcases List.mem_cons.mp ho with rfl | ho
    · decide +kernel
    · cases List.mem_singleton.mp ho
      decide +kernel)
  exact ⟨_, s, hreach, hguarded, hall.2 hguarded⟩

/-- Another user's acknowledgement goes to the session too, and stops the program. -/
theorem stranger_ack_panics : ∃ outs s,
    Machine.Reaches (step serverConfig) Machine.Free (start twoUsers false) (ackRun bobUser)
      outs s ∧
    ¬(∀ o ∈ outs, Rightful o) ∧
    outs.filterMap panicOf = ["cipher block user name " ++ "alice".quote ++
      " is different from cipher block user name " ++ "bob".quote] := by
  have hsummary : (Machine.run (step serverConfig) (acknowledged bobUser)
      [.input 1 false, .input 1 false]).map (fun r => r.2.filterMap panicOf) =
        some ["cipher block user name " ++ "alice".quote ++
          " is different from cipher block user name " ++ "bob".quote] := rfl
  obtain ⟨⟨s, outs⟩, hrun, hpanics⟩ := Option.map_eq_some_iff.mp hsummary
  refine ⟨_, s, ackRun_reaches (.inr rfl) hrun, ?_, ?_⟩
  · intro hall
    have hwrong : Rightful (.delivered (openedSession.push openSegment) (ackSegment bobUser)) :=
      hall _ (List.mem_append_left outs (List.mem_cons_of_mem _ (List.mem_singleton.mpr rfl)))
    exact absurd hwrong (by decide +kernel)
  · rw [List.filterMap_append, hpanics]
    rfl

end PacketServer

end Mieru.Protocol
