import Mieru.ServerUser.Reload

/-! # Reloads do not mix the users of two generations

A `Discover` that requires a current user returns one of a generation that was published after
the user was tried. The cache of a generation only ever gives out users of that generation. -/
namespace Mieru.ServerUser.Reload

open Cipher

/-! ## Where cached IDs come from -/

def RecordCall.written (r : RecordCall) : Bool :=
  match r.stage with
  | .refresh _ _ => true
  | .unlock => true
  | .returned written => written
  | _ => false

theorem written_afterWrite {r : RecordCall} {found : Option ℕ} {now : UInt32} :
    RecordCall.written { r with stage := .afterWrite found now } = true := by
  cases found <;> rfl

def State.Recorded (s : State) (g : ℕ) (key : SourceKey) (id : UInt32) : Prop :=
  ∃ r ∈ s.records, r.generation = g ∧ r.source.key = key ∧ r.userID = id ∧ r.written = true

/-- `Discover` has returned a user with that ID of the generation. -/
def State.Authenticated (s : State) (g : ℕ) (source : Source) (id : UInt32) : Prop :=
  ∃ c ∈ s.discovers, c.source = source ∧
    ∃ found, c.stage = .returned (.ok (g, found)) ∧ found.userID = id

def State.UserOf (s : State) (g : ℕ) (found : Discovery) : Prop :=
  ∃ generation, s.generations[g]? = some generation ∧
    ∃ user ∈ generation.config.compile.users,
      found.userID = user.id ∧ found.userName = user.name ∧ found.policy = user.policy

def State.HasEntry (s : State) (g n : ℕ) (key : SourceKey) : Prop :=
  ∃ generation entry, s.generations[g]? = some generation ∧
    generation.cache.table.entries[n]? = some entry ∧ entry.key = key

def State.LookupFine (s : State) (g : ℕ) (key : SourceKey) : Lookup → Prop
  | .table => True
  | .way _ _ => True
  | .lastActive _ n => s.HasEntry g n key
  | .slots _ n read =>
    s.HasEntry g n key ∧ ∀ packed ∈ read, (sourceUserCacheUnpackUser packed).1 ≠ 0 →
      s.Recorded g key (sourceUserCacheUnpackUser packed).1

def State.StageFine (s : State) (source : Source) : DiscoverStage → Prop
  | .load => True
  | .hint _ => True
  | .lookup g _ lookup => s.LookupFine g source.key lookup
  | .trying g _ ids => ∀ id ∈ ids.val, s.Recorded g source.key id
  | .tried g result => ∀ found, result = some found → s.UserOf g found.1
  | .current g found => s.UserOf g found.1
  | .returned (.ok (g, found)) => s.UserOf g found
  | .returned (.error _) => True

structure Inv (s : State) : Prop where
  holds : ∀ (g : ℕ) generation, s.generations[g]? = some generation →
    generation.cache.table.Holds (s.Recorded g)
  discovers : ∀ c ∈ s.discovers, s.StageFine c.source c.stage
  authentications : ∀ a ∈ s.authentications, ∀ g, a.generation = some g →
    s.Authenticated g a.source a.userID
  records : ∀ r ∈ s.records, s.Authenticated r.generation r.source r.userID

/-- What a step leaves as it is. -/
structure Later (s s' : State) : Prop where
  generations : ∀ (g : ℕ) generation, s.generations[g]? = some generation →
    ∃ generation', s'.generations[g]? = some generation' ∧
      generation'.config = generation.config ∧
      generation.cache.table.Keeps generation'.cache.table
  recorded : ∀ g key id, s.Recorded g key id → s'.Recorded g key id
  authenticated : ∀ g source id, s.Authenticated g source id → s'.Authenticated g source id

variable {bucketIndex : SourceKey → Bucket} {s s' t : State} {n g : ℕ} {c : DiscoverCall}
  {r : RecordCall} {tick : UInt32} {tryDecrypt : Decryptors}

theorem mem_of_modify {α : Type} {l : List α} {n : ℕ} {f : α → α} {x : α} (h : x ∈ l.modify n f) :
    x ∈ l ∨ ∃ y, l[n]? = some y ∧ x = f y := by
  obtain ⟨m, hm⟩ := List.mem_iff_getElem?.mp h
  rw [List.getElem?_modify] at hm
  obtain ⟨y, hy, rfl⟩ := Option.map_eq_some_iff.mp hm
  split_ifs with heq
  · subst heq
    exact Or.inr ⟨y, hy, rfl⟩
  · exact Or.inl (List.mem_of_getElem? hy)

theorem mem_modify {α : Type} {l : List α} {n : ℕ} {f : α → α} {x : α} (h : x ∈ l) :
    x ∈ l.modify n f ∨ l[n]? = some x ∧ f x ∈ l.modify n f := by
  obtain ⟨m, hm⟩ := List.mem_iff_getElem?.mp h
  by_cases heq : n = m
  · subst heq
    exact Or.inr ⟨hm, List.mem_of_getElem? (i := n) (by simp [hm])⟩
  · exact Or.inl (List.mem_of_getElem? (i := m) (by simp [hm, heq]))

theorem Later.trans (h : Later s t) (h' : Later t s') : Later s s' where
  generations g generation hg := by
    obtain ⟨middle, hm, hconfig, hkeeps⟩ := h.generations g generation hg
    obtain ⟨last, hl, hconfig', hkeeps'⟩ := h'.generations g middle hm
    refine ⟨last, hl, hconfig'.trans hconfig, ?_⟩
    intro n entry hentry
    obtain ⟨entry', hentry', hkey⟩ := hkeeps n entry hentry
    obtain ⟨entry'', hentry'', hkey'⟩ := hkeeps' n entry' hentry'
    exact ⟨entry'', hentry'', hkey'.trans hkey⟩
  recorded g key id hr := h'.recorded g key id (h.recorded g key id hr)
  authenticated g source id ha := h'.authenticated g source id (h.authenticated g source id ha)

theorem State.UserOf.later {found : Discovery} (h : s.UserOf g found) (hl : Later s s') :
    s'.UserOf g found := by
  obtain ⟨generation, hg, user, huser, hfound⟩ := h
  obtain ⟨generation', hg', hconfig, -⟩ := hl.generations g generation hg
  exact ⟨generation', hg', user, hconfig ▸ huser, hfound⟩

theorem State.HasEntry.later {key : SourceKey} (h : s.HasEntry g n key) (hl : Later s s') :
    s'.HasEntry g n key := by
  obtain ⟨generation, entry, hg, hentry, hkey⟩ := h
  obtain ⟨generation', hg', -, hkeeps⟩ := hl.generations g generation hg
  obtain ⟨entry', hentry', hkey'⟩ := hkeeps n entry hentry
  exact ⟨generation', entry', hg', hentry', hkey'.trans hkey⟩

theorem State.LookupFine.later {key : SourceKey} {lookup : Lookup}
    (h : s.LookupFine g key lookup) (hl : Later s s') : s'.LookupFine g key lookup := by
  cases lookup with
  | table => trivial
  | way now way => trivial
  | lastActive now n => exact State.HasEntry.later h hl
  | slots now n read =>
    exact ⟨State.HasEntry.later h.1 hl,
      fun packed hpacked hne => hl.recorded _ _ _ (h.2 packed hpacked hne)⟩

theorem State.StageFine.later {source : Source} {stage : DiscoverStage}
    (h : s.StageFine source stage) (hl : Later s s') : s'.StageFine source stage := by
  cases stage with
  | load => trivial
  | hint g => trivial
  | lookup g mandatory lookup => exact State.LookupFine.later h hl
  | trying g mandatory ids => exact fun id hid => hl.recorded _ _ _ (h id hid)
  | tried g result => exact fun found hfound => (h found hfound).later hl
  | current g found => exact State.UserOf.later h hl
  | returned result =>
    cases result with
    | error err => trivial
    | ok found => exact State.UserOf.later h hl

theorem Inv.later (h : Inv s) (hl : Later s s')
    (hholds : ∀ (g : ℕ) generation', s'.generations[g]? = some generation' →
      (∃ generation, s.generations[g]? = some generation ∧
        generation'.cache.table = generation.cache.table) ∨
      generation'.cache.table.Holds (s'.Recorded g))
    (hdiscovers : ∀ c ∈ s'.discovers, c ∈ s.discovers ∨ s'.StageFine c.source c.stage)
    (hauthentications : ∀ a ∈ s'.authentications, a ∈ s.authentications ∨
      ∀ g, a.generation = some g → s'.Authenticated g a.source a.userID)
    (hrecords : ∀ r ∈ s'.records, s.Authenticated r.generation r.source r.userID) : Inv s' where
  holds g generation' hg := by
    rcases hholds g generation' hg with ⟨generation, hold, htable⟩ | hnew
    · rw [htable]
      exact (h.holds g generation hold).mono (hl.recorded g)
    · exact hnew
  discovers c hc := (hdiscovers c hc).elim (fun hold => (h.discovers c hold).later hl) id
  authentications a ha := by
    rcases hauthentications a ha with hold | hnew
    · exact fun g hg => hl.authenticated _ _ _ (h.authentications a hold g hg)
    · exact hnew
  records r hr := hl.authenticated _ _ _ (hrecords r hr)

theorem later_of_eq (hg : s'.generations = s.generations) (hr : s'.records = s.records)
    (hd : ∀ c ∈ s.discovers, c ∈ s'.discovers) : Later s s' where
  generations g generation h := ⟨generation, hg ▸ h, rfl, Table.keeps_refl _⟩
  recorded g key id h := by
    unfold State.Recorded
    rw [hr]
    exact h
  authenticated g source id h := by
    obtain ⟨c, hc, hstage⟩ := h
    exact ⟨c, hd c hc, hstage⟩

theorem toDiscover_later (hc : s.discovers[n]? = some c)
    (hrunning : ∀ result, c.stage ≠ .returned result) (stage : DiscoverStage) :
    Later s (s.toDiscover n stage) where
  generations g generation h := ⟨generation, h, rfl, Table.keeps_refl _⟩
  recorded g key id h := h
  authenticated g source id := by
    rintro ⟨old, hold, hsource, found, hstage, hid⟩
    rcases mem_modify (n := n) (f := fun c => { c with stage }) hold with hmem | ⟨hn, -⟩
    · exact ⟨old, hmem, hsource, found, hstage, hid⟩
    · rw [hc] at hn
      cases hn
      exact absurd hstage (hrunning _)

theorem toRecord_later {stage : RecordStage} (hr : s.records[n]? = some r)
    (hwritten : r.written = true → RecordCall.written { r with stage } = true) :
    Later s (s.toRecord n stage) where
  generations g generation h := ⟨generation, h, rfl, Table.keeps_refl _⟩
  recorded g key id := by
    rintro ⟨old, hold, hgeneration, hkey, hid, hw⟩
    rcases mem_modify (n := n) (f := fun r => { r with stage }) hold with hmem | ⟨hn, hmem⟩
    · exact ⟨old, hmem, hgeneration, hkey, hid, hw⟩
    · rw [hr] at hn
      cases hn
      exact ⟨_, hmem, hgeneration, hkey, hid, hwritten hw⟩
  authenticated g source id h := h

theorem setCache_later {generation : Generation} {cache : SourceUserCache}
    (hg : s.generations[g]? = some generation)
    (hkeeps : generation.cache.table.Keeps cache.table) : Later s (s.setCache g cache) where
  generations m old hold := by
    refine ⟨if g = m then { old with cache } else old,
      by simp [State.setCache, List.getElem?_modify, hold], ?_⟩
    split_ifs with hm
    · subst hm
      rw [hg] at hold
      cases hold
      exact ⟨rfl, hkeeps⟩
    · exact ⟨rfl, Table.keeps_refl _⟩
  recorded g key id h := h
  authenticated g source id h := h

theorem setCache_table {m : ℕ} {cache : SourceUserCache} {generation' : Generation}
    (h : (s.setCache g cache).generations[m]? = some generation') :
    (∃ generation, s.generations[m]? = some generation ∧
        generation'.cache.table = generation.cache.table) ∨
      g = m ∧ generation'.cache.table = cache.table := by
  simp only [State.setCache, List.getElem?_modify] at h
  obtain ⟨generation, hg, rfl⟩ := Option.map_eq_some_iff.mp h
  split_ifs with hm
  · exact Or.inr ⟨hm, rfl⟩
  · exact Or.inl ⟨generation, hg, rfl⟩

theorem setCache_self {generation : Generation} (hg : s.generations[g]? = some generation) :
    s.setCache g generation.cache = s := by
  have hsame : (s.generations.modify g fun x => { x with cache := generation.cache }) =
      s.generations := by
    refine List.ext_getElem? fun m => ?_
    rw [List.getElem?_modify]
    by_cases hm : g = m
    · subst hm
      simp [hg]
    · simp [hm]
  rw [State.setCache, hsame]

theorem toDiscover_discovers {stage : DiscoverStage} (hc : s.discovers[n]? = some c)
    (hfine : s'.StageFine c.source stage) :
    ∀ d ∈ (s.toDiscover n stage).discovers, d ∈ s.discovers ∨ s'.StageFine d.source d.stage := by
  intro d hd
  rcases mem_of_modify hd with hold | ⟨old, hn, rfl⟩
  · exact Or.inl hold
  · rw [hc] at hn
    cases hn
    exact Or.inr hfine

theorem toRecord_records {cache : SourceUserCache} {stage : RecordStage} (h : Inv s) :
    ∀ r ∈ ((s.setCache g cache).toRecord n stage).records,
      s.Authenticated r.generation r.source r.userID := by
  intro r hr
  rcases mem_of_modify hr with hold | ⟨old, hn, rfl⟩
  · exact h.records r hold
  · exact h.records old (List.mem_of_getElem? hn)

/-! ## One step -/

theorem lookupStep_fine {generation : Generation} {source : Source} {lookup : Lookup} (h : Inv s)
    (hg : s.generations[g]? = some generation) (hfine : s.LookupFine g source.key lookup)
    {mandatory : Bool} {next : Lookup ⊕ CachedIDs}
    (hstep : lookupStep bucketIndex generation.cache source.key tick lookup = some next) :
    s.StageFine source (next.elim (.lookup g mandatory) (.trying g mandatory)) := by
  have hnone : s.StageFine source (.trying g mandatory noIDs) := by
    intro id hid
    cases hid
  cases lookup with
  | table =>
    simp only [lookupStep] at hstep
    split_ifs at hstep
    · cases hstep
      exact hnone
    · cases hstep
      trivial
  | way now way =>
    simp only [lookupStep] at hstep
    split_ifs at hstep with hway
    · split at hstep
      · cases hstep
        trivial
      · rename_i n _
        obtain ⟨entry, hentry, rfl⟩ := Option.map_eq_some_iff.mp hstep
        split_ifs with hkey
        · trivial
        · exact ⟨generation, entry, hg, hentry, not_not.mp hkey⟩
    · cases hstep
      exact hnone
  | lastActive now n =>
    obtain ⟨entry, hentry, rfl⟩ := Option.map_eq_some_iff.mp hstep
    split_ifs
    · exact hnone
    · exact ⟨hfine, by simp⟩
  | slots now n read =>
    simp only [lookupStep] at hstep
    split_ifs at hstep with hread
    · cases hstep
      intro id hid
      obtain ⟨hne, packed, hpacked, rfl⟩ := mem_lookupResult hid
      exact hfine.2 packed hpacked hne
    · obtain ⟨entry, hentry, hslot⟩ := Option.bind_eq_some_iff.mp hstep
      obtain ⟨packed, hpacked, rfl⟩ := Option.map_eq_some_iff.mp hslot
      refine ⟨hfine.1, ?_⟩
      intro old hold hne
      rcases List.mem_append.mp hold with hold | hnew
      · exact hfine.2 old hold hne
      · obtain rfl := List.mem_singleton.mp hnew
        -- the entry is that of the key, whatever its way points to now
        obtain ⟨generation', entry', hg', hentry', hkey⟩ := hfine.1
        rw [hg] at hg'
        cases hg'
        rw [hentry] at hentry'
        cases hentry'
        exact hkey ▸ h.holds g generation hg n entry hentry read.length old hpacked hne

theorem tryState_userOf {generation : Generation} {ids : CachedIDs} {encryptedMeta : List UInt8}
    {nonce : Nonce} {source : Source} {mandatory : Bool} {found : Found}
    (hg : s.generations[g]? = some generation)
    (h : (tryState tryDecrypt (generation.state ids) encryptedMeta nonce source mandatory).found =
      some found) : s.UserOf g found.1 := by
  have hscan : (tryState tryDecrypt (generation.state ids) encryptedMeta nonce source
      mandatory).found.map Prod.fst = _ := tryState_found source
  rw [h] at hscan
  obtain ⟨user, hmem, htry⟩ := List.exists_of_findSome?_eq_some hscan.symm
  obtain ⟨opened, -, hopened⟩ := Option.map_eq_some_iff.mp htry
  refine ⟨generation, hg, user, (mem_allCandidates.mp hmem).1, ?_⟩
  rw [← hopened]
  exact ⟨rfl, rfl, rfl⟩

structure Moves (s : State) (c : DiscoverCall) (stage : DiscoverStage)
    (granted : List Authentication) : Prop where
  fine : Inv s → s.StageFine c.source c.stage → s.StageFine c.source stage
  current : ∀ g found, stage = .current g found →
    c.stage = .tried g (some found) ∧ (c.requireCurrent = true → s.published = some g)
  returned : ∀ g found, stage = .returned (.ok (g, found)) →
    ∃ result, c.stage = .current g result ∧ found = named result.1
  granted : ∀ a ∈ granted, ∃ g found, stage = .returned (.ok (g, found)) ∧
    a.generation = some g ∧ a.source = c.source ∧ a.userID = found.userID

def State.advance (s : State) (n : ℕ) (stage : DiscoverStage) (granted : List Authentication) :
    State :=
  { s.toDiscover n stage with authentications := s.authentications ++ granted }

theorem advance_nil (stage : DiscoverStage) : s.advance n stage [] = s.toDiscover n stage := by
  simp [State.advance, State.toDiscover]

theorem Moves.quiet {stage : DiscoverStage}
    (hfine : Inv s → s.StageFine c.source c.stage → s.StageFine c.source stage)
    (hcurrent : ∀ g found, stage ≠ .current g found)
    (hreturned : ∀ result, stage ≠ .returned (.ok result)) : Moves s c stage [] where
  fine := hfine
  current g found h := absurd h (hcurrent g found)
  returned g found h := absurd h (hreturned _)
  granted a ha := by cases ha

theorem Moves.fail (err : String) : Moves s c (.returned (.error err)) [] :=
  .quiet (fun _ _ => trivial) (by simp) (by simp)

theorem discoverStep_moves (hstep : discoverStep bucketIndex s n c tick tryDecrypt = some s') :
    (∀ result, c.stage ≠ .returned result) ∧
      ∃ stage granted, Moves s c stage granted ∧ s' = s.advance n stage granted := by
  cases hstage : c.stage with
  | load =>
    refine ⟨by simp, ?_⟩
    simp only [discoverStep, hstage] at hstep
    split at hstep
    · cases hstep
      exact ⟨_, [], Moves.fail _, (advance_nil _).symm⟩
    · rename_i g _
      obtain ⟨generation, -, rfl⟩ := Option.map_eq_some_iff.mp hstep
      split_ifs
      · exact ⟨_, [], Moves.fail _, (advance_nil _).symm⟩
      · exact ⟨.hint g, [], .quiet (fun _ _ => trivial) (by simp) (by simp), (advance_nil _).symm⟩
  | hint g =>
    refine ⟨by simp, ?_⟩
    simp only [discoverStep, hstage] at hstep
    split_ifs at hstep
    · cases hstep
      exact ⟨.lookup g s.hintMandatory .table, [],
        .quiet (fun _ _ => trivial) (by simp) (by simp), (advance_nil _).symm⟩
    · cases hstep
      refine ⟨_, [], .quiet ?_ (by simp) (by simp), (advance_nil _).symm⟩
      intro _ _ id hid
      cases hid
  | lookup g mandatory lookup =>
    refine ⟨by simp, ?_⟩
    simp only [discoverStep, hstage] at hstep
    obtain ⟨generation, hg, hlookup⟩ := Option.bind_eq_some_iff.mp hstep
    obtain ⟨next, hnext, rfl⟩ := Option.map_eq_some_iff.mp hlookup
    refine ⟨next.elim (.lookup g mandatory) (.trying g mandatory), [], .quiet ?_ ?_ ?_, ?_⟩
    · intro h hfine
      rw [hstage] at hfine
      exact lookupStep_fine h hg hfine hnext
    · cases next <;> simp
    · cases next <;> simp
    · cases next <;> exact (advance_nil _).symm
  | trying g mandatory ids =>
    refine ⟨by simp, ?_⟩
    simp only [discoverStep, hstage] at hstep
    obtain ⟨generation, hg, htry⟩ := Option.bind_eq_some_iff.mp hstep
    split at htry
    · cases htry
    · cases htry
      refine ⟨_, [], .quiet ?_ (by simp) (by simp), (advance_nil _).symm⟩
      intro _ _ found hfound
      exact tryState_userOf hg hfound
  | tried g result =>
    refine ⟨by simp, ?_⟩
    simp only [discoverStep, hstage] at hstep
    split_ifs at hstep with hagain
    · cases hstep
      exact ⟨.load, [], .quiet (fun _ _ => trivial) (by simp) (by simp), (advance_nil _).symm⟩
    · split at hstep
      · cases hstep
        exact ⟨_, [], Moves.fail _, (advance_nil _).symm⟩
      · rename_i found
        cases hstep
        refine ⟨.current g found, [], ⟨?_, ?_, by simp, by simp⟩, (advance_nil _).symm⟩
        · intro _ hfine
          rw [hstage] at hfine
          exact hfine found rfl
        · intro g' found' heq
          cases heq
          refine ⟨hstage, ?_⟩
          intro hcurrent
          simpa [hcurrent] using hagain
  | current g found =>
    refine ⟨by simp, ?_⟩
    simp only [discoverStep, hstage] at hstep
    cases hstep
    refine ⟨.returned (.ok (g, named found.1)), _, ⟨?_, by simp, ?_, ?_⟩, rfl⟩
    · intro _ hfine
      rw [hstage] at hfine
      exact hfine
    · intro g' found' heq
      cases heq
      exact ⟨found, hstage, rfl⟩
    · intro a ha
      cases List.mem_singleton.mp ha
      exact ⟨g, named found.1, rfl, rfl, rfl, rfl⟩
  | returned result =>
    simp only [discoverStep, hstage] at hstep
    cases hstep

theorem discoverStep_inv (h : Inv s) (hc : s.discovers[n]? = some c)
    (hstep : discoverStep bucketIndex s n c tick tryDecrypt = some s') : Inv s' := by
  obtain ⟨hrunning, stage, granted, hmoves, rfl⟩ := discoverStep_moves hstep
  have hold := h.discovers c (List.mem_of_getElem? hc)
  have hl : Later s (s.advance n stage granted) := by
    have hlater := toDiscover_later hc hrunning stage
    exact ⟨hlater.generations, hlater.recorded, hlater.authenticated⟩
  have hmem : { c with stage } ∈ (s.advance n stage granted).discovers :=
    List.mem_of_getElem? (i := n) (by simp [State.advance, State.toDiscover, hc])
  refine h.later hl (fun g generation hg => Or.inl ⟨generation, hg, rfl⟩)
    (toDiscover_discovers hc ((hmoves.fine h hold).later hl)) ?_ h.records
  intro a ha
  rcases List.mem_append.mp ha with hold | hnew
  · exact Or.inl hold
  · refine Or.inr fun g hg => ?_
    obtain ⟨g', found, hstage, hg', hsource, hid⟩ := hmoves.granted a hnew
    rw [hg] at hg'
    cases hg'
    exact ⟨_, hmem, hsource.symm, found, hstage, hid.symm⟩

theorem Inv.recordStep {generation : Generation} {cache : SourceUserCache} {stage : RecordStage}
    (h : Inv s) (hg : s.generations[g]? = some generation) (hr : s.records[n]? = some r)
    (hwritten : r.written = true → RecordCall.written { r with stage } = true)
    (hkeeps : generation.cache.table.Keeps cache.table)
    (hholds : generation.cache.table.Holds (((s.setCache g cache).toRecord n stage).Recorded g) →
      cache.table.Holds (((s.setCache g cache).toRecord n stage).Recorded g)) :
    Inv ((s.setCache g cache).toRecord n stage) := by
  have hl : Later s ((s.setCache g cache).toRecord n stage) :=
    (setCache_later hg hkeeps).trans (toRecord_later hr hwritten)
  refine h.later hl ?_ (fun c hc => Or.inl hc) (fun a ha => Or.inl ha) (toRecord_records h)
  intro m generation' hm
  rcases setCache_table hm with hold | ⟨rfl, htable⟩
  · exact Or.inl hold
  · exact Or.inr (htable ▸ hholds ((h.holds g generation hg).mono (hl.recorded g)))

theorem recordStep_inv (h : Inv s) (hr : s.records[n]? = some r)
    (hstep : recordStep bucketIndex s n r tick = some s') : Inv s' := by
  obtain ⟨generation, hg, hstep⟩ := Option.bind_eq_some_iff.mp hstep
  have hkeeps := Table.keeps_refl generation.cache.table
  have hunwritten : r.written ≠ true → ∀ stage, r.written = true →
      RecordCall.written { r with stage } = true := fun hnot _ hw => absurd hw hnot
  cases hstage : r.stage with
  | table =>
    have hnot : r.written ≠ true := by simp [RecordCall.written, hstage]
    have hmove : ∀ stage, Inv (s.toRecord n stage) := by
      intro stage
      have hinv := h.recordStep hg hr (hunwritten hnot stage) hkeeps id
      rwa [setCache_self hg] at hinv
    simp only [hstage] at hstep
    split_ifs at hstep
    · cases hstep
      exact hmove _
    · cases hstep
      exact hmove _
  | lock =>
    have hnot : r.written ≠ true := by simp [RecordCall.written, hstage]
    simp only [hstage] at hstep
    split_ifs at hstep
    cases hstep
    exact h.recordStep hg hr (hunwritten hnot _) hkeeps id
  | write =>
    have hnot : r.written ≠ true := by simp [RecordCall.written, hstage]
    simp only [hstage] at hstep
    cases hstep
    refine h.recordStep hg hr (hunwritten hnot _) Table.record_keeps ?_
    intro hholds
    have hmem : ∀ stage, { r with stage } ∈ (s.toRecord n stage).records := by
      intro stage
      exact List.mem_of_getElem? (i := n) (by simp [State.toRecord, hr])
    exact hholds.record ⟨_, hmem _, rfl, rfl, rfl, written_afterWrite⟩
  | refresh entry now =>
    simp only [hstage] at hstep
    cases hstep
    exact h.recordStep hg hr (fun _ => rfl) Table.refresh_keeps Table.Holds.refresh
  | unlock =>
    simp only [hstage] at hstep
    cases hstep
    exact h.recordStep hg hr (fun _ => rfl) hkeeps id
  | returned written =>
    simp only [hstage] at hstep
    cases hstep

theorem setUsers_inv (h : Inv s) (users : UserMap) (published : Option ℕ) (retiring : List ℕ) :
    Inv { s with generations := s.generations ++ [{ config := users }], published, retiring } := by
  have hl : Later s
      { s with generations := s.generations ++ [{ config := users }], published, retiring } :=
    { generations := fun g generation hg =>
        have hlt := (List.getElem?_eq_some_iff.mp hg).1
        ⟨generation, (List.getElem?_append_left hlt).trans hg, rfl, Table.keeps_refl _⟩
      recorded := fun _ _ _ hr => hr
      authenticated := fun _ _ _ ha => ha }
  refine h.later hl ?_ (fun c hc => Or.inl hc) (fun a ha => Or.inl ha) h.records
  intro g generation hg
  change (s.generations ++ [_])[g]? = some generation at hg
  rw [List.getElem?_append] at hg
  split_ifs at hg
  · exact Or.inl ⟨generation, hg, rfl⟩
  · obtain rfl := List.mem_singleton.mp (List.mem_of_getElem? hg)
    exact Or.inr Table.holds_empty

theorem retire_inv {generation : Generation} (h : Inv s)
    (hg : s.generations[g]? = some generation) (retiring : List ℕ) :
    Inv { s.setCache g { generation.cache with retired := true } with retiring } := by
  have hkeeps : generation.cache.table.Keeps { generation.cache with retired := true }.table :=
    Table.keeps_refl _
  have hl := setCache_later hg hkeeps
  refine h.later ⟨hl.generations, hl.recorded, hl.authenticated⟩ ?_ (fun c hc => Or.inl hc)
    (fun a ha => Or.inl ha) h.records
  intro m generation' hm
  rcases setCache_table hm with hold | ⟨rfl, htable⟩
  · exact Or.inl hold
  · exact Or.inl ⟨generation, hg, htable⟩

theorem Inv.grant {authentications : List Authentication} {records : List RecordCall} (h : Inv s)
    (ha : ∀ a ∈ authentications, ∀ g, a.generation = some g →
      s.Authenticated g a.source a.userID)
    (hkept : ∀ r ∈ s.records, r ∈ records)
    (hr : ∀ r ∈ records, s.Authenticated r.generation r.source r.userID) :
    Inv { s with authentications, records } := by
  have hl : Later s { s with authentications, records } :=
    { generations := fun g generation hg => ⟨generation, hg, rfl, Table.keeps_refl _⟩
      recorded := fun g key id => by
        rintro ⟨r, hr, hrecorded⟩
        exact ⟨r, hkept r hr, hrecorded⟩
      authenticated := fun _ _ _ ha => ha }
  exact h.later hl (fun g generation hg => Or.inl ⟨generation, hg, rfl⟩)
    (fun c hc => Or.inl hc) (fun a hmem => Or.inr (ha a hmem)) hr

theorem record_inv {i : ℕ} {a : Authentication} (h : Inv s) (ha : s.authentications[i]? = some a)
    (hg : a.generation = some g) {started : List RecordCall}
    (hstarted : ∀ r ∈ started, r = ⟨g, a.source, a.userID, .table⟩) :
    Inv { s with
      authentications := s.authentications.modify i fun a => { a with generation := none }
      records := s.records ++ started } := by
  refine h.grant ?_ (fun r hr => List.mem_append_left _ hr) ?_
  · intro b hb g' hg'
    rcases mem_of_modify hb with hold | ⟨old, -, rfl⟩
    · exact h.authentications b hold g' hg'
    · cases hg'
  · intro r hr
    rcases List.mem_append.mp hr with hold | hnew
    · exact h.records r hold
    · rw [hstarted r hnew]
      exact h.authentications a (List.mem_of_getElem? ha) g hg

theorem next_inv {e : Event} (h : Inv s) (hstep : next bucketIndex s e = some s') : Inv s' := by
  cases e with
  | setUsers users =>
    cases hstep
    exact setUsers_inv h users _ _
  | retire g =>
    simp only [next] at hstep
    split_ifs at hstep
    obtain ⟨generation, hg, rfl⟩ := Option.map_eq_some_iff.mp hstep
    exact retire_inv h hg _
  | setHintMandatory mandatory =>
    cases hstep
    have hl : Later s { s with hintMandatory := mandatory } := later_of_eq rfl rfl fun c hc => hc
    exact h.later hl (fun g generation hg => Or.inl ⟨generation, hg, rfl⟩)
      (fun c hc => Or.inl hc) (fun a ha => Or.inl ha) h.records
  | discover encryptedMetadata source requireCurrent =>
    cases hstep
    refine h.later (later_of_eq rfl rfl fun c hc => List.mem_append_left _ hc)
      (fun g generation hg => Or.inl ⟨generation, hg, rfl⟩) ?_ (fun a ha => Or.inl ha) h.records
    intro c hc
    rcases List.mem_append.mp hc with hold | hnew
    · exact Or.inl hold
    · cases List.mem_singleton.mp hnew
      right
      cases BlockCipher.splitNonce encryptedMetadata <;> trivial
  | discoverStep n tick tryDecrypt =>
    obtain ⟨c, hc, hstep⟩ := Option.bind_eq_some_iff.mp hstep
    exact discoverStep_inv h hc hstep
  | copy i =>
    obtain ⟨a, ha, rfl⟩ := Option.map_eq_some_iff.mp hstep
    refine h.grant ?_ (fun r hr => hr) h.records
    intro b hb
    rcases List.mem_append.mp hb with hold | hnew
    · exact h.authentications b hold
    · cases List.mem_singleton.mp hnew
      exact h.authentications a (List.mem_of_getElem? ha)
  | record i =>
    obtain ⟨a, ha, rfl⟩ := Option.map_eq_some_iff.mp hstep
    split
    · exact h
    · rename_i g hg
      split_ifs with hvalid hsource
      · exact record_inv h ha hg fun r hr => List.mem_singleton.mp hr
      · exact record_inv h ha hg fun r hr => by cases hr
      · exact h
  | recordStep n tick =>
    obtain ⟨r, hr, hstep⟩ := Option.bind_eq_some_iff.mp hstep
    exact recordStep_inv h hr hstep

theorem inv_of_reaches {es : List Event} {outs : List Empty}
    (h : Machine.Reaches (step bucketIndex) Machine.Free {} es outs s) : Inv s := by
  refine h.invariant (I := fun s _ => Inv s)
    ⟨by simp, by simp, by simp, by simp⟩ ?_
  intro s outs e s' out hinv _ hstep
  obtain ⟨t, ht, heq⟩ := Option.map_eq_some_iff.mp hstep
  cases heq
  exact next_inv hinv ht

/-! ## The moment of the second load -/

def State.Tried (s : State) (n g : ℕ) (found : Discovery) : Prop :=
  ∃ c result, s.discovers[n]? = some c ∧ c.stage = .tried g (some result) ∧
    found = named result.1

/-- The call wants a current user and has loaded the published generation again. -/
def State.Confirmed (s : State) (n g : ℕ) (found : Discovery) : Prop :=
  ∃ c, s.discovers[n]? = some c ∧ c.requireCurrent = true ∧
    ((∃ result, c.stage = .current g result ∧ found = named result.1) ∨
      c.stage = .returned (.ok (g, found)))

theorem recordStep_discovers (hstep : recordStep bucketIndex s n r tick = some s') :
    s'.discovers = s.discovers := by
  obtain ⟨generation, -, hstep⟩ := Option.bind_eq_some_iff.mp hstep
  simp only at hstep
  split at hstep
  · split_ifs at hstep
    · cases hstep
      rfl
    · cases hstep
      rfl
  · split_ifs at hstep
    cases hstep
    rfl
  · cases hstep
    rfl
  · cases hstep
    rfl
  · cases hstep
    rfl
  · cases hstep

theorem next_discovers {e : Event} (hstep : next bucketIndex s e = some s') :
    s'.discovers = s.discovers ∨
    (∃ c : DiscoverCall, s'.discovers = s.discovers ++ [c] ∧
      (∀ g found, c.stage ≠ .current g found) ∧
      ∀ result, c.stage ≠ .returned (.ok result)) ∨
    ∃ (n : ℕ) (c : DiscoverCall) (stage : DiscoverStage) (granted : List Authentication),
      s.discovers[n]? = some c ∧ Moves s c stage granted ∧
      s'.discovers = s.discovers.modify n fun c => { c with stage } := by
  cases e with
  | setUsers users =>
    cases hstep
    exact Or.inl rfl
  | retire g =>
    simp only [next] at hstep
    split_ifs at hstep
    obtain ⟨generation, -, rfl⟩ := Option.map_eq_some_iff.mp hstep
    exact Or.inl rfl
  | setHintMandatory mandatory =>
    cases hstep
    exact Or.inl rfl
  | discover encryptedMetadata source requireCurrent =>
    cases hstep
    refine Or.inr (Or.inl ⟨_, rfl, ?_⟩)
    cases BlockCipher.splitNonce encryptedMetadata <;> simp
  | discoverStep n tick tryDecrypt =>
    obtain ⟨c, hc, hstep⟩ := Option.bind_eq_some_iff.mp hstep
    obtain ⟨-, stage, granted, hmoves, rfl⟩ := discoverStep_moves hstep
    exact Or.inr (Or.inr ⟨n, c, stage, granted, hc, hmoves, rfl⟩)
  | copy i =>
    obtain ⟨a, -, rfl⟩ := Option.map_eq_some_iff.mp hstep
    exact Or.inl rfl
  | record i =>
    obtain ⟨a, -, rfl⟩ := Option.map_eq_some_iff.mp hstep
    left
    split
    · rfl
    · split_ifs <;> rfl
  | recordStep n tick =>
    obtain ⟨r, -, hstep⟩ := Option.bind_eq_some_iff.mp hstep
    exact Or.inl (recordStep_discovers hstep)

theorem confirmed_step {e : Event} {found : Discovery} (hstep : next bucketIndex s e = some s')
    (h : s'.Confirmed n g found) :
    s.Confirmed n g found ∨ s.Tried n g found ∧ s.published = some g := by
  obtain ⟨c', hc', hcurrent, hstage⟩ := h
  rcases next_discovers hstep with hsame | ⟨c, hnew, hnot, hnot'⟩ | ⟨m, c, stage, granted, hc,
    hmoves, hmodify⟩
  · rw [hsame] at hc'
    exact Or.inl ⟨c', hc', hcurrent, hstage⟩
  · rw [hnew, List.getElem?_append] at hc'
    split_ifs at hc'
    · exact Or.inl ⟨c', hc', hcurrent, hstage⟩
    · obtain rfl := List.mem_singleton.mp (List.mem_of_getElem? hc')
      rcases hstage with ⟨result, hstage, -⟩ | hstage
      · exact absurd hstage (hnot _ _)
      · exact absurd hstage (hnot' _)
  · rw [hmodify, List.getElem?_modify] at hc'
    obtain ⟨old, hold, rfl⟩ := Option.map_eq_some_iff.mp hc'
    split_ifs at hcurrent hstage with hm
    · subst hm
      rw [hc] at hold
      cases hold
      rcases hstage with ⟨result, hstage, hfound⟩ | hstage
      · obtain ⟨htried, hpublished⟩ := hmoves.current g result hstage
        exact Or.inr ⟨⟨c, result, hc, htried, hfound⟩, hpublished hcurrent⟩
      · obtain ⟨result, hresult, hfound⟩ := hmoves.returned g found hstage
        exact Or.inl ⟨c, hc, hcurrent, Or.inl ⟨result, hresult, hfound⟩⟩
    · exact Or.inl ⟨old, hold, hcurrent, hstage⟩

/-! ## Any interleaving -/

def State.PublishedNames (s : State) (name : String) : Prop :=
  ∃ g generation, s.published = some g ∧ s.generations[g]? = some generation ∧
    generation.config.Names name

/-- The ID was recorded for the key by an authentication against the generation, and it stands for
the user of that authentication. -/
def State.RecordedUser (s : State) (g : ℕ) (key : SourceKey) (id : UInt32) : Prop :=
  ∃ r ∈ s.records, r.generation = g ∧ r.source.key = key ∧ r.userID = id ∧ r.written = true ∧
    ∃ c ∈ s.discovers, c.source = r.source ∧
      ∃ found, c.stage = .returned (.ok (g, found)) ∧ found.userID = id ∧
        ∃ generation user, s.generations[g]? = some generation ∧
          (∀ ids, userByID (generation.state ids) id = some user) ∧
          found.userName = user.name ∧ found.policy = user.policy

theorem State.UserOf.publishedNames {found : Discovery} (h : s.UserOf g found)
    (hg : s.published = some g) : s.PublishedNames found.userName := by
  obtain ⟨generation, hgeneration, user, huser, -, hname, -⟩ := h
  exact ⟨g, generation, hg, hgeneration, hname ▸ UserMap.names_of_mem_compile huser⟩

theorem State.Tried.userOf {found : Discovery} (h : s.Tried n g found) (hinv : Inv s) :
    s.UserOf g found := by
  obtain ⟨c, result, hc, hstage, rfl⟩ := h
  have hfine := hinv.discovers c (List.mem_of_getElem? hc)
  rw [hstage] at hfine
  exact hfine result rfl

theorem State.Recorded.user {key : SourceKey} {id : UInt32} (h : s.Recorded g key id)
    (hinv : Inv s) : s.RecordedUser g key id := by
  obtain ⟨r, hr, rfl, hkey, rfl, hwritten⟩ := h
  obtain ⟨c, hc, hsource, found, hstage, hid⟩ := hinv.records r hr
  have hfine := hinv.discovers c hc
  rw [hstage] at hfine
  obtain ⟨generation, hg, user, huser, huserID, hname, hpolicy⟩ := hfine
  refine ⟨r, hr, rfl, hkey, rfl, hwritten, c, hc, hsource, found, hstage, hid, generation, user,
    hg, ?_, hname, hpolicy⟩
  intro ids
  exact userByID_eq_some.mpr ⟨huser, huserID.symm.trans hid⟩

/-- A `Discover` that requires a current user returns one of the generation that was published at
a moment when the call had tried it and had not returned, and nobody whom no map has named since
the call began. The cache of a generation gives it users of that generation that were recorded
there. -/
theorem discover_and_lookup_current {es : List Event} {outs : List Empty}
    (h : Machine.Reaches (step bucketIndex) Machine.Free {} es outs s) :
    (∀ n c g found, s.discovers[n]? = some c → c.requireCurrent = true →
      c.stage = .returned (.ok (g, found)) →
      Machine.Visited (step bucketIndex) {} es
        (fun t => t.Tried n g found ∧ t.published = some g ∧ t.UserOf g found) ∧
      ∀ name, ¬Machine.Visited (step bucketIndex) {} es
        (fun t => n < t.discovers.length ∧ t.PublishedNames name) → found.userName ≠ name) ∧
    ∀ c ∈ s.discovers, ∀ g mandatory ids, c.stage = .trying g mandatory ids →
      ∀ id ∈ ids.val, s.RecordedUser g c.source.key id := by
  constructor
  · intro n c g found hc hcurrent hstage
    have hvisited : Machine.Visited (step bucketIndex) {} es
        fun t => t.Tried n g found ∧ t.published = some g := by
      refine h.since (R := fun t => t.Confirmed n g found) ?_ ?_ ⟨c, hc, hcurrent, Or.inr hstage⟩
      · rintro ⟨c, hc, -⟩
        cases hc
      · intro t e t' out hstep hconfirmed
        obtain ⟨u, hu, heq⟩ := Option.map_eq_some_iff.mp hstep
        cases heq
        exact confirmed_step hu hconfirmed
    have huser := hvisited.imp fun _ _ t hreach ⟨htried, hg⟩ =>
      (⟨htried, hg, htried.userOf (inv_of_reaches hreach)⟩ :
        t.Tried n g found ∧ t.published = some g ∧ t.UserOf g found)
    refine ⟨huser, ?_⟩
    rintro name hnever rfl
    refine hnever (huser.imp ?_)
    rintro _ _ t - ⟨⟨c, result, hc, -⟩, hg, huser⟩
    exact ⟨(List.getElem?_eq_some_iff.mp hc).1, huser.publishedNames hg⟩
  · intro c hc g mandatory ids hstage id hid
    have hinv := inv_of_reaches h
    have hfine := hinv.discovers c hc
    rw [hstage] at hfine
    exact State.Recorded.user (hfine id hid) hinv

def oneUser (name : String) : UserMap where
  entries := [(name, some { name, hashedPassword := String.ofList (List.replicate 64 '0') })]
  keys_nodup := List.nodup_singleton _
  size_lt := by simp

def openAny : Decryptors := fun user _ =>
  some (⟨⟨Aead.xchacha20Poly1305 user.credential.toList, rfl, "", false, none⟩, rfl⟩, [])

def someSource : Source := ⟨Vector.replicate 16 1, true⟩

/-- The users are reloaded when the first call has tried the old ones. It tries the new ones and
is recorded, and the second call looks it up. -/
def reloadRun : List Event :=
  List.flatten [
    [.setUsers (oneUser "old"), .discover (List.replicate 24 0) someSource true],
    List.replicate 9 (.discoverStep 0 7 openAny),
    [.setUsers (oneUser "new")],
    List.replicate 12 (.discoverStep 0 7 openAny),
    [.retire 0, .record 0],
    List.replicate 4 (.recordStep 0 7),
    [.discover (List.replicate 24 0) someSource true],
    List.replicate 22 (.discoverStep 1 8 openAny)]

def State.reloaded (s : State) : Bool :=
  match s.discovers with
  | [⟨_, _, true, .returned (.ok (1, found))⟩, ⟨_, _, _, .trying 1 false ids⟩] =>
    found.userName = "new" ∧ ids.val = [1]
  | _ => false

theorem reloaded_user_current : ∃ (s : State) (c c' : DiscoverCall) (found : Discovery)
    (ids : CachedIDs),
    Machine.Reaches (step firstBucket) Machine.Free {} reloadRun [] s ∧
    s.discovers[0]? = some c ∧ c.requireCurrent = true ∧ c.stage = .returned (.ok (1, found)) ∧
    found.userName = "new" ∧
    Machine.Visited (step firstBucket) {} reloadRun
      (fun t => t.Tried 0 1 found ∧ t.published = some 1 ∧ t.UserOf 1 found) ∧
    s.discovers[1]? = some c' ∧ c'.stage = .trying 1 false ids ∧ ids.val = [1] ∧
    s.RecordedUser 1 c'.source.key 1 := by
  have hrun : (Machine.run (step firstBucket) {} reloadRun).any
      (fun run => run.1.reloaded) = true := by decide +kernel
  obtain ⟨⟨s, outs⟩, hrun, hreloaded⟩ := (Option.any_eq_true _ _).mp hrun
  obtain rfl : outs = [] := List.eq_nil_iff_forall_not_mem.mpr fun o => o.elim
  have hreach := Machine.reaches_of_run hrun
  obtain ⟨c, c', hcalls, hfirst, found, hstage, hname, ids, hlookup, hids⟩ :
      ∃ (c c' : DiscoverCall), s.discovers = [c, c'] ∧ c.requireCurrent = true ∧ ∃ found,
        c.stage = .returned (.ok (1, found)) ∧ found.userName = "new" ∧ ∃ ids,
          c'.stage = .trying 1 false ids ∧ ids.val = [1] := by
    simp only [State.reloaded] at hreloaded
    split at hreloaded
    · rename_i found _ _ _ ids hcalls
      obtain ⟨hname, hids⟩ := of_decide_eq_true hreloaded
      exact ⟨_, _, hcalls, rfl, found, rfl, hname, ids, rfl, hids⟩
    · cases hreloaded
  obtain ⟨hcurrent, hlookups⟩ := discover_and_lookup_current hreach
  have hc : s.discovers[0]? = some c := by rw [hcalls]; rfl
  have hc' : s.discovers[1]? = some c' := by rw [hcalls]; rfl
  exact ⟨s, c, c', found, ids, hreach, hc, hfirst, hstage, hname,
    (hcurrent 0 c 1 found hc hfirst hstage).1, hc', hlookup, hids,
    hlookups c' (List.mem_of_getElem? hc') 1 false ids hlookup 1 (by simp [hids])⟩

end Mieru.ServerUser.Reload
