import Mathlib.Data.List.Sort
import Mathlib.Data.String.Basic
import Mieru.Lib.JsonObject
import Mieru.ServerUser.Quota

/-! # Metrics as JSON

The groups are written in the order of their names. Groups of users stand in an object of their
own, which is opened before the first and closed behind the last group of a run of them. Names
are put between quotes as they are. -/
namespace Mieru.MetricsJson

open Json
open ServerUser (validateServerConfigSingleUser userMetricGroup)

/-! ## What the server writes -/

def userMetricGroupPrefix : List Char := "user - ".toList

/-- The metrics in the order in which `Range` visits them. -/
structure MetricGroup where
  name : String
  metrics : List (String × Int64)
  distinct : (metrics.map Prod.fst).Nodup

namespace MetricGroup

def isUser (g : MetricGroup) : Bool := userMetricGroupPrefix.isPrefixOf g.name.toList

def userName (g : MetricGroup) : List Char := g.name.toList.drop userMetricGroupPrefix.length

def names (g : MetricGroup) : List String := (g.metrics.map Prod.fst).insertionSort (· ≤ ·)

def value (g : MetricGroup) (name : String) : Int64 := (g.metrics.lookup name).getD 0

def marshalNames (g : MetricGroup) : List String → List Char
  | [] => []
  | name :: rest =>
    '"' :: (name.toList ++ '"' :: ':' :: ' ' :: decimal (g.value name).toInt) ++
      ((if rest ≠ [] then [','] else []) ++ g.marshalNames rest)

def marshalGroup (g : MetricGroup) : List Char := g.marshalNames g.names

end MetricGroup

def usersName : List Char := "users".toList

def marshalGroups (processingUserMetrics : Bool) : List MetricGroup → List Char
  | [] => []
  | g :: rest =>
    if g.isUser then
      (if processingUserMetrics then [] else '"' :: (usersName ++ '"' :: ':' :: ' ' :: ['{'])) ++
        ('"' :: (g.userName ++ '"' :: ':' :: ' ' :: '{' :: (g.marshalGroup ++ ['}'])) ++
        match rest with
        | [] => ['}']
        | next :: _ =>
          if next.isUser then ',' :: marshalGroups true rest
          else '}' :: ',' :: marshalGroups false rest)
    else
      '"' :: (g.name.toList ++ '"' :: ':' :: ' ' :: '{' :: (g.marshalGroup ++ ['}'])) ++
        ((if rest ≠ [] then [','] else []) ++ marshalGroups processingUserMetrics rest)

/-- `none` is an error of `json.Indent`. -/
def marshalJSON (l : List MetricGroup) : Option (List Char) :=
  indent ('{' :: (marshalGroups false l ++ ['}']))

/-- What `sort.Sort` may make of a list. It is not stable, and `lower` is `strings.ToLower`. -/
structure Sorted (lower : String → String) (groups l : List MetricGroup) : Prop where
  perm : l.Perm groups
  ordered : l.Pairwise fun g g' => ¬lower g'.name < lower g.name

/-- Users have passed the check of the configuration. -/
structure Registry where
  groups : List MetricGroup
  distinct : (groups.map MetricGroup.name).Nodup
  accepted : ∀ g ∈ groups, g.isUser →
    ∃ user, validateServerConfigSingleUser user = .ok () ∧ g.name = userMetricGroup user.name

/-! ## What is to be read -/

abbrev Metrics := List (List Char × ℤ)

inductive Content where
  | group (name : List Char) (metrics : Metrics)
  | users (users : List (List Char × Metrics))
  deriving DecidableEq

def readMetrics : Value → Option Metrics := readObject fun name v => v.asInt.map (Prod.mk name)

def readUsers : Value → Option (List (List Char × Metrics)) :=
  readObject fun name v => (readMetrics v).map (Prod.mk name)

def readSection (name : List Char) (v : Value) : Option Content :=
  if name = usersName then (readUsers v).map .users else (readMetrics v).map (.group name)

def readSections : Value → Option (List Content) := readObject readSection

/-- A group of the server, or a run of groups of users. -/
inductive Section where
  | group (g : MetricGroup)
  | users (gs : List MetricGroup)

def addGroup (g : MetricGroup) (ss : List Section) : List Section :=
  if g.isUser then
    match ss with
    | .users gs :: ss => .users (g :: gs) :: ss
    | ss => .users [g] :: ss
  else .group g :: ss

def sections (l : List MetricGroup) : List Section := l.foldr addGroup []

def MetricGroup.listed (g : MetricGroup) : Metrics :=
  g.names.map fun name => (name.toList, (g.value name).toInt)

def Section.content : Section → Content
  | .group g => .group g.name.toList g.listed
  | .users gs => .users (gs.map fun g => (g.userName, g.listed))

def contents (l : List MetricGroup) : List Content := (sections l).map Section.content

/-! ## Members of the document -/

theorem map_mk_eq_some {α β : Type} {name name' : α} {r : Option β} {b : β} :
    r.map (Prod.mk name) = some (name', b) ↔ name = name' ∧ r = some b := by
  cases r with
  | none => simp
  | some c => simp

namespace MetricGroup

theorem names_perm (g : MetricGroup) : g.names.Perm (g.metrics.map Prod.fst) :=
  List.perm_insertionSort _ _

theorem toList_injective : Function.Injective String.toList := fun _ _ h => String.toList_inj.mp h

theorem value_of_mem {g : MetricGroup} {m : String × Int64} (h : m ∈ g.metrics) :
    g.value m.1 = m.2 := by
  have hlookup : ∀ {metrics : List (String × Int64)}, (metrics.map Prod.fst).Nodup →
      m ∈ metrics → metrics.lookup m.1 = some m.2 := by
    intro metrics hnodup hm
    induction metrics with
    | nil => exact absurd hm List.not_mem_nil
    | cons first rest ih =>
      obtain ⟨hnew, hnodup⟩ := List.nodup_cons.mp hnodup
      rw [List.lookup_cons]
      rcases List.mem_cons.mp hm with rfl | hm
      · simp
      · have hne : ¬m.1 = first.1 := fun heq => hnew (heq ▸ List.mem_map_of_mem hm)
        rw [beq_false_of_ne hne]
        exact ih hnodup hm
  rw [value, hlookup g.distinct h, Option.getD_some]

theorem listed_perm (g : MetricGroup) :
    g.listed.Perm (g.metrics.map fun m => (m.1.toList, m.2.toInt)) := by
  have hvalues : (g.metrics.map Prod.fst).map (fun name => (name.toList, (g.value name).toInt)) =
      g.metrics.map fun m => (m.1.toList, m.2.toInt) := by
    rw [List.map_map]
    refine List.map_congr_left fun m hm => ?_
    rw [Function.comp_apply, value_of_mem hm]
  rw [← hvalues]
  exact g.names_perm.map _

def metricMember (g : MetricGroup) (name : String) : Member where
  name := name.toList
  text := decimal (g.value name).toInt
  wanted v := v.asInt = some (g.value name).toInt
  ok := True
  written := written_decimal _

def text (g : MetricGroup) : List Char := objectText (g.names.map g.metricMember)

def PlainMetrics (g : MetricGroup) : Prop := ∀ m ∈ g.metrics, Plain m.1.toList

instance (g : MetricGroup) : Decidable g.PlainMetrics :=
  inferInstanceAs (Decidable (∀ m ∈ g.metrics, _))

theorem written (g : MetricGroup) :
    Written g.text (fun v => readMetrics v = some g.listed) g.PlainMetrics := by
  have hreads : ∀ (name : String) (p : List Char × Value),
      (fun name v => Option.map (Prod.mk name) v.asInt) p.1 p.2 =
          some (name.toList, (g.value name).toInt) ↔ (g.metricMember name).Reads p :=
    fun name p => map_mk_eq_some
  refine (written_readObject hreads g.names).congr (fun v => Iff.rfl) ?_
  have hnodup : (g.names.map String.toList).Nodup :=
    (g.names_perm.nodup_iff.mpr g.distinct).map toList_injective
  constructor
  · intro h
    refine ⟨hnodup, fun name hname => ⟨?_, trivial⟩⟩
    obtain ⟨m, hm, rfl⟩ := List.mem_map.mp (g.names_perm.mem_iff.mp hname)
    exact h m hm
  · rintro ⟨-, h⟩ m hm
    exact (h m.1 (g.names_perm.mem_iff.mpr (List.mem_map_of_mem hm))).1

def userMember (g : MetricGroup) : Member where
  name := g.userName
  text := g.text
  wanted v := readMetrics v = some g.listed
  ok := g.PlainMetrics
  written := g.written

def groupMember (g : MetricGroup) : Member where
  name := g.name.toList
  text := g.text
  wanted v := g.name.toList ≠ usersName ∧ readMetrics v = some g.listed
  ok := g.name.toList ≠ usersName ∧ g.PlainMetrics
  written := g.written.and _

end MetricGroup

def usersMember (gs : List MetricGroup) : Member where
  name := usersName
  text := objectText (gs.map MetricGroup.userMember)
  wanted v := readUsers v = some (gs.map fun g => (g.userName, g.listed))
  ok := (gs.map MetricGroup.userName).Nodup ∧ ∀ g ∈ gs, Plain g.userName ∧ g.PlainMetrics
  written := written_readObject (fun _ _ => map_mk_eq_some) gs

def Section.member : Section → Member
  | .group g => g.groupMember
  | .users gs => usersMember gs

theorem readSection_iff (s : Section) (p : List Char × Value) :
    readSection p.1 p.2 = some s.content ↔ s.member.Reads p := by
  unfold readSection
  cases s with
  | group g =>
    have hmember : (Section.group g).member.Reads p ↔
        p.1 = g.name.toList ∧ g.name.toList ≠ usersName ∧ readMetrics p.2 = some g.listed := Iff.rfl
    rw [hmember, Section.content]
    by_cases hname : p.1 = usersName
    · rw [if_pos hname]
      constructor
      · intro h
        obtain ⟨us, -, heq⟩ := Option.map_eq_some_iff.mp h
        exact absurd heq (by simp)
      · rintro ⟨heq, hne, -⟩
        exact absurd (heq.symm.trans hname) hne
    · rw [if_neg hname, Option.map_eq_some_iff]
      constructor
      · rintro ⟨ms, hms, heq⟩
        obtain ⟨hp, rfl⟩ := Content.group.inj heq
        exact ⟨hp, hp ▸ hname, hms⟩
      · rintro ⟨hp, -, hms⟩
        exact ⟨g.listed, hms, by rw [hp]⟩
  | users gs =>
    have hmember : (Section.users gs).member.Reads p ↔
        p.1 = usersName ∧ readUsers p.2 = some (gs.map fun g => (g.userName, g.listed)) := Iff.rfl
    rw [hmember, Section.content]
    by_cases hname : p.1 = usersName
    · rw [if_pos hname, Option.map_eq_some_iff]
      constructor
      · rintro ⟨us, hus, heq⟩
        exact ⟨hname, Content.users.inj heq ▸ hus⟩
      · rintro ⟨-, hus⟩
        exact ⟨_, hus, rfl⟩
    · rw [if_neg hname]
      constructor
      · intro h
        obtain ⟨ms, -, heq⟩ := Option.map_eq_some_iff.mp h
        exact absurd heq (by simp)
      · rintro ⟨heq, -⟩
        exact absurd heq hname

/-! ## The text -/

theorem marshalNames_eq (g : MetricGroup) (names : List String) :
    g.marshalNames names = membersText (names.map g.metricMember) := by
  induction names with
  | nil => rfl
  | cons name rest ih =>
    cases rest with
    | nil =>
      rw [MetricGroup.marshalNames, MetricGroup.marshalNames, if_neg (by simp), List.append_nil,
        List.append_nil]
      rfl
    | cons name' rest =>
      rw [MetricGroup.marshalNames, ih, if_pos (by simp)]
      rfl

theorem group_text (g : MetricGroup) : '{' :: (g.marshalGroup ++ ['}']) = g.text := by
  rw [MetricGroup.marshalGroup, marshalNames_eq]
  rfl

def behindUsers (ss : List Section) : List Char :=
  '}' :: othersText (ss.map Section.member)

theorem sections_group {g : MetricGroup} (rest : List MetricGroup) (h : g.isUser = false) :
    sections (g :: rest) = .group g :: sections rest := by
  have hcons : sections (g :: rest) = addGroup g (sections rest) := rfl
  unfold addGroup at hcons
  rwa [if_neg (by simp [h])] at hcons

theorem sections_more {g : MetricGroup} {rest gs : List MetricGroup} {ss : List Section}
    (h : g.isUser = true) (hrest : sections rest = .users gs :: ss) :
    sections (g :: rest) = .users (g :: gs) :: ss := by
  have hcons : sections (g :: rest) = addGroup g (sections rest) := rfl
  unfold addGroup at hcons
  rwa [if_pos h, hrest] at hcons

theorem sections_first {g : MetricGroup} {rest : List MetricGroup} (h : g.isUser = true)
    (hrest : ∀ next ∈ rest.head?, next.isUser = false) :
    sections (g :: rest) = .users [g] :: sections rest := by
  have hcons : sections (g :: rest) = addGroup g (sections rest) := rfl
  unfold addGroup at hcons
  rw [if_pos h] at hcons
  cases rest with
  | nil => exact hcons
  | cons next rest =>
    have hnext : sections (next :: rest) = .group next :: sections rest :=
      sections_group rest (hrest next rfl)
    rw [hnext] at hcons ⊢
    exact hcons

theorem sections_user {g : MetricGroup} (rest : List MetricGroup) (h : g.isUser = true) :
    ∃ gs ss, sections (g :: rest) = .users (g :: gs) :: ss := by
  induction rest generalizing g with
  | nil => exact ⟨[], [], sections_first h (by simp)⟩
  | cons next rest ih =>
    by_cases hnext : next.isUser = true
    · obtain ⟨gs, ss, hrest⟩ := ih hnext
      exact ⟨next :: gs, ss, sections_more h hrest⟩
    · exact ⟨[], sections (next :: rest), sections_first h (by simpa using hnext)⟩

theorem sections_ne_nil (g : MetricGroup) (rest : List MetricGroup) :
    ∃ s ss, sections (g :: rest) = s :: ss := by
  by_cases h : g.isUser = true
  · obtain ⟨gs, ss, hsections⟩ := sections_user rest h
    exact ⟨_, ss, hsections⟩
  · exact ⟨_, _, sections_group rest (by simpa using h)⟩

def runText (g : MetricGroup) (rest : List MetricGroup) : List Char :=
  g.userMember.pairText ++
    match rest with
    | [] => ['}']
    | next :: _ =>
      if next.isUser then ',' :: marshalGroups true rest
      else '}' :: ',' :: marshalGroups false rest

theorem marshalGroups_user {g : MetricGroup} (rest : List MetricGroup) (p : Bool)
    (h : g.isUser = true) :
    marshalGroups p (g :: rest) =
      (if p then [] else '"' :: (usersName ++ '"' :: ':' :: ' ' :: ['{'])) ++ runText g rest := by
  cases rest with
  | nil =>
    rw [marshalGroups, if_pos h, group_text]
    rfl
  | cons next rest =>
    rw [marshalGroups, if_pos h, group_text]
    rfl

theorem marshalGroups_group {g : MetricGroup} (rest : List MetricGroup) (h : g.isUser = false) :
    marshalGroups false (g :: rest) =
      g.groupMember.pairText ++
        ((if rest ≠ [] then [','] else []) ++ marshalGroups false rest) := by
  have hgroup : ¬g.isUser = true := by simp [h]
  cases rest with
  | nil =>
    conv_lhs => rw [marshalGroups, if_neg hgroup, group_text]
    rfl
  | cons next rest =>
    conv_lhs => rw [marshalGroups, if_neg hgroup, group_text]
    rfl

theorem marshalGroups_eq (l : List MetricGroup) :
    marshalGroups false l = membersText ((sections l).map Section.member) ∧
      ∀ gs ss, sections l = .users gs :: ss →
        marshalGroups true l = membersText (gs.map MetricGroup.userMember) ++ behindUsers ss := by
  induction l with
  | nil => exact ⟨rfl, fun gs ss h => absurd h (by simp [sections])⟩
  | cons g rest ih =>
    by_cases huser : g.isUser = true
    · have hrun : ∃ gs ss, sections (g :: rest) = .users gs :: ss ∧
          runText g rest = membersText (gs.map MetricGroup.userMember) ++ behindUsers ss := by
        cases rest with
        | nil => exact ⟨[g], [], sections_first huser (by simp), rfl⟩
        | cons next rest =>
          by_cases hnext : next.isUser = true
          · obtain ⟨gs, ss, hsections⟩ := sections_user rest hnext
            refine ⟨g :: next :: gs, ss, sections_more huser hsections, ?_⟩
            have htrue := ih.2 _ ss hsections
            have htext : membersText ((g :: next :: gs).map MetricGroup.userMember) =
                g.userMember.pairText ++
                  ',' :: membersText ((next :: gs).map MetricGroup.userMember) := rfl
            unfold runText
            dsimp only
            rw [if_pos hnext, htrue, htext, List.append_assoc]
            rfl
          · have hnext : next.isUser = false := by simpa using hnext
            have hsections := sections_group rest hnext
            refine ⟨[g], _, sections_first huser (by simpa using hnext), ?_⟩
            unfold runText
            dsimp only
            rw [if_neg (by simp [hnext]), ih.1, hsections]
            rfl
      obtain ⟨gs, ss, hsections, htext⟩ := hrun
      constructor
      · rw [marshalGroups_user rest false huser, htext, hsections, List.map_cons, membersText_eq]
        simp [behindUsers, Section.member, usersMember, Member.pairText, objectText]
      · intro gs' ss' hsections'
        rw [hsections] at hsections'
        obtain ⟨hgs, rfl⟩ := List.cons.inj hsections'
        obtain rfl := Section.users.inj hgs
        rw [marshalGroups_user rest true huser, htext]
        rfl
    · have huser : g.isUser = false := by simpa using huser
      have hsections := sections_group rest huser
      constructor
      · rw [marshalGroups_group rest huser, ih.1, hsections, List.map_cons, membersText_eq]
        cases rest with
        | nil => rfl
        | cons next rest =>
          obtain ⟨s, ss, hrest⟩ := sections_ne_nil next rest
          rw [hrest]
          rfl
      · intro gs ss h
        rw [hsections] at h
        exact absurd (List.cons.inj h).1 (by simp)

theorem marshalJSON_eq (l : List MetricGroup) :
    marshalJSON l = indent (objectText ((sections l).map Section.member)) := by
  rw [marshalJSON, (marshalGroups_eq l).1]
  rfl

/-! ## Sections -/

def Section.groups : Section → List MetricGroup
  | .group g => [g]
  | .users gs => gs

def Section.SameKind : Section → Prop
  | .group g => g.isUser = false
  | .users gs => ∀ g ∈ gs, g.isUser = true

theorem sections_cases (g : MetricGroup) (rest : List MetricGroup) :
    (g.isUser = false ∧ sections (g :: rest) = .group g :: sections rest) ∨
      (g.isUser = true ∧ (∃ next ∈ rest.head?, next.isUser = true) ∧
        ∃ gs ss, sections rest = .users gs :: ss ∧
          sections (g :: rest) = .users (g :: gs) :: ss) ∨
      (g.isUser = true ∧ (∀ next ∈ rest.head?, next.isUser = false) ∧
        sections (g :: rest) = .users [g] :: sections rest) := by
  by_cases huser : g.isUser = true
  · by_cases hrest : ∀ next ∈ rest.head?, next.isUser = false
    · exact .inr (.inr ⟨huser, hrest, sections_first huser hrest⟩)
    · cases rest with
      | nil => exact absurd (by simp) hrest
      | cons next rest =>
        have hnext : next.isUser = true := by simpa using hrest
        obtain ⟨gs, ss, hsections⟩ := sections_user rest hnext
        exact .inr (.inl ⟨huser, ⟨next, rfl, hnext⟩, _, ss, hsections,
          sections_more huser hsections⟩)
  · have huser : g.isUser = false := by simpa using huser
    exact .inl ⟨huser, sections_group rest huser⟩

theorem flatMap_sections (l : List MetricGroup) : (sections l).flatMap Section.groups = l := by
  induction l with
  | nil => rfl
  | cons g rest ih =>
    rcases sections_cases g rest with ⟨-, h⟩ | ⟨-, -, gs, ss, hrest, h⟩ | ⟨-, -, h⟩
    · rw [h, List.flatMap_cons, ih]
      rfl
    · rw [hrest, List.flatMap_cons] at ih
      rw [h, List.flatMap_cons, ← ih]
      rfl
    · rw [h, List.flatMap_cons, ih]
      rfl

theorem sameKind_sections (l : List MetricGroup) : ∀ s ∈ sections l, s.SameKind := by
  induction l with
  | nil => exact List.forall_mem_nil _
  | cons g rest ih =>
    rcases sections_cases g rest with ⟨hg, h⟩ | ⟨hg, -, gs, ss, hrest, h⟩ | ⟨hg, -, h⟩
    · rw [h]
      exact List.forall_mem_cons.mpr ⟨hg, ih⟩
    · rw [hrest] at ih
      obtain ⟨hgs, hss⟩ := List.forall_mem_cons.mp ih
      rw [h]
      exact List.forall_mem_cons.mpr ⟨List.forall_mem_cons.mpr ⟨hg, hgs⟩, hss⟩
    · rw [h]
      exact List.forall_mem_cons.mpr ⟨List.forall_mem_singleton.mpr hg, ih⟩

theorem mem_iff_sections {g : MetricGroup} {l : List MetricGroup} :
    g ∈ l ↔ ∃ s ∈ sections l, g ∈ s.groups := by
  rw [← List.mem_flatMap, flatMap_sections]

/-! ## Names that are read back -/

def MetricGroup.writtenName (g : MetricGroup) : List Char :=
  if g.isUser then g.userName else g.name.toList

def UsersTogether (l : List MetricGroup) : Prop :=
  ∃ before users after, l = before ++ (users ++ after) ∧
    (∀ g ∈ before, g.isUser = false) ∧ (∀ g ∈ users, g.isUser = true) ∧
      ∀ g ∈ after, g.isUser = false

structure Clean (l : List MetricGroup) : Prop where
  names : ∀ g ∈ l, Plain g.writtenName ∧ g.PlainMetrics
  reserved : ∀ g ∈ l, g.isUser = false → g.name ≠ "users"
  together : UsersTogether l

def sectionNames (l : List MetricGroup) : List (List Char) :=
  (sections l).map fun s => s.member.name

theorem usersName_mem {g : MetricGroup} {l : List MetricGroup} (hg : g ∈ l)
    (huser : g.isUser = true) : usersName ∈ sectionNames l := by
  obtain ⟨s, hs, hgs⟩ := mem_iff_sections.mp hg
  refine List.mem_map.mpr ⟨s, hs, ?_⟩
  cases s with
  | group g' =>
    have hkind : g'.isUser = false := sameKind_sections l _ hs
    rw [List.mem_singleton.mp hgs, hkind] at huser
    exact absurd huser (by decide)
  | users gs => rfl

theorem usersTogether_of_nodup {l : List MetricGroup} (h : (sectionNames l).Nodup) :
    UsersTogether l := by
  unfold sectionNames at h
  induction l with
  | nil => exact ⟨[], [], [], rfl, by simp, by simp, by simp⟩
  | cons g rest ih =>
    rcases sections_cases g rest with ⟨hg, hs⟩ | ⟨hg, hhead, gs, ss, hrest, hs⟩ | ⟨hg, -, hs⟩
    · rw [hs, List.map_cons] at h
      obtain ⟨before, users, after, rfl, hbefore, husers, hafter⟩ := ih (List.nodup_cons.mp h).2
      exact ⟨g :: before, users, after, rfl, List.forall_mem_cons.mpr ⟨hg, hbefore⟩, husers, hafter⟩
    · rw [hrest] at ih
      rw [hs] at h
      obtain ⟨before, users, after, rfl, hbefore, husers, hafter⟩ := ih h
      -- the group right behind is a user, so nothing stands before the users
      obtain ⟨next, hnext, huser⟩ := hhead
      cases before with
      | nil => exact ⟨[], g :: users, after, rfl, by simp, List.forall_mem_cons.mpr ⟨hg, husers⟩,
          hafter⟩
      | cons first before =>
        obtain rfl := Option.some.inj hnext
        rw [hbefore first List.mem_cons_self] at huser
        exact absurd huser (by decide)
    · rw [hs, List.map_cons] at h
      have hnone : ∀ g' ∈ rest, g'.isUser = false := by
        intro g' hg'
        by_contra huser
        exact (List.nodup_cons.mp h).1 (usersName_mem hg' (by simpa using huser))
      exact ⟨[], [g], rest, rfl, by simp, List.forall_mem_singleton.mpr hg, hnone⟩

theorem sections_append_groups {before rest : List MetricGroup}
    (h : ∀ g ∈ before, g.isUser = false) :
    sections (before ++ rest) = before.map .group ++ sections rest := by
  induction before with
  | nil => rfl
  | cons g before ih =>
    obtain ⟨hg, hbefore⟩ := List.forall_mem_cons.mp h
    rw [List.cons_append, sections_group _ hg, ih hbefore, List.map_cons, List.cons_append]

theorem sections_groups {l : List MetricGroup} (h : ∀ g ∈ l, g.isUser = false) :
    sections l = l.map .group := by
  have happend : sections (l ++ []) = l.map .group ++ [] := sections_append_groups h
  rwa [List.append_nil, List.append_nil] at happend

theorem sections_run {g : MetricGroup} {users after : List MetricGroup}
    (husers : ∀ g' ∈ g :: users, g'.isUser = true) (hafter : ∀ g' ∈ after, g'.isUser = false) :
    sections (g :: users ++ after) = .users (g :: users) :: after.map .group := by
  induction users generalizing g with
  | nil =>
    rw [List.singleton_append, sections_first (husers g List.mem_cons_self),
      sections_groups hafter]
    exact fun next hnext => hafter next (List.mem_of_mem_head? hnext)
  | cons g' users ih =>
    obtain ⟨hg, husers⟩ := List.forall_mem_cons.mp husers
    exact sections_more hg (ih husers)

theorem nodup_sectionNames {l : List MetricGroup} (hdistinct : (l.map MetricGroup.name).Nodup)
    (hreserved : ∀ g ∈ l, g.isUser = false → g.name ≠ "users") (htogether : UsersTogether l) :
    (sectionNames l).Nodup := by
  obtain ⟨before, users, after, rfl, hbefore, husers, hafter⟩ := htogether
  have hgroups : ((before ++ after).map fun g => g.name.toList).Nodup := by
    have hsub : (before ++ after).Sublist (before ++ (users ++ after)) :=
      (List.sublist_append_right users after).append_left before
    have hnames := (hdistinct.sublist (hsub.map MetricGroup.name)).map
      MetricGroup.toList_injective
    rwa [List.map_map] at hnames
  have husersName : usersName ∉ (before ++ after).map fun g => g.name.toList := by
    intro hmem
    obtain ⟨g, hg, hname⟩ := List.mem_map.mp hmem
    have hgl : g ∈ before ++ (users ++ after) ∧ g.isUser = false := by
      rcases List.mem_append.mp hg with hg | hg
      · exact ⟨List.mem_append_left _ hg, hbefore g hg⟩
      · exact ⟨List.mem_append_right _ (List.mem_append_right _ hg), hafter g hg⟩
    exact hreserved g hgl.1 hgl.2 (MetricGroup.toList_injective hname)
  unfold sectionNames
  cases users with
  | nil =>
    rw [List.nil_append, sections_append_groups hbefore, sections_groups hafter, ← List.map_append,
      List.map_map]
    exact hgroups
  | cons g users =>
    rw [sections_append_groups hbefore, sections_run husers hafter, List.map_append,
      List.map_cons, List.map_map, List.map_map]
    rw [List.map_append] at hgroups husersName
    exact List.nodup_middle.mpr (List.nodup_cons.mpr ⟨husersName, hgroups⟩)

theorem name_of_user {g : MetricGroup} (h : g.isUser = true) :
    g.name.toList = userMetricGroupPrefix ++ g.userName := by
  obtain ⟨rest, hrest⟩ := List.isPrefixOf_iff_prefix.mp h
  rw [MetricGroup.userName, ← hrest, List.drop_left]

theorem nodup_userNames {l gs : List MetricGroup} (hdistinct : (l.map MetricGroup.name).Nodup)
    (hs : .users gs ∈ sections l) : (gs.map MetricGroup.userName).Nodup := by
  have huser : ∀ g ∈ gs, g.isUser = true := sameKind_sections l _ hs
  have hnames : l.Pairwise fun g g' => g.name ≠ g'.name := List.pairwise_map.mp hdistinct
  rw [← flatMap_sections l] at hnames
  have hrun := (List.pairwise_flatMap.mp hnames).1 _ hs
  refine List.pairwise_map.mpr (hrun.imp_of_mem fun {g g'} hg hg' hne heq => hne ?_)
  refine MetricGroup.toList_injective ?_
  rw [name_of_user (huser g hg), name_of_user (huser g' hg'), heq]

/-- The conditions under which the hand-written object is read back, group by group. -/
theorem clean_iff {l : List MetricGroup} (hdistinct : (l.map MetricGroup.name).Nodup) :
    ((sectionNames l).Nodup ∧ ∀ s ∈ sections l, Plain s.member.name ∧ s.member.ok) ↔ Clean l := by
  constructor
  · rintro ⟨hnodup, hok⟩
    have hgroup : ∀ g ∈ l, (Plain g.writtenName ∧ g.PlainMetrics) ∧
        (g.isUser = false → g.name ≠ "users") := by
      intro g hg
      obtain ⟨s, hs, hgs⟩ := mem_iff_sections.mp hg
      have hkind := sameKind_sections l s hs
      obtain ⟨hname, hmember⟩ := hok s hs
      cases s with
      | group g' =>
        obtain rfl := List.mem_singleton.mp hgs
        have huser : g.isUser = false := hkind
        refine ⟨⟨?_, hmember.2⟩, fun _ h => hmember.1 (congrArg String.toList h)⟩
        rw [MetricGroup.writtenName, if_neg (by simp [huser])]
        exact hname
      | users gs =>
        have huser : g.isUser = true := hkind g hgs
        obtain ⟨hplain, hmetrics⟩ := hmember.2 g hgs
        refine ⟨⟨?_, hmetrics⟩, fun h => absurd (h.symm.trans huser) (by decide)⟩
        rw [MetricGroup.writtenName, if_pos huser]
        exact hplain
    exact ⟨fun g hg => (hgroup g hg).1, fun g hg => (hgroup g hg).2, usersTogether_of_nodup hnodup⟩
  · intro h
    refine ⟨nodup_sectionNames hdistinct h.reserved h.together, fun s hs => ?_⟩
    have hkind := sameKind_sections l s hs
    have hmem : ∀ g ∈ s.groups, g ∈ l := fun g hg => mem_iff_sections.mpr ⟨s, hs, hg⟩
    cases s with
    | group g =>
      have huser : g.isUser = false := hkind
      have hg := hmem g (List.mem_singleton.mpr rfl)
      obtain ⟨hname, hmetrics⟩ := h.names g hg
      rw [MetricGroup.writtenName, if_neg (by simp [huser])] at hname
      exact ⟨hname, fun heq => h.reserved g hg huser (MetricGroup.toList_injective heq), hmetrics⟩
    | users gs =>
      have husersName : Plain usersName := by decide
      refine ⟨husersName, nodup_userNames hdistinct hs, fun g hg => ?_⟩
      have huser : g.isUser = true := hkind g hg
      obtain ⟨hname, hmetrics⟩ := h.names g (hmem g hg)
      rw [MetricGroup.writtenName, if_pos huser] at hname
      exact ⟨hname, hmetrics⟩

/-- The document of the metrics is read back exactly when no name needs an escape, no group takes
the name of the user section, and the users are written in one section. -/
theorem marshalJSON_reads_back (lower : String → String) (r : Registry) (l : List MetricGroup)
    (hl : Sorted lower r.groups l) :
    (∃ out, marshalJSON l = some out ∧ (read out).bind readSections = some (contents l)) ↔
      Clean l := by
  have hdistinct : (l.map MetricGroup.name).Nodup :=
    ((hl.perm.map _).nodup_iff).mpr r.distinct
  have hread := (written_readObject readSection_iff (sections l)).read
  rw [← clean_iff hdistinct, marshalJSON_eq]
  refine Iff.trans ?_ hread
  constructor
  · rintro ⟨out, hout, h⟩
    rw [read_indent hout] at h
    exact Option.bind_eq_some_iff.mp h
  · rintro ⟨v, hv, h⟩
    obtain ⟨out, hout⟩ := indent_of_read hv
    refine ⟨out, hout, ?_⟩
    rw [read_indent hout, hv]
    exact h

/-! ## Two registries -/

def lowerAscii (s : String) : String := String.ofList (s.toList.map Char.toLower)

def userGroup (name : String) : MetricGroup :=
  ⟨userMetricGroup name, [("UploadBytes", 1)], List.nodup_singleton _⟩

theorem userGroup_accepted {name : String}
    (h : validateServerConfigSingleUser { name := name, password := "secret" } = .ok ()) :
    ∃ user, validateServerConfigSingleUser user = .ok () ∧
      (userGroup name).name = userMetricGroup user.name := ⟨_, h, rfl⟩

def trafficGroup : MetricGroup :=
  ⟨"traffic", [("UploadBytes", 7), ("DownloadBytes", -1)], by decide⟩

def plainRegistry : Registry where
  groups := [userGroup "red", trafficGroup, userGroup "Blue"]
  distinct := by decide +kernel
  accepted := by
    intro g hg huser
    simp only [List.mem_cons, List.not_mem_nil, or_false] at hg
    rcases hg with rfl | rfl | rfl
    · exact userGroup_accepted (by decide +kernel)
    · exact absurd huser (by decide +kernel)
    · exact userGroup_accepted (by decide +kernel)

theorem plain_names_read_back :
    ∃ out, marshalJSON [trafficGroup, userGroup "Blue", userGroup "red"] = some out ∧
      (read out).bind readSections = some [
        .group "traffic".toList [("DownloadBytes".toList, -1), ("UploadBytes".toList, 7)],
        .users [("Blue".toList, [("UploadBytes".toList, 1)]),
          ("red".toList, [("UploadBytes".toList, 1)])]] := by
  have hperm : ([trafficGroup, userGroup "Blue"] ++ [userGroup "red"]).Perm
      ([userGroup "red"] ++ [trafficGroup, userGroup "Blue"]) := List.perm_append_comm
  have hclean : Clean [trafficGroup, userGroup "Blue", userGroup "red"] :=
    { names := by decide +kernel
      reserved := by decide +kernel
      together := ⟨[trafficGroup], [userGroup "Blue", userGroup "red"], [], rfl,
        by decide +kernel, by decide +kernel, by simp⟩ }
  have hcontents : contents [trafficGroup, userGroup "Blue", userGroup "red"] = [
      .group "traffic".toList [("DownloadBytes".toList, -1), ("UploadBytes".toList, 7)],
      .users [("Blue".toList, [("UploadBytes".toList, 1)]),
        ("red".toList, [("UploadBytes".toList, 1)])]] := by
    decide +kernel
  rw [← hcontents]
  exact (marshalJSON_reads_back lowerAscii plainRegistry _ ⟨hperm, by decide +kernel⟩).mpr hclean

def quotedRegistry : Registry where
  groups := [userGroup "a\"b"]
  distinct := List.nodup_singleton _
  accepted := by
    intro g hg _
    rw [List.mem_singleton.mp hg]
    exact userGroup_accepted (by decide +kernel)

theorem quoted_name_not_marshalled :
    Sorted lowerAscii quotedRegistry.groups [userGroup "a\"b"] ∧
      marshalJSON [userGroup "a\"b"] = none :=
  ⟨⟨.refl _, List.pairwise_singleton _ _⟩, by decide +kernel⟩

end Mieru.MetricsJson
