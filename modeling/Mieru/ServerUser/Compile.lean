import Mathlib.Data.List.Sort
import Mieru.ServerUser.Registry

/-! # Compiling the users

`buildState` makes the authentication records of a generation from the map of users. The users
are sorted by name, those without a usable name or credential are left out, and the IDs count
the others from 1. -/
namespace Mieru.ServerUser

open Cipher

/-- `map[string]*appctlpb.User` as a list, in the order of its `range`. The users come from a
protobuf message, which has less than 2 GiB. -/
structure UserMap where
  entries : List (String × Option User)
  keys_nodup : (entries.map Prod.fst).Nodup
  size_lt : entries.length < 2 ^ 32

structure InputUser where
  mapKey : String
  user : Option User
  name : String

def inputUser (entry : String × Option User) : InputUser where
  mapKey := entry.1
  user := entry.2
  name :=
    match entry.2 with
    | none => ""
    | some user => user.name

def InputUser.less (a b : InputUser) : Bool :=
  if a.name = b.name then a.mapKey < b.mapKey else a.name < b.name

def UserMap.inputs (users : UserMap) : List InputUser := users.entries.map inputUser

def UserMap.nameCounts (users : UserMap) (name : String) : ℕ :=
  users.inputs.countP fun input => input.name = name

/-- `sort.Slice` by name and then by key, which no two inputs share. -/
def UserMap.sorted (users : UserMap) : List InputUser :=
  users.inputs.insertionSort fun a b => b.less a = false

def hashPassword (rawPassword uniqueValue : List UInt8) : List UInt8 :=
  Sha256.sum256 (rawPassword ++ [0x00] ++ uniqueValue)

def buildCredential (user : Option User) (name : String) : Except String (Vector UInt8 32) :=
  match user with
  | none => .error "user record is nil"
  | some user =>
    if user.hashedPassword ≠ "" then
      match TrafficPattern.hexDecode (userBytes user.hashedPassword) with
      | .error _ => .error "hashed credential is not valid hexadecimal"
      | .ok decoded =>
        let length := decoded.length
        if hlen : decoded.length = 32 then .ok ⟨decoded.toArray, by simpa using hlen⟩
        else .error s!"hashed credential decodes to {length} bytes, want 32"
    else if user.password = "" then .error "credential is empty"
    else
      .ok ⟨(hashPassword (userBytes user.password) (userBytes name)).toArray,
        by simp [hashPassword]⟩

theorem length_toList_loop (bytes : ByteArray) (i : ℕ) (read : List UInt8) :
    (ByteArray.toList.loop bytes i read).length = read.length + (bytes.size - i) := by
  fun_induction ByteArray.toList.loop bytes i read with
  | case1 i read hi ih =>
    rw [ih, List.length_cons]
    omega
  | case2 i read hi =>
    rw [List.length_reverse]
    omega

theorem userBytes_ne_nil {name : String} (h : name ≠ "") : userBytes name ≠ [] := by
  intro hnil
  have hsize : (userBytes name).length = 0 + (name.utf8ByteSize - 0) :=
    length_toList_loop name.toUTF8 0 []
  rw [hnil, Nat.zero_add, Nat.sub_zero] at hsize
  exact h (String.utf8ByteSize_eq_zero_iff.mp hsize.symm)

/-- The next record, unless the input is skipped. -/
def compileUser (nameCounts : String → ℕ) (id : UInt32) (input : InputUser) :
    Option RegistryUser :=
  if hne : input.name = "" then none
  else if 1 < nameCounts input.name then none
  else if hlong : Cipher.maxUserNameLen < (userBytes input.name).length then none
  else
    match input.user, buildCredential input.user input.name with
    | some user, .ok credential =>
      some {
        id := id
        name := input.name
        credential := credential
        policy := buildPolicy user
        name_ne := userBytes_ne_nil hne
        name_le := Nat.le_of_not_lt hlong }
    | _, _ => none

def compileUsers (nameCounts : String → ℕ) :
    List InputUser → List RegistryUser → List RegistryUser
  | [], compiled => compiled
  | input :: inputs, compiled =>
    match compileUser nameCounts (UInt32.ofNat (compiled.length + 1)) input with
    | none => compileUsers nameCounts inputs compiled
    | some user => compileUsers nameCounts inputs (compiled ++ [user])

structure Compiled where
  users : List RegistryUser
  dense : ∀ i user, users[i]? = some user → user.id.toNat = i + 1

variable {nameCounts : String → ℕ}

theorem compileUser_eq_some {id : UInt32} {input : InputUser} {user : RegistryUser}
    (h : compileUser nameCounts id input = some user) :
    user.id = id ∧ user.name = input.name ∧ ∃ config, input.user = some config ∧
      buildCredential (some config) input.name = .ok user.credential ∧
      user.policy = buildPolicy config := by
  unfold compileUser at h
  split_ifs at h
  split at h
  · rename_i config credential hconfig hcredential
    cases h
    exact ⟨rfl, rfl, config, hconfig, hconfig ▸ hcredential, rfl⟩
  · cases h

theorem compileUsers_dense {inputs : List InputUser} {compiled : List RegistryUser}
    (hfits : compiled.length + inputs.length < 2 ^ 32)
    (h : ∀ i user, compiled[i]? = some user → user.id.toNat = i + 1) :
    ∀ i user, (compileUsers nameCounts inputs compiled)[i]? = some user →
      user.id.toNat = i + 1 := by
  induction inputs generalizing compiled with
  | nil => exact h
  | cons input inputs ih =>
    rw [List.length_cons] at hfits
    unfold compileUsers
    split
    · exact ih (by omega) h
    · rename_i next hnext
      refine ih (by rw [List.length_append, List.length_singleton]; omega) ?_
      intro i user hi
      rw [List.getElem?_append] at hi
      split_ifs at hi with hlt
      · exact h i user hi
      · obtain rfl : user = next := List.mem_singleton.mp (List.mem_of_getElem? hi)
        have hlast : i - compiled.length < 1 := (List.getElem?_eq_some_iff.mp hi).1
        rw [(compileUser_eq_some hnext).1, UInt32.toNat_ofNat', Nat.mod_eq_of_lt (by omega)]
        omega

theorem mem_compileUsers {inputs : List InputUser} {compiled : List RegistryUser}
    {user : RegistryUser} (h : user ∈ compileUsers nameCounts inputs compiled) :
    user ∈ compiled ∨ ∃ input ∈ inputs, ∃ id, compileUser nameCounts id input = some user := by
  induction inputs generalizing compiled with
  | nil => exact Or.inl h
  | cons input inputs ih =>
    unfold compileUsers at h
    split at h
    · rcases ih h with hold | ⟨input', hmem, hcompile⟩
      · exact Or.inl hold
      · exact Or.inr ⟨input', List.mem_cons_of_mem _ hmem, hcompile⟩
    · rename_i next hnext
      rcases ih h with hold | ⟨input', hmem, hcompile⟩
      · rcases List.mem_append.mp hold with hold | hnew
        · exact Or.inl hold
        · obtain rfl := List.mem_singleton.mp hnew
          exact Or.inr ⟨input, List.mem_cons_self, _, hnext⟩
      · exact Or.inr ⟨input', List.mem_cons_of_mem _ hmem, hcompile⟩

def UserMap.compile (users : UserMap) : Compiled where
  users := compileUsers users.nameCounts users.sorted []
  dense := by
    refine compileUsers_dense ?_ (by simp)
    have hlen : users.sorted.length = users.entries.length := by
      rw [UserMap.sorted, List.length_insertionSort, UserMap.inputs, List.length_map]
    rw [hlen, List.length_nil, Nat.zero_add]
    exact users.size_lt

def UserMap.Names (users : UserMap) (name : String) : Prop :=
  ∃ key config, (key, some config) ∈ users.entries ∧ config.name = name

theorem UserMap.of_mem_compile {users : UserMap} {user : RegistryUser}
    (h : user ∈ users.compile.users) :
    ∃ key config, (key, some config) ∈ users.entries ∧ config.name = user.name ∧
      buildCredential (some config) config.name = .ok user.credential ∧
      user.policy = buildPolicy config := by
  rcases mem_compileUsers h with hold | ⟨input, hmem, id, hcompile⟩
  · cases hold
  · obtain ⟨-, hname, config, hconfig, hcredential, hpolicy⟩ := compileUser_eq_some hcompile
    obtain ⟨⟨key, entry⟩, hentry, rfl⟩ :=
      List.mem_map.mp ((List.mem_insertionSort _).mp hmem)
    change entry = some config at hconfig
    subst hconfig
    exact ⟨key, config, hentry, hname.symm, hcredential, hpolicy⟩

theorem UserMap.names_of_mem_compile {users : UserMap} {user : RegistryUser}
    (h : user ∈ users.compile.users) : users.Names user.name := by
  obtain ⟨key, config, hentry, hname, -⟩ := UserMap.of_mem_compile h
  exact ⟨key, config, hentry, hname⟩

end Mieru.ServerUser
