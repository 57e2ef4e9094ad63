import Mathlib.Data.List.Chain
import Mieru.Lib.JsonTokens

/-! # JSON values

The members of an object stand in the order of the text. -/
namespace Json

inductive Value where
  | object (members : List (List Char × Value))
  | array (elements : List Value)
  | string (s : List Char)
  | number (raw : List Char)
  | literal (raw : List Char)

mutual

def parseValue : ℕ → List Token → Option (Value × List Token)
  | _ + 1, .beginObject :: .endObject :: rest => some (.object [], rest)
  | n + 1, .beginObject :: rest => (parseMembers n rest).map fun r => (.object r.1, r.2)
  | _ + 1, .beginArray :: .endArray :: rest => some (.array [], rest)
  | n + 1, .beginArray :: rest => (parseElements n rest).map fun r => (.array r.1, r.2)
  | _ + 1, .string raw :: rest => some (.string (unescape raw), rest)
  | _ + 1, .number raw :: rest => some (.number raw, rest)
  | _ + 1, .literal raw :: rest => some (.literal raw, rest)
  | _, _ => none

def parseMembers : ℕ → List Token → Option (List (List Char × Value) × List Token)
  | n + 1, .string raw :: .colon :: rest =>
    (parseValue n rest).bind fun r =>
      match r.2 with
      | .endObject :: rest => some ([(unescape raw, r.1)], rest)
      | .comma :: rest => (parseMembers n rest).map fun ms => ((unescape raw, r.1) :: ms.1, ms.2)
      | _ => none
  | _, _ => none

def parseElements : ℕ → List Token → Option (List Value × List Token)
  | n + 1, ts =>
    (parseValue n ts).bind fun r =>
      match r.2 with
      | .endArray :: rest => some ([r.1], rest)
      | .comma :: rest => (parseElements n rest).map fun vs => (r.1 :: vs.1, vs.2)
      | _ => none
  | _, _ => none

end

/-- The value of a whole token list. Every call takes a token at least. -/
def parse (ts : List Token) : Option Value :=
  match parseValue ts.length ts with
  | some (v, []) => some v
  | _ => none

/-! ## What a call can do -/

theorem parseMembers_cases {n : ℕ} {ts rest : List Token} {ms : List (List Char × Value)}
    (h : parseMembers n ts = some (ms, rest)) :
    ∃ k raw tail v rest', n = k + 1 ∧ ts = .string raw :: .colon :: tail ∧
      parseValue k tail = some (v, rest') ∧
      ((rest' = .endObject :: rest ∧ ms = [(unescape raw, v)]) ∨
        ∃ more ms', rest' = .comma :: more ∧ parseMembers k more = some (ms', rest) ∧
          ms = (unescape raw, v) :: ms') := by
  unfold parseMembers at h
  split at h
  · rename_i k raw tail
    obtain ⟨⟨v, rest'⟩, hv, h⟩ := Option.bind_eq_some_iff.mp h
    refine ⟨k, raw, tail, v, rest', rfl, rfl, hv, ?_⟩
    dsimp only at h
    split at h
    · obtain ⟨rfl, rfl⟩ := Prod.mk.inj (Option.some.inj h)
      exact .inl ⟨rfl, rfl⟩
    · rename_i more
      obtain ⟨⟨ms', rest''⟩, hms', heq⟩ := Option.map_eq_some_iff.mp h
      obtain ⟨rfl, rfl⟩ := Prod.mk.inj heq
      exact .inr ⟨more, ms', rfl, hms', rfl⟩
    · exact absurd h (by simp)
  · exact absurd h (by simp)

theorem parseElements_cases {n : ℕ} {ts rest : List Token} {vs : List Value}
    (h : parseElements n ts = some (vs, rest)) :
    ∃ k v rest', n = k + 1 ∧ parseValue k ts = some (v, rest') ∧
      ((rest' = .endArray :: rest ∧ vs = [v]) ∨
        ∃ more vs', rest' = .comma :: more ∧ parseElements k more = some (vs', rest) ∧
          vs = v :: vs') := by
  cases n with
  | zero => exact absurd h (by simp [parseElements])
  | succ k =>
    rw [parseElements] at h
    obtain ⟨⟨v, rest'⟩, hv, h⟩ := Option.bind_eq_some_iff.mp h
    refine ⟨k, v, rest', rfl, hv, ?_⟩
    dsimp only at h
    split at h
    · obtain ⟨rfl, rfl⟩ := Prod.mk.inj (Option.some.inj h)
      exact .inl ⟨rfl, rfl⟩
    · rename_i more
      obtain ⟨⟨vs', rest''⟩, hvs', heq⟩ := Option.map_eq_some_iff.mp h
      obtain ⟨rfl, rfl⟩ := Prod.mk.inj heq
      exact .inr ⟨more, vs', rfl, hvs', rfl⟩
    · exact absurd h (by simp)

inductive ValueCase (k : ℕ) : List Token → Value → List Token → Prop
  | emptyObject {rest : List Token} :
      ValueCase k (.beginObject :: .endObject :: rest) (.object []) rest
  | object {ts rest : List Token} {ms : List (List Char × Value)}
      (hms : parseMembers k ts = some (ms, rest)) :
      ValueCase k (.beginObject :: ts) (.object ms) rest
  | emptyArray {rest : List Token} :
      ValueCase k (.beginArray :: .endArray :: rest) (.array []) rest
  | array {ts rest : List Token} {vs : List Value}
      (hvs : parseElements k ts = some (vs, rest)) :
      ValueCase k (.beginArray :: ts) (.array vs) rest
  | string {raw : List Char} {rest : List Token} :
      ValueCase k (.string raw :: rest) (.string (unescape raw)) rest
  | number {raw : List Char} {rest : List Token} :
      ValueCase k (.number raw :: rest) (.number raw) rest
  | literal {raw : List Char} {rest : List Token} :
      ValueCase k (.literal raw :: rest) (.literal raw) rest

theorem parseValue_cases {n : ℕ} {ts rest : List Token} {v : Value}
    (h : parseValue n ts = some (v, rest)) : ∃ k, n = k + 1 ∧ ValueCase k ts v rest := by
  unfold parseValue at h
  split at h
  · obtain ⟨rfl, rfl⟩ := Prod.mk.inj (Option.some.inj h)
    exact ⟨_, rfl, .emptyObject⟩
  · obtain ⟨⟨ms, rest'⟩, hms, heq⟩ := Option.map_eq_some_iff.mp h
    obtain ⟨rfl, rfl⟩ := Prod.mk.inj heq
    exact ⟨_, rfl, .object hms⟩
  · obtain ⟨rfl, rfl⟩ := Prod.mk.inj (Option.some.inj h)
    exact ⟨_, rfl, .emptyArray⟩
  · obtain ⟨⟨vs, rest'⟩, hvs, heq⟩ := Option.map_eq_some_iff.mp h
    obtain ⟨rfl, rfl⟩ := Prod.mk.inj heq
    exact ⟨_, rfl, .array hvs⟩
  · obtain ⟨rfl, rfl⟩ := Prod.mk.inj (Option.some.inj h)
    exact ⟨_, rfl, .string⟩
  · obtain ⟨rfl, rfl⟩ := Prod.mk.inj (Option.some.inj h)
    exact ⟨_, rfl, .number⟩
  · obtain ⟨rfl, rfl⟩ := Prod.mk.inj (Option.some.inj h)
    exact ⟨_, rfl, .literal⟩
  · exact absurd h (by simp)

theorem parseValue_of_case {k : ℕ} {ts rest : List Token} {v : Value}
    (h : ValueCase k ts v rest) : parseValue (k + 1) ts = some (v, rest) := by
  cases h with
  | emptyObject => rw [parseValue]
  | object hms =>
    obtain ⟨k, raw, tail, v, rest', rfl, rfl, -⟩ := parseMembers_cases hms
    rw [parseValue, hms, Option.map_some]
    simp
  | emptyArray => rw [parseValue]
  | array hvs =>
    obtain ⟨k, v, rest', rfl, hv, -⟩ := parseElements_cases hvs
    rw [parseValue, hvs, Option.map_some]
    rintro rest'' rfl
    obtain ⟨k', -, hcase⟩ := parseValue_cases hv
    cases hcase
  | string => rw [parseValue]
  | number => rw [parseValue]
  | literal => rw [parseValue]

theorem parseMembers_last {k : ℕ} {raw : List Char} {tail rest : List Token} {v : Value}
    (h : parseValue k tail = some (v, .endObject :: rest)) :
    parseMembers (k + 1) (.string raw :: .colon :: tail) = some ([(unescape raw, v)], rest) := by
  rw [parseMembers, h]
  rfl

theorem parseMembers_more {k : ℕ} {raw : List Char} {tail more rest : List Token} {v : Value}
    {ms : List (List Char × Value)} (h : parseValue k tail = some (v, .comma :: more))
    (hms : parseMembers k more = some (ms, rest)) :
    parseMembers (k + 1) (.string raw :: .colon :: tail) =
      some ((unescape raw, v) :: ms, rest) := by
  rw [parseMembers, h, Option.bind_some]
  dsimp only
  rw [hms, Option.map_some]

theorem parseElements_last {k : ℕ} {ts rest : List Token} {v : Value}
    (h : parseValue k ts = some (v, .endArray :: rest)) :
    parseElements (k + 1) ts = some ([v], rest) := by
  rw [parseElements, h]
  rfl

theorem parseElements_more {k : ℕ} {ts more rest : List Token} {v : Value} {vs : List Value}
    (h : parseValue k ts = some (v, .comma :: more))
    (hvs : parseElements k more = some (vs, rest)) :
    parseElements (k + 1) ts = some (v :: vs, rest) := by
  rw [parseElements, h, Option.bind_some]
  dsimp only
  rw [hvs, Option.map_some]

/-! ## Tokens that are taken -/

/-- The tokens up to `rest` are some, and no two words stand side by side among them. -/
def Takes (ts rest : List Token) : Prop :=
  ∃ used, ts = used ++ rest ∧ used ≠ [] ∧ Separated used

theorem Takes.length_lt {ts rest : List Token} (h : Takes ts rest) : rest.length < ts.length := by
  obtain ⟨used, rfl, hne, -⟩ := h
  have hpos := List.length_pos_iff.mpr hne
  rw [List.length_append]
  omega

theorem takes_one (t : Token) (rest : List Token) : Takes (t :: rest) rest :=
  ⟨[t], rfl, List.cons_ne_nil _ _, List.isChain_singleton _⟩

theorem Takes.cons {t : Token} {ts rest : List Token} (ht : t.isWord = false)
    (h : Takes ts rest) : Takes (t :: ts) rest := by
  obtain ⟨used, rfl, -, hsep⟩ := h
  refine ⟨t :: used, rfl, List.cons_ne_nil _ _, ?_⟩
  refine List.isChain_cons.mpr ⟨fun t' _ hword => ?_, hsep⟩
  rw [ht] at hword
  exact absurd hword.1 (by decide)

theorem Takes.append {t : Token} {ts ts' rest : List Token} (ht : t.isWord = false)
    (h : Takes ts (t :: ts')) (h' : Takes (t :: ts') rest) : Takes ts rest := by
  obtain ⟨used, rfl, hne, hsep⟩ := h
  obtain ⟨used', heq, hne', hsep'⟩ := h'
  refine ⟨used ++ used', by rw [heq, List.append_assoc], by simp [hne], ?_⟩
  refine List.isChain_append.mpr ⟨hsep, hsep', fun x _ y hy hword => ?_⟩
  cases used' with
  | nil => exact absurd rfl hne'
  | cons t' used' =>
    obtain ⟨rfl, -⟩ := List.cons.inj heq
    obtain rfl := Option.some.inj hy
    rw [ht] at hword
    exact absurd hword.2 (by decide)

theorem takes (n : ℕ) :
    (∀ {ts rest : List Token} {v : Value}, parseValue n ts = some (v, rest) → Takes ts rest) ∧
    (∀ {ts rest : List Token} {ms : List (List Char × Value)},
      parseMembers n ts = some (ms, rest) → Takes ts rest) ∧
    (∀ {ts rest : List Token} {vs : List Value},
      parseElements n ts = some (vs, rest) → Takes ts rest) := by
  induction n with
  | zero => simp [parseValue, parseMembers, parseElements]
  | succ n ih =>
    obtain ⟨ihv, ihm, ihe⟩ := ih
    refine ⟨?_, ?_, ?_⟩
    · intro ts rest v h
      obtain ⟨k, hk, hcase⟩ := parseValue_cases h
      obtain rfl : k = n := by omega
      cases hcase with
      | emptyObject => exact (takes_one _ _).cons rfl
      | object hms => exact (ihm hms).cons rfl
      | emptyArray => exact (takes_one _ _).cons rfl
      | array hvs => exact (ihe hvs).cons rfl
      | string => exact takes_one _ _
      | number => exact takes_one _ _
      | literal => exact takes_one _ _
    · intro ts rest ms h
      obtain ⟨k, raw, tail, v, rest', hk, rfl, hv, hend⟩ := parseMembers_cases h
      obtain rfl : k = n := by omega
      rcases hend with ⟨rfl, -⟩ | ⟨more, ms', rfl, hms', -⟩
      · exact (((ihv hv).append rfl (takes_one _ _)).cons rfl).cons rfl
      · exact (((ihv hv).append rfl ((ihm hms').cons rfl)).cons rfl).cons rfl
    · intro ts rest vs h
      obtain ⟨k, v, rest', hk, hv, hend⟩ := parseElements_cases h
      obtain rfl : k = n := by omega
      rcases hend with ⟨rfl, -⟩ | ⟨more, vs', rfl, hvs', -⟩
      · exact (ihv hv).append rfl (takes_one _ _)
      · exact (ihv hv).append rfl ((ihe hvs').cons rfl)

theorem separated_of_parse {ts : List Token} {v : Value} (h : parse ts = some v) :
    Separated ts := by
  unfold parse at h
  split at h
  · rename_i v' hv'
    obtain ⟨used, heq, -, hsep⟩ := (takes _).1 hv'
    rw [List.append_nil] at heq
    rwa [heq]
  · exact absurd h (by simp)

theorem enough (n : ℕ) :
    (∀ {ts rest : List Token} {v : Value} {m : ℕ}, parseValue n ts = some (v, rest) →
      ts.length ≤ m + rest.length → parseValue m ts = some (v, rest)) ∧
    (∀ {ts rest : List Token} {ms : List (List Char × Value)} {m : ℕ},
      parseMembers n ts = some (ms, rest) → ts.length ≤ m + rest.length →
        parseMembers m ts = some (ms, rest)) ∧
    (∀ {ts rest : List Token} {vs : List Value} {m : ℕ},
      parseElements n ts = some (vs, rest) → ts.length ≤ m + rest.length →
        parseElements m ts = some (vs, rest)) := by
  induction n with
  | zero => simp [parseValue, parseMembers, parseElements]
  | succ n ih =>
    obtain ⟨ihv, ihm, ihe⟩ := ih
    refine ⟨?_, ?_, ?_⟩
    · intro ts rest v m h hm
      have hlt := ((takes _).1 h).length_lt
      obtain ⟨m, rfl⟩ : ∃ m', m = m' + 1 := ⟨m - 1, by omega⟩
      obtain ⟨k, hk, hcase⟩ := parseValue_cases h
      obtain rfl : k = n := by omega
      refine parseValue_of_case ?_
      cases hcase with
      | emptyObject => exact .emptyObject
      | object hms =>
        rw [List.length_cons] at hm
        exact .object (ihm hms (by omega))
      | emptyArray => exact .emptyArray
      | array hvs =>
        rw [List.length_cons] at hm
        exact .array (ihe hvs (by omega))
      | string => exact .string
      | number => exact .number
      | literal => exact .literal
    · intro ts rest ms m h hm
      have hlt := ((takes _).2.1 h).length_lt
      obtain ⟨m, rfl⟩ : ∃ m', m = m' + 1 := ⟨m - 1, by omega⟩
      obtain ⟨k, raw, tail, v, rest', hk, rfl, hv, hend⟩ := parseMembers_cases h
      obtain rfl : k = n := by omega
      have htail := ((takes _).1 hv).length_lt
      simp only [List.length_cons] at hm
      rcases hend with ⟨rfl, rfl⟩ | ⟨more, ms', rfl, hms', rfl⟩
      · rw [List.length_cons] at htail
        refine parseMembers_last (ihv hv ?_)
        rw [List.length_cons]
        omega
      · have hmore := ((takes _).2.1 hms').length_lt
        rw [List.length_cons] at htail
        refine parseMembers_more (ihv hv ?_) (ihm hms' (by omega))
        rw [List.length_cons]
        omega
    · intro ts rest vs m h hm
      have hlt := ((takes _).2.2 h).length_lt
      obtain ⟨m, rfl⟩ : ∃ m', m = m' + 1 := ⟨m - 1, by omega⟩
      obtain ⟨k, v, rest', hk, hv, hend⟩ := parseElements_cases h
      obtain rfl : k = n := by omega
      have hts := ((takes _).1 hv).length_lt
      rcases hend with ⟨rfl, rfl⟩ | ⟨more, vs', rfl, hvs', rfl⟩
      · rw [List.length_cons] at hts
        refine parseElements_last (ihv hv ?_)
        rw [List.length_cons]
        omega
      · have hmore := ((takes _).2.2 hvs').length_lt
        rw [List.length_cons] at hts
        refine parseElements_more (ihv hv ?_) (ihe hvs' (by omega))
        rw [List.length_cons]
        omega

/-! ## Reading, without the fuel -/

def Parses (ts : List Token) (v : Value) (rest : List Token) : Prop :=
  ∃ n, parseValue n ts = some (v, rest)

def ParsesMembers (ts : List Token) (ms : List (List Char × Value)) (rest : List Token) : Prop :=
  ∃ n, parseMembers n ts = some (ms, rest)

theorem parse_eq_some {ts : List Token} {v : Value} : parse ts = some v ↔ Parses ts v [] := by
  unfold parse
  constructor
  · intro h
    split at h
    · rename_i v' hv'
      obtain rfl := Option.some.inj h
      exact ⟨_, hv'⟩
    · exact absurd h (by simp)
  · rintro ⟨n, h⟩
    rw [(enough n).1 h (Nat.le_refl _)]

theorem parses_number {raw : List Char} {ts rest : List Token} {v : Value} :
    Parses (.number raw :: ts) v rest ↔ v = .number raw ∧ rest = ts := by
  constructor
  · rintro ⟨n, h⟩
    obtain ⟨k, -, hcase⟩ := parseValue_cases h
    cases hcase
    exact ⟨rfl, rfl⟩
  · rintro ⟨rfl, rfl⟩
    exact ⟨1, parseValue_of_case .number⟩

theorem parses_emptyObject {ts rest : List Token} {v : Value} :
    Parses (.beginObject :: .endObject :: ts) v rest ↔ v = .object [] ∧ rest = ts := by
  constructor
  · rintro ⟨n, h⟩
    obtain ⟨k, -, hcase⟩ := parseValue_cases h
    cases hcase with
    | emptyObject => exact ⟨rfl, rfl⟩
    | object hms =>
      obtain ⟨k, raw, tail, v, rest', -, heq, -⟩ := parseMembers_cases hms
      exact absurd heq (by simp)
  · rintro ⟨rfl, rfl⟩
    exact ⟨1, parseValue_of_case .emptyObject⟩

theorem parses_object {raw : List Char} {ts rest : List Token} {v : Value} :
    Parses (.beginObject :: .string raw :: ts) v rest ↔
      ∃ ms, ParsesMembers (.string raw :: ts) ms rest ∧ v = .object ms := by
  constructor
  · rintro ⟨n, h⟩
    obtain ⟨k, -, hcase⟩ := parseValue_cases h
    cases hcase with
    | object hms => exact ⟨_, ⟨k, hms⟩, rfl⟩
  · rintro ⟨ms, ⟨n, hms⟩, rfl⟩
    exact ⟨n + 1, parseValue_of_case (.object hms)⟩

theorem head_of_parsesMembers {ts rest : List Token} {ms : List (List Char × Value)}
    (h : ParsesMembers ts ms rest) : ∃ raw ts', ts = .string raw :: .colon :: ts' := by
  obtain ⟨n, h⟩ := h
  obtain ⟨k, raw, ts', v, rest', -, rfl, -⟩ := parseMembers_cases h
  exact ⟨raw, ts', rfl⟩

theorem parsesMembers_cons {raw : List Char} {ts rest : List Token}
    {ms : List (List Char × Value)} :
    ParsesMembers (.string raw :: .colon :: ts) ms rest ↔
      ∃ v rest', Parses ts v rest' ∧
        ((rest' = .endObject :: rest ∧ ms = [(unescape raw, v)]) ∨
          ∃ more ms', rest' = .comma :: more ∧ ParsesMembers more ms' rest ∧
            ms = (unescape raw, v) :: ms') := by
  constructor
  · rintro ⟨n, h⟩
    obtain ⟨k, raw', tail, v, rest', -, heq, hv, hend⟩ := parseMembers_cases h
    obtain ⟨hraw, htail⟩ := List.cons.inj heq
    obtain ⟨-, rfl⟩ := List.cons.inj htail
    obtain rfl := Token.string.inj hraw
    refine ⟨v, rest', ⟨k, hv⟩, ?_⟩
    rcases hend with hlast | ⟨more, ms', hmore, hms', hms⟩
    · exact .inl hlast
    · exact .inr ⟨more, ms', hmore, ⟨k, hms'⟩, hms⟩
  · rintro ⟨v, rest', ⟨n, hv⟩, ⟨rfl, rfl⟩ | ⟨more, ms', rfl, ⟨n', hms'⟩, rfl⟩⟩
    · exact ⟨n + 1, parseMembers_last hv⟩
    · have hlt := ((takes _).1 hv).length_lt
      rw [List.length_cons] at hlt
      have hvalue : parseValue ts.length ts = some (v, .comma :: more) :=
        (enough n).1 hv (Nat.le_add_right _ _)
      have hmembers : parseMembers ts.length more = some (ms', rest) :=
        (enough n').2.1 hms' (by omega)
      exact ⟨ts.length + 1, parseMembers_more hvalue hmembers⟩

/-! ## Texts -/

/-- `json.Indent` without a prefix and with four blanks: the tokens of a well-formed text,
indented anew. -/
def indent (text : List Char) : Option (List Char) :=
  (lex text).bind fun ts => (parse ts).map fun _ => render false 0 ts

def read (text : List Char) : Option Value := (lex text).bind parse

theorem read_indent {text out : List Char} (h : indent text = some out) :
    read out = read text := by
  obtain ⟨ts, hts, h⟩ := Option.bind_eq_some_iff.mp h
  obtain ⟨v, hv, rfl⟩ := Option.map_eq_some_iff.mp h
  have hlex : lex (render false 0 ts) = some ts :=
    lex_eq_some.mpr (lexes_render (valid_of_lexes (lex_eq_some.mp hts)) (separated_of_parse hv))
  unfold read
  rw [hlex, hts]

theorem indent_of_read {text : List Char} {v : Value} (h : read text = some v) :
    ∃ out, indent text = some out := by
  obtain ⟨ts, hts, hv⟩ := Option.bind_eq_some_iff.mp h
  exact ⟨render false 0 ts, by rw [indent, hts, Option.bind_some, hv, Option.map_some]⟩

theorem read_eq_some {text : List Char} {v : Value} :
    read text = some v ↔ ∃ ts, Lexes text ts ∧ Parses ts v [] := by
  unfold read
  rw [Option.bind_eq_some_iff]
  simp only [lex_eq_some, parse_eq_some]

end Json
