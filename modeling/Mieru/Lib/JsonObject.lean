import Mathlib.Data.List.Forall2
import Mathlib.Tactic.IntervalCases
import Mieru.Lib.Json

/-! # Objects that are written by hand

A program writes an object member by member and puts the names between quotes as they are. The
text is read as wanted exactly when the names are plain and the values are read as wanted. -/
namespace Json

def Follows (tail : List Char) : Prop := ∀ c ∈ tail.head?, isNumberChar c = false

/-- Whatever follows, the text is read as a wanted value, up to its end, exactly when `ok`. -/
def Written (text : List Char) (wanted : Value → Prop) (ok : Prop) : Prop :=
  ∀ tail rest, Follows tail →
    ((∃ ts v, Lexes (text ++ tail) ts ∧ Parses ts v rest ∧ wanted v) ↔ ok ∧ Lexes tail rest)

theorem Written.read {text : List Char} {wanted : Value → Prop} {ok : Prop}
    (h : Written text wanted ok) : (∃ v, read text = some v ∧ wanted v) ↔ ok := by
  have hend := h [] [] (by simp [Follows])
  rw [List.append_nil, lexes_nil] at hend
  simp only [read_eq_some]
  constructor
  · rintro ⟨v, ⟨ts, hts, hv⟩, hwanted⟩
    exact (hend.mp ⟨ts, v, hts, hv, hwanted⟩).1
  · intro hok
    obtain ⟨ts, v, hts, hv, hwanted⟩ := hend.mpr ⟨hok, rfl⟩
    exact ⟨v, ⟨ts, hts, hv⟩, hwanted⟩

theorem Written.and {text : List Char} {wanted : Value → Prop} {ok : Prop}
    (h : Written text wanted ok) (p : Prop) : Written text (fun v => p ∧ wanted v) (p ∧ ok) := by
  intro tail rest htail
  rw [and_assoc, ← h tail rest htail]
  constructor
  · rintro ⟨ts, v, hts, hv, hp, hwanted⟩
    exact ⟨hp, ts, v, hts, hv, hwanted⟩
  · rintro ⟨hp, ts, v, hts, hv, hwanted⟩
    exact ⟨ts, v, hts, hv, hp, hwanted⟩

theorem Written.congr {text : List Char} {wanted wanted' : Value → Prop} {ok ok' : Prop}
    (h : Written text wanted ok) (hwanted : ∀ v, wanted' v ↔ wanted v) (hok : ok' ↔ ok) :
    Written text wanted' ok' := by
  intro tail rest htail
  simp only [hwanted, hok]
  exact h tail rest htail

/-! ## Numbers -/

def decimal (n : ℤ) : List Char :=
  if n < 0 then '-' :: Nat.toDigits 10 n.natAbs else Nat.toDigits 10 n.natAbs

def readDigits (s : List Char) : Option ℕ :=
  if s ≠ [] ∧ s.all Char.isDigit then some (Nat.ofDigitChars 10 s 0) else none

def readInt : List Char → Option ℤ
  | '-' :: s => Option.map (fun n : ℕ => -(n : ℤ)) (readDigits s)
  | s => Option.map (fun n : ℕ => (n : ℤ)) (readDigits s)

def Value.asInt : Value → Option ℤ
  | .number raw => readInt raw
  | _ => none

theorem head_toDigits {n : ℕ} (h : 0 < n) :
    ∃ c rest, Nat.toDigits 10 n = c :: rest ∧ c ≠ '0' := by
  induction n using Nat.strong_induction_on with
  | _ n ih =>
    by_cases hsmall : n < 10
    · refine ⟨n.digitChar, [], Nat.toDigits_of_lt_base hsmall, ?_⟩
      interval_cases n <;> decide
    · obtain ⟨c, rest, hdigits, hc⟩ := ih (n / 10) (by omega) (by omega)
      have happend := Nat.toDigits_append_toDigits (b := 10) (n := n / 10) (d := n % 10)
        (by omega) (by omega) (by omega)
      rw [Nat.div_add_mod, hdigits, List.cons_append] at happend
      exact ⟨c, _, happend.symm, hc⟩

theorem isDigit_toDigits {n : ℕ} {c : Char} (h : c ∈ Nat.toDigits 10 n) : c.isDigit = true :=
  Nat.isDigit_of_mem_toDigits (by omega) (by omega) h

theorem validInteger_toDigits (n : ℕ) : validInteger (Nat.toDigits 10 n) = true := by
  have hall : ∀ c ∈ Nat.toDigits 10 n, c.isDigit = true := fun c hc => isDigit_toDigits hc
  rcases Nat.eq_zero_or_pos n with rfl | hpos
  · decide
  · obtain ⟨c, rest, hdigits, hc⟩ := head_toDigits hpos
    rw [hdigits] at hall ⊢
    rw [validInteger, List.takeWhile_eq_self_iff.mpr hall, List.dropWhile_eq_nil_iff.mpr hall]
    · simp [validFraction, validEnd]
    · exact fun rest' h => hc (List.cons.inj h).1

theorem toDigits_head_ne_minus {n : ℕ} {rest : List Char} : Nat.toDigits 10 n ≠ '-' :: rest := by
  intro h
  have hdigit : ('-').isDigit = true := isDigit_toDigits (h ▸ List.mem_cons_self)
  exact absurd hdigit (by decide)

theorem validNumber_decimal (n : ℤ) : validNumber (decimal n) = true := by
  unfold decimal
  split_ifs
  · exact validInteger_toDigits _
  · rw [validNumber]
    · exact validInteger_toDigits _
    · exact fun rest h => toDigits_head_ne_minus h

theorem readDigits_toDigits (n : ℕ) : readDigits (Nat.toDigits 10 n) = some n := by
  have hall : (Nat.toDigits 10 n).all Char.isDigit = true :=
    List.all_eq_true.mpr fun c hc => isDigit_toDigits hc
  rw [readDigits, if_pos ⟨Nat.toDigits_ne_nil, hall⟩,
    Nat.ofDigitChars_toDigits (by omega) (by omega)]

theorem readInt_decimal (n : ℤ) : readInt (decimal n) = some n := by
  unfold decimal
  split_ifs with hneg
  · rw [readInt, readDigits_toDigits, Option.map_some]
    congr 1
    omega
  · rw [readInt, readDigits_toDigits, Option.map_some]
    · congr 1
      omega
    · exact fun rest h => toDigits_head_ne_minus h

theorem valid_decimal (n : ℤ) : (Token.number (decimal n)).Valid := by
  have hdigit : ∀ c ∈ Nat.toDigits 10 n.natAbs, isNumberChar c = true := by
    intro c hc
    rw [isNumberChar, isDigit_toDigits hc, Bool.true_or]
  refine ⟨?_, ?_, validNumber_decimal n⟩
  · have hne : decimal n ≠ [] := by
      unfold decimal
      split_ifs
      · exact List.cons_ne_nil _ _
      · exact Nat.toDigits_ne_nil
    exact List.exists_cons_of_ne_nil hne
  · unfold decimal
    split_ifs
    · exact List.forall_mem_cons.mpr ⟨by decide, hdigit⟩
    · exact hdigit

theorem written_decimal (n : ℤ) : Written (decimal n) (fun v => v.asInt = some n) True := by
  intro tail rest htail
  have htoken : ∀ ts, Lexes (decimal n ++ tail) ts ↔
      ∃ ts', Lexes tail ts' ∧ ts = .number (decimal n) :: ts' :=
    fun ts => lexes_token (valid_decimal n) htail
  simp only [true_and]
  constructor
  · rintro ⟨ts, v, hts, hv, -⟩
    obtain ⟨ts', hts', rfl⟩ := (htoken ts).mp hts
    obtain ⟨-, rfl⟩ := parses_number.mp hv
    exact hts'
  · intro hrest
    exact ⟨_, _, (htoken _).mpr ⟨rest, hrest, rfl⟩, parses_number.mpr ⟨rfl, rfl⟩, readInt_decimal n⟩

/-! ## Members -/

/-- A member of an object: its name, the text of its value, and how the text is to be read. -/
structure Member where
  name : List Char
  text : List Char
  wanted : Value → Prop
  ok : Prop
  written : Written text wanted ok

def Member.pairText (m : Member) : List Char :=
  '"' :: (m.name ++ '"' :: ':' :: ' ' :: m.text)

def membersText : List Member → List Char
  | [] => []
  | [m] => m.pairText
  | m :: m' :: ms => m.pairText ++ ',' :: membersText (m' :: ms)

def othersText (ms : List Member) : List Char :=
  match ms with
  | [] => []
  | ms => ',' :: membersText ms

theorem membersText_eq (m : Member) (ms : List Member) :
    membersText (m :: ms) = m.pairText ++ othersText ms := by
  cases ms with
  | nil => exact (List.append_nil _).symm
  | cons m' ms => rfl

def objectText (ms : List Member) : List Char := '{' :: (membersText ms ++ ['}'])

def Member.Reads (m : Member) (read : List Char × Value) : Prop :=
  read.1 = m.name ∧ m.wanted read.2

theorem lexes_name {name tail : List Char} {ts : List Token} :
    Lexes ('"' :: (name ++ '"' :: tail)) ts ↔
      ∃ raw rest ts', scanString .plain (name ++ '"' :: tail) = some (raw, rest) ∧ Lexes rest ts' ∧
        ts = .string raw :: ts' := by
  rw [lexes_scan (by decide), scanToken, if_pos rfl]
  constructor
  · rintro ⟨t, rest, ts', hs, hts', rfl⟩
    obtain ⟨⟨raw, rest'⟩, hscan, heq⟩ := Option.map_eq_some_iff.mp hs
    obtain ⟨rfl, rfl⟩ := Prod.mk.inj heq
    exact ⟨raw, rest', ts', hscan, hts', rfl⟩
  · rintro ⟨raw, rest, ts', hs, hts', rfl⟩
    exact ⟨.string raw, rest, ts', by rw [hs, Option.map_some], hts', rfl⟩

theorem lexes_punctuation {c : Char} {t : Token} {tail : List Char} {ts : List Token}
    (h : punctuation c = some t) :
    Lexes (c :: tail) ts ↔ ∃ ts', Lexes tail ts' ∧ ts = t :: ts' := by
  obtain ⟨htext, hvalid, hends⟩ := text_of_punctuation h
  rw [← lexes_token hvalid (hends tail), htext, List.singleton_append]

theorem pair_reads (m : Member) {tail : List Char} {rest : List Token} (htail : Follows tail) :
    (∃ raw ts v, Lexes (m.pairText ++ tail) (.string raw :: .colon :: ts) ∧ Parses ts v rest ∧
        m.Reads (unescape raw, v)) ↔
      (Plain m.name ∧ m.ok) ∧ Lexes tail rest := by
  have htext : m.pairText ++ tail = '"' :: (m.name ++ '"' :: ':' :: ' ' :: (m.text ++ tail)) := by
    simp [Member.pairText]
  rw [htext]
  simp only [lexes_name]
  constructor
  · rintro ⟨raw, ts, v, ⟨raw', rest', ts', hscan, hts', heq⟩, hv, hname, hwanted⟩
    obtain ⟨hraw, rfl⟩ := List.cons.inj heq
    obtain rfl := Token.string.inj hraw
    obtain ⟨hplain, rfl, rfl⟩ := plain_of_scanString hscan hname
    obtain ⟨ts'', hts'', heq⟩ := (lexes_punctuation (t := .colon) rfl).mp hts'
    obtain ⟨-, rfl⟩ := List.cons.inj heq
    rw [lexes_space (by decide)] at hts''
    obtain ⟨hok, hrest⟩ := (m.written tail rest htail).mp ⟨ts, v, hts'', hv, hwanted⟩
    exact ⟨⟨hplain, hok⟩, hrest⟩
  · rintro ⟨⟨hplain, hok⟩, hrest⟩
    obtain ⟨ts, v, hts, hv, hwanted⟩ := (m.written tail rest htail).mpr ⟨hok, hrest⟩
    have hspace : Lexes (' ' :: (m.text ++ tail)) ts := (lexes_space (by decide)).mpr hts
    have hcolon : Lexes (':' :: ' ' :: (m.text ++ tail)) (.colon :: ts) :=
      (lexes_punctuation rfl).mpr ⟨ts, hspace, rfl⟩
    exact ⟨m.name, ts, v, ⟨m.name, _, _, scanString_raw hplain.raw _, hcolon, rfl⟩, hv,
      unescape_plain hplain, hwanted⟩

theorem first_reads (m : Member) {tail : List Char} {rest : List Token}
    {others : List (List Char × Value)} (htail : Follows tail) :
    (∃ ts first, Lexes (m.pairText ++ tail) ts ∧ ParsesMembers ts (first :: others) rest ∧
        m.Reads first) ↔
      (Plain m.name ∧ m.ok) ∧ ∃ rest', Lexes tail rest' ∧
        ((rest' = .endObject :: rest ∧ others = []) ∨
          ∃ more, rest' = .comma :: more ∧ ParsesMembers more others rest) := by
  constructor
  · rintro ⟨ts, first, hts, hms, hreads⟩
    obtain ⟨raw, ts', rfl⟩ := head_of_parsesMembers hms
    obtain ⟨v, rest', hv, hend⟩ := parsesMembers_cons.mp hms
    have hfirst : first = (unescape raw, v) := by
      rcases hend with ⟨-, heq⟩ | ⟨more, ms', -, -, heq⟩
      · exact (List.cons.inj heq).1
      · exact (List.cons.inj heq).1
    rw [hfirst] at hreads
    obtain ⟨hok, hrest'⟩ := (pair_reads m htail).mp ⟨raw, ts', v, hts, hv, hreads⟩
    refine ⟨hok, rest', hrest', ?_⟩
    rcases hend with ⟨rfl, heq⟩ | ⟨more, ms', rfl, hms', heq⟩
    · exact .inl ⟨rfl, (List.cons.inj heq).2⟩
    · obtain rfl := (List.cons.inj heq).2
      exact .inr ⟨more, rfl, hms'⟩
  · rintro ⟨hok, rest', hrest', hend⟩
    obtain ⟨raw, ts, v, hts, hv, hreads⟩ := (pair_reads m htail).mpr ⟨hok, hrest'⟩
    refine ⟨_, (unescape raw, v), hts, parsesMembers_cons.mpr ⟨v, rest', hv, ?_⟩, hreads⟩
    rcases hend with ⟨rfl, rfl⟩ | ⟨more, rfl, hms'⟩
    · exact .inl ⟨rfl, rfl⟩
    · exact .inr ⟨more, others, rfl, hms', rfl⟩

theorem follows_cons {c : Char} {tail : List Char} (h : isNumberChar c = false) :
    Follows (c :: tail) := by
  intro c' hc'
  obtain rfl := Option.some.inj hc'
  exact h

theorem members_read (m : Member) (ms : List Member) (tail : List Char) (rest : List Token) :
    (∃ ts vs, Lexes (membersText (m :: ms) ++ '}' :: tail) ts ∧ ParsesMembers ts vs rest ∧
        List.Forall₂ Member.Reads (m :: ms) vs) ↔
      (∀ m' ∈ m :: ms, Plain m'.name ∧ m'.ok) ∧ Lexes tail rest := by
  have hclose : ∀ ts, Lexes ('}' :: tail) ts ↔ ∃ ts', Lexes tail ts' ∧ ts = .endObject :: ts' :=
    fun ts => lexes_punctuation rfl
  induction ms generalizing m with
  | nil =>
    have hfollows : Follows ('}' :: tail) := follows_cons (by decide)
    constructor
    · rintro ⟨ts, vs, hts, hms, hreads⟩
      obtain ⟨first, others, hfirst, hothers, rfl⟩ := List.forall₂_cons_left_iff.mp hreads
      obtain rfl := List.forall₂_nil_left_iff.mp hothers
      obtain ⟨hok, rest', hrest', hend⟩ :=
        (first_reads m hfollows).mp ⟨ts, first, hts, hms, hfirst⟩
      obtain ⟨ts', hts', rfl⟩ := (hclose rest').mp hrest'
      rcases hend with ⟨heq, -⟩ | ⟨more, heq, -⟩
      · rw [(List.cons.inj heq).2] at hts'
        exact ⟨List.forall_mem_singleton.mpr hok, hts'⟩
      · exact absurd (List.cons.inj heq).1 (by simp)
    · rintro ⟨hok, hrest⟩
      obtain ⟨ts, first, hts, hms, hfirst⟩ := (first_reads m hfollows).mpr
        ⟨hok m List.mem_cons_self, _, (hclose _).mpr ⟨rest, hrest, rfl⟩, .inl ⟨rfl, rfl⟩⟩
      exact ⟨ts, [first], hts, hms, .cons hfirst .nil⟩
  | cons m' ms ih =>
    have hfollows : Follows (',' :: (membersText (m' :: ms) ++ '}' :: tail)) :=
      follows_cons (by decide)
    have hcomma : ∀ ts, Lexes (',' :: (membersText (m' :: ms) ++ '}' :: tail)) ts ↔
        ∃ ts', Lexes (membersText (m' :: ms) ++ '}' :: tail) ts' ∧ ts = .comma :: ts' :=
      fun ts => lexes_punctuation rfl
    have htext : membersText (m :: m' :: ms) ++ '}' :: tail =
        m.pairText ++ ',' :: (membersText (m' :: ms) ++ '}' :: tail) := by
      simp [membersText]
    rw [htext]
    constructor
    · rintro ⟨ts, vs, hts, hms, hreads⟩
      obtain ⟨first, others, hfirst, hothers, rfl⟩ := List.forall₂_cons_left_iff.mp hreads
      obtain ⟨hok, rest', hrest', hend⟩ :=
        (first_reads m hfollows).mp ⟨ts, first, hts, hms, hfirst⟩
      obtain ⟨ts', hts', rfl⟩ := (hcomma rest').mp hrest'
      rcases hend with ⟨heq, -⟩ | ⟨more, heq, hmore⟩
      · exact absurd (List.cons.inj heq).1 (by simp)
      · rw [(List.cons.inj heq).2] at hts'
        obtain ⟨hoks, hrest⟩ := (ih m').mp ⟨more, others, hts', hmore, hothers⟩
        exact ⟨List.forall_mem_cons.mpr ⟨hok, hoks⟩, hrest⟩
    · rintro ⟨hoks, hrest⟩
      obtain ⟨hok, hoks⟩ := List.forall_mem_cons.mp hoks
      obtain ⟨more, others, hts', hmore, hothers⟩ := (ih m').mpr ⟨hoks, hrest⟩
      obtain ⟨ts, first, hts, hms, hfirst⟩ := (first_reads m hfollows).mpr
        ⟨hok, _, (hcomma _).mpr ⟨more, hts', rfl⟩, .inr ⟨more, rfl, hmore⟩⟩
      exact ⟨ts, first :: others, hts, hms, .cons hfirst hothers⟩

theorem membersText_cons (m : Member) (ms : List Member) :
    ∃ text, membersText (m :: ms) = '"' :: text := by
  cases ms with
  | nil => exact ⟨_, rfl⟩
  | cons m' ms => exact ⟨_, rfl⟩

/-- An object is read with all its members exactly when their names are plain and their values
in order. -/
theorem written_object (ms : List Member) :
    Written (objectText ms) (fun v => ∃ vs, v = .object vs ∧ List.Forall₂ Member.Reads ms vs)
      (∀ m ∈ ms, Plain m.name ∧ m.ok) := by
  intro tail rest _
  have htext : objectText ms ++ tail = '{' :: (membersText ms ++ '}' :: tail) := by
    simp [objectText]
  have hopen : ∀ ts, Lexes ('{' :: (membersText ms ++ '}' :: tail)) ts ↔
      ∃ ts', Lexes (membersText ms ++ '}' :: tail) ts' ∧ ts = .beginObject :: ts' :=
    fun ts => lexes_punctuation rfl
  rw [htext]
  cases ms with
  | nil =>
    have hclose : ∀ ts, Lexes ('}' :: tail) ts ↔
        ∃ ts', Lexes tail ts' ∧ ts = .endObject :: ts' := fun ts => lexes_punctuation rfl
    constructor
    · rintro ⟨ts, v, hts, hv, -⟩
      obtain ⟨ts', hts', rfl⟩ := (hopen ts).mp hts
      obtain ⟨ts'', hts'', rfl⟩ := (hclose ts').mp hts'
      obtain ⟨-, rfl⟩ := parses_emptyObject.mp hv
      exact ⟨List.forall_mem_nil _, hts''⟩
    · rintro ⟨-, hrest⟩
      exact ⟨_, .object [], (hopen _).mpr ⟨_, (hclose _).mpr ⟨rest, hrest, rfl⟩, rfl⟩,
        parses_emptyObject.mpr ⟨rfl, rfl⟩, [], rfl, .nil⟩
  | cons m ms =>
    constructor
    · rintro ⟨ts, v, hts, hv, vs, rfl, hreads⟩
      obtain ⟨ts', hts', rfl⟩ := (hopen ts).mp hts
      obtain ⟨text, hmembers⟩ := membersText_cons m ms
      have hstring : ∃ raw ts'', ts' = .string raw :: ts'' := by
        rw [hmembers, List.cons_append, lexes_scan (by decide), scanToken, if_pos rfl] at hts'
        obtain ⟨t, rest', ts'', hscan, -, rfl⟩ := hts'
        obtain ⟨s, -, heq⟩ := Option.map_eq_some_iff.mp hscan
        exact ⟨s.1, ts'', by rw [← (Prod.mk.inj heq).1]⟩
      obtain ⟨raw, ts'', rfl⟩ := hstring
      obtain ⟨vs', hvs', heq⟩ := parses_object.mp hv
      obtain rfl := Value.object.inj heq
      exact (members_read m ms tail rest).mp ⟨_, vs, hts', hvs', hreads⟩
    · intro h
      obtain ⟨ts, vs, hts, hvs, hreads⟩ := (members_read m ms tail rest).mpr h
      obtain ⟨raw, ts', rfl⟩ := head_of_parsesMembers hvs
      exact ⟨_, .object vs, (hopen _).mpr ⟨_, hts, rfl⟩, parses_object.mpr ⟨vs, hvs, rfl⟩, vs, rfl,
        hreads⟩

/-! ## Readers of objects -/

/-- The members of an object in which no name occurs twice. Readers differ in what they make of
the others. -/
def Value.members : Value → Option (List (List Char × Value))
  | .object vs => if (vs.map Prod.fst).Nodup then some vs else none
  | _ => none

def readObject {β : Type} (f : List Char → Value → Option β) (v : Value) : Option (List β) :=
  v.members.bind fun vs => vs.mapM fun p => f p.1 p.2

theorem mapM_eq_some {α β : Type} {f : α → Option β} {l : List α} {bs : List β} :
    l.mapM f = some bs ↔ List.Forall₂ (fun b a => f a = some b) bs l := by
  induction l generalizing bs with
  | nil =>
    rw [List.mapM_nil, List.forall₂_nil_right_iff]
    exact ⟨fun h => (Option.some.inj h).symm, fun h => congrArg some h.symm⟩
  | cons a l ih =>
    rw [List.mapM_cons, List.forall₂_cons_right_iff]
    constructor
    · intro h
      obtain ⟨b, hb, h⟩ := Option.bind_eq_some_iff.mp h
      obtain ⟨rest, hrest, h⟩ := Option.bind_eq_some_iff.mp h
      exact ⟨b, rest, hb, ih.mp hrest, (Option.some.inj h).symm⟩
    · rintro ⟨b, rest, hb, hrest, rfl⟩
      rw [hb, ih.mpr hrest]
      rfl

theorem names_of_reads {ms : List Member} {vs : List (List Char × Value)}
    (h : List.Forall₂ Member.Reads ms vs) : vs.map Prod.fst = ms.map Member.name := by
  induction h with
  | nil => rfl
  | cons hp _ ih => rw [List.map_cons, List.map_cons, ih, hp.1]

section Reader

variable {α β : Type} {f : List Char → Value → Option β} {member : α → Member} {content : α → β}

theorem readObject_iff (h : ∀ a p, f p.1 p.2 = some (content a) ↔ (member a).Reads p)
    {items : List α} {v : Value} :
    readObject f v = some (items.map content) ↔
      (items.map fun a => (member a).name).Nodup ∧
        ∃ vs, v = .object vs ∧ List.Forall₂ Member.Reads (items.map member) vs := by
  have hreads : ∀ vs : List (List Char × Value),
      vs.mapM (fun p => f p.1 p.2) = some (items.map content) ↔
        List.Forall₂ Member.Reads (items.map member) vs := by
    intro vs
    rw [mapM_eq_some, List.forall₂_map_left_iff, List.forall₂_map_left_iff]
    simp only [h]
  have hnames : ∀ vs, List.Forall₂ Member.Reads (items.map member) vs →
      vs.map Prod.fst = items.map fun a => (member a).name := by
    intro vs hvs
    rw [names_of_reads hvs, List.map_map]
    rfl
  constructor
  · intro hread
    obtain ⟨vs, hvs, hread⟩ := Option.bind_eq_some_iff.mp hread
    have hall := (hreads vs).mp hread
    cases v with
    | object vs' =>
      rw [Value.members] at hvs
      split_ifs at hvs with hnodup
      obtain rfl := Option.some.inj hvs
      exact ⟨hnames _ hall ▸ hnodup, vs', rfl, hall⟩
    | array _ => exact absurd hvs (by simp [Value.members])
    | string _ => exact absurd hvs (by simp [Value.members])
    | number _ => exact absurd hvs (by simp [Value.members])
    | literal _ => exact absurd hvs (by simp [Value.members])
  · rintro ⟨hnodup, vs, rfl, hall⟩
    rw [← hnames vs hall] at hnodup
    rw [readObject, Value.members, if_pos hnodup, Option.bind_some]
    exact (hreads vs).mpr hall

theorem written_readObject (h : ∀ a p, f p.1 p.2 = some (content a) ↔ (member a).Reads p)
    (items : List α) :
    Written (objectText (items.map member))
      (fun v => readObject f v = some (items.map content))
      ((items.map fun a => (member a).name).Nodup ∧
        ∀ a ∈ items, Plain (member a).name ∧ (member a).ok) := by
  refine ((written_object (items.map member)).and _).congr (fun v => readObject_iff h) ?_
  rw [List.forall_mem_map]

end Reader

end Json
