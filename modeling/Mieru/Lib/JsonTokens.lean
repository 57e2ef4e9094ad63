import Mathlib.Data.List.Basic
import Mathlib.Data.List.Count
import Mathlib.Data.List.TakeWhile
import Mathlib.Tactic.Common

/-! # Tokens of a JSON text

A text is a list of characters. Strings and numbers keep the form in which they are written, so
that a token list can be written out again with other white space. -/
namespace Json

/-! ## Strings -/

def isEscape (c : Char) : Bool := c ∈ ['"', '\\', '/', 'b', 'f', 'n', 'r', 't']

def isHex (c : Char) : Bool := c.isDigit || ('a' ≤ c && c ≤ 'f') || ('A' ≤ c && c ≤ 'F')

def isControl (c : Char) : Bool := c.toNat < 32

def hexValue (c : Char) : ℕ :=
  if c.isDigit then c.toNat - 48 else if 'a' ≤ c then c.toNat - 87 else c.toNat - 55

def escaped : Char → Char
  | 'b' => Char.ofNat 8
  | 'f' => Char.ofNat 12
  | 'n' => Char.ofNat 10
  | 'r' => Char.ofNat 13
  | 't' => Char.ofNat 9
  | c => c

/-- Between characters, behind a backslash, or at a hexadecimal digit with others to come. -/
inductive StringState where
  | plain
  | escape
  | hex (more value : ℕ)
  deriving DecidableEq

/-- A character that stands for itself or is escaped by a letter, or a UTF-16 code unit. -/
inductive Piece where
  | char (c : Char)
  | unit (n : ℕ)
  deriving DecidableEq

namespace StringState

def next (s : StringState) (c : Char) : Option StringState :=
  match s with
  | plain => if isControl c then none else if c = '\\' then some escape else some plain
  | escape => if c = 'u' then some (hex 3 0) else if isEscape c then some plain else none
  | hex 0 _ => if isHex c then some plain else none
  | hex (more + 1) value => if isHex c then some (hex more (value * 16 + hexValue c)) else none

def pieces (s : StringState) (c : Char) : List Piece :=
  match s with
  | plain => if c = '\\' then [] else [.char c]
  | escape => if c = 'u' then [] else [.char (escaped c)]
  | hex 0 value => [.unit (value * 16 + hexValue c)]
  | hex (_ + 1) _ => []

end StringState

def scanString : StringState → List Char → Option (List Char × List Char)
  | _, [] => none
  | s, c :: rest =>
    if s = .plain ∧ c = '"' then some ([], rest)
    else (s.next c).bind fun s' => (scanString s' rest).map fun r => (c :: r.1, r.2)

def pieces : StringState → List Char → List Piece
  | _, [] => []
  | s, c :: rest => s.pieces c ++ pieces ((s.next c).getD .plain) rest

def isHigh (n : ℕ) : Bool := 0xd800 ≤ n && n < 0xdc00

def isLow (n : ℕ) : Bool := 0xdc00 ≤ n && n < 0xe000

def replacement : Char := Char.ofNat 0xfffd

def single (n : ℕ) : Char := if isLow n then replacement else Char.ofNat n

def pair (high low : ℕ) : Char := Char.ofNat (0x10000 + (high - 0xd800) * 0x400 + (low - 0xdc00))

/-- Two code units that belong together are one character. The first of them waits for the
second. -/
def join : Option ℕ → List Piece → List Char
  | none, [] => []
  | some _, [] => [replacement]
  | none, .char c :: ps => c :: join none ps
  | some _, .char c :: ps => replacement :: c :: join none ps
  | none, .unit n :: ps => if isHigh n then join (some n) ps else single n :: join none ps
  | some h, .unit n :: ps =>
    if isLow n then pair h n :: join none ps
    else if isHigh n then replacement :: join (some n) ps
    else replacement :: single n :: join none ps

def unescape (raw : List Char) : List Char := join none (pieces .plain raw)

def Plain (s : List Char) : Prop := ∀ c ∈ s, c ≠ '"' ∧ c ≠ '\\' ∧ isControl c = false

instance (s : List Char) : Decidable (Plain s) := List.decidableBAll _ s

/-- The written forms of strings, from a state on. -/
inductive Raw : StringState → List Char → Prop
  | nil : Raw .plain []
  | cons {s s' : StringState} {c : Char} {rest : List Char} (hquote : ¬(s = .plain ∧ c = '"'))
      (hnext : s.next c = some s') (hrest : Raw s' rest) : Raw s (c :: rest)

theorem next_plain {c : Char} (hslash : c ≠ '\\') (hcontrol : isControl c = false) :
    StringState.plain.next c = some .plain := by
  rw [StringState.next, if_neg (by simp [hcontrol]), if_neg hslash]

theorem Plain.raw {s : List Char} (h : Plain s) : Raw .plain s := by
  induction s with
  | nil => exact .nil
  | cons c s ih =>
    obtain ⟨hquote, hslash, hcontrol⟩ := h c List.mem_cons_self
    exact .cons (fun h => hquote h.2) (next_plain hslash hcontrol)
      (ih fun c' hc' => h c' (List.mem_cons_of_mem _ hc'))

theorem scanString_raw {s : StringState} {raw : List Char} (h : Raw s raw) (rest : List Char) :
    scanString s (raw ++ '"' :: rest) = some (raw, rest) := by
  induction h with
  | nil => rw [List.nil_append, scanString, if_pos ⟨rfl, rfl⟩]
  | cons hquote hnext _ ih =>
    rw [List.cons_append, scanString, if_neg hquote, hnext, Option.bind_some, ih, Option.map_some]

theorem raw_of_scanString {s : StringState} {text raw rest : List Char}
    (h : scanString s text = some (raw, rest)) : Raw s raw ∧ text = raw ++ '"' :: rest := by
  induction text generalizing s raw with
  | nil => exact absurd h (by simp [scanString])
  | cons c text ih =>
    rw [scanString] at h
    by_cases hquote : s = .plain ∧ c = '"'
    · rw [if_pos hquote] at h
      obtain ⟨rfl, rfl⟩ := Prod.mk.inj (Option.some.inj h)
      obtain ⟨rfl, rfl⟩ := hquote
      exact ⟨.nil, rfl⟩
    · rw [if_neg hquote] at h
      obtain ⟨s', hnext, h⟩ := Option.bind_eq_some_iff.mp h
      obtain ⟨⟨raw', rest'⟩, hscan, heq⟩ := Option.map_eq_some_iff.mp h
      obtain ⟨rfl, rfl⟩ := Prod.mk.inj heq
      obtain ⟨hraw, rfl⟩ := ih hscan
      exact ⟨.cons hquote hnext hraw, rfl⟩

theorem pieces_plain {s : List Char} (h : Plain s) : pieces .plain s = s.map .char := by
  induction s with
  | nil => rfl
  | cons c s ih =>
    obtain ⟨-, hslash, hcontrol⟩ := h c List.mem_cons_self
    have hrest := ih fun c' hc' => h c' (List.mem_cons_of_mem _ hc')
    rw [pieces, next_plain hslash hcontrol, Option.getD_some, hrest, StringState.pieces,
      if_neg hslash]
    rfl

theorem join_map_char (s : List Char) : join none (s.map .char) = s := by
  induction s with
  | nil => rfl
  | cons c s ih => rw [List.map_cons, join, ih]

theorem unescape_plain {s : List Char} (h : Plain s) : unescape s = s := by
  rw [unescape, pieces_plain h, join_map_char]

/-! ### What is read of a string that is written as it is

A raw form is never shorter than the string that it stands for, and has no more quotes. So a
string that is written without escaping is read back only if it needs none. -/

theorem length_state_pieces (s : StringState) (c : Char) : (s.pieces c).length ≤ 1 := by
  unfold StringState.pieces
  split
  · split_ifs <;> simp
  · split_ifs <;> simp
  · simp
  · simp

theorem pieces_quote {s s' : StringState} (hplain : s ≠ .plain) (h : s.next '"' = some s') :
    s.pieces '"' = [.char '"'] := by
  cases s with
  | plain => exact absurd rfl hplain
  | escape => decide
  | hex more value =>
    have hhex : isHex '"' = false := by decide
    cases more with
    | zero => exact absurd h (by simp [StringState.next, hhex])
    | succ more => exact absurd h (by simp [StringState.next, hhex])

theorem count_quote_pieces {s : StringState} {raw : List Char} (h : Raw s raw) :
    raw.count '"' ≤ (pieces s raw).count (.char '"') := by
  induction h with
  | nil => exact Nat.le_refl _
  | @cons s s' c rest hquote hnext _ ih =>
    rw [pieces, hnext, Option.getD_some, List.count_append]
    by_cases hc : c = '"'
    · subst hc
      have hplain : s ≠ .plain := fun hs => hquote ⟨hs, rfl⟩
      rw [pieces_quote hplain hnext, List.count_cons_self, List.count_singleton_self]
      omega
    · rw [List.count_cons_of_ne hc]
      exact Nat.le_trans ih (Nat.le_add_left _ _)

theorem length_pieces_le {s : StringState} {raw : List Char} (h : Raw s raw) :
    (pieces s raw).length ≤ raw.length := by
  induction h with
  | nil => exact Nat.le_refl _
  | @cons s s' c rest _ hnext _ ih =>
    have hone := length_state_pieces s c
    rw [pieces, hnext, Option.getD_some, List.length_append, List.length_cons]
    omega

theorem plain_of_length {raw : List Char} (h : Raw .plain raw)
    (hlen : raw.length ≤ (pieces .plain raw).length) : Plain raw := by
  induction raw with
  | nil => exact List.forall_mem_nil _
  | cons c rest ih =>
    cases h with
    | @cons _ s' _ _ hquote hnext hrest =>
      have hle := length_pieces_le hrest
      have hcontrol : isControl c = false := by
        by_contra hcontrol
        rw [StringState.next, if_pos (by simpa using hcontrol)] at hnext
        exact absurd hnext (by simp)
      have hslash : c ≠ '\\' := by
        rintro rfl
        rw [pieces, hnext, Option.getD_some, List.length_append, List.length_cons] at hlen
        simp only [StringState.pieces, if_true, List.length_nil] at hlen
        omega
      have hself : s' = .plain := Option.some.inj (hnext.symm.trans (next_plain hslash hcontrol))
      subst hself
      refine List.forall_mem_cons.mpr ⟨⟨fun hc => hquote ⟨rfl, hc⟩, hslash, hcontrol⟩, ?_⟩
      refine ih hrest ?_
      have hone := length_state_pieces .plain c
      rw [pieces, hnext, Option.getD_some, List.length_append, List.length_cons] at hlen
      omega

theorem count_quote_cons {c : Char} {ps : List Piece} {cs : List Char}
    (h : ps.count (.char '"') ≤ cs.count '"') :
    (Piece.char c :: ps).count (.char '"') ≤ (c :: cs).count '"' := by
  by_cases hquote : c = '"'
  · rw [hquote, List.count_cons_self, List.count_cons_self]
    exact Nat.succ_le_succ h
  · rw [List.count_cons_of_ne (by simpa using hquote), List.count_cons_of_ne hquote]
    exact h

theorem count_quote_join (pending : Option ℕ) (ps : List Piece) :
    ps.count (.char '"') ≤ (join pending ps).count '"' := by
  fun_induction join pending ps with
  | case1 => exact Nat.le_refl _
  | case2 => exact Nat.zero_le _
  | case3 c ps ih => exact count_quote_cons ih
  | case4 _ c ps ih => exact Nat.le_trans (count_quote_cons ih) List.count_le_count_cons
  | case5 n ps _ ih =>
    rw [List.count_cons_of_ne (by simp)]
    exact ih
  | case6 n ps _ ih =>
    rw [List.count_cons_of_ne (by simp)]
    exact Nat.le_trans ih List.count_le_count_cons
  | case7 _ n ps _ ih =>
    rw [List.count_cons_of_ne (by simp)]
    exact Nat.le_trans ih List.count_le_count_cons
  | case8 _ n ps _ _ ih =>
    rw [List.count_cons_of_ne (by simp)]
    exact Nat.le_trans ih List.count_le_count_cons
  | case9 _ n ps _ _ ih =>
    rw [List.count_cons_of_ne (by simp)]
    exact Nat.le_trans (Nat.le_trans ih List.count_le_count_cons) List.count_le_count_cons

theorem length_join_le (pending : Option ℕ) (ps : List Piece) :
    (join pending ps).length ≤ ps.length + pending.toList.length := by
  fun_induction join pending ps <;>
    simp only [List.length_cons, List.length_nil, Option.toList_some, Option.toList_none] at * <;>
    omega

theorem count_quote_unescape {raw : List Char} (h : Raw .plain raw) :
    raw.count '"' ≤ (unescape raw).count '"' :=
  Nat.le_trans (count_quote_pieces h) (count_quote_join none _)

theorem length_unescape_le {raw : List Char} (h : Raw .plain raw) :
    (unescape raw).length ≤ raw.length :=
  Nat.le_trans (length_join_le none _) (length_pieces_le h)

theorem plain_of_scanString {s rest raw rest' : List Char}
    (h : scanString .plain (s ++ '"' :: rest) = some (raw, rest')) (hs : unescape raw = s) :
    Plain s ∧ raw = s ∧ rest' = rest := by
  obtain ⟨hraw, htext⟩ := raw_of_scanString h
  have hlen := length_unescape_le hraw
  have hcount := count_quote_unescape hraw
  rw [hs] at hlen hcount
  have heq : raw = s ∧ rest' = rest := by
    rcases List.append_eq_append_iff.mp htext with ⟨more, hmore, hrest⟩ | ⟨more, hmore, hrest⟩
    · cases more with
      | nil =>
        rw [List.nil_append, List.cons_inj_right] at hrest
        exact ⟨by rw [hmore, List.append_nil], hrest.symm⟩
      | cons c more =>
        -- the raw form goes on behind the closing quote: one quote too many
        obtain ⟨rfl, -⟩ := List.cons.inj hrest
        rw [hmore, List.count_append, List.count_cons_self] at hcount
        omega
    · have hnil : more = [] := by
        rw [hmore, List.length_append] at hlen
        exact List.length_eq_zero_iff.mp (by omega)
      subst hnil
      rw [List.nil_append, List.cons_inj_right] at hrest
      exact ⟨by rw [hmore, List.append_nil], hrest⟩
  obtain ⟨rfl, hrest⟩ := heq
  refine ⟨plain_of_length hraw ?_, rfl, hrest⟩
  have hjoin := length_join_le none (pieces .plain raw)
  rw [← unescape, hs] at hjoin
  exact hjoin

/-! ## Tokens -/

inductive Token where
  | beginObject
  | endObject
  | beginArray
  | endArray
  | colon
  | comma
  | string (raw : List Char)
  | number (raw : List Char)
  | literal (raw : List Char)
  deriving DecidableEq

namespace Token

def text : Token → List Char
  | beginObject => ['{']
  | endObject => ['}']
  | beginArray => ['[']
  | endArray => [']']
  | colon => [':']
  | comma => [',']
  | string raw => '"' :: (raw ++ ['"'])
  | number raw => raw
  | literal raw => raw

end Token

def isSpace (c : Char) : Bool := c = ' ' || c = '\t' || c = '\n' || c = '\r'

def isNumberChar (c : Char) : Bool := c.isDigit || c ∈ ['-', '+', '.', 'e', 'E']

def validExponent : List Char → Bool
  | '+' :: digits => digits ≠ [] && digits.all Char.isDigit
  | '-' :: digits => digits ≠ [] && digits.all Char.isDigit
  | digits => digits.all Char.isDigit

def validEnd : List Char → Bool
  | [] => true
  | c :: rest => (c = 'e' || c = 'E') && rest ≠ [] && validExponent rest

def validFraction : List Char → Bool
  | '.' :: rest => rest.takeWhile Char.isDigit ≠ [] && validEnd (rest.dropWhile Char.isDigit)
  | rest => validEnd rest

def validInteger : List Char → Bool
  | '0' :: rest => validFraction rest
  | rest => rest.takeWhile Char.isDigit ≠ [] && validFraction (rest.dropWhile Char.isDigit)

def validNumber : List Char → Bool
  | '-' :: rest => validInteger rest
  | rest => validInteger rest

def literals : List (List Char) := ["true".toList, "false".toList, "null".toList]

def punctuation : Char → Option Token
  | '{' => some .beginObject
  | '}' => some .endObject
  | '[' => some .beginArray
  | ']' => some .endArray
  | ':' => some .colon
  | ',' => some .comma
  | _ => none

/-- The token that a text begins with. No number or word stands right behind another one, so
the longest run of their characters is taken. -/
def scanToken : List Char → Option (Token × List Char)
  | [] => none
  | c :: rest =>
    if c = '"' then (scanString .plain rest).map fun s => (.string s.1, s.2)
    else if isNumberChar c then
      if validNumber ((c :: rest).takeWhile isNumberChar) then
        some (.number ((c :: rest).takeWhile isNumberChar), (c :: rest).dropWhile isNumberChar)
      else none
    else if c.isLower then
      if (c :: rest).takeWhile Char.isLower ∈ literals then
        some (.literal ((c :: rest).takeWhile Char.isLower), (c :: rest).dropWhile Char.isLower)
      else none
    else (punctuation c).map fun t => (t, rest)

def lexFuel : ℕ → List Char → Option (List Token)
  | _, [] => some []
  | 0, _ :: _ => none
  | n + 1, c :: rest =>
    if isSpace c then lexFuel n rest
    else (scanToken (c :: rest)).bind fun s => (lexFuel n s.2).map (s.1 :: ·)

/-- Every step takes a character at least. -/
def lex (text : List Char) : Option (List Token) := lexFuel text.length text

/-! ### Single tokens -/

namespace Token

def Valid : Token → Prop
  | string raw => Raw .plain raw
  | number raw => (∃ c rest, raw = c :: rest) ∧ (∀ c ∈ raw, isNumberChar c = true) ∧
      validNumber raw = true
  | literal raw => raw ∈ literals
  | _ => True

/-- The text behind a number or word must not go on with it. -/
def Ends : Token → List Char → Prop
  | number _, rest => ∀ c ∈ rest.head?, isNumberChar c = false
  | literal _, rest => ∀ c ∈ rest.head?, c.isLower = false
  | _, _ => True

end Token

theorem takeWhile_append_of_head {p : Char → Bool} {raw rest : List Char}
    (hraw : ∀ c ∈ raw, p c = true) (hrest : ∀ c ∈ rest.head?, p c = false) :
    (raw ++ rest).takeWhile p = raw ∧ (raw ++ rest).dropWhile p = rest := by
  rw [List.takeWhile_append_of_pos hraw, List.dropWhile_append_of_pos hraw]
  cases rest with
  | nil => exact ⟨List.append_nil raw, rfl⟩
  | cons c rest =>
    have hc := hrest c rfl
    rw [List.takeWhile_cons_of_neg (by simp [hc]), List.dropWhile_cons_of_neg (by simp [hc])]
    exact ⟨List.append_nil raw, rfl⟩

theorem literal_lower {raw : List Char} (h : raw ∈ literals) :
    (∃ c rest, raw = c :: rest ∧ c ≠ '"' ∧ isNumberChar c = false) ∧
      ∀ c ∈ raw, c.isLower = true := by
  simp only [literals, List.mem_cons, List.not_mem_nil, or_false] at h
  rcases h with rfl | rfl | rfl
  · exact ⟨⟨'t', "rue".toList, by decide⟩, List.all_eq_true.mp (by decide)⟩
  · exact ⟨⟨'f', "alse".toList, by decide⟩, List.all_eq_true.mp (by decide)⟩
  · exact ⟨⟨'n', "ull".toList, by decide⟩, List.all_eq_true.mp (by decide)⟩

theorem scanToken_text {t : Token} {rest : List Char} (ht : t.Valid) (hends : t.Ends rest) :
    scanToken (t.text ++ rest) = some (t, rest) := by
  cases t with
  | string raw =>
    have hscan := scanString_raw ht rest
    have htext : (Token.string raw).text ++ rest = '"' :: (raw ++ '"' :: rest) := by
      simp [Token.text]
    rw [htext, scanToken, if_pos rfl, hscan, Option.map_some]
  | number raw =>
    obtain ⟨⟨c, raw', rfl⟩, hall, hvalid⟩ := ht
    obtain ⟨htake, hdrop⟩ := takeWhile_append_of_head hall hends
    have hc := hall c List.mem_cons_self
    have hquote : c ≠ '"' := by
      rintro rfl
      exact absurd hc (by decide)
    rw [Token.text, List.cons_append, scanToken, if_neg hquote, if_pos hc, ← List.cons_append,
      htake, hdrop, if_pos hvalid]
  | literal raw =>
    obtain ⟨⟨c, raw', rfl, hquote, hnumber⟩, hall⟩ := literal_lower ht
    obtain ⟨htake, hdrop⟩ := takeWhile_append_of_head hall hends
    have hc := hall c List.mem_cons_self
    have hmem : c :: raw' ∈ literals := ht
    rw [Token.text, List.cons_append, scanToken, if_neg hquote, if_neg (by simp [hnumber]),
      if_pos hc, ← List.cons_append, htake, hdrop, if_pos hmem]
  | beginObject => rfl
  | endObject => rfl
  | beginArray => rfl
  | endArray => rfl
  | colon => rfl
  | comma => rfl

theorem text_of_punctuation {c : Char} {t : Token} (h : punctuation c = some t) :
    t.text = [c] ∧ t.Valid ∧ ∀ rest, t.Ends rest := by
  unfold punctuation at h
  split at h <;> simp at h <;> subst h <;> exact ⟨rfl, trivial, fun _ => trivial⟩

theorem text_of_scanToken {text rest : List Char} {t : Token}
    (h : scanToken text = some (t, rest)) : text = t.text ++ rest ∧ t.Valid := by
  cases text with
  | nil => exact absurd h (by simp [scanToken])
  | cons c tail =>
    rw [scanToken] at h
    split_ifs at h with hquote hnumber hvalid hlower hliteral
    · obtain ⟨⟨raw, rest'⟩, hs, heq⟩ := Option.map_eq_some_iff.mp h
      obtain ⟨rfl, rfl⟩ := Prod.mk.inj heq
      obtain ⟨hraw, rfl⟩ := raw_of_scanString hs
      exact ⟨by simp [Token.text, hquote], hraw⟩
    · obtain ⟨rfl, rfl⟩ := Prod.mk.inj (Option.some.inj h)
      refine ⟨(List.takeWhile_append_dropWhile).symm, ?_, ?_, hvalid⟩
      · exact ⟨c, tail.takeWhile isNumberChar, List.takeWhile_cons_of_pos hnumber⟩
      · exact fun c' hc' => List.mem_takeWhile_imp hc'
    · obtain ⟨rfl, rfl⟩ := Prod.mk.inj (Option.some.inj h)
      exact ⟨(List.takeWhile_append_dropWhile).symm, hliteral⟩
    · obtain ⟨t', ht', heq⟩ := Option.map_eq_some_iff.mp h
      obtain ⟨rfl, rfl⟩ := Prod.mk.inj heq
      obtain ⟨htext, hvalid, -⟩ := text_of_punctuation ht'
      exact ⟨by rw [htext, List.singleton_append], hvalid⟩

theorem space_cases {c : Char} (h : isSpace c = true) :
    isNumberChar c = false ∧ c.isLower = false := by
  simp only [isSpace, Bool.or_eq_true, decide_eq_true_eq] at h
  rcases h with ((rfl | rfl) | rfl) | rfl <;> decide

def Token.isWord : Token → Bool
  | number _ | literal _ => true
  | _ => false

theorem head_text_of_not_word {t : Token} (h : ¬t.isWord) :
    ∃ c rest, t.text = c :: rest ∧ (isNumberChar c = false ∧ c.isLower = false) ∧
      isSpace c = false := by
  cases t with
  | number raw => exact absurd rfl h
  | literal raw => exact absurd rfl h
  | string raw => exact ⟨'"', raw ++ ['"'], rfl, by decide⟩
  | beginObject => exact ⟨'{', [], rfl, by decide⟩
  | endObject => exact ⟨'}', [], rfl, by decide⟩
  | beginArray => exact ⟨'[', [], rfl, by decide⟩
  | endArray => exact ⟨']', [], rfl, by decide⟩
  | colon => exact ⟨':', [], rfl, by decide⟩
  | comma => exact ⟨',', [], rfl, by decide⟩

theorem head_text {t : Token} (h : t.Valid) :
    ∃ c rest, t.text = c :: rest ∧ isSpace c = false := by
  by_cases hword : t.isWord
  · cases t with
    | number raw =>
      obtain ⟨⟨c, rest, rfl⟩, hall, -⟩ := h
      refine ⟨c, rest, rfl, Bool.eq_false_iff.mpr fun hspace => ?_⟩
      have hnumber := hall c List.mem_cons_self
      rw [(space_cases hspace).1] at hnumber
      exact absurd hnumber (by decide)
    | literal raw =>
      obtain ⟨⟨c, rest, rfl, -⟩, hall⟩ := literal_lower h
      refine ⟨c, rest, rfl, Bool.eq_false_iff.mpr fun hspace => ?_⟩
      have hlower := hall c List.mem_cons_self
      rw [(space_cases hspace).2] at hlower
      exact absurd hlower (by decide)
    | _ => cases hword
  · obtain ⟨c, rest, htext, -, hspace⟩ := head_text_of_not_word hword
    exact ⟨c, rest, htext, hspace⟩

theorem length_of_scanToken {text rest : List Char} {t : Token}
    (h : scanToken text = some (t, rest)) : rest.length < text.length := by
  obtain ⟨rfl, hvalid⟩ := text_of_scanToken h
  obtain ⟨c, tail, htext, -⟩ := head_text hvalid
  rw [htext, List.length_append, List.length_cons]
  omega

/-! ### Whole texts -/

def Lexes (text : List Char) (ts : List Token) : Prop := ∃ n, lexFuel n text = some ts

theorem lexFuel_of_le {n m : ℕ} {text : List Char} {ts : List Token}
    (h : lexFuel n text = some ts) (hm : text.length ≤ m) : lexFuel m text = some ts := by
  induction n generalizing m text ts with
  | zero =>
    cases text with
    | nil => cases m <;> exact h
    | cons c rest => exact absurd h (by simp [lexFuel])
  | succ n ih =>
    cases text with
    | nil => cases m <;> exact h
    | cons c rest =>
      cases m with
      | zero => exact absurd hm (by simp)
      | succ m =>
        rw [lexFuel] at h ⊢
        rw [List.length_cons] at hm
        by_cases hspace : isSpace c = true
        · rw [if_pos hspace] at h ⊢
          exact ih h (by omega)
        · rw [if_neg hspace] at h ⊢
          obtain ⟨⟨t, rest'⟩, hs, h⟩ := Option.bind_eq_some_iff.mp h
          obtain ⟨ts', hts', rfl⟩ := Option.map_eq_some_iff.mp h
          have hlt := length_of_scanToken hs
          rw [List.length_cons] at hlt
          have hrec : lexFuel m rest' = some ts' := ih hts' (by omega)
          rw [hs, Option.bind_some, hrec, Option.map_some]

theorem lex_eq_some {text : List Char} {ts : List Token} : lex text = some ts ↔ Lexes text ts := by
  constructor
  · intro h
    exact ⟨_, h⟩
  · rintro ⟨n, h⟩
    exact lexFuel_of_le h (Nat.le_refl _)

theorem lexes_nil {ts : List Token} : Lexes [] ts ↔ ts = [] := by
  have hnil : ∀ n, lexFuel n [] = some [] := by
    intro n
    cases n <;> rfl
  constructor
  · rintro ⟨n, h⟩
    exact (Option.some.inj ((hnil n).symm.trans h)).symm
  · rintro rfl
    exact ⟨0, rfl⟩

theorem lexes_space {c : Char} {text : List Char} {ts : List Token} (hc : isSpace c = true) :
    Lexes (c :: text) ts ↔ Lexes text ts := by
  constructor
  · rintro ⟨n, h⟩
    cases n with
    | zero => exact absurd h (by simp [lexFuel])
    | succ n =>
      rw [lexFuel, if_pos hc] at h
      exact ⟨n, h⟩
  · rintro ⟨n, h⟩
    exact ⟨n + 1, by rwa [lexFuel, if_pos hc]⟩

theorem lexes_scan {c : Char} {text : List Char} {ts : List Token} (hc : isSpace c = false) :
    Lexes (c :: text) ts ↔
      ∃ t rest ts', scanToken (c :: text) = some (t, rest) ∧ Lexes rest ts' ∧ ts = t :: ts' := by
  have hspace : ¬isSpace c = true := by simp [hc]
  constructor
  · rintro ⟨n, h⟩
    cases n with
    | zero => exact absurd h (by simp [lexFuel])
    | succ n =>
      rw [lexFuel, if_neg hspace] at h
      obtain ⟨⟨t, rest⟩, hs, h⟩ := Option.bind_eq_some_iff.mp h
      obtain ⟨ts', hts', rfl⟩ := Option.map_eq_some_iff.mp h
      exact ⟨t, rest, ts', hs, ⟨n, hts'⟩, rfl⟩
  · rintro ⟨t, rest, ts', hs, ⟨n, hts'⟩, rfl⟩
    refine ⟨n + 1, ?_⟩
    rw [lexFuel, if_neg hspace, hs, Option.bind_some, hts', Option.map_some]

theorem lexes_token {t : Token} {rest : List Char} {ts : List Token} (ht : t.Valid)
    (hends : t.Ends rest) :
    Lexes (t.text ++ rest) ts ↔ ∃ ts', Lexes rest ts' ∧ ts = t :: ts' := by
  have hscan := scanToken_text ht hends
  obtain ⟨c, tail, htext, hc⟩ := head_text ht
  rw [htext, List.cons_append] at hscan ⊢
  rw [lexes_scan hc, hscan]
  constructor
  · rintro ⟨t', rest', ts', heq, hts', rfl⟩
    obtain ⟨rfl, rfl⟩ := Prod.mk.inj (Option.some.inj heq)
    exact ⟨ts', hts', rfl⟩
  · rintro ⟨ts', hts', rfl⟩
    exact ⟨t, rest, ts', rfl, hts', rfl⟩

theorem lexes_spaces {spaces text : List Char} {ts : List Token}
    (h : ∀ c ∈ spaces, isSpace c = true) : Lexes (spaces ++ text) ts ↔ Lexes text ts := by
  induction spaces with
  | nil => exact Iff.rfl
  | cons c spaces ih =>
    rw [List.cons_append, lexes_space (h c List.mem_cons_self)]
    exact ih fun c' hc' => h c' (List.mem_cons_of_mem _ hc')

theorem valid_of_lexes {text : List Char} {ts : List Token} (h : Lexes text ts) :
    ∀ t ∈ ts, t.Valid := by
  obtain ⟨n, h⟩ := h
  induction n generalizing text ts with
  | zero =>
    cases text with
    | nil =>
      rw [← Option.some.inj h]
      exact List.forall_mem_nil _
    | cons c rest => exact absurd h (by simp [lexFuel])
  | succ n ih =>
    cases text with
    | nil =>
      rw [← Option.some.inj h]
      exact List.forall_mem_nil _
    | cons c rest =>
      rw [lexFuel] at h
      split_ifs at h
      · exact ih h
      · obtain ⟨⟨t, rest'⟩, hs, h⟩ := Option.bind_eq_some_iff.mp h
        obtain ⟨ts', hts', rfl⟩ := Option.map_eq_some_iff.mp h
        exact List.forall_mem_cons.mpr ⟨(text_of_scanToken hs).2, ih hts'⟩

/-! ## Indentation -/

def newline (depth : ℕ) : List Char := '\n' :: List.replicate (4 * depth) ' '

namespace Token

def isEnd : Token → Bool
  | endObject | endArray => true
  | _ => false

def isBegin : Token → Bool
  | beginObject | beginArray => true
  | _ => false

/-- The depth at which a token is written. An object or array that was just opened is indented
only when something other than its end follows. -/
def depth (t : Token) (opened : Bool) (depth : ℕ) : ℕ :=
  if t.isEnd then if opened then depth else depth - 1
  else if opened then depth + 1 else depth

def spaceBefore (t : Token) (opened : Bool) (depth : ℕ) : List Char :=
  if t.isEnd = opened then [] else newline (t.depth opened depth)

def spaceBehind (t : Token) (depth : ℕ) : List Char :=
  match t with
  | comma => newline depth
  | colon => [' ']
  | _ => []

end Token

def render (opened : Bool) (depth : ℕ) : List Token → List Char
  | [] => []
  | t :: ts =>
    t.spaceBefore opened depth ++ (t.text ++ (t.spaceBehind (t.depth opened depth) ++
      render t.isBegin (t.depth opened depth) ts))

theorem isSpace_newline {depth : ℕ} {c : Char} (h : c ∈ newline depth) : isSpace c = true := by
  rcases List.mem_cons.mp h with rfl | h
  · decide
  · rw [List.eq_of_mem_replicate h]
    decide

theorem isSpace_before {t : Token} {opened : Bool} {depth : ℕ} {c : Char}
    (h : c ∈ t.spaceBefore opened depth) : isSpace c = true := by
  unfold Token.spaceBefore at h
  split_ifs at h
  · exact absurd h List.not_mem_nil
  · exact isSpace_newline h

theorem isSpace_behind {t : Token} {depth : ℕ} {c : Char} (h : c ∈ t.spaceBehind depth) :
    isSpace c = true := by
  unfold Token.spaceBehind at h
  split at h
  · exact isSpace_newline h
  · rw [List.mem_singleton.mp h]
    decide
  · exact absurd h List.not_mem_nil

/-- A number or word is never followed by another one. -/
def Separated (ts : List Token) : Prop := ts.IsChain fun t t' => ¬(t.isWord ∧ t'.isWord)

theorem head_render {opened : Bool} {depth : ℕ} {ts : List Token}
    (h : ∀ t ∈ ts.head?, ¬t.isWord) :
    ∀ c ∈ (render opened depth ts).head?, isNumberChar c = false ∧ c.isLower = false := by
  cases ts with
  | nil => exact fun c hc => absurd hc (by simp [render])
  | cons t ts =>
    obtain ⟨c, rest, htext, hc, -⟩ := head_text_of_not_word (h t rfl)
    rw [render, Token.spaceBefore, htext]
    split_ifs
    · intro c' hc'
      obtain rfl := Option.some.inj hc'
      exact hc
    · intro c' hc'
      obtain rfl := Option.some.inj hc'
      decide

theorem ends_render {t : Token} {opened : Bool} {depth : ℕ} {ts : List Token}
    (h : Separated (t :: ts)) :
    t.Ends (t.spaceBehind depth ++ render opened depth ts) := by
  have hhead : t.isWord = true → ∀ t' ∈ ts.head?, ¬t'.isWord := by
    intro hword t' ht' hword'
    cases ts with
    | nil => exact absurd ht' (by simp)
    | cons t'' ts =>
      obtain rfl := Option.some.inj ht'
      exact (List.isChain_cons_cons.mp h).1 ⟨hword, hword'⟩
  cases t with
  | number raw => exact fun c hc => (head_render (hhead rfl) c hc).1
  | literal raw => exact fun c hc => (head_render (hhead rfl) c hc).2
  | string raw => trivial
  | beginObject => trivial
  | endObject => trivial
  | beginArray => trivial
  | endArray => trivial
  | colon => trivial
  | comma => trivial

theorem lexes_render {opened : Bool} {depth : ℕ} {ts : List Token} (hvalid : ∀ t ∈ ts, t.Valid)
    (hsep : Separated ts) : Lexes (render opened depth ts) ts := by
  induction ts generalizing opened depth with
  | nil => exact lexes_nil.mpr rfl
  | cons t ts ih =>
    obtain ⟨ht, hts⟩ := List.forall_mem_cons.mp hvalid
    have hrest : Lexes (render t.isBegin (t.depth opened depth) ts) ts :=
      ih hts (List.IsChain.of_cons hsep)
    rw [render, lexes_spaces fun c hc => isSpace_before hc,
      lexes_token ht (ends_render hsep)]
    exact ⟨ts, (lexes_spaces fun c hc => isSpace_behind hc).mpr hrest, rfl⟩

end Json
