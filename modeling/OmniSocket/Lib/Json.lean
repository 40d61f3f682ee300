/-
# The grammar of JSON

A text is JSON if it can be derived in the grammar of RFC 8259, and the
derivation says which value the text denotes. Strings denote UTF-16 code units,
since an escape may name half of a surrogate pair. The digits of a number are
kept as they are written.

In no derivation is there a control character, other than the three that count
as white space.
-/

import Mathlib.Data.Bool.AllAny
import Mathlib.Data.List.Basic
import Mathlib.Data.UInt

set_option autoImplicit false

namespace OmniSocket.Lib

/-- What a JSON text denotes. -/
inductive Json
  | null
  | bool (b : Bool)
  | number (written : List Char)
  | string (units : List UInt16)
  | array (items : List Json)
  | object (members : List (List UInt16 × Json))

/-- The UTF-16 code units of a character. -/
def utf16Char (c : Char) : List UInt16 :=
  if c.toNat < 0x10000 then [UInt16.ofNat c.toNat]
  else [UInt16.ofNat (0xd800 + (c.toNat - 0x10000) / 0x400),
    UInt16.ofNat (0xdc00 + (c.toNat - 0x10000) % 0x400)]

def utf16 (text : List Char) : List UInt16 := text.flatMap utf16Char

namespace Json

/-- The value of the first member with this name, if the value is an object that has one. -/
def member (name : List UInt16) : Json → Option Json
  | object members => (members.find? fun m => m.1 = name).map Prod.snd
  | null | bool _ | number _ | string _ | array _ => none

/-! ## Tokens -/

/-- Insignificant white space. -/
def IsSpace (s : List Char) : Prop := ∀ c ∈ s, c = ' ' ∨ c = '\t' ∨ c = '\n' ∨ c = '\r'

/-- A character that stands for itself in a string. -/
def IsUnescaped (c : Char) : Prop := 0x20 ≤ c.toNat ∧ c ≠ '"' ∧ c ≠ '\\'

instance (c : Char) : Decidable (IsUnescaped c) := inferInstanceAs (Decidable (_ ∧ _))

/-- The code unit of an escape of two characters. -/
def escapeUnit (letter : Char) : Option UInt16 :=
  match letter with
  | '"' => some 0x22
  | '\\' => some 0x5c
  | '/' => some 0x2f
  | 'b' => some 0x08
  | 'f' => some 0x0c
  | 'n' => some 0x0a
  | 'r' => some 0x0d
  | 't' => some 0x09
  | _ => none

def hexDigit (c : Char) : Option ℕ :=
  if '0' ≤ c ∧ c ≤ '9' then some (c.toNat - '0'.toNat)
  else if 'a' ≤ c ∧ c ≤ 'f' then some (c.toNat - 'a'.toNat + 10)
  else if 'A' ≤ c ∧ c ≤ 'F' then some (c.toNat - 'A'.toNat + 10)
  else none

/-- The code unit of four hexadecimal digits. -/
def hexUnit (a b c d : Char) : Option UInt16 := do
  let a ← hexDigit a
  let b ← hexDigit b
  let c ← hexDigit c
  let d ← hexDigit d
  return UInt16.ofNat (((a * 16 + b) * 16 + c) * 16 + d)

/-- What stands between the quotation marks, and the code units it denotes. -/
inductive Chars : List Char → List UInt16 → Prop
  | nil : Chars [] []
  | plain {c : Char} {rest : List Char} {units : List UInt16} :
      IsUnescaped c → Chars rest units → Chars (c :: rest) (utf16Char c ++ units)
  | escape {letter : Char} {unit : UInt16} {rest : List Char} {units : List UInt16} :
      escapeUnit letter = some unit → Chars rest units →
        Chars ('\\' :: letter :: rest) (unit :: units)
  | hex {a b c d : Char} {unit : UInt16} {rest : List Char} {units : List UInt16} :
      hexUnit a b c d = some unit → Chars rest units →
        Chars ('\\' :: 'u' :: a :: b :: c :: d :: rest) (unit :: units)

/-- Characters that stand for themselves. -/
theorem Chars.of_unescaped {s : List Char} (unescaped : ∀ c ∈ s, IsUnescaped c) :
    Chars s (utf16 s) := by
  induction s with
  | nil => exact .nil
  | cons c s ih =>
    exact .plain (unescaped c List.mem_cons_self)
      (ih fun d member => unescaped d (List.mem_cons_of_mem _ member))

/-- A string with its quotation marks. -/
def IsString (s : List Char) (units : List UInt16) : Prop :=
  ∃ body, s = '"' :: body ++ ['"'] ∧ Chars body units

def IsDigits (s : List Char) : Prop := s ≠ [] ∧ ∀ c ∈ s, c.isDigit

/-- An integer has no leading zeros. -/
def IsInt (s : List Char) : Prop :=
  s = ['0'] ∨ ∃ d rest, s = d :: rest ∧ d ≠ '0' ∧ IsDigits s

def IsFrac (s : List Char) : Prop := s = [] ∨ ∃ digits, s = '.' :: digits ∧ IsDigits digits

def IsExp (s : List Char) : Prop :=
  s = [] ∨ ∃ e sign digits, s = e :: sign ++ digits ∧ (e = 'e' ∨ e = 'E') ∧
    (sign = [] ∨ sign = ['+'] ∨ sign = ['-']) ∧ IsDigits digits

def IsNumber (s : List Char) : Prop :=
  ∃ minus int frac exp, s = minus ++ int ++ frac ++ exp ∧ (minus = [] ∨ minus = ['-']) ∧
    IsInt int ∧ IsFrac frac ∧ IsExp exp

/-! ## Values -/

/-- A member of an object, with the space around its name. -/
structure Member where
  before : List Char
  name : List Char
  after : List Char
  text : List Char
  units : List UInt16
  value : Json

def Member.source (m : Member) : List Char := m.before ++ m.name ++ m.after ++ ':' :: m.text

/-- Texts with commas between them. -/
def commas (texts : List (List Char)) : List Char := List.intercalate [','] texts

/-- A JSON text and the value it denotes. White space may stand on either side. -/
inductive Denotes : List Char → Json → Prop
  | null : Denotes ['n', 'u', 'l', 'l'] .null
  | true : Denotes ['t', 'r', 'u', 'e'] (.bool true)
  | false : Denotes ['f', 'a', 'l', 's', 'e'] (.bool false)
  | number {s : List Char} : IsNumber s → Denotes s (.number s)
  | string {s : List Char} {units : List UInt16} : IsString s units → Denotes s (.string units)
  | emptyArray {s : List Char} : IsSpace s → Denotes ('[' :: s ++ [']']) (.array [])
  | array {items : List (List Char × Json)} : items ≠ [] →
      (∀ item ∈ items, Denotes item.1 item.2) →
        Denotes ('[' :: commas (items.map Prod.fst) ++ [']']) (.array (items.map Prod.snd))
  | emptyObject {s : List Char} : IsSpace s → Denotes ('{' :: s ++ ['}']) (.object [])
  | object {members : List Member} : members ≠ [] →
      (∀ m ∈ members, IsSpace m.before ∧ IsSpace m.after ∧ IsString m.name m.units) →
        (∀ m ∈ members, Denotes m.text m.value) →
          Denotes ('{' :: commas (members.map Member.source) ++ ['}'])
            (.object (members.map fun m => (m.units, m.value)))
  | spaced {before s after : List Char} {value : Json} : IsSpace before → IsSpace after →
      Denotes s value → Denotes (before ++ s ++ after) value

/-! ## No control characters -/

/-- A character that may occur in a JSON text. -/
def Occurs (c : Char) : Prop := 0x20 ≤ c.toNat ∨ c = '\t' ∨ c = '\n' ∨ c = '\r'

instance (c : Char) : Decidable (Occurs c) := inferInstanceAs (Decidable (_ ∨ _))

theorem IsSpace.occurs {s : List Char} (space : IsSpace s) : ∀ c ∈ s, Occurs c := by
  intro c member
  rcases space c member with rfl | other
  · exact .inl (by decide)
  · exact .inr other

theorem occurs_of_isDigit {c : Char} (digit : c.isDigit) : Occurs c := by
  have low : '0'.toNat ≤ c.toNat := by
    simp only [Char.isDigit, Bool.and_eq_true, decide_eq_true_eq] at digit
    exact digit.1
  exact .inl (le_trans (by decide) low)

theorem occurs_of_hexDigit {c : Char} {n : ℕ} (digit : hexDigit c = some n) : Occurs c := by
  unfold hexDigit at digit
  split_ifs at digit with number lower upper
  · exact .inl (le_trans (by decide) (show '0'.toNat ≤ c.toNat from number.1))
  · exact .inl (le_trans (by decide) (show 'a'.toNat ≤ c.toNat from lower.1))
  · exact .inl (le_trans (by decide) (show 'A'.toNat ≤ c.toNat from upper.1))

theorem occurs_of_escapeUnit {c : Char} {unit : UInt16} (escape : escapeUnit c = some unit) :
    Occurs c := by
  unfold escapeUnit at escape
  split at escape
  case h_9 => exact absurd escape (by simp)
  all_goals exact .inl (by decide)

theorem Chars.occurs {body : List Char} {units : List UInt16} (chars : Chars body units) :
    ∀ c ∈ body, Occurs c := by
  induction chars with
  | nil => simp
  | plain unescaped _ ih =>
    rintro c (_ | ⟨_, member⟩)
    · exact .inl unescaped.1
    · exact ih c member
  | escape letter _ ih =>
    rintro c (_ | ⟨_, _ | ⟨_, member⟩⟩)
    · decide
    · exact occurs_of_escapeUnit letter
    · exact ih c member
  | hex digits _ ih =>
    simp only [hexUnit, Option.bind_eq_bind, Option.bind_eq_some_iff] at digits
    obtain ⟨_, first, _, second, _, third, _, fourth, -⟩ := digits
    intro e member
    simp only [List.mem_cons] at member
    rcases member with rfl | rfl | rfl | rfl | rfl | rfl | member
    · decide
    · decide
    · exact occurs_of_hexDigit first
    · exact occurs_of_hexDigit second
    · exact occurs_of_hexDigit third
    · exact occurs_of_hexDigit fourth
    · exact ih e member

theorem IsString.occurs {s : List Char} {units : List UInt16} (string : IsString s units) :
    ∀ c ∈ s, Occurs c := by
  obtain ⟨body, rfl, chars⟩ := string
  intro c member
  simp only [List.cons_append, List.mem_cons, List.mem_append, List.not_mem_nil, or_false] at member
  rcases member with rfl | inside | rfl
  · decide
  · exact chars.occurs c inside
  · decide

theorem IsNumber.occurs {s : List Char} (number : IsNumber s) : ∀ c ∈ s, Occurs c := by
  obtain ⟨minus, int, frac, exp, rfl, sign, digits, fraction, exponent⟩ := number
  have ofDigits : ∀ digits, IsDigits digits → ∀ c ∈ digits, Occurs c := fun _ all c member =>
    occurs_of_isDigit (all.2 c member)
  intro c member
  rcases List.mem_append.mp member with member | member
  rcases List.mem_append.mp member with member | member
  rcases List.mem_append.mp member with member | member
  · rcases sign with rfl | rfl
    · exact absurd member List.not_mem_nil
    · exact List.mem_singleton.mp member ▸ by decide
  · rcases digits with rfl | ⟨_, _, rfl, -, all⟩
    · exact List.mem_singleton.mp member ▸ by decide
    · exact ofDigits _ all c member
  · rcases fraction with rfl | ⟨_, rfl, all⟩
    · exact absurd member List.not_mem_nil
    · rcases List.mem_cons.mp member with rfl | member
      · decide
      · exact ofDigits _ all c member
  · rcases exponent with rfl | ⟨e, sign, _, rfl, letter, signs, all⟩
    · exact absurd member List.not_mem_nil
    · rw [List.cons_append, List.mem_cons, List.mem_append] at member
      rcases member with rfl | member | member
      · rcases letter with rfl | rfl <;> decide
      · rcases signs with rfl | rfl | rfl
        · exact absurd member List.not_mem_nil
        · exact List.mem_singleton.mp member ▸ by decide
        · exact List.mem_singleton.mp member ▸ by decide
      · exact ofDigits _ all c member

@[simp] theorem commas_singleton (text : List Char) : commas [text] = text := by simp [commas]

@[simp] theorem commas_cons_cons (text next : List Char) (rest : List (List Char)) :
    commas (text :: next :: rest) = text ++ ',' :: commas (next :: rest) := by
  simp [commas, List.intercalate, List.intersperse]

/-- A character of a list is a comma or belongs to one of the texts. -/
theorem mem_commas {c : Char} {texts : List (List Char)} (member : c ∈ commas texts) :
    c = ',' ∨ ∃ text ∈ texts, c ∈ text := by
  induction texts with
  | nil => simp [commas] at member
  | cons text rest ih =>
    cases rest with
    | nil => exact .inr ⟨text, List.mem_singleton_self _, by simpa using member⟩
    | cons next rest =>
      rw [commas_cons_cons, List.mem_append, List.mem_cons] at member
      rcases member with inText | rfl | inRest
      · exact .inr ⟨text, List.mem_cons_self, inText⟩
      · exact .inl rfl
      · rcases ih inRest with comma | ⟨other, later, inside⟩
        · exact .inl comma
        · exact .inr ⟨other, List.mem_cons_of_mem _ later, inside⟩

/-- What stands between a pair of brackets. -/
private theorem occurs_bracketed {left right : Char} {inside : List Char} (first : Occurs left)
    (last : Occurs right) (between : ∀ c ∈ inside, Occurs c) :
    ∀ c ∈ left :: inside ++ [right], Occurs c := by
  intro c member
  rw [List.cons_append, List.mem_cons, List.mem_append, List.mem_singleton] at member
  rcases member with rfl | member | rfl
  · exact first
  · exact between c member
  · exact last

/-- In a JSON text there are no other control characters. -/
theorem Denotes.occurs {s : List Char} {value : Json} (denotes : Denotes s value) :
    ∀ c ∈ s, Occurs c := by
  induction denotes with
  | null | true | false => exact List.all_iff_forall_prop.mp (by decide +kernel)
  | number number => exact number.occurs
  | string string => exact string.occurs
  | emptyArray space => exact occurs_bracketed (by decide) (by decide) space.occurs
  | array _ _ ih =>
    refine occurs_bracketed (by decide) (by decide) fun c member => ?_
    rcases mem_commas member with rfl | ⟨_, text, inside⟩
    · decide
    · obtain ⟨item, listed, rfl⟩ := List.mem_map.mp text
      exact ih item listed c inside
  | emptyObject space => exact occurs_bracketed (by decide) (by decide) space.occurs
  | object _ names _ ih =>
    refine occurs_bracketed (by decide) (by decide) fun c member => ?_
    rcases mem_commas member with rfl | ⟨_, text, inside⟩
    · decide
    · obtain ⟨m, listed, rfl⟩ := List.mem_map.mp text
      obtain ⟨before, after, name⟩ := names m listed
      simp only [Member.source, List.mem_append, List.mem_cons] at inside
      rcases inside with ((inside | inside) | inside) | rfl | inside
      · exact before.occurs c inside
      · exact name.occurs c inside
      · exact after.occurs c inside
      · decide
      · exact ih m listed c inside
  | spaced before after _ ih =>
    intro c member
    rcases List.mem_append.mp member with member | member
    · rcases List.mem_append.mp member with member | member
      · exact before.occurs c member
      · exact ih c member
    · exact after.occurs c member

end Json

end OmniSocket.Lib
