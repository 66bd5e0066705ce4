import Custody.Text.Numeral

/-! JSON texts and the documents they write.

`Document.Writes` is the grammar of RFC 8259 as a relation: a text, the document it writes, and
nothing left over. Every rule is stated on what stands in front of the rest of a text. Beside it
stands a reader, `Document.read?`, and what it reads is what the grammar says
(`Document.writes_of_read?`). Numbers keep their digits: a document holds a number as a whole
number and a power of ten. -/
namespace Custody

inductive Document where
  | null
  | flag (b : Bool)
  /-- `mantissa * 10 ^ power` -/
  | number (mantissa power : Int)
  | text (s : String)
  | array (items : List Document)
  | object (members : List (String × Document))

namespace Document

variable {s r : List Char}

/-! ### Blanks -/

def isBlank (c : Char) : Bool :=
  c = ' ' || c = '\t' || c = '\n' || c = '\r'

/-- Blanks in front of the rest. -/
inductive Blanks : List Char → List Char → Prop where
  | none (s : List Char) : Blanks s s
  | more {c : Char} {s r : List Char} (blank : isBlank c = true) (rest : Blanks s r) :
    Blanks (c :: s) r

def skip : List Char → List Char
  | [] => []
  | c :: s => if isBlank c then skip s else c :: s

/-- What is skipped is blank. -/
theorem blanks_skip (s : List Char) : Blanks s (skip s) := by
  induction s with
  | nil => exact .none []
  | cons c s ih =>
    unfold skip
    split
    · next hblank => exact .more hblank ih
    · exact .none _

/-! ### Numbers -/

/-- A row of digits, one at least. -/
def Digits (ds : List Char) : Prop :=
  ds ≠ [] ∧ ∀ c ∈ ds, c.isDigit = true

/-- The number that a row of digits writes. -/
def digitsValue (ds : List Char) : Nat :=
  Nat.ofDigitChars 10 ds 0

/-- The exponent of a number: the letter, the sign if there is one, and the digits. -/
structure Exponent where
  mark : Char
  sign : Option Char
  digits : List Char

/-- The parts of a number. Without a fraction there are no digits behind the point, and no point. -/
structure Numeral where
  negative : Bool
  whole : List Char
  fraction : List Char
  exponent : Option Exponent

namespace Exponent

def text (e : Exponent) : List Char :=
  e.mark :: (e.sign.toList ++ e.digits)

structure Valid (e : Exponent) : Prop where
  mark : e.mark = 'e' ∨ e.mark = 'E'
  sign : e.sign = none ∨ e.sign = some '+' ∨ e.sign = some '-'
  digits : Digits e.digits

def value (e : Exponent) : Int :=
  if e.sign = some '-' then -digitsValue e.digits else digitsValue e.digits

end Exponent

namespace Numeral

def fractionText : List Char → List Char
  | [] => []
  | ds => '.' :: ds

def text (n : Numeral) : List Char :=
  (if n.negative then ['-'] else []) ++ n.whole ++ fractionText n.fraction ++
    (n.exponent.map Exponent.text).getD []

/-- No zero stands in front of other digits of the whole part. -/
structure Valid (n : Numeral) : Prop where
  whole : Digits n.whole
  plain : n.whole.head? = some '0' → n.whole = ['0']
  fraction : ∀ c ∈ n.fraction, c.isDigit = true
  exponent : ∀ e, n.exponent = some e → e.Valid

def mantissa (n : Numeral) : Int :=
  if n.negative then -digitsValue (n.whole ++ n.fraction) else digitsValue (n.whole ++ n.fraction)

def power (n : Numeral) : Int :=
  (n.exponent.map Exponent.value).getD 0 - n.fraction.length

end Numeral

/-- Digits up to the first character that is none. -/
def digits? (s : List Char) : Option (List Char × List Char) :=
  if s.takeWhile Char.isDigit = [] then none
  else some (s.takeWhile Char.isDigit, s.dropWhile Char.isDigit)

def sign? : List Char → Bool × List Char
  | '-' :: s => (true, s)
  | s => (false, s)

def whole? (s : List Char) : Option (List Char × List Char) :=
  (digits? s).bind fun (ds, r) => if ds.head? = some '0' ∧ ds ≠ ['0'] then none else some (ds, r)

def fraction? : List Char → Option (List Char × List Char)
  | '.' :: s => digits? s
  | s => some ([], s)

def exponentSign? : List Char → Option Char × List Char
  | c :: s => if c = '+' ∨ c = '-' then (some c, s) else (none, c :: s)
  | [] => (none, [])

def exponent? : List Char → Option (Option Exponent × List Char)
  | c :: s =>
    if c = 'e' ∨ c = 'E' then
      (digits? (exponentSign? s).2).map fun (ds, r) => (some ⟨c, (exponentSign? s).1, ds⟩, r)
    else some (none, c :: s)
  | [] => some (none, [])

def numeral? (s : List Char) : Option (Numeral × List Char) :=
  (whole? (sign? s).2).bind fun (whole, r) => (fraction? r).bind fun (fraction, r) =>
    (exponent? r).map fun (exponent, r) => (⟨(sign? s).1, whole, fraction, exponent⟩, r)

/-- The digits that are read stand in front of what is left. -/
theorem eq_of_digits? {ds : List Char} (h : digits? s = some (ds, r)) : Digits ds ∧ s = ds ++ r := by
  unfold digits? at h
  split at h
  · cases h
  · next hne =>
    cases h
    exact ⟨⟨hne, List.all_eq_true.1 List.all_takeWhile⟩, List.takeWhile_append_dropWhile.symm⟩

theorem eq_of_sign? (s : List Char) :
    s = (if (sign? s).1 then ['-'] else []) ++ (sign? s).2 := by
  unfold sign?
  split <;> rfl

/-- A whole part is a zero alone or begins with another digit. -/
theorem eq_of_whole? {ds : List Char} (h : whole? s = some (ds, r)) :
    Digits ds ∧ (ds.head? = some '0' → ds = ['0']) ∧ s = ds ++ r := by
  obtain ⟨⟨ds', r'⟩, hdigits, hplain⟩ := Option.bind_eq_some_iff.1 h
  obtain ⟨hds, hs⟩ := eq_of_digits? hdigits
  simp only at hplain
  split at hplain
  · cases hplain
  · next hzero =>
    cases hplain
    exact ⟨hds, fun hhead => Decidable.byContradiction fun hne => hzero ⟨hhead, hne⟩, hs⟩

theorem eq_of_fraction? {ds : List Char} (h : fraction? s = some (ds, r)) :
    (∀ c ∈ ds, c.isDigit = true) ∧ s = Numeral.fractionText ds ++ r := by
  unfold fraction? at h
  split at h
  · obtain ⟨⟨hne, hds⟩, rfl⟩ := eq_of_digits? h
    refine ⟨hds, ?_⟩
    cases ds with
    | nil => exact absurd rfl hne
    | cons d ds => rfl
  · cases h
    exact ⟨nofun, rfl⟩

theorem eq_of_exponentSign? (s : List Char) :
    ((exponentSign? s).1 = none ∨ (exponentSign? s).1 = some '+' ∨ (exponentSign? s).1 = some '-') ∧
      s = (exponentSign? s).1.toList ++ (exponentSign? s).2 := by
  unfold exponentSign?
  split
  · split
    · next c _ hc =>
      exact ⟨.inr (hc.imp (congrArg some) (congrArg some)), rfl⟩
    · exact ⟨.inl rfl, rfl⟩
  · exact ⟨.inl rfl, rfl⟩

/-- Without a letter there is no exponent, and nothing is read. -/
theorem eq_of_exponent? {e : Option Exponent} (h : exponent? s = some (e, r)) :
    (∀ e', e = some e' → e'.Valid) ∧ s = (e.map Exponent.text).getD [] ++ r := by
  unfold exponent? at h
  split at h
  · next c s =>
    split at h
    · next hmark =>
      obtain ⟨⟨ds, r'⟩, hdigits, heq⟩ := Option.map_eq_some_iff.1 h
      cases heq
      obtain ⟨hds, hs⟩ := eq_of_digits? hdigits
      obtain ⟨hsign, hsplit⟩ := eq_of_exponentSign? s
      refine ⟨fun e' he => ?_, ?_⟩
      · cases he
        exact ⟨hmark, hsign, hds⟩
      · rw [hs] at hsplit
        simpa [Exponent.text] using hsplit
    · cases h
      exact ⟨nofun, rfl⟩
  · cases h
    exact ⟨nofun, rfl⟩

/-- **A number is read by its parts**, one behind the other. -/
theorem eq_of_numeral? {n : Numeral} (h : numeral? s = some (n, r)) : n.Valid ∧ s = n.text ++ r := by
  obtain ⟨⟨whole, r₁⟩, hwhole, h⟩ := Option.bind_eq_some_iff.1 h
  obtain ⟨⟨fraction, r₂⟩, hfraction, h⟩ := Option.bind_eq_some_iff.1 h
  obtain ⟨⟨exponent, r₃⟩, hexponent, heq⟩ := Option.map_eq_some_iff.1 h
  cases heq
  obtain ⟨hds, hplain, h₁⟩ := eq_of_whole? hwhole
  obtain ⟨hfds, h₂⟩ := eq_of_fraction? hfraction
  obtain ⟨hvalid, h₃⟩ := eq_of_exponent? hexponent
  refine ⟨⟨hds, hplain, hfds, hvalid⟩, ?_⟩
  calc s = (if (sign? s).1 then ['-'] else []) ++ (sign? s).2 := eq_of_sign? s
    _ = _ := by simp only [h₁, h₂, h₃, Numeral.text, List.append_assoc]

/-! ### Texts -/

def hexValue? (c : Char) : Option Nat :=
  if '0' ≤ c ∧ c ≤ '9' then some (c.toNat - '0'.toNat)
  else if 'a' ≤ c ∧ c ≤ 'f' then some (c.toNat - 'a'.toNat + 10)
  else if 'A' ≤ c ∧ c ≤ 'F' then some (c.toNat - 'A'.toNat + 10)
  else none

/-- A unit of 16 bits from four digits in base sixteen. -/
def unit? (a b c d : Char) : Option Nat :=
  (hexValue? a).bind fun a => (hexValue? b).bind fun b => (hexValue? c).bind fun c =>
    (hexValue? d).map fun d => ((a * 16 + b) * 16 + c) * 16 + d

/-- What a character stands for behind a backslash. -/
def escape? : Char → Option Char
  | '"' => some '"'
  | '\\' => some '\\'
  | '/' => some '/'
  | 'b' => some '\x08'
  | 'f' => some '\x0C'
  | 'n' => some '\n'
  | 'r' => some '\r'
  | 't' => some '\t'
  | _ => none

def isHigh (u : Nat) : Bool :=
  0xD800 ≤ u && u < 0xDC00

def isLow (u : Nat) : Bool :=
  0xDC00 ≤ u && u < 0xE000

/-- The character that two surrogates write together. -/
def joined (high low : Nat) : Char :=
  Char.ofNat (0x10000 + (high - 0xD800) * 0x400 + (low - 0xDC00))

/-- Characters up to the closing quote. -/
inductive Chars : List Char → List Char → List Char → Prop where
  | close (r : List Char) : Chars ('"' :: r) [] r
  | plain {c : Char} {s t r : List Char} (quote : c ≠ '"') (backslash : c ≠ '\\')
      (visible : 0x20 ≤ c.toNat) (rest : Chars s t r) : Chars (c :: s) (c :: t) r
  | escaped {c d : Char} {s t r : List Char} (escape : escape? c = some d) (rest : Chars s t r) :
    Chars ('\\' :: c :: s) (d :: t) r
  | unit {a b c d : Char} {u : Nat} {s t r : List Char} (unit : unit? a b c d = some u)
      (high : isHigh u = false) (low : isLow u = false) (rest : Chars s t r) :
    Chars ('\\' :: 'u' :: a :: b :: c :: d :: s) (Char.ofNat u :: t) r
  | pair {a b c d a' b' c' d' : Char} {u v : Nat} {s t r : List Char}
      (unit : unit? a b c d = some u) (high : isHigh u = true)
      (second : unit? a' b' c' d' = some v) (low : isLow v = true) (rest : Chars s t r) :
    Chars ('\\' :: 'u' :: a :: b :: c :: d :: '\\' :: 'u' :: a' :: b' :: c' :: d' :: s)
      (joined u v :: t) r

/-- A unit that is written behind a backslash. -/
def escapedUnit? : List Char → Option (Nat × List Char)
  | 'u' :: a :: b :: c :: d :: s => (unit? a b c d).map (·, s)
  | _ => none

/-- What stands behind a backslash: one character, and the rest. -/
def escaped? (s : List Char) : Option (Char × List Char) :=
  match escapedUnit? s with
  | some (u, '\\' :: r) =>
    if isHigh u then
      (escapedUnit? r).bind fun (v, r) => if isLow v then some (joined u v, r) else none
    else if isLow u then none else some (Char.ofNat u, '\\' :: r)
  | some (u, r) => if isHigh u || isLow u then none else some (Char.ofNat u, r)
  | none =>
    match s with
    | c :: r => (escape? c).map (·, r)
    | [] => none

/-- Reads no more characters than `fuel`. -/
def chars? : Nat → List Char → Option (List Char × List Char)
  | 0, _ => none
  | _ + 1, [] => none
  | fuel + 1, c :: s =>
    if c = '"' then some ([], s)
    else if c = '\\' then
      (escaped? s).bind fun (d, r) => (chars? fuel r).map fun (t, r) => (d :: t, r)
    else if c.toNat < 0x20 then none
    else (chars? fuel s).map fun (t, r) => (c :: t, r)

theorem eq_of_escapedUnit? {u : Nat} (h : escapedUnit? s = some (u, r)) :
    ∃ a b c d, unit? a b c d = some u ∧ s = 'u' :: a :: b :: c :: d :: r := by
  unfold escapedUnit? at h
  split at h
  · next a b c d _ =>
    obtain ⟨v, hv, heq⟩ := Option.map_eq_some_iff.1 h
    cases heq
    exact ⟨a, b, c, d, hv, rfl⟩
  · cases h

/-- Behind a backslash stands a short form, a unit, or two units that are surrogates of each other.
-/
theorem chars_of_escaped? {d : Char} {t r' : List Char} (h : escaped? s = some (d, r))
    (hrest : Chars r t r') : Chars ('\\' :: s) (d :: t) r' := by
  unfold escaped? at h
  split at h
  · next u r₁ hunit =>
    obtain ⟨a, b, c, e, hu, rfl⟩ := eq_of_escapedUnit? hunit
    split at h
    · next hhigh =>
      obtain ⟨⟨v, r₂⟩, hsecond, hjoined⟩ := Option.bind_eq_some_iff.1 h
      obtain ⟨a', b', c', e', hv, rfl⟩ := eq_of_escapedUnit? hsecond
      dsimp only at hjoined
      split at hjoined
      · next hlow =>
        obtain ⟨rfl, rfl⟩ := Prod.mk.inj (Option.some.inj hjoined)
        exact .pair hu hhigh hv hlow hrest
      · cases hjoined
    · next hhigh =>
      split at h
      · cases h
      · next hlow =>
        cases h
        exact .unit hu (Bool.not_eq_true _ ▸ hhigh) (Bool.not_eq_true _ ▸ hlow) hrest
  · next u r₁ hunit =>
    obtain ⟨a, b, c, e, hu, rfl⟩ := eq_of_escapedUnit? hunit
    split at h
    · cases h
    · next hsurrogate =>
      cases h
      obtain ⟨hhigh, hlow⟩ := Bool.or_eq_false_iff.1 (Bool.not_eq_true _ ▸ hsurrogate)
      exact .unit hu hhigh hlow hrest
  · split at h
    · obtain ⟨e, he, heq⟩ := Option.map_eq_some_iff.1 h
      cases heq
      exact .escaped he hrest
    · cases h

/-- The characters that are read are those up to the closing quote. -/
theorem chars_of_chars? {fuel : Nat} {t : List Char} (h : chars? fuel s = some (t, r)) :
    Chars s t r := by
  induction fuel generalizing s t r with
  | zero => cases h
  | succ fuel ih =>
    cases s with
    | nil => cases h
    | cons c s =>
      unfold chars? at h
      split at h
      · next hquote =>
        cases h
        subst hquote
        exact .close _
      · next hquote =>
        split at h
        · next hbackslash =>
          obtain ⟨⟨d, r₁⟩, hescaped, h⟩ := Option.bind_eq_some_iff.1 h
          obtain ⟨⟨t', r₂⟩, hrest, heq⟩ := Option.map_eq_some_iff.1 h
          cases heq
          subst hbackslash
          exact chars_of_escaped? hescaped (ih hrest)
        · next hbackslash =>
          split at h
          · cases h
          · next hvisible =>
            obtain ⟨⟨t', r₁⟩, hrest, heq⟩ := Option.map_eq_some_iff.1 h
            cases heq
            exact .plain hquote hbackslash (Nat.le_of_not_lt hvisible) (ih hrest)

/-! ### Lists of items -/

/-- What stands in front of the rest of a text, and what it says. -/
abbrev Grammar (α : Type) := List Char → α → List Char → Prop

/-- Reads what stands in front of the rest. -/
abbrev Reader (α : Type) := List Char → Option (α × List Char)

variable {α : Type} {item : Grammar α} {read : Reader α} {close : Char}

/-- One item at least, with commas between the items, up to the closing character. -/
inductive Items (item : Grammar α) (close : Char) : List Char → List α → List Char → Prop where
  | last {s t u r : List Char} {a : α} (before : Blanks s t) (first : item t a u)
      (behind : Blanks u (close :: r)) : Items item close s [a] r
  | more {s t u v r : List Char} {a : α} {as : List α} (before : Blanks s t) (first : item t a u)
      (behind : Blanks u (',' :: v)) (rest : Items item close v as r) :
    Items item close s (a :: as) r

/-- Reads no more items than `fuel`. -/
def items? (read : Reader α) (close : Char) : Nat → Reader (List α)
  | 0, _ => none
  | fuel + 1, s =>
    (read (skip s)).bind fun (a, r) =>
      match skip r with
      | [] => none
      | c :: r =>
        if c = close then some ([a], r)
        else if c = ',' then (items? read close fuel r).map fun (as, r) => (a :: as, r)
        else none

/-- Items are read as the grammar has them, if each of them is. -/
theorem items_of_items? (hread : ∀ {s a r}, read s = some (a, r) → item s a r) {fuel : Nat}
    {as : List α} (h : items? read close fuel s = some (as, r)) : Items item close s as r := by
  induction fuel generalizing s as r with
  | zero => cases h
  | succ fuel ih =>
    obtain ⟨⟨a, u⟩, hfirst, hbehind⟩ := Option.bind_eq_some_iff.1 h
    dsimp only at hbehind
    split at hbehind
    · cases hbehind
    · next c v hskip =>
      have hblanks : Blanks u (c :: v) := hskip ▸ blanks_skip u
      split at hbehind
      · next hclose =>
        cases hbehind
        exact .last (blanks_skip s) (hread hfirst) (hclose ▸ hblanks)
      · split at hbehind
        · next hcomma =>
          obtain ⟨⟨as', r'⟩, hrest, heq⟩ := Option.map_eq_some_iff.1 hbehind
          cases heq
          exact .more (blanks_skip s) (hread hfirst) (hcomma ▸ hblanks) (ih hrest)
        · cases hbehind

/-! ### Values -/

/-- A member of an object: its key, a colon, and its value. -/
inductive Member (value : Grammar Document) : List Char → String × Document → List Char → Prop where
  | intro {s t u v r key : List Char} {d : Document} (chars : Chars s key t)
      (colon : Blanks t (':' :: u)) (before : Blanks u v) (body : value v d r) :
    Member value ('"' :: s) (String.ofList key, d) r

inductive Value : List Char → Document → List Char → Prop where
  | null (r : List Char) : Value ('n' :: 'u' :: 'l' :: 'l' :: r) null r
  | yes (r : List Char) : Value ('t' :: 'r' :: 'u' :: 'e' :: r) (flag true) r
  | no (r : List Char) : Value ('f' :: 'a' :: 'l' :: 's' :: 'e' :: r) (flag false) r
  | number {n : Numeral} (valid : n.Valid) (r : List Char) :
    Value (n.text ++ r) (number n.mantissa n.power) r
  | text {s t r : List Char} (chars : Chars s t r) : Value ('"' :: s) (text (String.ofList t)) r
  | emptyArray {s r : List Char} (blanks : Blanks s (']' :: r)) : Value ('[' :: s) (array []) r
  | array {s r : List Char} {ds : List Document} (items : Items Value ']' s ds r) :
    Value ('[' :: s) (array ds) r
  | emptyObject {s r : List Char} (blanks : Blanks s ('\x7d' :: r)) :
    Value ('\x7b' :: s) (object []) r
  | object {s r : List Char} {ms : List (String × Document)}
      (members : Items (Member Value) '\x7d' s ms r) : Value ('\x7b' :: s) (object ms) r

/-- A whole text: one value, with nothing but blanks around it. -/
def Writes (written : String) (d : Document) : Prop :=
  ∃ s r, Blanks written.toList s ∧ Value s d r ∧ Blanks r []

def member? (read : Reader Document) : Reader (String × Document)
  | [] => none
  | c :: s =>
    if c = '"' then
      (chars? s.length s).bind fun (key, r) =>
        match skip r with
        | [] => none
        | c :: r =>
          if c = ':' then (read (skip r)).map fun (d, r) => ((String.ofList key, d), r) else none
    else none

def word? : Reader Document
  | 'n' :: 'u' :: 'l' :: 'l' :: r => some (null, r)
  | 't' :: 'r' :: 'u' :: 'e' :: r => some (flag true, r)
  | 'f' :: 'a' :: 'l' :: 's' :: 'e' :: r => some (flag false, r)
  | _ => none

/-- What stands between brackets: nothing, or items. -/
def bracketed? (read : Reader α) (close : Char) (s : List Char) : Option (List α × List Char) :=
  if (skip s).head? = some close then some ([], (skip s).tail) else items? read close s.length s

/-- Reads no deeper than `fuel`. -/
def value? : Nat → Reader Document
  | 0, _ => none
  | _ + 1, [] => none
  | fuel + 1, c :: s =>
    if c = '"' then (chars? s.length s).map fun (t, r) => (text (String.ofList t), r)
    else if c = '[' then (bracketed? (value? fuel) ']' s).map fun (ds, r) => (array ds, r)
    else if c = '\x7b' then
      (bracketed? (member? (value? fuel)) '\x7d' s).map fun (ms, r) => (object ms, r)
    else
      (word? (c :: s)).or ((numeral? (c :: s)).map fun (n, r) => (number n.mantissa n.power, r))

/-- The document that a text writes, if it writes one. -/
def read? (written : String) : Option Document :=
  match value? written.length (skip written.toList) with
  | some (d, r) => if skip r = [] then some d else none
  | none => none

theorem member_of_member? {value : Grammar Document} {read : Reader Document}
    (hread : ∀ {s d r}, read s = some (d, r) → value s d r) {m : String × Document}
    (h : member? read s = some (m, r)) : Member value s m r := by
  cases s with
  | nil => cases h
  | cons c s =>
    simp only [member?] at h
    split at h
    · next hquote =>
      subst hquote
      obtain ⟨⟨key, t⟩, hkey, hbehind⟩ := Option.bind_eq_some_iff.1 h
      dsimp only at hbehind
      split at hbehind
      · cases hbehind
      · next c u hskip =>
        have hblanks : Blanks t (c :: u) := hskip ▸ blanks_skip t
        split at hbehind
        · next hcolon =>
          obtain ⟨⟨d, r'⟩, hbody, heq⟩ := Option.map_eq_some_iff.1 hbehind
          cases heq
          exact .intro (chars_of_chars? hkey) (hcolon ▸ hblanks) (blanks_skip u) (hread hbody)
        · cases hbehind
    · cases h

theorem value_of_word? {d : Document} (h : word? s = some (d, r)) : Value s d r := by
  unfold word? at h
  split at h
  · cases h
    exact .null _
  · cases h
    exact .yes _
  · cases h
    exact .no _
  · cases h

/-- Between brackets there are blanks or items. -/
theorem of_bracketed? (hread : ∀ {s a r}, read s = some (a, r) → item s a r) {as : List α}
    (h : bracketed? read close s = some (as, r)) :
    (as = [] ∧ Blanks s (close :: r)) ∨ Items item close s as r := by
  unfold bracketed? at h
  split at h
  · next hhead =>
    obtain ⟨v, hv⟩ := List.head?_eq_some_iff.1 hhead
    cases h
    exact .inl ⟨rfl, by simpa only [hv, List.tail_cons] using blanks_skip s⟩
  · exact .inr (items_of_items? hread h)

/-- **What the reader reads the grammar allows**, however deep it reads. -/
theorem value_of_value? {fuel : Nat} {d : Document} (h : value? fuel s = some (d, r)) :
    Value s d r := by
  induction fuel generalizing s d r with
  | zero => cases h
  | succ fuel ih =>
    cases s with
    | nil => cases h
    | cons c s =>
      unfold value? at h
      split at h
      · next hquote =>
        obtain ⟨⟨t, r'⟩, hchars, heq⟩ := Option.map_eq_some_iff.1 h
        cases heq
        exact hquote ▸ .text (chars_of_chars? hchars)
      split at h
      · next hopen =>
        obtain ⟨⟨ds, r'⟩, hitems, heq⟩ := Option.map_eq_some_iff.1 h
        cases heq
        obtain ⟨rfl, hblanks⟩ | hitems := of_bracketed? ih hitems
        · exact hopen ▸ .emptyArray hblanks
        · exact hopen ▸ .array hitems
      split at h
      · next hopen =>
        obtain ⟨⟨ms, r'⟩, hmembers, heq⟩ := Option.map_eq_some_iff.1 h
        cases heq
        obtain ⟨rfl, hblanks⟩ | hmembers := of_bracketed? (member_of_member? ih) hmembers
        · exact hopen ▸ .emptyObject hblanks
        · exact hopen ▸ .object hmembers
      · obtain hword | ⟨-, hnumeral⟩ := Option.or_eq_some_iff.1 h
        · exact value_of_word? hword
        · obtain ⟨⟨n, r'⟩, hnumeral, heq⟩ := Option.map_eq_some_iff.1 hnumeral
          cases heq
          obtain ⟨hvalid, hs⟩ := eq_of_numeral? hnumeral
          exact hs ▸ .number hvalid _

/-- A text writes the document that is read from it. -/
theorem writes_of_read? {written : String} {d : Document} (h : read? written = some d) :
    Writes written d := by
  unfold read? at h
  split at h
  · next d' r hvalue =>
    split at h
    · next hskip =>
      cases h
      exact ⟨_, r, blanks_skip _, value_of_value? hvalue, hskip ▸ blanks_skip r⟩
    · cases h
  · cases h

end Document
end Custody
