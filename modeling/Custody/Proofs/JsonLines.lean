import Mathlib.Data.List.Forall2
import Custody.Log.Json
import Custody.Proofs.DocumentReader

/-! JSON lines keep the entry.

`Entry.document` says what a line is meant to hold: the members in their order, with addresses as
texts in base sixteen. The line of an entry writes that document and no other, on one line
(`Entry.json_keeps`), so two entries have the same line only where their documents are the same
(`Entry.Alike`). -/
namespace Custody.Log

open Document (Chars Items Member Numeral)

/-! ### Numerals -/

/-- Digits are written from the last one on: a number is a digit, or has a digit more than its
quotient. -/
theorem toDigits_induction {b : Nat} (hb : 1 < b) {motive : Nat → Prop}
    (digit : ∀ n < b, motive n) (step : ∀ n, b ≤ n → motive (n / b) → motive n) (n : Nat) :
    motive n := by
  induction n using Nat.strongRecOn with
  | ind n ih =>
    by_cases hn : n < b
    · exact digit n hn
    · have hle := Nat.le_of_not_lt hn
      exact step n hle (ih _ (Nat.div_lt_self (by omega) hb))

theorem eq_digitChar_of_mem_toDigits {b : Nat} (hb : 1 < b) (n : Nat) {c : Char}
    (h : c ∈ Nat.toDigits b n) : ∃ d < b, c = Nat.digitChar d := by
  induction n using toDigits_induction hb with
  | digit n hn =>
    rw [Nat.toDigits_of_lt_base hn, List.mem_singleton] at h
    exact ⟨n, hn, h⟩
  | step n hle ih =>
    rw [Nat.toDigits_of_base_le hb hle, List.mem_append, List.mem_singleton] at h
    obtain h | h := h
    · exact ih h
    · exact ⟨n % b, Nat.mod_lt _ (by omega), h⟩

/-- No number but zero is written with a zero in front. -/
theorem eq_zero_of_toDigits_head {b : Nat} (hb : 1 < b) (hle : b ≤ 16) (n : Nat)
    (h : (Nat.toDigits b n).head? = some '0') : n = 0 := by
  induction n using toDigits_induction hb with
  | digit n hn =>
    rw [Nat.toDigits_of_lt_base hn, List.head?_cons, Option.some.injEq] at h
    have hdigit : ∀ d < 16, Nat.digitChar d = '0' → d = 0 := by decide
    exact hdigit n (by omega) h
  | step n hbn ih =>
    rw [Nat.toDigits_of_base_le hb hbn, List.head?_append,
      List.head?_eq_some_head Nat.toDigits_ne_nil, Option.some_or, ← List.head?_eq_some_head] at h
    have := Nat.div_pos hbn (by omega)
    have := ih h
    omega

theorem toDigits_plain {b : Nat} (hb : 1 < b) (hle : b ≤ 16) (n : Nat)
    (h : (Nat.toDigits b n).head? = some '0') : Nat.toDigits b n = ['0'] := by
  rw [eq_zero_of_toDigits_head hb hle n h, Nat.toDigits_of_lt_base (by omega)]
  rfl

/-- The numeral of a whole number. -/
def wholeNumeral (negative : Bool) (n : Nat) : Numeral :=
  ⟨negative, Nat.toDigits 10 n, [], none⟩

/-- What is written for a whole number is a numeral of the grammar. -/
theorem wholeNumeral_valid (negative : Bool) (n : Nat) : (wholeNumeral negative n).Valid where
  whole := ⟨Nat.toDigits_ne_nil, fun _ hc => Nat.isDigit_of_mem_toDigits (by decide) (by decide) hc⟩
  plain := toDigits_plain (by decide) (by decide) n
  fraction := nofun
  exponent := nofun

theorem wholeNumeral_mantissa (negative : Bool) (n : Nat) :
    (wholeNumeral negative n).mantissa = if negative then -(n : Int) else n := by
  simp [Numeral.mantissa, wholeNumeral, Document.digitsValue,
    Nat.ofDigitChars_toDigits (b := 10) (n := n)]

/-- A natural number is written as a numeral, whatever follows it. -/
theorem value_natural (n : Nat) (r : List Char) :
    Document.Value ((toString n).toList ++ r) (.number n 0) r := by
  have h := Document.Value.number (wholeNumeral_valid false n) r
  rw [wholeNumeral_mantissa] at h
  simpa [wholeNumeral, Numeral.text, Numeral.fractionText, Numeral.power] using h

theorem value_integer (i : Int) (r : List Char) :
    Document.Value ((toString i).toList ++ r) (.number i 0) r := by
  cases i with
  | ofNat n => exact value_natural n r
  | negSucc n =>
    have h := Document.Value.number (wholeNumeral_valid true (n + 1)) r
    rw [wholeNumeral_mantissa] at h
    have htext : (toString (Int.negSucc n)).toList = '-' :: (toString (n + 1)).toList :=
      String.toList_append
    rw [htext]
    simpa [wholeNumeral, Numeral.text, Numeral.fractionText, Numeral.power,
      Int.negSucc_eq] using h

/-! ### Texts -/

theorem hexValue?_digitChar : ∀ d < 16, Document.hexValue? (Nat.digitChar d) = some d := by
  decide

theorem toNat_lt_of_isControl {c : Char} (h : isControl c = true) : c.toNat < 0xA0 := by
  simp only [isControl, Bool.or_eq_true, Bool.and_eq_true, decide_eq_true_eq] at h
  omega

/-- Control characters all lie below 160, so the two zeros that come first are right for each of
them. -/
theorem unitEscape_eq {c : Char} (h : isControl c = true) :
    Json.unitEscape c =
      ['\\', 'u', '0', '0', Nat.digitChar (c.toNat / 16), Nat.digitChar (c.toNat % 16)] := by
  have hlt := toNat_lt_of_isControl h
  unfold Json.unitEscape
  by_cases hsmall : c.toNat < 16
  · rw [Nat.toDigits_of_lt_base hsmall, Nat.div_eq_of_lt hsmall, Nat.mod_eq_of_lt hsmall]
    rfl
  · rw [Nat.toDigits_of_base_le (by decide) (Nat.le_of_not_lt hsmall),
      Nat.toDigits_of_lt_base (b := 16) (n := c.toNat / 16) (by omega)]
    rfl

/-- The four digits of an escape are read back as the code point. -/
theorem unit?_control {c : Char} (h : isControl c = true) :
    Document.unit? '0' '0' (Nat.digitChar (c.toNat / 16)) (Nat.digitChar (c.toNat % 16)) =
      some c.toNat := by
  have hlt := toNat_lt_of_isControl h
  have hzero : Document.hexValue? '0' = some 0 := rfl
  simp only [Document.unit?, hzero, hexValue?_digitChar (c.toNat / 16) (by omega),
    hexValue?_digitChar (c.toNat % 16) (by omega), Option.bind_some, Option.map_some,
    Option.some.injEq]
  omega

/-- **A character is read back from its escape**, which is one of five short forms, the code point
in base sixteen, or the character itself. -/
theorem chars_escapedChar (c : Char) {s t r : List Char} (h : Chars s t r) :
    Chars (Json.escapedChar c ++ s) (c :: t) r := by
  unfold Json.escapedChar
  split
  · next hc => subst hc; exact .escaped rfl h
  split
  · next hc => subst hc; exact .escaped rfl h
  split
  · next hc => subst hc; exact .escaped rfl h
  split
  · next hc => subst hc; exact .escaped rfl h
  split
  · next hc => subst hc; exact .escaped rfl h
  split
  · next hcontrol =>
    have hunit := unit?_control hcontrol
    have hlt := toNat_lt_of_isControl hcontrol
    have hchars := Chars.unit hunit (by simp [Document.isHigh]; omega)
      (by simp [Document.isLow]; omega) h
    rw [Char.ofNat_toNat] at hchars
    rw [unitEscape_eq hcontrol]
    exact hchars
  · next hquote hbackslash _ _ _ hcontrol =>
    refine .plain hquote hbackslash ?_ h
    simp only [isControl, Bool.or_eq_true, Bool.and_eq_true, decide_eq_true_eq] at hcontrol
    omega

/-- A text is read back from its escapes, up to the quotation mark that ends it. -/
theorem chars_string (t r : List Char) : Chars (t.flatMap Json.escapedChar ++ '"' :: r) t r := by
  induction t with
  | nil => exact .close r
  | cons c t ih =>
    rw [List.flatMap_cons, List.append_assoc]
    exact chars_escapedChar c ih

theorem string_toList (s : String) (r : List Char) :
    (Json.string s).toList ++ r = '"' :: (s.toList.flatMap Json.escapedChar ++ '"' :: r) := by
  simp [Json.string]

theorem value_string (s : String) (r : List Char) :
    Document.Value ((Json.string s).toList ++ r) (.text s) r := by
  rw [string_toList]
  have h := Document.Value.text (chars_string s.toList r)
  rwa [String.ofList_toList] at h

/-! ### Addresses -/

/-- The number that a row of digits in base sixteen writes. -/
def hexNumber? (ds : List Char) : Option Nat :=
  ds.foldlM (fun high c => (Document.hexValue? c).map (16 * high + ·)) 0

/-- A number in base sixteen, in small letters: `0x` and its digits, with no zero in front. -/
structure Hexadecimal (n : Nat) (s : String) : Prop where
  digits : ∃ ds, s.toList = '0' :: 'x' :: ds ∧ hexNumber? ds = some n ∧
    (∀ c ∈ ds, c ∈ "0123456789abcdef".toList) ∧ (ds.head? = some '0' → ds = ['0'])

/-- Digits in base sixteen are read back as the number. -/
theorem hexNumber?_toDigits (n : Nat) : hexNumber? (Nat.toDigits 16 n) = some n := by
  induction n using toDigits_induction (b := 16) (by decide) with
  | digit n hn => simp [Nat.toDigits_of_lt_base hn, hexNumber?, hexValue?_digitChar n hn]
  | step n hle ih =>
    rw [hexNumber?] at ih ⊢
    rw [Nat.toDigits_of_base_le (by decide) hle, List.foldlM_append, ih]
    simp [hexValue?_digitChar (n % 16) (by omega)]
    omega

/-- A literal address is written in base sixteen. -/
theorem hexadecimal_text (v : UInt64) : Hexadecimal v.toNat (Address.literal v).text where
  digits := by
    refine ⟨Nat.toDigits 16 v.toNat, by simp [Address.text, Text.hex], hexNumber?_toDigits _,
      fun c hc => ?_, toDigits_plain (by decide) (by decide) _⟩
    obtain ⟨d, hd, rfl⟩ := eq_digitChar_of_mem_toDigits (by decide) _ hc
    have hsmall : ∀ d < 16, Nat.digitChar d ∈ "0123456789abcdef".toList := by decide
    exact hsmall d hd

theorem eq_of_hexadecimal {n m : Nat} {s : String} (h : Hexadecimal n s) (h' : Hexadecimal m s) :
    n = m := by
  obtain ⟨ds, hs, hn, -⟩ := h
  obtain ⟨ds', hs', hm, -⟩ := h'
  obtain rfl : ds = ds' := by simpa [hs] using hs'
  exact Option.some.inj (hn.symm.trans hm)

theorem toString_injective {n m : Nat} (h : toString n = toString m) : n = m := by
  rw [Nat.toString_eq_ofList_toDigits, Nat.toString_eq_ofList_toDigits] at h
  have hvalue := congrArg (Nat.ofDigitChars 10 · 0) (String.ofList_injective h)
  simpa [Nat.ofDigitChars_toDigits] using hvalue

/-- An address is told by its text: an angle bracket starts that of an object, and a digit that of a
number. -/
theorem text_injective {a b : Address} (h : a.text = b.text) : a = b := by
  have hne : ∀ id v, (Address.object id).text ≠ (Address.literal v).text := by
    intro id v heq
    have hlists := congrArg String.toList heq
    simp [Address.text] at hlists
  cases a with
  | object id =>
    cases b with
    | object id' =>
      have hid : toString id = toString id' := by
        simpa [Address.text, ← String.toList_inj] using h
      rw [toString_injective hid]
    | literal v => exact absurd h (hne id v)
  | literal v =>
    cases b with
    | object id => exact absurd h.symm (hne id v)
    | literal v' =>
      have hv := hexadecimal_text v
      rw [h] at hv
      rw [UInt64.toNat_inj.1 (eq_of_hexadecimal hv (hexadecimal_text v'))]

theorem flatMap_escapedChar {l : List Char} (h : ∀ c ∈ l, Json.escapedChar c = [c]) :
    l.flatMap Json.escapedChar = l := by
  induction l with
  | nil => rfl
  | cons c l ih =>
    rw [List.flatMap_cons, h c List.mem_cons_self, ih fun d hd => h d (List.mem_cons_of_mem c hd)]
    rfl

/-- Nothing in an address has to be escaped. -/
theorem address_unescaped (a : Address) :
    a.text.toList.flatMap Json.escapedChar = a.text.toList := by
  have hdigit : ∀ d < 16, Json.escapedChar (Nat.digitChar d) = [Nat.digitChar d] := by decide
  have hdigits : ∀ b n, 1 < b → b ≤ 16 → ∀ c ∈ Nat.toDigits b n, Json.escapedChar c = [c] := by
    intro b n hb hle c hc
    obtain ⟨d, hd, rfl⟩ := eq_digitChar_of_mem_toDigits hb n hc
    exact hdigit d (by omega)
  apply flatMap_escapedChar
  cases a with
  | object id =>
    simp only [Address.text, Nat.toString_eq_ofList_toDigits, String.toList_append,
      String.toList_ofList, List.mem_append]
    rintro c ((hc | hc) | hc)
    · obtain rfl : c = '<' := by simpa using hc
      decide
    · exact hdigits 10 id (by decide) (by decide) c hc
    · obtain rfl : c = '>' := by simpa using hc
      decide
  | literal v =>
    simp only [Address.text, Text.hex, String.toList_append, String.toList_ofList, List.mem_append]
    rintro c (hc | hc)
    · obtain rfl | rfl : c = '0' ∨ c = 'x' := by simpa using hc
      all_goals decide
    · exact hdigits 16 v.toNat (by decide) (by decide) c hc

/-! ### Values and members -/

/-- What a value is in JSON. -/
def Value.document : Value → Document
  | .text s => .text s
  | .integer i => .number i 0
  | .natural n => .number n.toNat 0
  | .address a => .text a.text
  | .flag b => .flag b

theorem value_address (a : Address) : Json.value (.address a) = Json.string a.text := by
  simp [Json.value, Json.string, address_unescaped]

/-- **Each value is written as what it is in a document**, whatever follows it. -/
theorem value_document (v : Value) (r : List Char) :
    Document.Value ((Json.value v).toList ++ r) v.document r := by
  cases v with
  | text s => exact value_string s r
  | integer i => exact value_integer i r
  | natural n => exact value_natural n.toNat r
  | address a =>
    rw [value_address]
    exact value_string a.text r
  | flag b =>
    cases b with
    | true => exact .yes r
    | false => exact .no r

/-- A text is written as it is read, whatever follows it. -/
def WritesMember (written : String) (m : String × Document) : Prop :=
  ∀ r, Member Document.Value (written.toList ++ r) m r

/-- A member is a key, a colon and a value, with no blanks. -/
theorem writesMember (key : String) {written : String} {d : Document}
    (h : ∀ r, Document.Value (written.toList ++ r) d r) :
    WritesMember (Json.member key written) (key, d) := by
  intro r
  have hmember := Member.intro (chars_string key.toList (':' :: (written.toList ++ r))) (.none _)
    (.none _) (h r)
  rw [String.ofList_toList] at hmember
  simpa [Json.member, Json.string] using hmember

/-- Members with commas between them are read up to the brace that closes their object. -/
theorem items_intercalate {written : List String} {ms : List (String × Document)}
    (h : List.Forall₂ WritesMember written ms) (hne : written ≠ []) (r : List Char) :
    Items (Member Document.Value) '\x7d' ((",".intercalate written).toList ++ '\x7d' :: r) ms r := by
  induction h with
  | nil => exact absurd rfl hne
  | @cons w m written ms hw hrest ih =>
    cases hrest with
    | nil =>
      rw [String.intercalate_singleton]
      exact .last (.none _) (hw _) (.none _)
    | @cons w' m' written ms hw' hrest =>
      rw [String.intercalate_cons_cons, String.toList_append, String.toList_append, List.append_assoc,
        List.append_assoc]
      exact .more (.none _) (hw _) (.none _) (ih (List.cons_ne_nil _ _))

/-- An object is written from its members. -/
theorem value_object {written : List String} {ms : List (String × Document)}
    (h : List.Forall₂ WritesMember written ms) (hne : written ≠ []) (r : List Char) :
    Document.Value ((Json.object written).toList ++ r) (.object ms) r := by
  have hobject := Document.Value.object (items_intercalate h hne r)
  simpa [Json.object] using hobject

/-! ### Entries -/

namespace Entry

/-- The fields as one member, if there are any. -/
def fieldMembers (fields : List Field) : List (String × Document) :=
  if fields.isEmpty then []
  else [("fields", .object (fields.map fun f => (f.key, f.value.document)))]

/-- The members of the object that an entry's line is meant to hold. -/
def members (e : Entry) : List (String × Document) :=
  [("timestamp", .number e.timestamp.toNat 0), ("level", .text e.level.name)]
    ++ e.target.toList.map (fun target => ("target", .text target))
    ++ [("message", .text e.message)]
    ++ fieldMembers e.fields

def document (e : Entry) : Document :=
  .object e.members

theorem writes_fields (fields : List Field) :
    List.Forall₂ WritesMember (fields.map fun f => Json.member f.key (Json.value f.value))
      (fields.map fun f => (f.key, f.value.document)) := by
  induction fields with
  | nil => exact .nil
  | cons f fields ih => exact .cons (writesMember f.key (value_document f.value)) ih

/-- The members of an entry are written in their order: those that are always there, the target if
there is one, and the fields if there are any. -/
theorem writes_members (e : Entry) : List.Forall₂ WritesMember e.jsonMembers e.members := by
  have htext : ∀ key s, WritesMember (Json.member key (Json.string s)) (key, .text s) :=
    fun key s => writesMember key (value_string s)
  have hhead := List.Forall₂.cons (writesMember "timestamp" (value_natural e.timestamp.toNat))
    (.cons (htext "level" e.level.name) .nil)
  have htarget : List.Forall₂ WritesMember
      (e.target.toList.map fun target => Json.member "target" (Json.string target))
      (e.target.toList.map fun target => ("target", .text target)) := by
    cases e.target with
    | none => exact .nil
    | some target => exact .cons (htext "target" target) .nil
  have hmessage := List.Forall₂.cons (htext "message" e.message) .nil
  refine List.rel_append (List.rel_append (List.rel_append hhead htarget) hmessage) ?_
  unfold fieldMembers
  split
  · exact .nil
  · next hfields =>
    have hne : e.fields.map (fun f => Json.member f.key (Json.value f.value)) ≠ [] := by
      simpa [List.isEmpty_iff] using hfields
    exact .cons (writesMember "fields" (value_object (writes_fields e.fields) hne)) .nil

/-- **The line of an entry writes its document.** -/
theorem writes_document (e : Entry) : Document.Writes e.json e.document := by
  have hvalue := value_object e.writes_members (List.cons_ne_nil _ _) []
  rw [List.append_nil] at hvalue
  exact ⟨_, _, .none _, hvalue, .none _⟩

end Entry

/-! ### What a line tells apart -/

/-- Values that stand for the same in a line: an address and its text, and a number with and without
a sign. -/
inductive Value.Agrees : Value → Value → Prop where
  | same (v : Value) : Agrees v v
  | spelled (a : Address) : Agrees (.address a) (.text a.text)
  | spelling (a : Address) : Agrees (.text a.text) (.address a)
  | unsigned (n : UInt64) : Agrees (.integer n.toNat) (.natural n)
  | signed (n : UInt64) : Agrees (.natural n) (.integer n.toNat)

/-- Values that are the same in a document are the same but for their kind. -/
theorem Value.agrees_of_document_eq {v w : Value} (h : v.document = w.document) : v.Agrees w := by
  cases v with
  | text s =>
    cases w with
    | text s' =>
      rw [Document.text.inj h]
      exact .same _
    | address a =>
      rw [Document.text.inj h]
      exact .spelling a
    | _ => cases h
  | integer i =>
    cases w with
    | integer i' =>
      rw [(Document.number.inj h).1]
      exact .same _
    | natural n =>
      rw [(Document.number.inj h).1]
      exact .unsigned n
    | _ => cases h
  | natural n =>
    cases w with
    | integer i =>
      rw [← (Document.number.inj h).1]
      exact .signed n
    | natural n' =>
      rw [UInt64.toNat_inj.1 (Int.ofNat.inj (Document.number.inj h).1)]
      exact .same _
    | _ => cases h
  | address a =>
    cases w with
    | text s =>
      rw [← Document.text.inj h]
      exact .spelled a
    | address a' =>
      rw [text_injective (Document.text.inj h)]
      exact .same _
    | _ => cases h
  | flag b =>
    cases w with
    | flag b' =>
      rw [Document.flag.inj h]
      exact .same _
    | _ => cases h

theorem Value.Agrees.json_eq {v w : Value} (h : v.Agrees w) : Json.value v = Json.value w := by
  cases h with
  | same => rfl
  | spelled a => exact value_address a
  | spelling a => exact (value_address a).symm
  | unsigned n => rfl
  | signed n => rfl

namespace Entry

/-- Entries whose lines hold the same. -/
structure Alike (e e' : Entry) : Prop where
  timestamp : e.timestamp = e'.timestamp
  level : e.level = e'.level
  target : e.target = e'.target
  message : e.message = e'.message
  fields : List.Forall₂ (fun f g => f.key = g.key ∧ f.value.Agrees g.value) e.fields e'.fields

theorem name_injective {a b : Level} (h : a.name = b.name) : a = b := by
  cases a <;> cases b <;> first | rfl | exact absurd h (by decide)

theorem fields_alike {fields fields' : List Field}
    (h : (fields.map fun f => (f.key, f.value.document)) =
      fields'.map fun f => (f.key, f.value.document)) :
    List.Forall₂ (fun f g => f.key = g.key ∧ f.value.Agrees g.value) fields fields' := by
  induction fields generalizing fields' with
  | nil =>
    rw [List.map_eq_nil_iff.1 h.symm]
    exact .nil
  | cons f fields ih =>
    cases fields' with
    | nil => cases h
    | cons g fields' =>
      obtain ⟨hfirst, hrest⟩ := List.cons.inj h
      obtain ⟨hkey, hvalue⟩ := Prod.mk.inj hfirst
      exact .cons ⟨hkey, Value.agrees_of_document_eq hvalue⟩ (ih hrest)

/-- The fields are missing together or agree one by one. -/
theorem fields_alike_of_fieldMembers_eq {fields fields' : List Field}
    (h : fieldMembers fields = fieldMembers fields') :
    List.Forall₂ (fun f g => f.key = g.key ∧ f.value.Agrees g.value) fields fields' := by
  apply fields_alike
  unfold fieldMembers at h
  split at h <;> split at h
  · next hempty hempty' => rw [List.isEmpty_iff.1 hempty, List.isEmpty_iff.1 hempty']
  · cases h
  · cases h
  · exact Document.object.inj (Prod.mk.inj (List.cons.inj h).1).2

/-- **A line tells all that an entry has**, but for the kinds of its values. -/
theorem alike_of_members_eq {e e' : Entry} (h : e.members = e'.members) : e.Alike e' := by
  obtain ⟨level, message, target, fields, timestamp⟩ := e
  obtain ⟨level', message', target', fields', timestamp'⟩ := e'
  obtain ⟨htimestamp, hlevel, htarget, hmessage, hfields⟩ :
      (timestamp.toNat : Int) = timestamp'.toNat ∧ level.name = level'.name ∧ target = target' ∧
        message = message' ∧ fieldMembers fields = fieldMembers fields' := by
    cases target <;> cases target' <;> simp [members] at h ⊢ <;> exact h
  exact ⟨UInt64.toNat_inj.1 (Int.ofNat.inj htimestamp), name_injective hlevel, htarget, hmessage,
    fields_alike_of_fieldMembers_eq hfields⟩

/-- What a line does not tell does not change it either. -/
theorem Alike.json_eq {e e' : Entry} (h : e.Alike e') : e.json = e'.json := by
  obtain ⟨level, message, target, fields, timestamp⟩ := e
  obtain ⟨_, _, _, fields', _⟩ := e'
  obtain ⟨rfl, rfl, rfl, rfl, hagree⟩ := h
  dsimp only at hagree
  have hfields : (fields.map fun f => Json.member f.key (Json.value f.value)) =
      fields'.map fun f => Json.member f.key (Json.value f.value) := by
    induction hagree with
    | nil => rfl
    | cons hfirst _ ih => rw [List.map_cons, List.map_cons, hfirst.1, hfirst.2.json_eq, ih]
  have hempty : fields.isEmpty = fields'.isEmpty := by
    cases hagree <;> rfl
  simp only [json, jsonMembers, hfields, hempty]

/-- Entries have the same line only where a reader cannot tell them apart. -/
theorem json_eq_iff {e e' : Entry} : e.json = e'.json ↔ e.Alike e' := by
  refine ⟨fun h => alike_of_members_eq ?_, Alike.json_eq⟩
  have hwrites := e.writes_document
  rw [h] at hwrites
  exact Document.object.inj (hwrites.unique e'.writes_document)

/-! ### No control characters -/

/-- A text without control characters, a line feed included. -/
def Visible (s : String) : Prop :=
  ∀ c ∈ s.toList, isControl c = false

instance (s : String) : Decidable (Visible s) :=
  List.decidableBAll (isControl · = false) s.toList

theorem visible_append {s t : String} (hs : Visible s) (ht : Visible t) : Visible (s ++ t) := by
  intro c hc
  rw [String.toList_append, List.mem_append] at hc
  exact hc.elim (hs c) (ht c)

theorem visible_intercalate {l : List String} (h : ∀ s ∈ l, Visible s) :
    Visible (",".intercalate l) := by
  induction l with
  | nil => exact nofun
  | cons s l ih =>
    cases l with
    | nil => exact h s List.mem_cons_self
    | cons t l =>
      rw [String.intercalate_cons_cons]
      have hcomma : Visible "," := by decide
      exact visible_append (visible_append (h s List.mem_cons_self) hcomma)
        (ih fun u hu => h u (List.mem_cons_of_mem s hu))

theorem visible_toString (n : Nat) : Visible (toString n) := by
  intro c hc
  rw [Nat.toString_eq_ofList_toDigits, String.toList_ofList] at hc
  obtain ⟨d, hd, rfl⟩ := eq_digitChar_of_mem_toDigits (by decide) n hc
  have hdigit : ∀ d < 10, isControl (Nat.digitChar d) = false := by decide
  exact hdigit d hd

/-- Whatever is a control character is escaped, and no escape has one in it. -/
theorem visible_escapedChar (c : Char) : (Json.escapedChar c).any isControl = false := by
  have hdigit : ∀ n < 16, isControl (Nat.digitChar n) = false := by decide
  unfold Json.escapedChar
  split
  · rfl
  split
  · rfl
  split
  · rfl
  split
  · rfl
  split
  · rfl
  split
  · next hcontrol =>
    have hlt := toNat_lt_of_isControl hcontrol
    have hhigh := hdigit (c.toNat / 16) (by omega)
    have hlow := hdigit (c.toNat % 16) (by omega)
    have hplain : isControl '\\' = false ∧ isControl 'u' = false ∧ isControl '0' = false := by decide
    simp [unitEscape_eq hcontrol, hhigh, hlow, hplain]
  · next hcontrol =>
    simpa using hcontrol

/-- A text is written without control characters, whatever it has in it. -/
theorem visible_string (s : String) : Visible (Json.string s) := by
  have hquote : Visible "\"" := by decide
  refine visible_append (visible_append hquote ?_) hquote
  intro c hc
  rw [String.toList_ofList, List.mem_flatMap] at hc
  obtain ⟨d, -, hd⟩ := hc
  exact Bool.eq_false_iff.2 (List.any_eq_false.1 (visible_escapedChar d) c hd)

/-- A value is written without control characters. -/
theorem visible_value (v : Value) : Visible (Json.value v) := by
  cases v with
  | text s => exact visible_string s
  | integer i =>
    cases i with
    | ofNat n => exact visible_toString n
    | negSucc n =>
      have hminus : Visible "-" := by decide
      exact visible_append hminus (visible_toString (n + 1))
  | natural n => exact visible_toString n.toNat
  | address a =>
    rw [value_address]
    exact visible_string a.text
  | flag b => cases b <;> decide

theorem visible_member (key : String) {written : String} (h : Visible written) :
    Visible (Json.member key written) := by
  have hcolon : Visible ":" := by decide
  exact visible_append (visible_append (visible_string key) hcolon) h

theorem visible_object {written : List String} (h : ∀ s ∈ written, Visible s) :
    Visible (Json.object written) := by
  have hopen : Visible "\x7b" := by decide
  have hclose : Visible "\x7d" := by decide
  exact visible_append (visible_append hopen (visible_intercalate h)) hclose

/-- The line of an entry has no control characters. -/
theorem visible_json (e : Entry) : Visible e.json := by
  refine visible_object fun s hs => ?_
  simp only [jsonMembers, List.mem_append] at hs
  obtain ((hs | hs) | hs) | hs := hs
  · obtain rfl | rfl : s = _ ∨ s = _ := by simpa using hs
    · exact visible_member _ (visible_toString _)
    · exact visible_member _ (visible_string _)
  · obtain ⟨target, -, rfl⟩ := List.mem_map.1 hs
    exact visible_member _ (visible_string target)
  · rw [List.mem_singleton] at hs
    exact hs ▸ visible_member _ (visible_string e.message)
  · split at hs
    · cases hs
    · rw [List.mem_singleton] at hs
      refine hs ▸ visible_member _ (visible_object fun s hs => ?_)
      obtain ⟨f, -, rfl⟩ := List.mem_map.1 hs
      exact visible_member f.key (visible_value f.value)

/-- What the line of an entry keeps of it. -/
structure Kept (e : Entry) : Prop where
  /-- There is no control character, so no line feed: the line is one line. -/
  visible : Visible e.json
  /-- The line is the text of one object, whose members are those of the entry. -/
  written : ∀ d, Document.Writes e.json d ↔ d = .object e.members
  /-- The reader gives them back. -/
  read : Document.read? e.json = some (.object e.members)
  /-- Every address stands there as its digits in base sixteen. -/
  addresses : ∀ f ∈ e.fields, ∀ v, f.value = .address (.literal v) →
    ∃ s, f.value.document = .text s ∧ Hexadecimal v.toNat s
  /-- Another line tells another entry. -/
  told : ∀ e' : Entry, e.json = e'.json ↔ e.Alike e'

theorem json_keeps (e : Entry) : e.Kept where
  visible := e.visible_json
  written d := by
    refine ⟨fun h => h.unique e.writes_document, ?_⟩
    rintro rfl
    exact e.writes_document
  read := Document.read?_eq_some_iff.2 e.writes_document
  addresses _ _ v hv := ⟨_, by rw [hv]; rfl, hexadecimal_text v⟩
  told _ := json_eq_iff

end Entry
end Custody.Log
