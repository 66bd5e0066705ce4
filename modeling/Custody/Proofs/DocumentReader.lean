import Custody.Proofs.Document

/-! The reader of documents finds whatever the grammar allows.

The grammar alone leaves open where a number ends. What follows a value in a whole text is a blank,
a comma, a closing bracket or nothing (`Ended`), and in front of those the reader takes the same
number. So reading decides the grammar (`read?_eq_some_iff`), and a text writes one document at
most. -/
namespace Custody.Document

variable {α : Type} {s r : List Char} {item : Grammar α} {read : Reader α} {close : Char}

/-! ### Blanks and ends -/

/-- It does not matter how many of the blanks are taken off first. -/
theorem Blanks.skip_eq (h : Blanks s r) : skip s = skip r := by
  induction h with
  | none => rfl
  | more hblank _ ih => rw [skip, if_pos hblank, ih]

theorem Blanks.length_le (h : Blanks s r) : r.length ≤ s.length := by
  induction h with
  | none => exact Nat.le_refl _
  | more _ _ ih => exact Nat.le_succ_of_le ih

theorem skip_cons {c : Char} (h : isBlank c = false) : skip (c :: s) = c :: s := by
  simp [skip, h]

/-- Nothing that a number could go on with. -/
def Ended (r : List Char) : Prop :=
  ∀ c, r.head? = some c → c.isDigit = false ∧ c ≠ '.' ∧ c ≠ 'e' ∧ c ≠ 'E'

theorem ended_nil : Ended [] :=
  nofun

theorem ended_cons {c : Char} (digit : c.isDigit = false) (point : c ≠ '.') (small : c ≠ 'e')
    (large : c ≠ 'E') : Ended (c :: r) := by
  rintro _ ⟨⟩
  exact ⟨digit, point, small, large⟩

/-- A number does not go on behind blanks. -/
theorem Ended.of_blanks (hr : Ended r) (h : Blanks s r) : Ended s := by
  cases h with
  | none => exact hr
  | @more c _ _ hblank _ =>
    simp only [isBlank, Bool.or_eq_true, decide_eq_true_eq] at hblank
    obtain ((rfl | rfl) | rfl) | rfl := hblank <;>
      exact ended_cons rfl (by decide) (by decide) (by decide)

/-! ### Numbers -/

/-- Digits are read up to a character that is none. -/
theorem digits?_append {ds : List Char} (hds : Digits ds)
    (hr : ∀ c, r.head? = some c → c.isDigit = false) : digits? (ds ++ r) = some (ds, r) := by
  have htake : r.takeWhile Char.isDigit = [] := by
    cases r with
    | nil => rfl
    | cons c r => simp [hr c rfl]
  have hdrop : r.dropWhile Char.isDigit = r := by
    cases r with
    | nil => rfl
    | cons c r => simp [hr c rfl]
  simp [digits?, List.takeWhile_append_of_pos hds.2, List.dropWhile_append_of_pos hds.2, htake,
    hdrop, hds.1]

/-- An exponent is read in full where the number ends behind it. -/
theorem exponent?_append {e : Option Exponent} (hvalid : ∀ e', e = some e' → e'.Valid)
    (hr : Ended r) : exponent? ((e.map Exponent.text).getD [] ++ r) = some (e, r) := by
  cases e with
  | none =>
    cases r with
    | nil => rfl
    | cons c r =>
      obtain ⟨-, -, hsmall, hlarge⟩ := hr c rfl
      simp [exponent?, hsmall, hlarge]
  | some e =>
    obtain ⟨mark, sign, digits⟩ := e
    obtain ⟨hmark, hsign, hdigits⟩ := hvalid _ rfl
    have hread : digits? (digits ++ r) = some (digits, r) :=
      digits?_append hdigits fun c hc => (hr c hc).1
    have hplain : exponentSign? (sign.toList ++ (digits ++ r)) = (sign, digits ++ r) := by
      obtain rfl | rfl | rfl := hsign
      · obtain ⟨hne, hall⟩ := hdigits
        cases digits with
        | nil => exact absurd rfl hne
        | cons d ds =>
          have hd := hall d List.mem_cons_self
          have hplus : d ≠ '+' := by rintro rfl; exact absurd hd (by decide)
          have hminus : d ≠ '-' := by rintro rfl; exact absurd hd (by decide)
          simp [exponentSign?, hplus, hminus]
      · rfl
      · rfl
    simp [exponent?, Exponent.text, hmark, hplain, hread]

theorem fraction?_append {ds : List Char} (hds : ∀ c ∈ ds, c.isDigit = true)
    (hr : ∀ c, r.head? = some c → c.isDigit = false ∧ c ≠ '.') :
    fraction? (Numeral.fractionText ds ++ r) = some (ds, r) := by
  cases ds with
  | nil =>
    cases r with
    | nil => rfl
    | cons c r =>
      have hpoint := (hr c rfl).2
      simp [fraction?, Numeral.fractionText, hpoint]
  | cons d ds => exact digits?_append ⟨List.cons_ne_nil d ds, hds⟩ fun c hc => (hr c hc).1

theorem sign?_append {negative : Bool} (h : s.head? ≠ some '-') :
    sign? ((if negative then ['-'] else []) ++ s) = (negative, s) := by
  cases negative with
  | true => rfl
  | false =>
    simp only [Bool.false_eq_true, if_false, List.nil_append]
    unfold sign?
    split
    · exact absurd rfl h
    · rfl

/-- **A number is read in full**, part by part, where it ends. -/
theorem numeral?_append {n : Numeral} (hn : n.Valid) (hr : Ended r) :
    numeral? (n.text ++ r) = some (n, r) := by
  obtain ⟨negative, whole, fraction, exponent⟩ := n
  obtain ⟨hwhole, hplain, hfraction, hvalid⟩ := hn
  dsimp only at hwhole hplain hfraction hvalid
  have hexponent : exponent? ((exponent.map Exponent.text).getD [] ++ r) = some (exponent, r) :=
    exponent?_append hvalid hr
  have hbehind : ∀ c, ((exponent.map Exponent.text).getD [] ++ r).head? = some c →
      c.isDigit = false ∧ c ≠ '.' := by
    cases exponent with
    | none => exact fun c hc => ⟨(hr c hc).1, (hr c hc).2.1⟩
    | some e =>
      rintro _ ⟨⟩
      obtain hmark | hmark := (hvalid e rfl).mark <;> rw [hmark] <;> decide
  have hfractioned := fraction?_append hfraction hbehind
  have hpoint : ∀ c, (Numeral.fractionText fraction ++
      ((exponent.map Exponent.text).getD [] ++ r)).head? = some c → c.isDigit = false := by
    cases fraction with
    | nil => exact fun c hc => (hbehind c hc).1
    | cons d ds =>
      rintro _ ⟨⟩
      rfl
  have hread := digits?_append hwhole hpoint
  have hsign : (whole ++ (Numeral.fractionText fraction ++
      ((exponent.map Exponent.text).getD [] ++ r))).head? ≠ some '-' := by
    cases whole with
    | nil => exact absurd rfl hwhole.1
    | cons d ds =>
      rintro ⟨⟩
      exact absurd (hwhole.2 _ List.mem_cons_self) (by decide)
  have hwhole? : ¬(whole.head? = some '0' ∧ whole ≠ ['0']) := fun h => h.2 (hplain h.1)
  simp [numeral?, Numeral.text, sign?_append hsign, whole?, hread, hwhole?, hfractioned, hexponent]

/-! ### Texts -/

theorem escapedUnit?_cons {a b c d : Char} {u : Nat} (h : unit? a b c d = some u) :
    escapedUnit? ('u' :: a :: b :: c :: d :: s) = some (u, s) := by
  simp [escapedUnit?, h]

theorem escaped?_of_escape? {c d : Char} (h : escape? c = some d) :
    escaped? (c :: s) = some (d, s) := by
  have hne : c ≠ 'u' := by
    rintro rfl
    cases h
  have hunit : escapedUnit? (c :: s) = none := by
    unfold escapedUnit?
    split
    · next heq =>
      cases heq
      exact absurd rfl hne
    · rfl
  simp [escaped?, hunit, h]

theorem escaped?_of_unit? {a b c d : Char} {u : Nat} (h : unit? a b c d = some u)
    (high : isHigh u = false) (low : isLow u = false) :
    escaped? ('u' :: a :: b :: c :: d :: s) = some (Char.ofNat u, s) := by
  unfold escaped?
  rw [escapedUnit?_cons h]
  split
  · next heq =>
    obtain ⟨rfl, rfl⟩ := Prod.mk.inj (Option.some.inj heq)
    simp [high, low]
  · next heq =>
    obtain ⟨rfl, rfl⟩ := Prod.mk.inj (Option.some.inj heq)
    simp [high, low]
  · next heq => cases heq

/-- Two surrogates are read together. -/
theorem escaped?_of_pair {a b c d a' b' c' d' : Char} {u v : Nat} (h : unit? a b c d = some u)
    (high : isHigh u = true) (h' : unit? a' b' c' d' = some v) (low : isLow v = true) :
    escaped? ('u' :: a :: b :: c :: d :: '\\' :: 'u' :: a' :: b' :: c' :: d' :: s) =
      some (joined u v, s) := by
  simp [escaped?, escapedUnit?_cons h, escapedUnit?_cons h', high, low]

theorem Chars.length_lt {t : List Char} (h : Chars s t r) : r.length < s.length := by
  induction h with
  | close => exact Nat.lt_succ_self _
  | _ => simp only [List.length_cons]; omega

/-- A text is read in full with no more fuel than it has characters. -/
theorem chars?_eq {t : List Char} (h : Chars s t r) (fuel : Nat) (hfuel : s.length ≤ fuel) :
    chars? fuel s = some (t, r) := by
  induction h generalizing fuel with
  | close =>
    cases fuel with
    | zero => cases hfuel
    | succ fuel => rfl
  | plain quote backslash visible _ ih =>
    cases fuel with
    | zero => cases hfuel
    | succ fuel =>
      simp [chars?, quote, backslash, Nat.not_lt.2 visible, ih fuel (Nat.le_of_succ_le_succ hfuel)]
  | escaped escape _ ih =>
    cases fuel with
    | zero => cases hfuel
    | succ fuel =>
      have hrest := ih fuel (Nat.le_of_succ_le (Nat.le_of_succ_le_succ hfuel))
      simp [chars?, escaped?_of_escape? escape, hrest]
  | unit unit high low _ ih =>
    cases fuel with
    | zero => cases hfuel
    | succ fuel =>
      have hrest := ih fuel (by simp only [List.length_cons] at hfuel; omega)
      simp [chars?, escaped?_of_unit? unit high low, hrest]
  | pair unit high second low _ ih =>
    cases fuel with
    | zero => cases hfuel
    | succ fuel =>
      have hrest := ih fuel (by simp only [List.length_cons] at hfuel; omega)
      simp [chars?, escaped?_of_pair unit high second low, hrest]

/-! ### Lists of items -/

/-- No item begins with a blank or with the end of a list. -/
def Starts (s : List Char) : Prop :=
  ∃ c t, s = c :: t ∧ isBlank c = false ∧ c ≠ ']' ∧ c ≠ '\x7d'

theorem Starts.skip_eq (h : Starts s) : skip s = s := by
  obtain ⟨c, t, rfl, hblank, -, -⟩ := h
  exact skip_cons hblank

/-- What a grammar allows in a text of at most `size` characters, the reader finds. -/
def Finds (size : Nat) (read : Reader α) (item : Grammar α) : Prop :=
  ∀ {s a r}, s.length ≤ size → item s a r →
    Starts s ∧ r.length < s.length ∧ (Ended r → read s = some (a, r))

/-- Items are found one by one, each in a text that is shorter. -/
theorem items?_eq {size : Nat} (hread : Finds size read item) (hclose : close = ']' ∨ close = '\x7d')
    {as : List α} (h : Items item close s as r) (fuel : Nat) (hsize : s.length ≤ size)
    (hfuel : s.length ≤ fuel) : items? read close fuel s = some (as, r) ∧ r.length < s.length := by
  induction h generalizing fuel with
  | @last s t u r a before first behind =>
    have hlt := before.length_le
    have hle := behind.length_le
    obtain ⟨hstarts, hshorter, hfirst⟩ := hread (Nat.le_trans hlt hsize) first
    have hended : Ended (close :: r) := by
      obtain rfl | rfl := hclose <;> exact ended_cons rfl (by decide) (by decide) (by decide)
    have hblank : isBlank close = false := by
      obtain rfl | rfl := hclose <;> rfl
    simp only [List.length_cons] at hle
    refine ⟨?_, by omega⟩
    obtain ⟨fuel, rfl⟩ : ∃ n, fuel = n + 1 := Nat.exists_eq_succ_of_ne_zero (by omega)
    simp [items?, before.skip_eq, hstarts.skip_eq, hfirst (hended.of_blanks behind),
      behind.skip_eq, skip_cons hblank]
  | @more s t u v r a as before first behind rest ih =>
    have hlt := before.length_le
    have hle := behind.length_le
    obtain ⟨hstarts, hshorter, hfirst⟩ := hread (Nat.le_trans hlt hsize) first
    have hended : Ended (',' :: v) := ended_cons rfl (by decide) (by decide) (by decide)
    have hne : ¬(',' = close) := by
      obtain rfl | rfl := hclose <;> decide
    simp only [List.length_cons] at hle
    obtain ⟨fuel, rfl⟩ : ∃ n, fuel = n + 1 := Nat.exists_eq_succ_of_ne_zero (by omega)
    obtain ⟨hrest, hlast⟩ := ih fuel (by omega) (by omega)
    refine ⟨?_, by omega⟩
    have hcomma : isBlank ',' = false := rfl
    simp [items?, before.skip_eq, hstarts.skip_eq, hfirst (hended.of_blanks behind),
      behind.skip_eq, skip_cons hcomma, hne, hrest]

/-- An item does not begin with the closing character, so a list with items is not taken for an
empty one. -/
theorem bracketed?_items {size : Nat} (hread : Finds size read item)
    (hclose : close = ']' ∨ close = '\x7d') {as : List α} (h : Items item close s as r)
    (hsize : s.length ≤ size) : bracketed? read close s = some (as, r) ∧ r.length < s.length := by
  have hhead : ¬(skip s).head? = some close := by
    obtain ⟨t, u, a, before, first⟩ : ∃ t u a, Blanks s t ∧ item t a u := by
      cases h with
      | last before first _ => exact ⟨_, _, _, before, first⟩
      | more before first _ _ => exact ⟨_, _, _, before, first⟩
    obtain ⟨hstarts, -, -⟩ := hread (Nat.le_trans before.length_le hsize) first
    rw [before.skip_eq, hstarts.skip_eq]
    obtain ⟨c, t, rfl, -, hbracket, hbrace⟩ := hstarts
    obtain rfl | rfl := hclose <;> simpa
  obtain ⟨hitems, hlt⟩ := items?_eq hread hclose h s.length hsize (Nat.le_refl _)
  exact ⟨by rw [bracketed?, if_neg hhead, hitems], hlt⟩

theorem bracketed?_blanks (read : Reader α) (hclose : isBlank close = false)
    (h : Blanks s (close :: r)) : bracketed? read close s = some ([], r) ∧ r.length < s.length := by
  refine ⟨?_, h.length_le⟩
  simp [bracketed?, h.skip_eq, skip_cons hclose]

/-! ### Values -/

/-- A member is found where its value is. -/
theorem finds_member {size : Nat} {value : Grammar Document} {read : Reader Document}
    (hread : Finds size read value) : Finds size (member? read) (Member value) := by
  intro s m r hsize h
  cases h with
  | @intro s t u v r key d chars colon before body =>
    have hkey := chars.length_lt
    have hcolon := colon.length_le
    have hbefore := before.length_le
    simp only [List.length_cons] at hsize hcolon ⊢
    obtain ⟨hstarts, hshorter, hbody⟩ := hread (by omega) body
    refine ⟨⟨_, s, rfl, rfl, by decide, by decide⟩, by omega, fun hended => ?_⟩
    have hblank : isBlank ':' = false := rfl
    simp [member?, chars?_eq chars _ (Nat.le_refl _), colon.skip_eq, skip_cons hblank,
      before.skip_eq, hstarts.skip_eq, hbody hended]

/-- The first character of a number tells it from everything else. -/
theorem Numeral.text_starts {n : Numeral} (hn : n.Valid) :
    ∃ c t, n.text = c :: t ∧ ∀ d : Char, d ≠ '-' → d.isDigit = false → c ≠ d := by
  obtain ⟨negative, whole, fraction, exponent⟩ := n
  cases negative with
  | true => exact ⟨_, _, rfl, fun d hminus _ => hminus.symm⟩
  | false =>
    cases whole with
    | nil => exact absurd rfl hn.whole.1
    | cons c cs =>
      refine ⟨c, _, rfl, ?_⟩
      rintro _ - hdigit rfl
      exact Bool.false_ne_true (hdigit.symm.trans (hn.whole.2 c List.mem_cons_self))

/-- What begins like a number is no text, no list, no object and no word. -/
theorem value?_numeral {n : Numeral} (hn : n.Valid) (hr : Ended r) (fuel : Nat) :
    value? (fuel + 1) (n.text ++ r) = some (number n.mantissa n.power, r) := by
  have hread := numeral?_append hn hr
  obtain ⟨c, t, htext, hne⟩ := n.text_starts hn
  rw [htext] at hread ⊢
  have hquote := hne '"' (by decide) rfl
  have hbracket := hne '[' (by decide) rfl
  have hbrace := hne '\x7b' (by decide) rfl
  have hword : word? (c :: (t ++ r)) = none := by
    unfold word?
    split
    · next heq => exact absurd (List.cons.inj heq).1 (hne 'n' (by decide) rfl)
    · next heq => exact absurd (List.cons.inj heq).1 (hne 't' (by decide) rfl)
    · next heq => exact absurd (List.cons.inj heq).1 (hne 'f' (by decide) rfl)
    · rfl
  rw [List.cons_append] at hread ⊢
  simp [value?, hquote, hbracket, hbrace, hword, hread]

theorem Value.starts {d : Document} (h : Value s d r) : Starts s := by
  cases h with
  | @number n valid r =>
    obtain ⟨c, t, htext, hne⟩ := n.text_starts valid
    refine ⟨c, t ++ r, by rw [htext, List.cons_append], ?_, hne ']' (by decide) rfl,
      hne '\x7d' (by decide) rfl⟩
    simp [isBlank, hne ' ' (by decide) rfl, hne '\t' (by decide) rfl, hne '\n' (by decide) rfl,
      hne '\r' (by decide) rfl]
  | _ => exact ⟨_, _, rfl, rfl, by decide, by decide⟩

/-- **The reader finds every value**, with fuel for the characters of the text. -/
theorem finds_value (size : Nat) : Finds size (value? size) Value := by
  induction size with
  | zero =>
    intro s d r hsize h
    obtain ⟨c, t, rfl, -⟩ := h.starts
    cases hsize
  | succ size ih =>
    intro s d r hsize h
    refine ⟨h.starts, ?_⟩
    cases h with
    | null r => exact ⟨by simp only [List.length_cons]; omega, fun _ => rfl⟩
    | yes r => exact ⟨by simp only [List.length_cons]; omega, fun _ => rfl⟩
    | no r => exact ⟨by simp only [List.length_cons]; omega, fun _ => rfl⟩
    | @number n valid r =>
      refine ⟨?_, fun hended => value?_numeral valid hended size⟩
      obtain ⟨c, t, htext, -⟩ := n.text_starts valid
      simp only [htext, List.length_append, List.length_cons]
      omega
    | text chars =>
      refine ⟨Nat.lt_succ_of_lt chars.length_lt, fun _ => ?_⟩
      simp [value?, chars?_eq chars _ (Nat.le_refl _)]
    | emptyArray blanks =>
      obtain ⟨hread, hlt⟩ := bracketed?_blanks (value? size) rfl blanks
      refine ⟨Nat.lt_succ_of_lt hlt, fun _ => ?_⟩
      simp [value?, hread]
    | array items =>
      obtain ⟨hread, hlt⟩ := bracketed?_items ih (.inl rfl) items (Nat.le_of_succ_le_succ hsize)
      refine ⟨Nat.lt_succ_of_lt hlt, fun _ => ?_⟩
      simp [value?, hread]
    | emptyObject blanks =>
      obtain ⟨hread, hlt⟩ := bracketed?_blanks (member? (value? size)) rfl blanks
      refine ⟨Nat.lt_succ_of_lt hlt, fun _ => ?_⟩
      simp [value?, hread]
    | object members =>
      obtain ⟨hread, hlt⟩ := bracketed?_items (finds_member ih) (.inr rfl) members
        (Nat.le_of_succ_le_succ hsize)
      refine ⟨Nat.lt_succ_of_lt hlt, fun _ => ?_⟩
      simp [value?, hread]

/-- The reader decides the grammar, so a text writes one document at most. -/
theorem read?_eq_some_iff {written : String} {d : Document} :
    read? written = some d ↔ Writes written d := by
  refine ⟨writes_of_read?, ?_⟩
  rintro ⟨s, r, hbefore, hvalue, hbehind⟩
  obtain ⟨hstarts, -, hread⟩ := finds_value written.length (s := s) hbefore.length_le hvalue
  simp [read?, hbefore.skip_eq, hstarts.skip_eq, hread (ended_nil.of_blanks hbehind),
    hbehind.skip_eq, skip]

example : read? " [1, -2.5e3, \"\\u00e9\\n\", [ ]] " =
    some (array [number 1 0, number (-25) 2, text "é\n", array []]) := by
  rfl

example : read? "[01]" = none := by
  rfl

theorem Writes.unique {written : String} {d d' : Document} (h : Writes written d)
    (h' : Writes written d') : d = d' :=
  Option.some.inj ((read?_eq_some_iff.2 h).symm.trans (read?_eq_some_iff.2 h'))

end Custody.Document
