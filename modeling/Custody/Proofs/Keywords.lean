import Custody.Proofs.Variables

/-! Words that are read in any case.

A setting is read from a text without its outer blanks, in the lower case of Unicode. Under that
mapping some characters from outside of ASCII arrive inside of it, and one of them becomes two. None
gets into a word that is read: what words are spelled with is the small form of itself and of its
ASCII capital only (`Text.lowercaseChar_eq_iff`). So a text means a value just if it is, between
blanks, one of the value's spellings in any mixture of the two ASCII cases
(`Text.readsSettings`). -/
namespace Custody

open Log

namespace Text

variable {s t w : List Char} {c d : Char}

/-- What words are spelled with: digits and small letters of ASCII. No word has a `k`, which is the
small form of the Kelvin sign as well. -/
def isPlain (c : Char) : Bool :=
  c.isDigit || 0x61 ≤ c.toNat && c.toNat ≤ 0x7A && c != 'k'

/-! ### Characters in lower case -/

/-- A run of capitals from outside of ASCII. Only the Kelvin sign has a small form inside of it. -/
def CapitalRun.Foreign (run : CapitalRun) : Prop :=
  0xC0 ≤ run.first ∧ (0x80 ≤ run.small ∨ run.first = 0x212A ∧ run.last = 0x212A ∧ run.small = 0x6B)

instance (run : CapitalRun) : Decidable run.Foreign :=
  inferInstanceAs (Decidable (_ ∧ _))

theorem capitalRuns_eq : ∃ rest, capitalRuns = ⟨0x41, 0x5A, 1, 0x61⟩ :: rest ∧
    ∀ run ∈ rest, run.Foreign :=
  ⟨_, rfl, by decide +kernel⟩

theorem toNat_toLower (c : Char) :
    c.toLower.toNat = if 0x41 ≤ c.toNat ∧ c.toNat ≤ 0x5A then c.toNat + 0x20 else c.toNat := by
  unfold Char.toLower
  split
  · next h =>
    have hbounds : 0x41 ≤ c.toNat ∧ c.toNat ≤ 0x5A := h
    rw [if_pos hbounds]
    show (c.val.toNat + 0x20) % UInt32.size = c.toNat + 0x20
    exact Nat.mod_eq_of_lt (Nat.lt_of_le_of_lt (Nat.add_le_add_right hbounds.2 _) (by decide))
  · next h =>
    have hbounds : ¬ (0x41 ≤ c.toNat ∧ c.toNat ≤ 0x5A) := h
    rw [if_neg hbounds]

theorem toNat_of_isPlain (h : isPlain c = true) :
    0x30 ≤ c.toNat ∧ c.toNat ≤ 0x39 ∨ 0x61 ≤ c.toNat ∧ c.toNat ≤ 0x7A ∧ c.toNat ≠ 0x6B := by
  have hne : c ≠ 'k' → c.toNat ≠ 0x6B := fun hc heq => hc (Char.toNat_inj.1 heq)
  simp only [isPlain, Char.isDigit, Bool.or_eq_true, Bool.and_eq_true, decide_eq_true_eq,
    bne_iff_ne, ge_iff_le, UInt32.le_iff_toNat_le] at h
  rcases h with h | h
  · exact .inl h
  · exact .inr ⟨h.1.1, h.1.2, hne h.2⟩

/-- What is plain is no capital. -/
theorem lowercaseChar_of_isPlain (h : isPlain c = true) : lowercaseChar c = [c] := by
  have hbounds := toNat_of_isPlain h
  obtain ⟨rest, hruns, hforeign⟩ := capitalRuns_eq
  have hnone : capitalRuns.find? (·.spans c.toNat) = none := by
    rw [hruns, List.find?_eq_none]
    intro run hrun hspans
    simp only [CapitalRun.spans, Bool.and_eq_true, decide_eq_true_eq] at hspans
    rcases List.mem_cons.1 hrun with rfl | hrun
    · simp only at hspans
      omega
    · have := (hforeign run hrun).1
      omega
  have hdotted : c ≠ 'İ' := by
    rintro rfl
    cases h
  rw [lowercaseChar, if_neg hdotted, hnone]

theorem lowercaseChar_of_capital (h : 0x41 ≤ c.toNat ∧ c.toNat ≤ 0x5A) :
    lowercaseChar c = [c.toLower] := by
  obtain ⟨rest, hruns, -⟩ := capitalRuns_eq
  have hfirst : capitalRuns.find? (·.spans c.toNat) = some ⟨0x41, 0x5A, 1, 0x61⟩ := by
    rw [hruns]
    exact List.find?_cons_of_pos (by simp [CapitalRun.spans, h, Nat.mod_one])
  have hdotted : c ≠ 'İ' := by
    rintro rfl
    revert h
    decide
  have hsmall : Char.ofNat (0x61 + (c.toNat - 0x41)) = c.toLower := by
    rw [← Char.ofNat_toNat c.toLower, toNat_toLower, if_pos h]
    congr 1
    omega
  rw [lowercaseChar, if_neg hdotted, hfirst]
  exact congrArg (fun small => [small]) hsmall

theorem toNat_ofNat_of_not_valid {n : Nat} (h : ¬ n.isValidChar) : (Char.ofNat n).toNat = 0 := by
  unfold Char.ofNat
  rw [dif_neg h]
  rfl

/-- The small form of a capital from outside of ASCII is not plain. -/
theorem not_isPlain_image {run : CapitalRun} {n : Nat} (hforeign : run.Foreign)
    (hspans : run.spans n = true) : isPlain (Char.ofNat (run.image n)) = false := by
  simp only [CapitalRun.spans, Bool.and_eq_true, decide_eq_true_eq] at hspans
  rw [← Bool.not_eq_true]
  intro hplain
  have hbounds := toNat_of_isPlain hplain
  by_cases hvalid : (run.image n).isValidChar
  · have hvalue : (Char.ofNat (run.image n)).toNat = run.image n := Utf8.toNat_ofNat_of_valid hvalid
    rw [hvalue] at hbounds
    unfold CapitalRun.image at hbounds
    rcases hforeign.2 with hsmall | ⟨hfirst, hlast, hsmall⟩ <;> omega
  · rw [toNat_ofNat_of_not_valid hvalid] at hbounds
    omega

/-- **What is plain is the small form of itself and of its ASCII capital alone.** -/
theorem lowercaseChar_eq_iff (hd : isPlain d = true) : lowercaseChar c = [d] ↔ c.toLower = d := by
  have hbounds := toNat_of_isPlain hd
  constructor
  · intro h
    by_cases hcapital : 0x41 ≤ c.toNat ∧ c.toNat ≤ 0x5A
    · rw [lowercaseChar_of_capital hcapital] at h
      exact List.singleton_inj.1 h
    · have hsame : c.toLower = c := Char.toNat_inj.1 (by rw [toNat_toLower, if_neg hcapital])
      rw [hsame]
      unfold lowercaseChar at h
      split at h
      · cases h
      · split at h
        · next run hrun =>
          obtain ⟨rest, hruns, hforeign⟩ := capitalRuns_eq
          have hspans := List.find?_some hrun
          have hmem := List.mem_of_find?_eq_some hrun
          rw [hruns] at hmem
          rcases List.mem_cons.1 hmem with rfl | hmem
          · simp only [CapitalRun.spans, Bool.and_eq_true, decide_eq_true_eq] at hspans
            exact absurd hspans.1 hcapital
          · have himage := not_isPlain_image (hforeign run hmem) hspans
            rw [List.singleton_inj.1 h, hd] at himage
            cases himage
        · exact List.singleton_inj.1 h
  · rintro rfl
    by_cases hcapital : 0x41 ≤ c.toNat ∧ c.toNat ≤ 0x5A
    · exact lowercaseChar_of_capital hcapital
    · have hsame : c.toLower = c := Char.toNat_inj.1 (by rw [toNat_toLower, if_neg hcapital])
      rw [hsame] at hd ⊢
      exact lowercaseChar_of_isPlain hd

/-! ### Texts in lower case -/

/-- Lower case with a capital sigma in its final form wherever `final` says so, by what stands
before it, nearest first, and behind it. -/
def lowercaseIn (final : List Char → List Char → Bool) (before : List Char) :
    List Char → List Char
  | [] => []
  | c :: rest =>
    (if c = 'Σ' ∧ final before rest = true then ['ς'] else lowercaseChar c) ++
      lowercaseIn final (c :: before) rest

theorem lowercaseIn_never (before s : List Char) :
    lowercaseIn (fun _ _ => false) before s = lowercase s := by
  induction s generalizing before with
  | nil => rfl
  | cons c rest ih => simp [lowercaseIn, ih]

/-- A small form is one character, or the two of which the second is a combining dot. -/
theorem lowercaseChar_cases (c : Char) :
    lowercaseChar c = ['i', '\u0307'] ∨ ∃ d, lowercaseChar c = [d] := by
  unfold lowercaseChar
  split
  · exact .inl rfl
  · split
    · exact .inr ⟨_, rfl⟩
    · exact .inr ⟨_, rfl⟩

/-- **Plain text is the lower case of itself in either ASCII case**, and of nothing else. -/
theorem lowercaseIn_eq_iff (final : List Char → List Char → Bool) (before : List Char)
    (hw : ∀ c ∈ w, isPlain c = true) :
    lowercaseIn final before s = w ↔ s.map Char.toLower = w := by
  induction s generalizing before w with
  | nil => exact Iff.rfl
  | cons c rest ih =>
    have hsigma (d : Char) (hd : isPlain d = true) (h : c.toLower = d) : c ≠ 'Σ' := by
      rintro rfl
      subst h
      cases hd
    rw [lowercaseIn, List.map_cons]
    constructor
    · intro h
      split at h
      · subst h
        exact absurd (hw 'ς' List.mem_cons_self) (by decide)
      · rcases lowercaseChar_cases c with hdotted | ⟨d, hsmall⟩
        · rw [hdotted] at h
          subst h
          exact absurd (hw '\u0307' (List.mem_cons_of_mem _ List.mem_cons_self)) (by decide)
        · rw [hsmall] at h
          subst h
          have hd := hw d List.mem_cons_self
          rw [(lowercaseChar_eq_iff hd).1 hsmall,
            (ih (c :: before) fun c hc => hw c (List.mem_cons_of_mem _ hc)).1 rfl]
          rfl
    · intro h
      subst h
      have hd := hw c.toLower List.mem_cons_self
      rw [if_neg fun hfinal => hsigma _ hd rfl hfinal.1, (lowercaseChar_eq_iff hd).2 rfl,
        (ih (c :: before) fun c hc => hw c (List.mem_cons_of_mem _ hc)).2 rfl]
      rfl

/-! ### Words between blanks -/

/-- A text that spells a word: the word between blanks, each of its letters in either ASCII case. -/
def Spells (text word : String) : Prop :=
  ∃ before written after, text.toList = before ++ written ++ after ∧
    (∀ c ∈ before, isBlank c = true) ∧ (∀ c ∈ after, isBlank c = true) ∧
    written.map Char.toLower = word.toList

theorem isBlank_of_isPlain (h : isPlain c.toLower = true) : isBlank c = false := by
  have hbounds := toNat_of_isPlain h
  rw [toNat_toLower] at hbounds
  simp [isBlank, inRanges, blankRanges]
  split at hbounds <;> omega

theorem spells_iff {text word : String} (hne : word ≠ "")
    (hplain : ∀ c ∈ word.toList, isPlain c = true) :
    Spells text word ↔ (trim text.toList).map Char.toLower = word.toList := by
  constructor
  · rintro ⟨before, written, after, htext, hbefore, hafter, hwritten⟩
    have hfilled (c : Char) (hc : c ∈ written) : isBlank c = false :=
      isBlank_of_isPlain (hplain _ (hwritten ▸ List.mem_map_of_mem hc))
    have hsome : written ≠ [] := by
      rintro rfl
      exact hne (String.toList_inj.1 hwritten.symm)
    rw [htext, trim_append hbefore hafter (fun c hc => hfilled c (List.mem_of_mem_head? hc))
      (fun c hc => hfilled c (List.mem_of_mem_getLast? hc)) hsome]
    exact hwritten
  · intro h
    obtain ⟨before, after, htext, hbefore, hafter⟩ := trim_spec text.toList
    exact ⟨before, _, after, htext, hbefore, hafter, h⟩

/-! ### Settings -/

/-- What makes spellings fit to be read: every value is tried, words are plain and not empty, and
no word is listed for two values. -/
structure Vocabulary (values : List α) (spellings : α → List String) : Prop where
  tried (v : α) : v ∈ values
  filled (v : α) : ∀ word ∈ spellings v, word ≠ ""
  plain (v : α) : ∀ word ∈ spellings v, word.toList.all isPlain = true
  unique (v v' : α) : ∀ word ∈ spellings v, word ∈ spellings v' → v = v'

/-- The first of `values` that lists the text among its spellings, where capital sigmas are
lowered as `final` says. -/
def ofSpellingIn? (final : List Char → List Char → Bool) (values : List α)
    (spellings : α → List String) (s : String) : Option α :=
  values.find? fun value =>
    ((spellings value).map String.toList).contains (lowercaseIn final [] (trim s.toList))

/-- A reader that goes by spellings alone. -/
structure ReadsSpellings (values : List α) (spellings : α → List String)
    (parse? : String → Option α) : Prop where
  reads (s : String) (v : α) : parse? s = some v ↔ ∃ word ∈ spellings v, Spells s word
  refuses (s : String) : parse? s = none ↔ ∀ v, ∀ word ∈ spellings v, ¬ Spells s word
  /-- Nothing from outside of ASCII is read, but for outer blanks. -/
  ascii (s : String) (c : Char) (inside : c ∈ trim s.toList) (foreign : 0x80 ≤ c.toNat) :
    parse? s = none
  /-- Nothing with an inner blank is read. -/
  unbroken (s : String) (c : Char) (inside : c ∈ trim s.toList) (blank : isBlank c = true) :
    parse? s = none
  /-- Neither ASCII case nor outer blanks matter. -/
  caseless (s t : String)
    (same : (trim s.toList).map Char.toLower = (trim t.toList).map Char.toLower) :
    parse? s = parse? t
  /-- It does not matter in which of its two small forms a capital sigma is lowered. -/
  sigma (final : List Char → List Char → Bool) (s : String) :
    ofSpellingIn? final values spellings s = parse? s

namespace Vocabulary

variable {values : List α} {spellings : α → List String} {text : String} {v : α}
  {final : List Char → List Char → Bool}

theorem spells_iff_of_mem (h : Vocabulary values spellings) {word : String}
    (hword : word ∈ spellings v) :
    Spells text word ↔ (trim text.toList).map Char.toLower = word.toList :=
  spells_iff (h.filled v word hword) (List.all_eq_true.1 (h.plain v word hword))

theorem contains_iff (h : Vocabulary values spellings) (v : α) :
    ((spellings v).map String.toList).contains (lowercaseIn final [] (trim text.toList)) = true ↔
      ∃ word ∈ spellings v, Spells text word := by
  rw [List.contains_iff_mem, List.mem_map]
  refine exists_congr fun word => and_congr_right fun hword => ?_
  rw [h.spells_iff_of_mem hword, eq_comm,
    lowercaseIn_eq_iff final [] (List.all_eq_true.1 (h.plain v word hword))]

theorem ofSpellingIn?_eq_some_iff (h : Vocabulary values spellings) :
    ofSpellingIn? final values spellings text = some v ↔
      ∃ word ∈ spellings v, Spells text word := by
  have sound {v : α} (hfound : ofSpellingIn? final values spellings text = some v) :
      ∃ word ∈ spellings v, Spells text word := by
    unfold ofSpellingIn? at hfound
    have hlists := List.find?_some hfound
    exact (h.contains_iff v).1 hlists
  constructor
  · exact sound
  · rintro ⟨word, hword, hspells⟩
    have hsome : ofSpellingIn? final values spellings text ≠ none := fun hnone =>
      List.find?_eq_none.1 hnone v (h.tried v) ((h.contains_iff v).2 ⟨word, hword, hspells⟩)
    obtain ⟨v', hfound⟩ := Option.ne_none_iff_exists'.1 hsome
    -- The value found lists the text too, and so the very word that `v` lists.
    obtain ⟨word', hword', hspells'⟩ := sound hfound
    rw [h.spells_iff_of_mem hword] at hspells
    rw [h.spells_iff_of_mem hword', hspells] at hspells'
    obtain rfl := String.toList_inj.1 hspells'
    rw [hfound, h.unique v v' word hword hword']

theorem ofSpelling?_eq_some_iff (h : Vocabulary values spellings) :
    ofSpelling? values spellings text = some v ↔ ∃ word ∈ spellings v, Spells text word := by
  have hnever : ofSpelling? values spellings text =
      ofSpellingIn? (fun _ _ => false) values spellings text := by
    simp only [ofSpelling?, ofSpellingIn?, keyword, lowercaseIn_never]
  rw [hnever, h.ofSpellingIn?_eq_some_iff]

theorem ofSpelling?_eq_none_iff (h : Vocabulary values spellings) :
    ofSpelling? values spellings text = none ↔ ∀ v, ∀ word ∈ spellings v, ¬ Spells text word := by
  rw [Option.eq_none_iff_forall_ne_some]
  refine forall_congr' fun v => ?_
  rw [ne_eq, h.ofSpelling?_eq_some_iff]
  simp only [not_exists, not_and]

theorem isPlain_of_spells (h : Vocabulary values spellings) {word : String} {c : Char}
    (hword : word ∈ spellings v) (hspells : Spells text word) (hc : c ∈ trim text.toList) :
    isPlain c.toLower = true := by
  rw [h.spells_iff_of_mem hword] at hspells
  exact List.all_eq_true.1 (h.plain v word hword) c.toLower (hspells ▸ List.mem_map_of_mem hc)

theorem readsSpellings (h : Vocabulary values spellings) :
    ReadsSpellings values spellings (ofSpelling? values spellings) where
  reads _ _ := h.ofSpelling?_eq_some_iff
  refuses _ := h.ofSpelling?_eq_none_iff
  ascii s c inside foreign := by
    rw [h.ofSpelling?_eq_none_iff]
    intro v word hword hspells
    have hbounds := toNat_of_isPlain (h.isPlain_of_spells hword hspells inside)
    rw [toNat_toLower] at hbounds
    split at hbounds <;> omega
  unbroken s c inside blank := by
    rw [h.ofSpelling?_eq_none_iff]
    intro v word hword hspells
    rw [isBlank_of_isPlain (h.isPlain_of_spells hword hspells inside)] at blank
    cases blank
  caseless s t same := by
    ext v
    rw [h.ofSpelling?_eq_some_iff, h.ofSpelling?_eq_some_iff]
    refine exists_congr fun word => and_congr_right fun hword => ?_
    rw [h.spells_iff_of_mem hword, h.spells_iff_of_mem hword, same]
  sigma final s := by
    ext v
    rw [h.ofSpellingIn?_eq_some_iff, h.ofSpelling?_eq_some_iff]

end Vocabulary

theorem vocabulary_levels : Vocabulary Level.all Level.spellings where
  tried := Level.mem_all
  filled v := by cases v <;> decide
  plain v := by cases v <;> decide
  unique v v' := by cases v <;> cases v' <;> decide

theorem vocabulary_formats : Vocabulary Format.all Format.spellings where
  tried := Format.mem_all
  filled v := by cases v <;> decide
  plain v := by cases v <;> decide
  unique v v' := by cases v <;> cases v' <;> decide

theorem vocabulary_policies : Vocabulary Policy.all Policy.spellings where
  tried := Policy.mem_all
  filled v := by cases v <;> decide
  plain v := by cases v <;> decide
  unique v v' := by cases v <;> cases v' <;> decide

/-! ### The words -/

/-- A setting is read from these words and from no others. -/
def ReadsWords (parse? : String → Option α) (words : List (String × α)) : Prop :=
  ∀ s v, parse? s = some v ↔ ∃ word, (word, v) ∈ words ∧ Spells s word

theorem Vocabulary.readsWords {values : List α} {spellings : α → List String}
    (h : Vocabulary values spellings) {words : List (String × α)}
    (hwords : ∀ v word, word ∈ spellings v ↔ (word, v) ∈ words) :
    ReadsWords (ofSpelling? values spellings) words := fun s v => by
  rw [h.ofSpelling?_eq_some_iff]
  exact exists_congr fun word => and_congr_left' (hwords v word)

/-- How the three settings are read. -/
structure ReadsSettings : Prop where
  levels : ReadsSpellings Level.all Level.spellings Level.parse?
  formats : ReadsSpellings Format.all Format.spellings Format.parse?
  policies : ReadsSpellings Policy.all Policy.spellings Policy.parse?
  levelWords : ReadsWords Level.parse?
    [("trace", .trace), ("5", .trace), ("debug", .debug), ("4", .debug), ("info", .info),
      ("3", .info), ("warn", .warn), ("warning", .warn), ("2", .warn), ("error", .error),
      ("err", .error), ("1", .error), ("off", .off), ("none", .off), ("0", .off)]
  formatWords : ReadsWords Format.parse? [("plain", .plain), ("text", .plain), ("json", .json)]
  policyWords : ReadsWords Policy.parse?
    [("abort", .abort), ("panic", .panic), ("unwind", .panic)]

/-- **The settings are read by their spellings**, between blanks and in either ASCII case. -/
theorem readsSettings : ReadsSettings where
  levels := vocabulary_levels.readsSpellings
  formats := vocabulary_formats.readsSpellings
  policies := vocabulary_policies.readsSpellings
  levelWords := vocabulary_levels.readsWords fun v word => by cases v <;> simp [Level.spellings]
  formatWords := vocabulary_formats.readsWords fun v word => by cases v <;> simp [Format.spellings]
  policyWords := vocabulary_policies.readsWords fun v word => by cases v <;> simp [Policy.spellings]

example : Level.parse? "\u00A0 WaRning\u3000" = some .warn := by decide +kernel

example : Level.parse? "İnfo" = none := by decide +kernel

end Text
end Custody
