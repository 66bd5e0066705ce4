import Mathlib.Data.List.TakeWhile
import Custody.Proofs.Coherence
import Custody.Proofs.Encoding
import Custody.Proofs.Quoting

/-! What is read from the environment.

Each setting depends on its own variable alone: the value that its text means, or the default where
there is none, the bytes are not a text, or the text means nothing. Only the last case is told of,
with the text in quotes, from which it can be read back. -/
namespace Custody

namespace Text

variable {s t before after : List Char} {c : Char} {n : Nat}

/-! ### Numbers -/

/-- A natural number in base ten: at most one plus sign, then one ASCII digit or more. -/
def Numeric (s : List Char) (n : Nat) : Prop :=
  ∃ sign digits, s = sign ++ digits ∧ (sign = [] ∨ sign = ['+']) ∧ digits ≠ [] ∧
    (∀ c ∈ digits, c.isDigit = true) ∧ Nat.ofDigitChars 10 digits 0 = n

theorem digitValue?_eq (c : Char) :
    digitValue? c = if c.isDigit = true then some (c.toNat - '0'.toNat) else none := by
  unfold digitValue?
  refine if_congr ?_ rfl rfl
  simp [Char.isDigit, Char.le_def]

theorem readDigits?_eq_some_iff {high : Nat} :
    readDigits? high s = some n ↔
      (∀ c ∈ s, c.isDigit = true) ∧ Nat.ofDigitChars 10 s high = n := by
  induction s generalizing high with
  | nil => simp [readDigits?, Nat.ofDigitChars]
  | cons c rest ih =>
    rw [readDigits?, digitValue?_eq]
    split
    · next hdigit =>
      rw [Option.bind_some, ih, List.forall_mem_cons, and_iff_right hdigit]
      rfl
    · next hdigit => simp [hdigit]

theorem natural?_plus (digits : List Char) :
    natural? ('+' :: digits) = if digits = [] then none else readDigits? 0 digits := by
  cases digits <;> rfl

theorem natural?_of_unsigned (h : s.head? ≠ some '+') :
    natural? s = if s = [] then none else readDigits? 0 s := by
  unfold natural?
  rw [if_neg h]
  cases s <;> rfl

theorem natural?_eq_some_iff : natural? s = some n ↔ Numeric s n := by
  have hread (digits : List Char) : (if digits = [] then none else readDigits? 0 digits) = some n ↔
      digits ≠ [] ∧ (∀ c ∈ digits, c.isDigit = true) ∧ Nat.ofDigitChars 10 digits 0 = n := by
    split
    · next h => simp [h]
    · next h => rw [readDigits?_eq_some_iff, and_iff_right h]
  constructor
  · intro h
    by_cases hsigned : s.head? = some '+'
    · obtain ⟨digits, rfl⟩ := List.head?_eq_some_iff.1 hsigned
      rw [natural?_plus, hread] at h
      exact ⟨['+'], digits, rfl, .inr rfl, h⟩
    · rw [natural?_of_unsigned hsigned, hread] at h
      exact ⟨[], s, rfl, .inl rfl, h⟩
  · rintro ⟨sign, digits, rfl, rfl | rfl, h⟩
    · have hunsigned : digits.head? ≠ some '+' := fun hhead => by
        have hplus := h.2.1 '+' (List.mem_of_mem_head? hhead)
        cases hplus
      rw [List.nil_append, natural?_of_unsigned hunsigned, hread]
      exact h
    · rw [List.singleton_append, natural?_plus, hread]
      exact h

/-! ### Blanks -/

theorem dropWhile_isBlank (s : List Char) :
    ∃ before, s = before ++ s.dropWhile isBlank ∧ ∀ c ∈ before, isBlank c = true :=
  ⟨s.takeWhile isBlank, (List.takeWhile_append_dropWhile ..).symm,
    fun _ hc => List.mem_takeWhile_imp hc⟩

/-- Trimming takes blanks off, from both ends and as many as there are. -/
theorem trim_spec (s : List Char) :
    ∃ before after, s = before ++ trim s ++ after ∧ (∀ c ∈ before, isBlank c = true) ∧
      (∀ c ∈ after, isBlank c = true) := by
  obtain ⟨before, hbefore, hblank⟩ := dropWhile_isBlank s
  obtain ⟨after, hafter, hblank'⟩ := dropWhile_isBlank (s.dropWhile isBlank).reverse
  refine ⟨before, after.reverse, ?_, hblank, fun c hc => hblank' c (List.mem_reverse.1 hc)⟩
  have hrest : s.dropWhile isBlank = trim s ++ after.reverse := by
    rw [trim, ← List.reverse_append, ← hafter, List.reverse_reverse]
  rw [List.append_assoc, ← hrest]
  exact hbefore

theorem dropWhile_of_head {p : Char → Bool} (h : ∀ c, t.head? = some c → p c = false) :
    t.dropWhile p = t := by
  cases t with
  | nil => rfl
  | cons c rest => rw [List.dropWhile_cons_of_neg (by simp [h c rfl])]

/-- A text between blanks that neither begins nor ends with one. -/
theorem trim_append (hbefore : ∀ c ∈ before, isBlank c = true)
    (hafter : ∀ c ∈ after, isBlank c = true) (hhead : ∀ c, t.head? = some c → isBlank c = false)
    (hlast : ∀ c, t.getLast? = some c → isBlank c = false) (hne : t ≠ []) :
    trim (before ++ t ++ after) = t := by
  have hfront : (t ++ after).dropWhile isBlank = t ++ after := by
    refine dropWhile_of_head fun c hc => hhead c ?_
    rwa [List.head?_append_of_ne_nil t hne] at hc
  have hback : t.reverse.dropWhile isBlank = t.reverse :=
    dropWhile_of_head fun c hc => hlast c (by rwa [List.head?_reverse] at hc)
  rw [trim, List.append_assoc, List.dropWhile_append_of_pos hbefore, hfront, List.reverse_append,
    List.dropWhile_append_of_pos fun c hc => hafter c (List.mem_reverse.1 hc), hback,
    List.reverse_reverse]

theorem isBlank_of_isDigit (h : c.isDigit = true) : isBlank c = false := by
  have hbounds : 48 ≤ c.toNat ∧ c.toNat ≤ 57 := by
    simpa [Char.isDigit, UInt32.le_iff_toNat_le] using h
  simp [isBlank, inRanges, blankRanges]
  omega

/-- **A number of 64 bits**, with blanks around it. -/
theorem word?_eq_some_iff {raw : String} {w : UInt64} :
    word? raw = some w ↔ ∃ before numeral after, raw.toList = before ++ numeral ++ after ∧
      (∀ c ∈ before, isBlank c = true) ∧ (∀ c ∈ after, isBlank c = true) ∧
      Numeric numeral w.toNat := by
  unfold word?
  constructor
  · intro h
    obtain ⟨n, hn, h⟩ := Option.bind_eq_some_iff.1 h
    split at h
    · next hlt =>
      cases h
      obtain ⟨before, after, hraw, hbefore, hafter⟩ := trim_spec raw.toList
      have hn' : (UInt64.ofNat n).toNat = n := UInt64.toNat_ofNat_of_lt' hlt
      rw [hn']
      exact ⟨before, _, after, hraw, hbefore, hafter, natural?_eq_some_iff.1 hn⟩
    · cases h
  · rintro ⟨before, numeral, after, hraw, hbefore, hafter, hnumeral⟩
    have htrim : trim raw.toList = numeral := by
      obtain ⟨sign, digits, rfl, hsign, hne, hdigits, -⟩ := hnumeral
      rw [hraw]
      refine trim_append hbefore hafter (fun c hc => ?_) (fun c hc => ?_) (by simp [hne])
      · rcases hsign with rfl | rfl
        · exact isBlank_of_isDigit (hdigits c (List.mem_of_mem_head? hc))
        · cases hc
          decide
      · rw [List.getLast?_append_of_ne_nil sign hne] at hc
        exact isBlank_of_isDigit (hdigits c (List.mem_of_mem_getLast? hc))
    rw [htrim, natural?_eq_some_iff.2 hnumeral, Option.bind_some, if_pos w.toNat_lt,
      UInt64.ofNat_toNat]

end Text

/-! ### Variables -/

namespace Environment

variable {α : Type} {env : Environment} {name raw : String}

/-- A variable has a text if it is set to the bytes of that text, and no text otherwise. -/
theorem text?_eq_some_iff :
    env.text? name = some raw ↔ env.lookup name = some (Text.Utf8.encode raw) := by
  unfold text?
  rw [Option.bind_eq_some_iff]
  constructor
  · rintro ⟨bytes, hbytes, hraw⟩
    rw [hbytes, Text.Utf8.decode?_eq_some_iff.1 hraw]
  · exact fun h => ⟨_, h, Text.Utf8.decode?_eq_some_iff.2 rfl⟩

/-- What the text of a variable means. -/
def value? (env : Environment) (name : String) (parse? : String → Option α) : Option α :=
  (env.text? name).bind parse?

/-- The text of a variable that means nothing. -/
def rejected? (env : Environment) (name : String) (parse? : String → Option α) : Option String :=
  (env.text? name).filter fun raw => (parse? raw).isNone

/-- A text in quotes, as it stands in a warning. -/
def unrecognized (name raw : String) : ConfigurationError :=
  .unparsableVariable name ("unrecognized value " ++ Text.quoted raw ++ ", using default")

theorem setting?_find (parse? : String → Option α) (f : α → Setting) :
    (env.find name fun s => (parse? s).map f).setting? = (env.value? name parse?).map f := by
  unfold find value?
  cases env.text? name with
  | none => rfl
  | some raw =>
    dsimp only [Option.bind_some]
    cases parse? raw <;> rfl

theorem warning?_find (parse? : String → Option α) (f : α → Setting) :
    (env.find name fun s => (parse? s).map f).warning? =
      (env.rejected? name parse?).map (unrecognized name) := by
  unfold find rejected?
  cases env.text? name with
  | none => rfl
  | some raw =>
    dsimp only [Option.filter_some]
    cases parse? raw <;> rfl

/-- The variables whose texts mean nothing, in the order in which they are read. -/
def rejections (env : Environment) : List (String × String) :=
  (env.rejected? "RCBOX_MAX_HEAP_SIZE" Text.word?).toList.map ("RCBOX_MAX_HEAP_SIZE", ·) ++
    (env.rejected? "RCBOX_FATAL_POLICY" Policy.parse?).toList.map ("RCBOX_FATAL_POLICY", ·) ++
    (env.rejected? "RCBOX_LOG_LEVEL" Log.Level.parse?).toList.map ("RCBOX_LOG_LEVEL", ·) ++
    (env.rejected? "RCBOX_LOG_FORMAT" Log.Format.parse?).toList.map ("RCBOX_LOG_FORMAT", ·)

/-- **Each setting depends on its own variable.** -/
theorem configuration_eq (env : Environment) : env.configuration =
    { maxHeapSize := (env.value? "RCBOX_MAX_HEAP_SIZE" Text.word?).getD 0
      policy := (env.value? "RCBOX_FATAL_POLICY" Policy.parse?).getD .abort
      level := (env.value? "RCBOX_LOG_LEVEL" Log.Level.parse?).getD .warn
      format := (env.value? "RCBOX_LOG_FORMAT" Log.Format.parse?).getD .plain } := by
  unfold configuration findings settingReaders
  simp only [List.map_cons, List.map_nil, List.filterMap_cons, List.filterMap_nil, setting?_find]
  cases env.value? "RCBOX_MAX_HEAP_SIZE" Text.word? <;>
    cases env.value? "RCBOX_FATAL_POLICY" Policy.parse? <;>
    cases env.value? "RCBOX_LOG_LEVEL" Log.Level.parse? <;>
    cases env.value? "RCBOX_LOG_FORMAT" Log.Format.parse? <;> rfl

theorem warnings_eq (env : Environment) :
    env.warnings = env.rejections.map fun (name, raw) => unrecognized name raw := by
  unfold warnings findings settingReaders rejections
  simp only [List.map_cons, List.map_nil, List.filterMap_cons, List.filterMap_nil, warning?_find]
  cases env.rejected? "RCBOX_MAX_HEAP_SIZE" Text.word? <;>
    cases env.rejected? "RCBOX_FATAL_POLICY" Policy.parse? <;>
    cases env.rejected? "RCBOX_LOG_LEVEL" Log.Level.parse? <;>
    cases env.rejected? "RCBOX_LOG_FORMAT" Log.Format.parse? <;> rfl

/-! ### Warnings -/

/-- The log entry that tells of a text that means nothing. -/
def warning (name raw : String) : Log.Entry :=
  ⟨.warn, (unrecognized name raw).message, none, [], 0⟩

/-- The text that a message has in quotes. -/
def recovered? (message : String) : Option String :=
  (Text.unquote? (message.toList.dropWhile (· ≠ '"'))).map (String.ofList ·.1)

/-- What stands before the quoted text. -/
def opening (name : String) : String :=
  "failed to parse environment variable '" ++ name ++ "': " ++ "unrecognized value "

theorem message_unrecognized (name raw : String) : (unrecognized name raw).message =
    opening name ++ (Text.quoted raw ++ ", using default") := by
  unfold unrecognized ConfigurationError.message opening
  simp only [String.append_assoc]

/-- The text is read back, unless the name of the variable has a quote. -/
theorem recovered?_warning (h : '"' ∉ name.toList) (raw : String) :
    recovered? (warning name raw).message = some raw := by
  have hopening : ∀ c ∈ (opening name).toList, (decide (c ≠ '"')) = true := by
    have hbefore : '"' ∉ "failed to parse environment variable '".toList := by decide +kernel
    have hbehind : '"' ∉ "': ".toList := by decide +kernel
    have hlast : '"' ∉ "unrecognized value ".toList := by decide +kernel
    unfold opening
    rw [String.toList_append, String.toList_append, String.toList_append]
    intro c hc
    refine decide_eq_true fun heq => ?_
    rw [heq, List.mem_append, List.mem_append, List.mem_append] at hc
    exact hc.elim (·.elim (·.elim hbefore h) hbehind) hlast
  have hquoted : (Text.quoted raw ++ ", using default").toList =
      Text.quotedChars raw.toList ++ ", using default".toList := by
    rw [String.toList_append, Text.quoted, String.toList_ofList]
  have hat (r : List Char) : (Text.quotedChars raw.toList ++ r).dropWhile (· ≠ '"') =
      Text.quotedChars raw.toList ++ r := rfl
  unfold recovered? warning
  rw [message_unrecognized, String.toList_append, List.dropWhile_append_of_pos hopening, hquoted,
    hat, Text.unquote?_quotedChars, Option.map_some, String.ofList_toList]

end Environment

namespace Log.Entry

theorem visible_zeroPadded (width : Nat) {numeral : String} (h : Visible numeral) :
    Visible (Text.zeroPadded width numeral) := by
  refine visible_append (fun c hc => ?_) h
  rw [String.toList_ofList] at hc
  rw [List.eq_of_mem_replicate hc]
  rfl

/-- The plain form of an entry without target and fields is one line if the message is. -/
theorem visible_plain {level : Level} {message : String} (h : Visible message)
    (timestamp : UInt64) : Visible (plain ⟨level, message, none, [], timestamp⟩) := by
  have hbracket : Visible "[" ∧ Visible "] " ∧ Visible "." ∧ Visible " " ∧ Visible "" := by decide
  obtain ⟨hopen, hclose, hpoint, hblank, hnone⟩ := hbracket
  have hseconds : Visible (seconds timestamp) :=
    visible_append (visible_append (visible_toString _) hpoint)
      (visible_zeroPadded 3 (visible_toString _))
  have hlevel : Visible (plainLevel level) := by
    cases level <;> decide +kernel
  unfold plain plainTarget plainFields
  exact visible_append (visible_append (visible_append (visible_append (visible_append
    (visible_append (visible_append hopen hseconds) hclose) hlevel) hblank) hnone) h) hnone

end Log.Entry

namespace Environment

open Log.Entry

theorem visible_warning {name : String} (h : Visible name) (raw : String) :
    Visible (warning name raw).message := by
  have hopening : Visible (opening name) := by
    have hbefore : Visible "failed to parse environment variable '" := by decide +kernel
    have hquote : Visible "': " := by decide +kernel
    have hbehind : Visible "unrecognized value " := by decide +kernel
    exact visible_append (visible_append (visible_append hbefore h) hquote) hbehind
  have hclosing : Visible ", using default" := by decide +kernel
  unfold warning
  rw [message_unrecognized]
  exact visible_append hopening (visible_append (Text.visible_quoted raw) hclosing)

theorem mem_rejections {env : Environment} {name raw : String} (h : (name, raw) ∈ env.rejections) :
    name ∈ settingReaders.map (·.1) := by
  unfold rejections at h
  simp only [List.mem_append, List.mem_map, Prod.mk.injEq] at h
  obtain ((⟨_, -, rfl, -⟩ | ⟨_, -, rfl, -⟩) | ⟨_, -, rfl, -⟩) | ⟨_, -, rfl, -⟩ := h <;>
    simp [settingReaders]

/-- No variable has a name that could be taken for part of a quoted text, or that breaks a line. -/
theorem names_clean : ∀ name ∈ settingReaders.map (·.1), '"' ∉ name.toList ∧ Visible name := by
  decide +kernel

end Environment

/-! ### Reading -/

namespace State

open Environment

/-- What is written of the texts that mean nothing, the latest first: a line for each of them,
unless the logger is off or lets nothing but errors through. -/
def rejectionLines (s : State) : List Log.Line :=
  if s.logger.level = .off ∨ s.logger.level = .error then []
  else (s.environment.rejections.map fun (name, raw) =>
    Log.Line.mk s.logger.format (warning name raw)).reverse

theorem warningLines_eq (s : State) : s.warningLines = s.rejectionLines := by
  unfold warningLines rejectionLines
  rw [warnings_eq, List.map_map]
  rfl

/-- What reading the environment makes of it. -/
structure ReadsVariables (s : State) : Prop where
  /-- What is not set and what is not the bytes of a text has no text. -/
  text (name raw : String) : s.environment.text? name = some raw ↔
    s.environment.lookup name = some (Text.Utf8.encode raw)
  configuration : s.readEnvironment.1 =
    { maxHeapSize := (s.environment.value? "RCBOX_MAX_HEAP_SIZE" Text.word?).getD 0
      policy := (s.environment.value? "RCBOX_FATAL_POLICY" Policy.parse?).getD .abort
      level := (s.environment.value? "RCBOX_LOG_LEVEL" Log.Level.parse?).getD .warn
      format := (s.environment.value? "RCBOX_LOG_FORMAT" Log.Format.parse?).getD .plain }
  /-- A heap limit is a number of 64 bits, in or out of the range that is valid. -/
  limit (raw : String) (bytes : UInt64) : Text.word? raw = some bytes ↔
    ∃ before numeral after, raw.toList = before ++ numeral ++ after ∧
      (∀ c ∈ before, Text.isBlank c = true) ∧ (∀ c ∈ after, Text.isBlank c = true) ∧
      Text.Numeric numeral bytes.toNat
  /-- One line is written for each text that means nothing, and nothing else happens. -/
  warns : ∃ l, s.logger.Wrote s.rejectionLines l ∧ s.readEnvironment.2 = {s with logger := l}
  /-- Each of them is one line, whenever it is written. -/
  visible (name raw : String) (told : (name, raw) ∈ s.environment.rejections)
    (timestamp : UInt64) :
    Log.Entry.Visible {warning name raw with timestamp}.plain ∧
      Log.Entry.Visible {warning name raw with timestamp}.json
  /-- The text can be read back from it. -/
  recovers (name raw : String) (told : (name, raw) ∈ s.environment.rejections) :
    (warning name raw).message = opening name ++ (Text.quoted raw ++ ", using default") ∧
      recovered? (warning name raw).message = some raw

/-- **The environment is read** variable by variable, and what is not understood is told of in
quotes, whatever it holds. -/
theorem readsVariables (s : State) : s.ReadsVariables where
  text _ _ := text?_eq_some_iff
  configuration := by rw [readEnvironment_eq, configuration_eq]
  limit _ _ := Text.word?_eq_some_iff
  warns := ⟨s.warned, s.warningLines_eq ▸ s.wrote_warned, by rw [readEnvironment_eq]⟩
  visible name raw told timestamp := by
    have hname := (names_clean name (mem_rejections told)).2
    exact ⟨Log.Entry.visible_plain (visible_warning hname raw) timestamp,
      Log.Entry.visible_json {warning name raw with timestamp}⟩
  recovers name raw told :=
    ⟨message_unrecognized name raw,
      recovered?_warning (names_clean name (mem_rejections told)).1 raw⟩

/-- A level with a line feed and a quote in it. -/
example : (State.readEnvironment
    {environment := [("RCBOX_LOG_LEVEL", [0x6C, 0x0A, 0x22])]}).2.logger.errorLines.map
      Log.Line.text =
    ["[0.000] WARN  failed to parse environment variable 'RCBOX_LOG_LEVEL': " ++
      "unrecognized value \"l\\n\\\"\", using default"] := by
  decide +kernel

end State
end Custody
