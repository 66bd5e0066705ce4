import Custody.Text.Utf8

/-! Strict reading is the inverse of encoding.

A character is encoded in one byte to four, and the leading byte announces how many follow and
what the first of them may be. So the reader takes the character back off (`head_encoded`). It
takes off nothing else: whatever it reads as a character is the encoding of that character
(`encoded_of_head`), since overlong forms and surrogates are out of its bounds. -/
namespace Custody.Text.Utf8

/-- The bytes of a text. -/
def encode (s : String) : List UInt8 :=
  s.toList.flatMap String.utf8EncodeChar

theorem encode_eq (s : String) : encode s = s.toUTF8.data.toList := by
  rw [String.toUTF8_eq_toByteArray, ← String.utf8Encode_toList]
  simp [encode, List.utf8Encode]

variable {b low high : UInt8} {rest r : List UInt8} {c : Char} {bits k n v : Nat}

/-! ### The bytes of one character -/

theorem toNat_ofNat_of_lt (h : v < 256) : (UInt8.ofNat v).toNat = v := by
  simpa using h

/-- The byte that carries six bits of a character begun before it. -/
def tail (k : Nat) : UInt8 :=
  .ofNat (k + 128)

theorem toNat_tail (hk : k < 64) : (tail k).toNat = k + 128 :=
  toNat_ofNat_of_lt (by omega)

theorem eq_tail (hlow : 128 ≤ b.toNat) : b = tail (b.toNat - 128) := by
  rw [tail, Nat.sub_add_cancel hlow, UInt8.ofNat_toNat]

theorem toNat_ofNat_of_valid (h : v.isValidChar) : (Char.ofNat v).val.toNat = v := by
  unfold Char.ofNat
  rw [dif_pos h]
  rfl

theorem encode_one (h : v < 0x80) : String.utf8EncodeChar (Char.ofNat v) = [.ofNat v] := by
  have hv : (Char.ofNat v).val.toNat = v := toNat_ofNat_of_valid (.inl (by omega))
  simp only [String.utf8EncodeChar, hv]
  rw [if_pos (by omega)]

theorem encode_two (hle : 0x80 ≤ v) (h : v < 0x800) :
    String.utf8EncodeChar (Char.ofNat v) = [.ofNat (v / 64 + 0xC0), tail (v % 64)] := by
  have hv : (Char.ofNat v).val.toNat = v := toNat_ofNat_of_valid (.inl (by omega))
  have hlead : v / 64 % 32 = v / 64 := by omega
  simp only [String.utf8EncodeChar, hv]
  rw [if_neg (by omega), if_pos (by omega), hlead]
  rfl

theorem encode_three (hle : 0x800 ≤ v) (h : v < 0x10000) (hvalid : v.isValidChar) :
    String.utf8EncodeChar (Char.ofNat v) =
      [.ofNat (v / 4096 + 0xE0), tail (v / 64 % 64), tail (v % 64)] := by
  have hv : (Char.ofNat v).val.toNat = v := toNat_ofNat_of_valid hvalid
  have hlead : v / 4096 % 16 = v / 4096 := by omega
  simp only [String.utf8EncodeChar, hv]
  rw [if_neg (by omega), if_neg (by omega), if_pos (by omega), hlead]
  rfl

theorem encode_four (hle : 0x10000 ≤ v) (h : v < 0x110000) :
    String.utf8EncodeChar (Char.ofNat v) =
      [.ofNat (v / 262144 + 0xF0), tail (v / 4096 % 64), tail (v / 64 % 64), tail (v % 64)] := by
  have hv : (Char.ofNat v).val.toNat = v :=
    toNat_ofNat_of_valid (.inr ⟨by omega, h⟩)
  have hlead : v / 262144 % 8 = v / 262144 := by omega
  simp only [String.utf8EncodeChar, hv]
  rw [if_neg (by omega), if_neg (by omega), if_neg (by omega), hlead]
  rfl

/-! ### What a leading byte announces -/

theorem lead?_eq (b : UInt8) : lead? b =
    if b.toNat < 0x80 then some ⟨0, 0x80, 0xBF, b.toNat⟩
    else if b.toNat < 0xC2 then none
    else if b.toNat < 0xE0 then some ⟨1, 0x80, 0xBF, b.toNat - 0xC0⟩
    else if b.toNat = 0xE0 then some ⟨2, 0xA0, 0xBF, 0⟩
    else if b.toNat = 0xED then some ⟨2, 0x80, 0x9F, 0xD⟩
    else if b.toNat < 0xF0 then some ⟨2, 0x80, 0xBF, b.toNat - 0xE0⟩
    else if b.toNat = 0xF0 then some ⟨3, 0x90, 0xBF, 0⟩
    else if b.toNat < 0xF4 then some ⟨3, 0x80, 0xBF, b.toNat - 0xF0⟩
    else if b.toNat = 0xF4 then some ⟨3, 0x80, 0x8F, 4⟩
    else none := by
  unfold lead?
  simp only [UInt8.lt_iff_toNat_lt, ← UInt8.toNat_inj]
  rfl

theorem lead?_three (hle : 0xE0 ≤ b.toNat) (hlt : b.toNat < 0xF0) :
    lead? b = some ⟨2, if b.toNat = 0xE0 then 0xA0 else 0x80, if b.toNat = 0xED then 0x9F else 0xBF,
      b.toNat - 0xE0⟩ := by
  rw [lead?_eq, if_neg (by omega), if_neg (by omega), if_neg (by omega)]
  by_cases hfirst : b.toNat = 0xE0
  · simp [hfirst]
  · by_cases hsurrogates : b.toNat = 0xED
    · simp [hsurrogates]
    · simp [hfirst, hsurrogates, hlt]

theorem lead?_four (hle : 0xF0 ≤ b.toNat) (hlt : b.toNat < 0xF5) :
    lead? b = some ⟨3, if b.toNat = 0xF0 then 0x90 else 0x80, if b.toNat = 0xF4 then 0x8F else 0xBF,
      b.toNat - 0xF0⟩ := by
  rw [lead?_eq, if_neg (by omega), if_neg (by omega), if_neg (by omega), if_neg (by omega),
    if_neg (by omega), if_neg (by omega)]
  by_cases hfirst : b.toNat = 0xF0
  · simp [hfirst]
  · by_cases hlast : b.toNat = 0xF4
    · simp [hlast]
    · rw [if_neg hfirst, if_pos (by omega), if_neg hfirst, if_neg hlast]

/-- A leading byte that begins a character, by the number of bytes that follow. -/
theorem lead?_cases {l : Lead} (h : lead? b = some l) :
    (b.toNat < 0x80 ∧ l = ⟨0, 0x80, 0xBF, b.toNat⟩) ∨
      (0xC2 ≤ b.toNat ∧ b.toNat < 0xE0 ∧ l = ⟨1, 0x80, 0xBF, b.toNat - 0xC0⟩) ∨
      (0xE0 ≤ b.toNat ∧ b.toNat < 0xF0 ∧ l = ⟨2, if b.toNat = 0xE0 then 0xA0 else 0x80,
        if b.toNat = 0xED then 0x9F else 0xBF, b.toNat - 0xE0⟩) ∨
      (0xF0 ≤ b.toNat ∧ b.toNat < 0xF5 ∧ l = ⟨3, if b.toNat = 0xF0 then 0x90 else 0x80,
        if b.toNat = 0xF4 then 0x8F else 0xBF, b.toNat - 0xF0⟩) := by
  by_cases hone : b.toNat < 0x80
  · rw [lead?_eq, if_pos hone] at h
    exact .inl ⟨hone, (Option.some.inj h).symm⟩
  by_cases hnone : b.toNat < 0xC2
  · rw [lead?_eq, if_neg hone, if_pos hnone] at h
    cases h
  by_cases htwo : b.toNat < 0xE0
  · rw [lead?_eq, if_neg hone, if_neg hnone, if_pos htwo] at h
    exact .inr (.inl ⟨by omega, htwo, (Option.some.inj h).symm⟩)
  by_cases hthree : b.toNat < 0xF0
  · rw [lead?_three (by omega) hthree] at h
    exact .inr (.inr (.inl ⟨by omega, hthree, (Option.some.inj h).symm⟩))
  by_cases hfour : b.toNat < 0xF5
  · rw [lead?_four (by omega) hfour] at h
    exact .inr (.inr (.inr ⟨by omega, hfour, (Option.some.inj h).symm⟩))
  · rw [lead?_eq, if_neg hone, if_neg hnone, if_neg htwo, if_neg (by omega), if_neg (by omega),
      if_neg hthree, if_neg (by omega), if_neg (by omega), if_neg (by omega)] at h
    cases h

/-! ### The bytes that follow -/

theorem follow_first (hlow : low.toNat ≤ k + 128) (hhigh : k + 128 ≤ high.toNat) (hk : k < 64) :
    follow (n + 1) low high bits (tail k :: rest) = follow n 0x80 0xBF (64 * bits + k) rest := by
  rw [follow, if_pos, toNat_tail hk, Nat.add_sub_cancel]
  rw [UInt8.le_iff_toNat_le, UInt8.le_iff_toNat_le, toNat_tail hk]
  exact ⟨hlow, hhigh⟩

theorem follow_tail (hk : k < 64) :
    follow (n + 1) 0x80 0xBF bits (tail k :: rest) = follow n 0x80 0xBF (64 * bits + k) rest :=
  follow_first (Nat.le_add_left 128 k) (by show k + 128 ≤ 191; omega) hk

/-- A character that is not complete yet goes on with a byte within the bounds. -/
theorem of_follow_succ (hlow : 128 ≤ low.toNat) (hhigh : high.toNat < 192)
    (h : follow (n + 1) low high bits rest = (some c, r)) :
    ∃ k more, k < 64 ∧ low.toNat ≤ k + 128 ∧ k + 128 ≤ high.toNat ∧ rest = tail k :: more ∧
      follow n 0x80 0xBF (64 * bits + k) more = (some c, r) := by
  cases rest with
  | nil => cases h
  | cons b more =>
    rw [follow] at h
    split at h
    · next hbounds =>
      rw [UInt8.le_iff_toNat_le, UInt8.le_iff_toNat_le] at hbounds
      obtain ⟨hle, hge⟩ := hbounds
      have hb : 128 ≤ b.toNat := Nat.le_trans hlow hle
      have hsame : b.toNat - 128 + 128 = b.toNat := Nat.sub_add_cancel hb
      exact ⟨b.toNat - 128, more, by omega, by omega, by omega, by rw [← eq_tail hb], h⟩
    · cases h

theorem of_follow_zero (h : follow 0 low high bits rest = (some c, r)) :
    c = Char.ofNat bits ∧ rest = r := by
  cases h
  exact ⟨rfl, rfl⟩

theorem of_follow_tail (h : follow (n + 1) 0x80 0xBF bits rest = (some c, r)) :
    ∃ k more, k < 64 ∧ rest = tail k :: more ∧
      follow n 0x80 0xBF (64 * bits + k) more = (some c, r) := by
  obtain ⟨k, more, hk, -, -, hrest, hfollow⟩ := of_follow_succ (by decide) (by decide) h
  exact ⟨k, more, hk, hrest, hfollow⟩

/-! ### One character -/

theorem head_of_lead {l : Lead} (h : lead? b = some l) :
    head b rest = follow l.following l.low l.high l.bits rest := by
  unfold head
  rw [h]

/-- Reading takes a character back off. -/
theorem head_encoded (c : Char) (r : List UInt8) :
    ∃ b rest, String.utf8EncodeChar c ++ r = b :: rest ∧ head b rest = (some c, r) := by
  obtain ⟨v, hvalid, rfl⟩ : ∃ v : Nat, v.isValidChar ∧ c = Char.ofNat v :=
    ⟨c.toNat, c.valid, (Char.ofNat_toNat c).symm⟩
  have hbound : v < 0x110000 := by rcases hvalid with hv | hv <;> omega
  by_cases hone : v < 0x80
  · rw [encode_one hone]
    have hb : (UInt8.ofNat v).toNat = v := toNat_ofNat_of_lt (by omega)
    have hlead := lead?_eq (.ofNat v)
    rw [hb, if_pos hone] at hlead
    refine ⟨_, _, rfl, ?_⟩
    rw [head_of_lead hlead, follow]
    rfl
  by_cases htwo : v < 0x800
  · rw [encode_two (by omega) htwo]
    have hb : (UInt8.ofNat (v / 64 + 0xC0)).toNat = v / 64 + 0xC0 := toNat_ofNat_of_lt (by omega)
    have hlead := lead?_eq (.ofNat (v / 64 + 0xC0))
    rw [hb, if_neg (by omega), if_neg (by omega), if_pos (by omega), Nat.add_sub_cancel] at hlead
    have hvalue : 64 * (v / 64) + v % 64 = v := Nat.div_add_mod v 64
    refine ⟨_, tail (v % 64) :: r, rfl, ?_⟩
    rw [head_of_lead hlead, follow_tail (by omega), hvalue, follow]
  by_cases hthree : v < 0x10000
  · rw [encode_three (by omega) hthree hvalid]
    have hb : (UInt8.ofNat (v / 4096 + 0xE0)).toNat = v / 4096 + 0xE0 :=
      toNat_ofNat_of_lt (by omega)
    have hlead := lead?_three (b := .ofNat (v / 4096 + 0xE0)) (by omega) (by omega)
    rw [hb, Nat.add_sub_cancel] at hlead
    have hvalue : 64 * (64 * (v / 4096) + v / 64 % 64) + v % 64 = v := by omega
    refine ⟨_, tail (v / 64 % 64) :: tail (v % 64) :: r, rfl, ?_⟩
    rw [head_of_lead hlead, follow_first _ _ (by omega), follow_tail (by omega), hvalue, follow]
    · simp only [apply_ite UInt8.toNat, UInt8.reduceToNat]
      split <;> omega
    · simp only [apply_ite UInt8.toNat, UInt8.reduceToNat]
      rcases hvalid with hv | hv <;> split <;> omega
  · rw [encode_four (by omega) hbound]
    have hb : (UInt8.ofNat (v / 262144 + 0xF0)).toNat = v / 262144 + 0xF0 :=
      toNat_ofNat_of_lt (by omega)
    have hlead := lead?_four (b := .ofNat (v / 262144 + 0xF0)) (by omega) (by omega)
    rw [hb, Nat.add_sub_cancel] at hlead
    have hvalue : 64 * (64 * (64 * (v / 262144) + v / 4096 % 64) + v / 64 % 64) + v % 64 = v := by
      omega
    refine ⟨_, tail (v / 4096 % 64) :: tail (v / 64 % 64) :: tail (v % 64) :: r, rfl, ?_⟩
    rw [head_of_lead hlead, follow_first _ _ (by omega), follow_tail (by omega),
      follow_tail (by omega), hvalue, follow]
    · simp only [apply_ite UInt8.toNat, UInt8.reduceToNat]
      split <;> omega
    · simp only [apply_ite UInt8.toNat, UInt8.reduceToNat]
      split <;> omega

/-- What is read as a character is the encoding of that character. -/
theorem encoded_of_head (h : head b rest = (some c, r)) :
    b :: rest = String.utf8EncodeChar c ++ r := by
  cases hl : lead? b with
  | none =>
    unfold head at h
    rw [hl] at h
    cases h
  | some l =>
    rw [head_of_lead hl] at h
    rcases lead?_cases hl with ⟨hb, rfl⟩ | ⟨hle, hlt, rfl⟩ | ⟨hle, hlt, rfl⟩ | ⟨hle, hlt, rfl⟩ <;>
      dsimp only at h
    · cases h
      rw [encode_one hb, UInt8.ofNat_toNat]
      rfl
    · obtain ⟨k, more, hk, rfl, hend⟩ := of_follow_tail h
      obtain ⟨rfl, rfl⟩ := of_follow_zero hend
      rw [encode_two (by omega) (by omega)]
      have hlead : (64 * (b.toNat - 0xC0) + k) / 64 + 0xC0 = b.toNat := by omega
      have htail : (64 * (b.toNat - 0xC0) + k) % 64 = k := by omega
      rw [hlead, htail, UInt8.ofNat_toNat]
      rfl
    · obtain ⟨k, more, hk, hlow, hhigh, rfl, hsecond⟩ :=
        of_follow_succ (by split <;> decide) (by split <;> decide) h
      obtain ⟨j, more, hj, rfl, hend⟩ := of_follow_tail hsecond
      obtain ⟨rfl, rfl⟩ := of_follow_zero hend
      simp only [apply_ite UInt8.toNat, UInt8.reduceToNat] at hlow hhigh
      have hfirst : b.toNat = 0xE0 → 32 ≤ k := fun hb => by
        rw [if_pos hb] at hlow
        omega
      have hsurrogates : b.toNat = 0xED → k < 32 := fun hb => by
        rw [if_pos hb] at hhigh
        omega
      rw [encode_three (by omega) (by omega) (by unfold Nat.isValidChar; omega)]
      have hlead : (64 * (64 * (b.toNat - 0xE0) + k) + j) / 4096 + 0xE0 = b.toNat := by omega
      have hmiddle : (64 * (64 * (b.toNat - 0xE0) + k) + j) / 64 % 64 = k := by omega
      have htail : (64 * (64 * (b.toNat - 0xE0) + k) + j) % 64 = j := by omega
      rw [hlead, hmiddle, htail, UInt8.ofNat_toNat]
      rfl
    · obtain ⟨k, more, hk, hlow, hhigh, rfl, hsecond⟩ :=
        of_follow_succ (by split <;> decide) (by split <;> decide) h
      obtain ⟨j, more, hj, rfl, hthird⟩ := of_follow_tail hsecond
      obtain ⟨i, more, hi, rfl, hend⟩ := of_follow_tail hthird
      obtain ⟨rfl, rfl⟩ := of_follow_zero hend
      simp only [apply_ite UInt8.toNat, UInt8.reduceToNat] at hlow hhigh
      have hfirst : b.toNat = 0xF0 → 16 ≤ k := fun hb => by
        rw [if_pos hb] at hlow
        omega
      have hlast : b.toNat = 0xF4 → k < 16 := fun hb => by
        rw [if_pos hb] at hhigh
        omega
      rw [encode_four (by omega) (by omega)]
      have hlead : (64 * (64 * (64 * (b.toNat - 0xF0) + k) + j) + i) / 262144 + 0xF0 = b.toNat := by
        omega
      have hsecond : (64 * (64 * (64 * (b.toNat - 0xF0) + k) + j) + i) / 4096 % 64 = k := by omega
      have hthird : (64 * (64 * (64 * (b.toNat - 0xF0) + k) + j) + i) / 64 % 64 = j := by omega
      have htail : (64 * (64 * (64 * (b.toNat - 0xF0) + k) + j) + i) % 64 = i := by omega
      rw [hlead, hsecond, hthird, htail, UInt8.ofNat_toNat]
      rfl

/-! ### Texts -/

theorem parts_encoded (l : List Char) :
    parts (l.flatMap String.utf8EncodeChar) = l.map some := by
  induction l with
  | nil => rw [List.flatMap_nil, parts, List.map_nil]
  | cons c l ih =>
    obtain ⟨b, rest, hbytes, hhead⟩ := head_encoded c (l.flatMap String.utf8EncodeChar)
    rw [List.flatMap_cons, hbytes, parts, hhead, ih, List.map_cons]

theorem encoded_of_parts {bytes : List UInt8} {l : List Char}
    (h : (parts bytes).mapM id = some l) : bytes = l.flatMap String.utf8EncodeChar := by
  induction bytes using parts.induct generalizing l with
  | case1 =>
    rw [parts] at h
    cases h
    rfl
  | case2 b rest ih =>
    rw [parts, List.mapM_cons] at h
    obtain ⟨c, hc, h⟩ := Option.bind_eq_some_iff.1 h
    obtain ⟨l', hrest, h⟩ := Option.bind_eq_some_iff.1 h
    cases h
    rw [List.flatMap_cons, ← ih hrest]
    exact encoded_of_head (Prod.ext hc rfl)

theorem mapM_map_some (l : List Char) : (l.map some).mapM id = some l := by
  induction l with
  | nil => rfl
  | cons c l ih =>
    rw [List.map_cons, List.mapM_cons, ih]
    rfl

/-- **Strict reading gives a text exactly for the bytes of that text.** -/
theorem decode?_eq_some_iff {bytes : List UInt8} {s : String} :
    decode? bytes = some s ↔ bytes = encode s := by
  unfold decode? encode
  constructor
  · intro h
    obtain ⟨l, hl, rfl⟩ := Option.map_eq_some_iff.1 h
    rw [String.toList_ofList]
    exact encoded_of_parts hl
  · rintro rfl
    rw [parts_encoded, mapM_map_some, Option.map_some, String.ofList_toList]

end Custody.Text.Utf8
