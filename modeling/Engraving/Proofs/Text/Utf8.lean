import Engraving.Text.Encoding
import Mathlib.Data.List.Basic
import Mathlib.Data.Nat.Notation
import Mathlib.Tactic.SplitIfs

/-!
# Which bytes are a text

Bytes are read as a text exactly when they are the bytes of that text, one character after the other
as the standard library encodes them. So what it means to be UTF-8 does not rest on the reader: it
accepts what some text is written as, and gives back that text.

Between the two stands `Utf8.Spells`, the four forms of a character as arithmetic of its bytes. That
the reader and the encoder agree with it is shown form by form.
-/

namespace Engraving

namespace Utf8

def encode (text : List Char) : List UInt8 := text.flatMap String.utf8EncodeChar

/-! ## The four forms -/

def IsTail (b : UInt8) : Prop := 128 ≤ b.toNat ∧ b.toNat < 192

/-- The first byte of a character and the others. No character has a form longer than it needs. -/
inductive Spells (c : Char) : UInt8 → List UInt8 → Prop
  | one {b : UInt8} (hc : c.toNat = b.toNat) (hb : b.toNat < 128) : Spells c b []
  | two {b b₁ : UInt8} (hc : c.toNat = (b.toNat - 192) * 64 + (b₁.toNat - 128))
    (hb : 194 ≤ b.toNat ∧ b.toNat < 224) (h₁ : IsTail b₁) : Spells c b [b₁]
  | three {b b₁ b₂ : UInt8}
    (hc : c.toNat = ((b.toNat - 224) * 64 + (b₁.toNat - 128)) * 64 + (b₂.toNat - 128))
    (hb : 224 ≤ b.toNat ∧ b.toNat < 240) (h₁ : IsTail b₁) (h₂ : IsTail b₂)
    (hshort : b.toNat = 224 → 160 ≤ b₁.toNat) : Spells c b [b₁, b₂]
  | four {b b₁ b₂ b₃ : UInt8}
    (hc : c.toNat = (((b.toNat - 240) * 64 + (b₁.toNat - 128)) * 64 + (b₂.toNat - 128)) * 64
      + (b₃.toNat - 128))
    (hb : 240 ≤ b.toNat) (h₁ : IsTail b₁) (h₂ : IsTail b₂) (h₃ : IsTail b₃)
    (hshort : b.toNat = 240 → 144 ≤ b₁.toNat) : Spells c b [b₁, b₂, b₃]

theorem toNat_lt_or (c : Char) : c.toNat < 0xD800 ∨ 0xDFFF < c.toNat ∧ c.toNat < 0x110000 :=
  c.valid

theorem exists_char {n : ℕ} (h : n < 0xD800 ∨ 0xDFFF < n ∧ n < 0x110000) :
    ∃ c : Char, c.toNat = n :=
  ⟨⟨⟨n, by omega⟩, h⟩, rfl⟩

/-! ## Writing -/

theorem ofNat_eq {n : ℕ} {b : UInt8} (h : n = b.toNat) : UInt8.ofNat n = b := by
  rw [h, UInt8.ofNat_toNat]

theorem exists_byte {n : ℕ} (h : n < 256) : ∃ b : UInt8, b.toNat = n :=
  ⟨UInt8.ofNat n, by rw [UInt8.toNat_ofNat', Nat.mod_eq_of_lt h]⟩

theorem exists_tail (n : ℕ) : ∃ b : UInt8, IsTail b ∧ b.toNat = n % 64 + 128 := by
  obtain ⟨b, hb⟩ := exists_byte (n := n % 64 + 128) (by omega)
  exact ⟨b, by rw [IsTail]; omega, hb⟩

namespace Spells

variable {c : Char} {b : UInt8} {tail : List UInt8}

theorem utf8EncodeChar_eq (h : Spells c b tail) : String.utf8EncodeChar c = b :: tail := by
  have hchar := toNat_lt_or c
  have hval : c.val.toNat = c.toNat := rfl
  rw [String.utf8EncodeChar]
  simp only [hval]
  cases h with
  | one hc hb => rw [if_pos (by omega), ofNat_eq hc]
  | @two b₁ hc hb h₁ =>
    rw [IsTail] at h₁
    rw [if_neg (by omega), if_pos (by omega), ofNat_eq (b := b) (by omega),
      ofNat_eq (b := b₁) (by omega)]
  | @three b₁ b₂ hc hb h₁ h₂ hshort =>
    rw [IsTail] at h₁ h₂
    rw [if_neg (by omega), if_neg (by omega), if_pos (by omega), ofNat_eq (b := b) (by omega),
      ofNat_eq (b := b₁) (by omega), ofNat_eq (b := b₂) (by omega)]
  | @four b₁ b₂ b₃ hc hb h₁ h₂ h₃ hshort =>
    rw [IsTail] at h₁ h₂ h₃
    rw [if_neg (by omega), if_neg (by omega), if_neg (by omega), ofNat_eq (b := b) (by omega),
      ofNat_eq (b := b₁) (by omega), ofNat_eq (b := b₂) (by omega), ofNat_eq (b := b₃) (by omega)]

theorem encode_cons (h : Spells c b tail) (text : List Char) :
    encode (c :: text) = b :: (tail ++ encode text) := by
  rw [encode, List.flatMap_cons, h.utf8EncodeChar_eq, List.cons_append, encode]

end Spells

theorem exists_spells (c : Char) : ∃ b tail, Spells c b tail := by
  have hchar := toNat_lt_or c
  by_cases hone : c.toNat < 128
  · obtain ⟨b, hb⟩ := exists_byte (n := c.toNat) (by omega)
    exact ⟨b, _, .one hb.symm (by omega)⟩
  obtain ⟨last, htail, hlast⟩ := exists_tail c.toNat
  by_cases htwo : c.toNat < 2048
  · obtain ⟨b, hb⟩ := exists_byte (n := c.toNat / 64 + 192) (by omega)
    exact ⟨b, _, .two (by omega) (by omega) htail⟩
  obtain ⟨second, htail₂, hsecond⟩ := exists_tail (c.toNat / 64)
  by_cases hthree : c.toNat < 65536
  · obtain ⟨b, hb⟩ := exists_byte (n := c.toNat / 4096 + 224) (by omega)
    exact ⟨b, _, .three (by omega) (by omega) htail₂ htail (by omega)⟩
  obtain ⟨third, htail₃, hthird⟩ := exists_tail (c.toNat / 4096)
  obtain ⟨b, hb⟩ := exists_byte (n := c.toNat / 262144 + 240) (by omega)
  exact ⟨b, _, .four (by omega) (by omega) htail₃ htail₂ htail (by omega)⟩

/-! ## Reading -/

/-- What the first byte of a sequence tells of the others. -/
theorem shape?_cases {b : UInt8} {count : ℕ} {low high : UInt8}
    (h : shape? b = some (count, low, high)) :
    (count = 0 ∧ b.toNat < 128) ∨
    (count = 1 ∧ (194 ≤ b.toNat ∧ b.toNat < 224) ∧ low.toNat = 128 ∧ high.toNat = 191) ∨
    (count = 2 ∧ (224 ≤ b.toNat ∧ b.toNat < 240) ∧
      (b.toNat = 224 ∧ low.toNat = 160 ∨ b.toNat ≠ 224 ∧ low.toNat = 128) ∧
      (b.toNat = 237 ∧ high.toNat = 159 ∨ b.toNat ≠ 237 ∧ high.toNat = 191)) ∨
    (count = 3 ∧ (240 ≤ b.toNat ∧ b.toNat < 245) ∧
      (b.toNat = 240 ∧ low.toNat = 144 ∨ b.toNat ≠ 240 ∧ low.toNat = 128) ∧
      (b.toNat = 244 ∧ high.toNat = 143 ∨ b.toNat ≠ 244 ∧ high.toNat = 191)) := by
  simp only [shape?, UInt8.lt_iff_toNat_lt, ← UInt8.toNat_inj, UInt8.reduceToNat] at h
  split_ifs at h <;> cases h <;> simp [*] <;> omega

theorem exists_shape? {b : UInt8} (h : b.toNat < 128 ∨ 194 ≤ b.toNat ∧ b.toNat < 245) :
    ∃ count low high, shape? b = some (count, low, high) := by
  simp only [shape?, UInt8.lt_iff_toNat_lt, ← UInt8.toNat_inj, UInt8.reduceToNat]
  split_ifs <;> first | exact ⟨_, _, _, rfl⟩ | omega

section continuation

variable {low high : UInt8} {code seen count : ℕ} {bytes : List UInt8}

theorem continue?_zero {code' : ℕ} {rest : List UInt8} :
    continue? low high code seen 0 bytes = .ok (code', rest) ↔ code = code' ∧ bytes = rest := by
  rw [continue?, Except.ok.injEq, Prod.mk.injEq]

theorem continue?_succ {result : ℕ × List UInt8} :
    continue? low high code seen (count + 1) bytes = .ok result ↔
      ∃ b rest, bytes = b :: rest ∧ (low.toNat ≤ b.toNat ∧ b.toNat ≤ high.toNat) ∧
        continue? 0x80 0xBF (code * 64 + (b.toNat - 128)) (seen + 1) count rest = .ok result := by
  cases bytes with
  | nil => simp [continue?]
  | cons b rest =>
    simp only [continue?, Bool.and_eq_true, decide_eq_true_iff, UInt8.le_iff_toNat_le,
      List.cons.injEq]
    constructor
    · intro h
      split_ifs at h with hb
      exact ⟨b, rest, ⟨rfl, rfl⟩, hb, h⟩
    · rintro ⟨_, _, ⟨rfl, rfl⟩, hb, h⟩
      rwa [if_pos hb]

theorem continue?_tail {result : ℕ × List UInt8} :
    continue? 0x80 0xBF code seen (count + 1) bytes = .ok result ↔
      ∃ b rest, bytes = b :: rest ∧ IsTail b ∧
        continue? 0x80 0xBF (code * 64 + (b.toNat - 128)) (seen + 1) count rest = .ok result := by
  have htail (b : UInt8) : ((0x80 : UInt8).toNat ≤ b.toNat ∧ b.toNat ≤ (0xBF : UInt8).toNat) ↔
      IsTail b := and_congr_right fun _ ↦ Nat.lt_succ_iff.symm
  simp only [continue?_succ, htail]

end continuation

/-- A sequence that is read spells the character that is read. -/
theorem spells_of_continue? {b : UInt8} {count : ℕ} {low high : UInt8} {rest after : List UInt8}
    {code : ℕ} (h : shape? b = some (count, low, high))
    (hread : continue? low high (leadBits count b) 1 count rest = .ok (code, after)) :
    ∃ c tail, c.toNat = code ∧ rest = tail ++ after ∧ Spells c b tail := by
  rcases shape?_cases h with ⟨rfl, hb⟩ | ⟨rfl, hb, hlow, hhigh⟩ | ⟨rfl, hb, hlow, hhigh⟩ |
    ⟨rfl, hb, hlow, hhigh⟩
  · obtain ⟨rfl, rfl⟩ := continue?_zero.mp hread
    obtain ⟨c, hc⟩ := exists_char (n := b.toNat) (by omega)
    exact ⟨c, [], hc, rfl, .one hc hb⟩
  · obtain ⟨b₁, rest, rfl, h₁, hread⟩ := continue?_succ.mp hread
    obtain ⟨rfl, rfl⟩ := continue?_zero.mp hread
    obtain ⟨c, hc⟩ := exists_char (n := b.toNat % 32 * 64 + (b₁.toNat - 128)) (by omega)
    exact ⟨c, [b₁], hc, rfl, .two (by omega) hb (by rw [IsTail]; omega)⟩
  · obtain ⟨b₁, rest, rfl, h₁, hread⟩ := continue?_succ.mp hread
    obtain ⟨b₂, rest, rfl, htail₂, hread⟩ := continue?_tail.mp hread
    obtain ⟨rfl, rfl⟩ := continue?_zero.mp hread
    have h₂ := htail₂
    rw [IsTail] at h₂
    obtain ⟨c, hc⟩ := exists_char
      (n := (b.toNat % 16 * 64 + (b₁.toNat - 128)) * 64 + (b₂.toNat - 128)) (by omega)
    exact ⟨c, [b₁, b₂], hc, rfl, .three (by omega) hb (by rw [IsTail]; omega) htail₂ (by omega)⟩
  · obtain ⟨b₁, rest, rfl, h₁, hread⟩ := continue?_succ.mp hread
    obtain ⟨b₂, rest, rfl, htail₂, hread⟩ := continue?_tail.mp hread
    obtain ⟨b₃, rest, rfl, htail₃, hread⟩ := continue?_tail.mp hread
    obtain ⟨rfl, rfl⟩ := continue?_zero.mp hread
    have h₂ := htail₂
    have h₃ := htail₃
    rw [IsTail] at h₂ h₃
    obtain ⟨c, hc⟩ := exists_char (n := ((b.toNat % 8 * 64 + (b₁.toNat - 128)) * 64
      + (b₂.toNat - 128)) * 64 + (b₃.toNat - 128)) (by omega)
    exact ⟨c, [b₁, b₂, b₃], hc, rfl,
      .four (by omega) hb.1 (by rw [IsTail]; omega) htail₂ htail₃ (by omega)⟩

/-- A sequence that spells a character is read as that character. -/
theorem Spells.exists_continue? {c : Char} {b : UInt8} {tail : List UInt8} (h : Spells c b tail)
    (rest : List UInt8) :
    ∃ count low high, shape? b = some (count, low, high) ∧
      continue? low high (leadBits count b) 1 count (tail ++ rest) = .ok (c.toNat, rest) := by
  have hchar := toNat_lt_or c
  have hb : b.toNat < 128 ∨ 194 ≤ b.toNat ∧ b.toNat < 245 := by
    cases h <;> (try simp only [IsTail] at *) <;> omega
  obtain ⟨count, low, high, hshape⟩ := exists_shape? hb
  refine ⟨count, low, high, hshape, ?_⟩
  -- The range of the first byte tells which of the four shapes it has.
  have hcases := shape?_cases hshape
  cases h with
  | one hc hb =>
    obtain rfl : count = 0 := by omega
    exact continue?_zero.mpr ⟨hc.symm, rfl⟩
  | two hc hb h₁ =>
    obtain rfl : count = 1 := by omega
    rw [IsTail] at h₁
    refine continue?_succ.mpr ⟨_, _, rfl, by omega, continue?_zero.mpr ⟨?_, rfl⟩⟩
    simp only [leadBits]
    omega
  | three hc hb h₁ htail₂ hshort =>
    obtain rfl : count = 2 := by omega
    have h₂ := htail₂
    rw [IsTail] at h₁ h₂
    refine continue?_succ.mpr ⟨_, _, rfl, by omega, continue?_tail.mpr ⟨_, _, rfl, htail₂,
      continue?_zero.mpr ⟨?_, rfl⟩⟩⟩
    simp only [leadBits]
    omega
  | four hc hb h₁ htail₂ htail₃ hshort =>
    obtain rfl : count = 3 := by omega
    have h₂ := htail₂
    have h₃ := htail₃
    rw [IsTail] at h₁ h₂ h₃
    refine continue?_succ.mpr ⟨_, _, rfl, by omega, continue?_tail.mpr ⟨_, _, rfl, htail₂,
      continue?_tail.mpr ⟨_, _, rfl, htail₃, continue?_zero.mpr ⟨?_, rfl⟩⟩⟩⟩
    simp only [leadBits]
    omega

/-! ## Texts -/

/-- Bytes that spell a text begin with a sequence that is read as its first character. -/
theorem exists_continue?_of_eq_encode {b : UInt8} {rest : List UInt8} {text : List Char}
    (h : b :: rest = encode text) :
    ∃ c later count low high, text = c :: later ∧ shape? b = some (count, low, high) ∧
      continue? low high (leadBits count b) 1 count rest = .ok (c.toNat, encode later) := by
  cases text with
  | nil => cases h
  | cons c later =>
    obtain ⟨b', tail, hspells⟩ := exists_spells c
    rw [hspells.encode_cons] at h
    obtain ⟨rfl, rfl⟩ := List.cons.inj h
    obtain ⟨count, low, high, hread⟩ := hspells.exists_continue? (encode later)
    exact ⟨c, later, count, low, high, rfl, hread⟩

theorem decodeFrom_eq_ok_iff {done : List Char} {position : ℕ} {bytes : List UInt8}
    {text : List Char} :
    decodeFrom done position bytes = .ok text ↔
      ∃ more, text = done.reverse ++ more ∧ bytes = encode more := by
  fun_induction decodeFrom done position bytes with
  | case1 done position =>
    constructor
    · rintro ⟨⟩
      exact ⟨[], (List.append_nil _).symm, rfl⟩
    · rintro ⟨more, rfl, hmore⟩
      cases more with
      | nil => rw [List.append_nil]
      | cons c later =>
        obtain ⟨b, tail, hspells⟩ := exists_spells c
        rw [hspells.encode_cons] at hmore
        cases hmore
  | case2 done position b rest hshape =>
    -- No character is spelled with such a first byte.
    refine ⟨fun h ↦ (nomatch h), ?_⟩
    rintro ⟨more, -, hmore⟩
    obtain ⟨_, _, _, _, _, -, hshape', -⟩ := exists_continue?_of_eq_encode hmore
    rw [hshape] at hshape'
    cases hshape'
  | case3 done position b rest count low high hshape fault seen hread =>
    refine ⟨fun h ↦ (nomatch h), ?_⟩
    rintro ⟨more, -, hmore⟩
    obtain ⟨_, _, _, _, _, -, hshape', hread'⟩ := exists_continue?_of_eq_encode hmore
    rw [hshape] at hshape'
    cases hshape'
    rw [hread] at hread'
    cases hread'
  | case4 done position b rest count low high hshape code after hread ih =>
    obtain ⟨c, tail, rfl, rfl, hspells⟩ := spells_of_continue? hshape hread
    rw [Char.ofNat_toNat] at ih ⊢
    rw [List.reverse_cons] at ih
    refine ih.trans ⟨?_, ?_⟩
    · rintro ⟨more, rfl, rfl⟩
      exact ⟨c :: more, by rw [List.append_assoc, List.singleton_append],
        (hspells.encode_cons more).symm⟩
    · rintro ⟨more, rfl, hmore⟩
      obtain ⟨c', later, _, _, _, rfl, hshape', hread'⟩ := exists_continue?_of_eq_encode hmore
      rw [hshape] at hshape'
      cases hshape'
      obtain ⟨hc, hlater⟩ := Prod.mk.inj (Except.ok.inj (hread.symm.trans hread'))
      obtain rfl : c = c' := Char.toNat_inj.mp hc
      exact ⟨later, by rw [List.append_assoc, List.singleton_append], hlater⟩

/-- Bytes are read as a text exactly when they are the bytes of that text. -/
theorem decode_eq_ok_iff {bytes : List UInt8} {text : List Char} :
    decode bytes = .ok text ↔ bytes = encode text := by
  rw [decode, decodeFrom_eq_ok_iff]
  constructor
  · rintro ⟨_, rfl, h⟩
    exact h
  · intro h
    exact ⟨text, rfl, h⟩

end Utf8

end Engraving
