import Mathlib.Data.UInt
import Mathlib.Tactic.SplitIfs
import MessageSchema.Text.Glyph

namespace MessageSchema.Text

open List Option String

/-!
Reading bytes as characters is the inverse of encoding.

Encoding the glyphs that were read gives the bytes back.  Bytes are read as
characters only exactly if they encode these characters, so joining bytes joins
characters.
-/

def bytesOf (chars : List Char) : List UInt8 :=
  chars.flatMap utf8EncodeChar

lemma bytesOf_append (left right : List Char) :
    bytesOf (left ++ right) = bytesOf left ++ bytesOf right :=
  flatMap_append

lemma bytesOf_cons (value : Char) (rest : List Char) :
    bytesOf (value :: rest) = utf8EncodeChar value ++ bytesOf rest :=
  flatMap_cons

lemma length_bytesOf (chars : List Char) :
    (bytesOf chars).length = (chars.map Char.utf8Size).foldr (· + ·) 0 := by
  induction chars with
  | nil => rfl
  | cons value rest ih =>
    rw [bytesOf_cons, List.length_append, length_utf8EncodeChar, ih, map_cons,
      foldr_cons]

variable {value : Char}

lemma scalar?_eq_some_iff {least number : Nat} :
    scalar? least number = some value ↔ least <= number ∧ value.val.toNat = number := by
  unfold scalar?
  constructor
  · intro found
    by_cases valid : least <= number ∧ number.isValidChar
    · rw [dif_pos valid] at found
      cases found
      exact ⟨valid.1, UInt32.toNat_ofNatLT⟩
    · rw [dif_neg valid] at found
      cases found
  · rintro ⟨above, same⟩
    have valid : number.isValidChar := by
      rw [← same]
      exact value.valid
    rw [dif_pos ⟨above, valid⟩, Option.some.injEq]
    apply Char.ext
    apply UInt32.toNat_inj.mp
    rw [same]
    exact UInt32.toNat_ofNatLT

lemma toNat_le_of_char (value : Char) : value.val.toNat <= 1114111 := by
  rcases value.valid with low | high <;> omega

/-- The first byte of a character and those behind it lead back to it. -/
lemma leading?_of_encode {first : UInt8} {further : List UInt8}
    (encoded : utf8EncodeChar value = first :: further) (rest : List UInt8) :
    leading? first (further ++ rest) = some (value, further.length) := by
  have bound := toNat_le_of_char value
  have whole : ∀ least number, least <= number -> value.val.toNat = number ->
      scalar? least number = some value := fun _ _ above same =>
    scalar?_eq_some_iff.mpr ⟨above, same⟩
  simp only [utf8EncodeChar] at encoded
  split_ifs at encoded with one two three
  all_goals
    rcases List.cons.inj encoded with ⟨isFirst, isFurther⟩
    subst isFirst isFurther
    simp only [leading?, isContinuation, payload, cons_append, nil_append,
      length_cons, length_nil, UInt8.lt_iff_toNat_lt, UInt8.le_iff_toNat_le,
      UInt8.toNat_ofNat', UInt8.reduceToNat, Bool.and_eq_true, decide_eq_true_eq]
  · rw [if_pos (by omega), whole _ _ (by omega) (by omega), map_some]
  · rw [if_neg (by omega), if_neg (by omega), if_pos (by omega), if_pos (by omega),
      whole _ _ (by omega) (by omega), map_some]
  · rw [if_neg (by omega), if_neg (by omega), if_neg (by omega), if_pos (by omega),
      if_pos (by omega), whole _ _ (by omega) (by omega), map_some]
  · rw [if_neg (by omega), if_neg (by omega), if_neg (by omega), if_neg (by omega),
      if_pos (by omega), if_pos (by omega), whole _ _ (by omega) (by omega), map_some]

lemma isContinuation_iff {byte : UInt8} :
    isContinuation byte = true ↔ 128 <= byte.toNat ∧ byte.toNat <= 191 := by
  simp [isContinuation, UInt8.le_iff_toNat_le]

/-- What is read as a character is the encoding of that character. -/
lemma encode_of_leading? {first : UInt8} {rest : List UInt8} {taken : Nat}
    (found : leading? first rest = some (value, taken)) :
    utf8EncodeChar value = first :: rest.take taken := by
  unfold leading? at found
  simp only [UInt8.lt_iff_toNat_lt, UInt8.reduceToNat] at found
  have byte : ∀ (byte : UInt8) {number : Nat}, number = byte.toNat ->
    UInt8.ofNat number = byte := by
    intro byte number same
    rw [same, UInt8.ofNat_toNat]
  split_ifs at found with one stray two three four
  · rcases Option.map_eq_some_iff.mp found with ⟨_, read, same⟩
    cases same
    have number := (scalar?_eq_some_iff.mp read).2
    simp only [utf8EncodeChar, number]
    rw [if_pos (by omega), byte first rfl, take_zero]
  · split at found
    · next second behind =>
      split_ifs at found with continues
      rcases Option.map_eq_some_iff.mp found with ⟨_, read, same⟩
      cases same
      rcases scalar?_eq_some_iff.mp read with ⟨above, number⟩
      have secondBound := isContinuation_iff.mp continues
      simp only [utf8EncodeChar, number, payload] at above ⊢
      rw [if_neg (by omega), if_pos (by omega), byte first (by omega),
        byte second (by omega)]
      rfl
    · cases found
  · split at found
    · next second third behind =>
      split_ifs at found with continues
      rcases Option.map_eq_some_iff.mp found with ⟨_, read, same⟩
      cases same
      rcases scalar?_eq_some_iff.mp read with ⟨above, number⟩
      rw [Bool.and_eq_true, isContinuation_iff, isContinuation_iff] at continues
      simp only [utf8EncodeChar, number, payload] at above ⊢
      rw [if_neg (by omega), if_neg (by omega), if_pos (by omega), byte first (by omega),
        byte second (by omega), byte third (by omega)]
      rfl
    · cases found
  · split at found
    · next second third fourth behind =>
      split_ifs at found with continues
      rcases Option.map_eq_some_iff.mp found with ⟨_, read, same⟩
      cases same
      rcases scalar?_eq_some_iff.mp read with ⟨above, number⟩
      have bound := toNat_le_of_char value
      rw [Bool.and_eq_true, Bool.and_eq_true, isContinuation_iff, isContinuation_iff,
        isContinuation_iff] at continues
      simp only [utf8EncodeChar, number, payload] at above bound ⊢
      rw [if_neg (by omega), if_neg (by omega), if_neg (by omega), byte first (by omega),
        byte second (by omega), byte third (by omega),
        byte fourth (by omega)]
      rfl
    · cases found

/-- Bytes that belong to the character just read are passed over. -/
lemma decodeOnto_skip (seen : List Glyph) (skipped rest : List UInt8) :
    decodeOnto seen skipped.length (skipped ++ rest) = decodeOnto seen 0 rest := by
  induction skipped with
  | nil => rfl
  | cons byte further ih => exact ih

lemma decodeOnto_encode (seen : List Glyph) (value : Char) (rest : List UInt8) :
    decodeOnto seen 0 (utf8EncodeChar value ++ rest) = decodeOnto (.char value :: seen) 0 rest := by
  cases encoded : utf8EncodeChar value with
  | nil =>
    have positive := value.utf8Size_pos
    rw [← length_utf8EncodeChar, encoded] at positive
    cases positive
  | cons first further =>
    rw [cons_append, decodeOnto, leading?_of_encode encoded]
    exact decodeOnto_skip _ further rest

lemma decodeOnto_eq (seen : List Glyph) (pending : Nat) (bytes : List UInt8) :
    decodeOnto seen pending bytes = seen.reverse ++ decodeOnto [] pending bytes := by
  induction bytes generalizing seen pending with
  | nil => cases pending <;> exact (append_nil _).symm
  | cons byte rest ih =>
    cases pending with
    | succ pending => exact ih seen pending
    | zero =>
      simp only [decodeOnto]
      split
      all_goals
        rw [ih, ih [_], reverse_cons, List.append_assoc]
        rfl

/-- The encoding of characters is read as these characters, whatever follows. -/
lemma decode_append (chars : List Char) (rest : List UInt8) :
    decode (bytesOf chars ++ rest) = chars.map .char ++ decode rest := by
  induction chars with
  | nil => rfl
  | cons value further ih =>
    rw [bytesOf_cons, List.append_assoc, decode, decodeOnto_encode, decodeOnto_eq]
    exact congrArg (.char value :: ·) ih

lemma decode_bytesOf (chars : List Char) : decode (bytesOf chars) = chars.map .char := by
  rw [← append_nil (bytesOf chars), decode_append]
  exact append_nil _

lemma encode_decodeOnto (seen : List Glyph) (pending : Nat) (bytes : List UInt8) :
    encode (decodeOnto seen pending bytes) = encode seen.reverse ++ bytes.drop pending := by
  fun_induction decodeOnto seen pending bytes with
  | case1 seen pending => rw [drop_nil, append_nil]
  | case2 seen pending byte rest ih => rw [ih, drop_succ_cons]
  | case3 seen byte rest value pending found ih =>
    rw [ih, reverse_cons, encode, flatMap_append, List.append_assoc, encode]
    congr 1
    change utf8EncodeChar value ++ [] ++ rest.drop pending = byte :: rest
    rw [encode_of_leading? found, append_nil, cons_append, take_append_drop]
  | case4 seen byte rest none ih =>
    rw [ih, reverse_cons, encode, flatMap_append, List.append_assoc, encode]
    rfl

lemma encode_decode (bytes : List UInt8) : encode (decode bytes) = bytes :=
  encode_decodeOnto [] 0 bytes

lemma chars?_eq_some_iff {glyphs : List Glyph} {chars : List Char} :
    chars? glyphs = some chars ↔ glyphs = chars.map .char := by
  unfold chars?
  induction glyphs generalizing chars with
  | nil => cases chars <;> simp
  | cons glyph rest ih =>
    rw [mapM_cons]
    cases glyph with
    | char value =>
      change ((List.mapM Glyph.char? rest).bind fun others => some (value :: others)) = _ ↔ _
      rw [bind_eq_some_iff]
      cases chars with
      | nil => simp
      | cons first others => simp [ih, and_comm]
    | stray byte => cases chars <;> simp [Glyph.char?]

/-- Bytes are read as characters only exactly if they are the encoding of these
characters. -/
lemma chars?_decode_eq_some_iff {bytes : List UInt8} {chars : List Char} :
    chars? (decode bytes) = some chars ↔ bytes = bytesOf chars := by
  rw [chars?_eq_some_iff]
  constructor
  · intro read
    have back := encode_decode bytes
    rw [read, encode, flatMap_map] at back
    exact back.symm
  · intro same
    rw [same, decode_bytesOf]

lemma toList_loop_eq (bytes : ByteArray) (start : Nat) (seen : List UInt8) :
    ByteArray.toList.loop bytes start seen = seen.reverse ++ bytes.data.toList.drop start := by
  fun_induction ByteArray.toList.loop bytes start seen with
  | case1 start seen inside ih =>
    have inside' : start < bytes.data.toList.length := inside
    have next : bytes.get! start = bytes.data.toList.get ⟨start, inside'⟩ := by
      change bytes.data[start]! = bytes.data.toList.get ⟨start, inside'⟩
      rw [getElem!_pos bytes.data start inside]
      rfl
    rw [ih, reverse_cons, List.append_assoc, drop_eq_getElem_cons inside', next]
    rfl
  | case2 start seen outside =>
    have outside' : bytes.data.toList.length <= start := Nat.le_of_not_lt outside
    rw [drop_of_length_le outside', append_nil]

lemma utf8_eq_bytesOf (text : String) : utf8 text = bytesOf text.toList := by
  rw [utf8, ByteArray.toList, toList_loop_eq, drop_zero, toUTF8,
    ← utf8Encode_toList, utf8Encode, bytesOf]
  simp

end MessageSchema.Text
