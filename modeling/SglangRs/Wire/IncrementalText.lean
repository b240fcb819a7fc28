import SglangRs.Wire.Text

/-!
# Text cut between bytes

A text in UTF-8 is a sequence of characters of one to four bytes each. The bytes can be cut
anywhere, also within a character. What is left of a character at the cut is not valid on its own,
but it is not wrong either: it is incomplete, and the bytes that follow complete it. The check of
the standard library of Rust tells these cases apart (`Utf8Error::error_len`).

## Main definitions

* `utf8Bytes`: the bytes of a list of characters.
* `utf8Scan`, `IsIncomplete`: the check of a sequence of bytes.
* `Undecoded`: bytes of the beginning of a character, and the bytes still to come.

## Main results

* `fromUtf8_eq_some_iff`: valid bytes are those of a list of characters.
* `isIncomplete_beginning`: the beginning of a character is incomplete.
* `Undecoded.cons`: one byte more leaves a character unfinished or completes it.
* `exists_fromUtf8_append`: a text cut between characters.
-/

namespace SglangRs

/-! ### Characters as bytes -/

/-- The bytes of a list of characters. -/
def utf8Bytes (cs : List Char) : Bytes := cs.flatMap String.utf8EncodeChar

@[simp] theorem utf8Bytes_nil : utf8Bytes [] = [] := rfl

@[simp] theorem utf8Bytes_cons (c : Char) (cs : List Char) :
    utf8Bytes (c :: cs) = String.utf8EncodeChar c ++ utf8Bytes cs := rfl

@[simp] theorem utf8Bytes_append (cs ds : List Char) :
    utf8Bytes (cs ++ ds) = utf8Bytes cs ++ utf8Bytes ds := by
  simp [utf8Bytes]

theorem utf8_ofList (cs : List Char) : utf8 (String.ofList cs) = utf8Bytes cs := by
  simp [utf8, utf8Bytes, String.ofList, List.utf8Encode]

/-- Bytes that are read as a text are its bytes. -/
theorem eq_utf8_of_fromUtf8 {bytes : Bytes} {text : String} (h : fromUtf8 bytes = some text) :
    bytes = utf8 text := by
  rw [fromUtf8, String.fromUTF8?] at h
  split_ifs at h with hvalid
  rw [← Option.some.inj h]
  rfl

/-- Valid bytes are those of a list of characters. -/
theorem fromUtf8_eq_some_iff {bytes : Bytes} {cs : List Char} :
    fromUtf8 bytes = some (String.ofList cs) ↔ bytes = utf8Bytes cs := by
  constructor
  · intro h
    rw [eq_utf8_of_fromUtf8 h, utf8_ofList]
  · rintro rfl
    rw [← utf8_ofList, fromUtf8_utf8]

theorem exists_utf8Bytes_of_isSome {bytes : Bytes} (h : (fromUtf8 bytes).isSome) :
    ∃ cs, bytes = utf8Bytes cs := by
  obtain ⟨text, htext⟩ := Option.isSome_iff_exists.mp h
  exact ⟨text.toList, fromUtf8_eq_some_iff.mp (by rw [htext, String.ofList_toList])⟩

/-- The first character of a text is read off its bytes. -/
theorem utf8EncodeChar_append_inj {c d : Char} {bytes bytes' : Bytes}
    (h : String.utf8EncodeChar c ++ bytes = String.utf8EncodeChar d ++ bytes') :
    c = d ∧ bytes = bytes' := by
  have hdecode (c : Char) (bytes : Bytes) :
      ByteArray.utf8DecodeChar? (String.utf8EncodeChar c ++ bytes).toByteArray 0 = some c := by
    rw [List.toByteArray_append]
    exact ByteArray.utf8DecodeChar?_utf8EncodeChar_append
  have hchar : c = d := by
    have hc := hdecode c bytes
    rw [h, hdecode] at hc
    exact (Option.some.inj hc).symm
  subst hchar
  exact ⟨rfl, List.append_cancel_left h⟩

/-! ### The check of a sequence of bytes -/

/-- The first error in a sequence of bytes: the length of the invalid part, or none if the sequence
is cut short. -/
def utf8Scan : ℕ → Bytes → Except (Option ℕ) Unit
  | 0, _ => .ok ()
  | _ + 1, [] => .ok ()
  | fuel + 1, byte :: rest =>
      match utf8Width (byte :: rest) with
      | .error error => .error error
      | .ok width => utf8Scan fuel ((byte :: rest).drop width)

/-- A sequence of bytes is not valid, but the bytes that follow may make it valid. -/
def IsIncomplete (bytes : Bytes) : Bool := utf8Scan bytes.length bytes = .error none

/-- The beginning of a character. -/
structure Begins (part : Bytes) (c : Char) : Prop where
  isPrefix : part <+: String.utf8EncodeChar c
  length_lt : part.length < (String.utf8EncodeChar c).length

/-- The beginning of a character is not valid. -/
theorem fromUtf8_beginning {part : Bytes} {c : Char} (h : Begins part c) (hne : part ≠ []) :
    fromUtf8 part = none := by
  by_contra hsome
  obtain ⟨cs, rfl⟩ := exists_utf8Bytes_of_isSome (Option.isSome_iff_ne_none.mpr hsome)
  cases cs with
  | nil => exact hne rfl
  | cons d cs =>
      obtain ⟨rest, hrest⟩ := h.isPrefix
      rw [utf8Bytes_cons, List.append_assoc, ← List.append_nil (String.utf8EncodeChar c)] at hrest
      obtain ⟨rfl, hnil⟩ := utf8EncodeChar_append_inj hrest
      have hlt := h.length_lt
      rw [utf8Bytes_cons, List.length_append] at hlt
      omega

/-! The width of a sequence by its first byte. -/

theorem utf8Width_two {first : UInt8} {rest : Bytes} (hlo : 0xC2 ≤ first.toNat)
    (hhi : first.toNat ≤ 0xDF) : utf8Width (first :: rest) = utf8Tail first 1 1 rest := by
  have h1 : ¬ first < 0x80 := by rw [UInt8.lt_iff_toNat_lt]; simp; omega
  have h2 : (0xC2 ≤ first) := by rw [UInt8.le_iff_toNat_le]; simpa using hlo
  have h3 : first ≤ 0xDF := by rw [UInt8.le_iff_toNat_le]; simpa using hhi
  simp [utf8Width, h1, h2, h3]

theorem utf8Width_three {first : UInt8} {rest : Bytes} (hlo : 0xE0 ≤ first.toNat)
    (hhi : first.toNat ≤ 0xEF) : utf8Width (first :: rest) = utf8Tail first 2 1 rest := by
  have h1 : ¬ first < 0x80 := by rw [UInt8.lt_iff_toNat_lt]; simp; omega
  have h2 : ¬ first ≤ 0xDF := by rw [UInt8.le_iff_toNat_le]; simp; omega
  have h3 : 0xE0 ≤ first := by rw [UInt8.le_iff_toNat_le]; simpa using hlo
  have h4 : first ≤ 0xEF := by rw [UInt8.le_iff_toNat_le]; simpa using hhi
  simp [utf8Width, h1, h2, h3, h4]

theorem utf8Width_four {first : UInt8} {rest : Bytes} (hlo : 0xF0 ≤ first.toNat)
    (hhi : first.toNat ≤ 0xF4) : utf8Width (first :: rest) = utf8Tail first 3 1 rest := by
  have h1 : ¬ first < 0x80 := by rw [UInt8.lt_iff_toNat_lt]; simp; omega
  have h2 : ¬ first ≤ 0xDF := by rw [UInt8.le_iff_toNat_le]; simp; omega
  have h3 : ¬ first ≤ 0xEF := by rw [UInt8.le_iff_toNat_le]; simp; omega
  have h4 : 0xF0 ≤ first := by rw [UInt8.le_iff_toNat_le]; simpa using hlo
  have h5 : first ≤ 0xF4 := by rw [UInt8.le_iff_toNat_le]; simpa using hhi
  simp [utf8Width, h1, h2, h3, h4, h5]

theorem isContinuation_iff (byte : UInt8) :
    isContinuation byte = true ↔ 0x80 ≤ byte.toNat ∧ byte.toNat ≤ 0xBF := by
  simp [isContinuation, UInt8.le_iff_toNat_le]

theorem isSecond_iff (first byte : UInt8) : isSecond first byte = true ↔
    (0x80 ≤ byte.toNat ∧ byte.toNat ≤ 0xBF) ∧ (first.toNat = 0xE0 → 0xA0 ≤ byte.toNat) ∧
      (first.toNat = 0xED → byte.toNat ≤ 0x9F) ∧ (first.toNat = 0xF0 → 0x90 ≤ byte.toNat) ∧
      (first.toNat = 0xF4 → byte.toNat ≤ 0x8F) := by
  have heq (n : UInt8) : first = n ↔ first.toNat = n.toNat := UInt8.toNat_inj.symm
  simp only [isSecond, heq, UInt8.reduceToNat]
  split_ifs <;> simp [isContinuation, UInt8.le_iff_toNat_le] <;> omega

theorem toNat_ofNat_of_lt {n : ℕ} (h : n < 256) : (UInt8.ofNat n).toNat = n := by
  simp only [UInt8.toNat_ofNat']
  omega

/-- The beginning of a character is incomplete. -/
theorem utf8Width_beginning {part : Bytes} {c : Char} (h : Begins part c) (hne : part ≠ []) :
    utf8Width part = .error none := by
  obtain ⟨⟨rest, hrest⟩, hlt⟩ := h
  have hlength := congrArg List.length hrest
  rw [← hrest] at hlt
  have hvalid : c.val.toNat < 0xD800 ∨ 0xDFFF < c.val.toNat ∧ c.val.toNat < 0x110000 := c.valid
  unfold String.utf8EncodeChar at hrest hlength
  dsimp only at hrest hlength
  generalize c.val.toNat = v at hrest hlength hvalid
  obtain ⟨first, part, rfl⟩ := List.exists_cons_of_ne_nil hne
  split_ifs at hrest hlength with h1 h2 h3
  all_goals
    simp only [List.length_append, List.length_cons, List.length_nil] at hlength hlt
    obtain ⟨rfl, htail⟩ := List.cons.inj hrest
  · -- one byte
    omega
  · -- two bytes
    have hfirst := toNat_ofNat_of_lt (n := v / 64 % 0x20 + 0xc0) (by omega)
    obtain rfl : part = [] := List.length_eq_zero_iff.mp (by omega)
    rw [utf8Width_two (by omega) (by omega)]
    rfl
  · -- three bytes
    have hfirst := toNat_ofNat_of_lt (n := v / 4096 % 0x10 + 0xe0) (by omega)
    have hsecond := toNat_ofNat_of_lt (n := v / 64 % 0x40 + 0x80) (by omega)
    have hok := (isSecond_iff (UInt8.ofNat (v / 4096 % 0x10 + 0xe0))
      (UInt8.ofNat (v / 64 % 0x40 + 0x80))).mpr (by omega)
    rw [utf8Width_three (by omega) (by omega)]
    match part, htail, hlength with
    | [], _, _ => rfl
    | [_], htail, _ =>
        obtain ⟨rfl, -⟩ := List.cons.inj htail
        simp only [utf8Tail, if_true, hok]
    | _ :: _ :: _, _, hlength =>
        simp only [List.length_cons] at hlength
        omega
  · -- four bytes
    have hfirst := toNat_ofNat_of_lt (n := v / 262144 % 0x08 + 0xf0) (by omega)
    have hsecond := toNat_ofNat_of_lt (n := v / 4096 % 0x40 + 0x80) (by omega)
    have hthird := toNat_ofNat_of_lt (n := v / 64 % 0x40 + 0x80) (by omega)
    have hok := (isSecond_iff (UInt8.ofNat (v / 262144 % 0x08 + 0xf0))
      (UInt8.ofNat (v / 4096 % 0x40 + 0x80))).mpr (by omega)
    have hcontinues := (isContinuation_iff (UInt8.ofNat (v / 64 % 0x40 + 0x80))).mpr (by omega)
    rw [utf8Width_four (by omega) (by omega)]
    match part, htail, hlength with
    | [], _, _ => rfl
    | [_], htail, _ =>
        obtain ⟨rfl, -⟩ := List.cons.inj htail
        simp only [utf8Tail, if_true, hok]
    | [_, _], htail, _ =>
        obtain ⟨rfl, hrest'⟩ := List.cons.inj htail
        obtain ⟨rfl, -⟩ := List.cons.inj hrest'
        simp only [utf8Tail, if_true, hok, Nat.reduceAdd, Nat.reduceEqDiff, if_false, hcontinues]
    | _ :: _ :: _ :: _, _, hlength =>
        simp only [List.length_cons] at hlength
        omega

theorem isIncomplete_beginning {part : Bytes} {c : Char} (h : Begins part c) (hne : part ≠ []) :
    IsIncomplete part := by
  have hwidth := utf8Width_beginning h hne
  cases part with
  | nil => exact absurd rfl hne
  | cons byte part => simp [IsIncomplete, utf8Scan, hwidth]

/-! ### Decoding byte by byte -/

/-- Bytes of the beginning of a character that have been read, and bytes still to come, which
together are those of a list of characters. -/
structure Undecoded (pending rest : Bytes) (cs : List Char) : Prop where
  append_eq : pending ++ rest = utf8Bytes cs
  begins : ∀ c, cs.head? = some c → Begins pending c
  eq_nil : cs = [] → pending = []

theorem undecoded_of_nil {rest : Bytes} {cs : List Char} (h : rest = utf8Bytes cs) :
    Undecoded [] rest cs :=
  ⟨h, fun _ _ => ⟨List.nil_prefix, List.length_pos_iff.mpr String.utf8EncodeChar_ne_nil⟩,
    fun _ => rfl⟩

/-- At the end of the bytes nothing is left. -/
theorem Undecoded.nil {pending : Bytes} {cs : List Char} (h : Undecoded pending [] cs) :
    pending = [] ∧ cs = [] := by
  cases cs with
  | nil => exact ⟨h.eq_nil rfl, rfl⟩
  | cons c cs =>
      have hlt := (h.begins c rfl).length_lt
      have hlength := congrArg List.length h.append_eq
      rw [List.append_nil, utf8Bytes_cons, List.length_append] at hlength
      omega

/-- The next byte either leaves a character unfinished or completes it. -/
theorem Undecoded.cons {pending rest : Bytes} {byte : UInt8} {cs : List Char}
    (h : Undecoded pending (byte :: rest) cs) :
    (fromUtf8 (pending ++ [byte]) = none ∧ IsIncomplete (pending ++ [byte]) ∧
      Undecoded (pending ++ [byte]) rest cs) ∨
    ∃ c cs', cs = c :: cs' ∧ fromUtf8 (pending ++ [byte]) = some (String.ofList [c]) ∧
      Undecoded [] rest cs' := by
  cases cs with
  | nil => exact absurd h.append_eq (by simp)
  | cons c cs =>
      obtain ⟨hbefore, hlt⟩ := h.begins c rfl
      have happend : (pending ++ [byte]) ++ rest = String.utf8EncodeChar c ++ utf8Bytes cs := by
        rw [List.append_assoc, List.singleton_append, h.append_eq, utf8Bytes_cons]
      have hle : (pending ++ [byte]).length ≤ (String.utf8EncodeChar c).length := by
        rw [List.length_append]
        exact hlt
      have hbefore' : pending ++ [byte] <+: String.utf8EncodeChar c :=
        List.prefix_of_prefix_length_le ⟨rest, happend⟩ (List.prefix_append _ _) hle
      rcases hle.lt_or_eq with hlt' | heq
      · have hbegins : Begins (pending ++ [byte]) c := ⟨hbefore', hlt'⟩
        refine .inl ⟨fromUtf8_beginning hbegins (by simp), isIncomplete_beginning hbegins (by simp),
          by rw [happend, utf8Bytes_cons], ?_, fun hnil => nomatch hnil⟩
        rintro _ ⟨⟩
        exact hbegins
      · have hfull := hbefore'.eq_of_length heq
        rw [hfull] at happend ⊢
        refine .inr ⟨c, cs, rfl, fromUtf8_eq_some_iff.mpr (by simp), undecoded_of_nil ?_⟩
        exact List.append_cancel_left happend

/-- A text cut between characters is read piece by piece. -/
theorem exists_fromUtf8_append {bytes bytes' : Bytes} {cs : List Char}
    (h : bytes ++ bytes' = utf8Bytes cs) (hsome : (fromUtf8 bytes).isSome) :
    ∃ ds ds', cs = ds ++ ds' ∧ bytes = utf8Bytes ds ∧ bytes' = utf8Bytes ds' := by
  obtain ⟨ds, rfl⟩ := exists_utf8Bytes_of_isSome hsome
  induction ds generalizing cs with
  | nil => exact ⟨[], cs, rfl, rfl, h⟩
  | cons d ds ih =>
      cases cs with
      | nil => exact absurd h (by simp)
      | cons c cs =>
          rw [utf8Bytes_cons, utf8Bytes_cons, List.append_assoc] at h
          obtain ⟨rfl, hrest⟩ := utf8EncodeChar_append_inj h
          obtain ⟨es, es', rfl, hes, hes'⟩ := ih hrest (by
            rw [fromUtf8_eq_some_iff.mpr rfl]
            rfl)
          exact ⟨d :: es, es', rfl, by rw [utf8Bytes_cons, utf8Bytes_cons, hes], hes'⟩

end SglangRs
