import Onvm.IdText

/-! Reading ids from text and printing them: what the readers accept, and that they read back what is
printed. -/

namespace Onvm

open ByteString

def ProgramId.toPrefixedString (p : ProgramId) : String := "prog" ++ hexEncode p.bytes.bytes

def BlobId.toPrefixedString (b : BlobId) : String := "blob" ++ hexEncode b.bytes.bytes

theorem hexValue_of_large {c : Char} (h : 128 ≤ c.toNat) : hexValue c = none := by
  unfold hexValue
  dsimp only
  rw [if_neg (by omega), if_neg (by omega), if_neg (by omega)]

theorem hexDecode_cons_cons_eq_some {a b : Char} {cs : List Char} {bytes : Bytes}
    (h : hexDecode (a :: b :: cs) = some bytes) :
    ∃ hi lo rest, hexValue a = some hi ∧ hexValue b = some lo ∧ hexDecode cs = some rest ∧
      bytes = UInt8.ofNat (16 * hi + lo) :: rest := by
  simp only [hexDecode, Option.bind_eq_bind, Option.bind_eq_some_iff, Option.some.injEq] at h
  obtain ⟨hi, hhi, lo, hlo, rest, hrest, rfl⟩ := h
  exact ⟨hi, lo, rest, hhi, hlo, hrest, rfl⟩

theorem hexDecode_digits {cs : List Char} {bytes : Bytes} (h : hexDecode cs = some bytes) :
    cs.length = 2 * bytes.length ∧ ∀ c ∈ cs, (hexValue c).isSome = true := by
  induction cs using hexDecode.induct generalizing bytes with
  | case1 =>
    obtain rfl := Option.some.inj h
    simp
  | case2 c => cases h
  | case3 a b cs ih =>
    obtain ⟨hi, lo, rest, hhi, hlo, hrest, rfl⟩ := hexDecode_cons_cons_eq_some h
    obtain ⟨hlen, hall⟩ := ih hrest
    constructor
    · simp only [List.length_cons, hlen]
      omega
    · intro c hc
      simp only [List.mem_cons] at hc
      rcases hc with rfl | rfl | hc
      · rw [hhi]
        rfl
      · rw [hlo]
        rfl
      · exact hall c hc

theorem hexValue_hexDigit {k : Nat} (h : k < 16) : hexValue (hexDigit k) = some k := by
  interval_cases k <;> rfl

theorem hexDecode_cons_cons {a b : Char} {hi lo : Nat} (ha : hexValue a = some hi)
    (hb : hexValue b = some lo) (cs : List Char) :
    hexDecode (a :: b :: cs) = (hexDecode cs).map fun rest => UInt8.ofNat (16 * hi + lo) :: rest := by
  rw [hexDecode, ha, hb]
  cases hexDecode cs <;> rfl

theorem hexDecode_hexEncode (bs : Bytes) : hexDecode (hexEncode bs).toList = some bs := by
  have hdigits : hexDecode (bs.flatMap fun b => [hexDigit (b.toNat / 16), hexDigit (b.toNat % 16)]) =
      some bs := by
    induction bs with
    | nil => rfl
    | cons b bs ih =>
      have hlt := b.toNat_lt
      have hhi : hexValue (hexDigit (b.toNat / 16)) = some (b.toNat / 16) := hexValue_hexDigit (by omega)
      have hlo : hexValue (hexDigit (b.toNat % 16)) = some (b.toNat % 16) := hexValue_hexDigit (by omega)
      rw [List.flatMap_cons, List.cons_append, List.cons_append, List.nil_append,
        hexDecode_cons_cons hhi hlo, ih, Nat.div_add_mod]
      simp
  rw [← hdigits]
  exact congrArg hexDecode String.toList_ofList

theorem hexDecode_bad_first {c : Char} (h : hexValue c = none) (cs : List Char) :
    hexDecode (c :: cs) = none := by
  cases cs with
  | nil => rfl
  | cons b cs =>
    rw [hexDecode, h]
    rfl

theorem hexDecode_bad_second {b : Char} (h : hexValue b = none) (a : Char) (cs : List Char) :
    hexDecode (a :: b :: cs) = none := by
  rw [hexDecode, h]
  cases hexValue a <;> rfl

def byteChars (c : Char) : List Char := (String.utf8EncodeChar c).map fun b => Char.ofNat b.toNat

theorem decodeHex_eq_flatMap (cs : List Char) : decodeHex cs = hexDecode (cs.flatMap byteChars) :=
  congrArg hexDecode (List.map_flatMap ..)

theorem byteChars_of_ascii {c : Char} (h : c.toNat < 128) : byteChars c = [c] := by
  have hv : c.val.toNat ≤ 127 := Nat.le_of_lt_succ h
  have hbyte : (UInt8.ofNat c.val.toNat).toNat = c.toNat :=
    UInt8.toNat_ofNat_of_lt' (Nat.lt_of_le_of_lt hv (by decide))
  rw [byteChars, String.utf8EncodeChar, if_pos hv, List.map_singleton, hbyte, Char.ofNat_toNat]

theorem byteChars_of_large {c : Char} (h : 128 ≤ c.toNat) :
    ∃ d rest, byteChars c = d :: rest ∧ hexValue d = none := by
  have hv : ¬ c.val.toNat ≤ 127 := Nat.not_le.mpr h
  have hlarge : ∀ n, 128 ≤ n → n < 256 → hexValue (Char.ofNat (UInt8.ofNat n).toNat) = none := by
    intro n hn hlt
    apply hexValue_of_large
    rw [UInt8.toNat_ofNat_of_lt' hlt, Char.toNat_ofNat, if_pos (by simp [Nat.isValidChar]; omega)]
    exact hn
  rw [byteChars, String.utf8EncodeChar, if_neg hv]
  split_ifs
  · exact ⟨_, _, rfl, hlarge _ (by omega) (by omega)⟩
  · exact ⟨_, _, rfl, hlarge _ (by omega) (by omega)⟩
  · exact ⟨_, _, rfl, hlarge _ (by omega) (by omega)⟩

theorem decodeHex_eq_hexDecode (cs : List Char) : decodeHex cs = hexDecode cs := by
  rw [decodeHex_eq_flatMap]
  induction cs using hexDecode.induct with
  | case1 => rfl
  | case2 c =>
    rw [List.flatMap_singleton]
    rcases Nat.lt_or_ge c.toNat 128 with hc | hc
    · rw [byteChars_of_ascii hc]
    · obtain ⟨d, rest, hd, hnone⟩ := byteChars_of_large hc
      rw [hd, hexDecode_bad_first hnone]
      rfl
  | case3 a b cs ih =>
    rw [List.flatMap_cons]
    rcases Nat.lt_or_ge a.toNat 128 with ha | ha
    · rw [byteChars_of_ascii ha, List.flatMap_cons]
      rcases Nat.lt_or_ge b.toNat 128 with hb | hb
      · rw [byteChars_of_ascii hb]
        change hexDecode (a :: b :: cs.flatMap byteChars) = _
        rw [hexDecode, hexDecode, ih]
      · obtain ⟨d, rest, hd, hnone⟩ := byteChars_of_large hb
        rw [hd, hexDecode_bad_second (hexValue_of_large hb)]
        exact hexDecode_bad_second hnone a _
    · obtain ⟨d, rest, hd, hnone⟩ := byteChars_of_large ha
      rw [hd, hexDecode_bad_first (hexValue_of_large ha)]
      exact hexDecode_bad_first hnone _

theorem hexValue_of_whiteSpace {c : Char} (h : isWhiteSpace c = true) : hexValue c = none := by
  unfold hexValue
  unfold isWhiteSpace at h
  dsimp only at h ⊢
  simp only [Bool.or_eq_true, Bool.and_eq_true, decide_eq_true_eq, beq_iff_eq] at h
  rw [if_neg (by omega), if_neg (by omega), if_neg (by omega)]

theorem trim_eq_rdropWhile (cs : List Char) :
    trim cs = (cs.dropWhile isWhiteSpace).rdropWhile isWhiteSpace := rfl

def NoTrailing (cs : List Char) : Prop := ∀ h : cs ≠ [], ¬ isWhiteSpace (cs.getLast h) = true

theorem trim_of_noTrailing {cs : List Char} (h : NoTrailing cs) : trim cs = cs.dropWhile isWhiteSpace := by
  rw [trim_eq_rdropWhile, List.rdropWhile_eq_self_iff]
  intro hne
  have hsuffix : cs.dropWhile isWhiteSpace <:+ cs := List.dropWhile_suffix _
  have hcs : cs ≠ [] := fun hnil => hne (by rw [hnil]; rfl)
  rw [hsuffix.getLast hne]
  exact h hcs

theorem noTrailing_trim (cs : List Char) : NoTrailing (trim cs) := fun h => List.rdropWhile_last_not _ _ h

theorem NoTrailing.suffix {cs rest : List Char} (h : NoTrailing cs) (hs : rest <:+ cs) : NoTrailing rest := by
  intro hne
  have hcs : cs ≠ [] := fun hnil => hne (List.suffix_nil.mp (hnil ▸ hs))
  rw [hs.getLast hne]
  exact h hcs

theorem trim_of_none {cs : List Char} (h : ∀ c ∈ cs, ¬ isWhiteSpace c = true) : trim cs = cs := by
  have hdrop : cs.dropWhile isWhiteSpace = cs :=
    List.dropWhile_eq_self_iff.mpr fun hl => h _ (List.getElem_mem hl)
  rw [trim_eq_rdropWhile, hdrop]
  exact List.rdropWhile_eq_self_iff.mpr fun hne => h _ (List.getLast_mem hne)

theorem not_whiteSpace_of_hex {digits : List Char} (h : ∀ c ∈ digits, (hexValue c).isSome = true) :
    ∀ c ∈ digits, ¬ isWhiteSpace c = true := by
  intro c hc hw
  have hsome := h c hc
  rw [hexValue_of_whiteSpace hw] at hsome
  cases hsome

theorem trim_digits {space digits : List Char} (hspace : ∀ c ∈ space, isWhiteSpace c = true)
    (hdigits : ∀ c ∈ digits, (hexValue c).isSome = true) : trim (space ++ digits) = digits := by
  have hdrop : (space ++ digits).dropWhile isWhiteSpace = digits.dropWhile isWhiteSpace := by
    rw [List.dropWhile_append, List.dropWhile_eq_nil_iff.mpr hspace]
    rfl
  rw [trim_eq_rdropWhile, hdrop]
  exact trim_of_none (not_whiteSpace_of_hex hdigits)

theorem byteSplit_eq_some {n : Nat} {cs a b : List Char} (h : byteSplit n cs = some (a, b)) : cs = a ++ b := by
  induction n, cs using byteSplit.induct generalizing a with
  | case1 cs =>
    rw [byteSplit] at h
    cases h
    rfl
  | case2 n => cases h
  | case3 n c cs hsize ih =>
    rw [byteSplit, if_pos hsize, Option.map_eq_some_iff] at h
    obtain ⟨r, hr, heq⟩ := h
    cases heq
    rw [List.cons_append, ← ih hr]
  | case4 n c cs hsize =>
    rw [byteSplit, if_neg hsize] at h
    cases h

theorem byteSplit_ascii {a : List Char} (h : ∀ c ∈ a, c.utf8Size = 1) (b : List Char) :
    byteSplit a.length (a ++ b) = some (a, b) := by
  induction a with
  | nil => rw [List.length_nil, List.nil_append, byteSplit]
  | cons c a ih =>
    have hc : c.utf8Size = 1 := h c (by simp)
    have ha := ih fun d hd => h d (by simp [hd])
    rw [List.length_cons, List.cons_append, byteSplit, if_pos (by omega), hc, Nat.add_sub_cancel, ha]
    rfl

theorem toLower_eq {c d : Char} (h : c.toLower = d) : c = d ∨ c.toNat + 32 = d.toNat := by
  subst h
  unfold Char.toLower
  split_ifs with hupper
  · right
    have hle : c.val.toNat ≤ 90 := UInt32.le_iff_toNat_le.mp hupper.2
    have hadd : (c.val + 32).toNat = c.val.toNat + 32 := by
      rw [UInt32.toNat_add]
      exact Nat.mod_eq_of_lt (Nat.lt_of_le_of_lt (Nat.add_le_add_right hle 32) (by decide))
    exact hadd.symm
  · exact .inl rfl

theorem toNat_le_of_toLower (c : Char) : c.toNat ≤ c.toLower.toNat := by
  rcases toLower_eq (c := c) rfl with h | h
  · exact Nat.le_of_eq (congrArg Char.toNat h)
  · omega

def Carries (kind : IdPrefix) (text rest : List Char) : Prop :=
  ∃ front : List Char, text = front ++ rest ∧ front.map Char.toLower = kind.text

theorem IdPrefix.text_ascii (kind : IdPrefix) : ∀ c ∈ kind.text, c.toNat < 128 := by
  cases kind <;> simp [text]

theorem byteSplit_of_lower {kind : IdPrefix} {front : List Char} (h : front.map Char.toLower = kind.text)
    (rest : List Char) : byteSplit 4 (front ++ rest) = some (front, rest) := by
  have hlen : front.length = 4 := by
    rw [← List.length_map (f := Char.toLower), h]
    cases kind <;> rfl
  have hascii : ∀ c ∈ front, c.utf8Size = 1 := by
    intro c hc
    have hlower : c.toLower ∈ kind.text := h ▸ List.mem_map_of_mem hc
    have hlt := IdPrefix.text_ascii kind _ hlower
    have hle := toNat_le_of_toLower c
    exact Char.utf8Size_eq_one_iff.mpr (UInt32.le_iff_toNat_le.mpr (by
      change c.toNat ≤ 127
      omega))
  rw [← hlen]
  exact byteSplit_ascii hascii rest

namespace IdText

theorem findPrefix_of_carries {kind : IdPrefix} {text rest : List Char} (h : Carries kind text rest) :
    findPrefix text = (some kind, rest) := by
  obtain ⟨front, rfl, hlower⟩ := h
  rw [findPrefix, byteSplit_of_lower hlower]
  dsimp only
  rw [hlower]
  cases kind <;> rfl

theorem carries_of_findPrefix {kind : IdPrefix} {text rest : List Char}
    (h : findPrefix text = (some kind, rest)) : Carries kind text rest := by
  unfold findPrefix at h
  split at h
  · next candidate tail hsplit =>
    split_ifs at h with hblob hprogram
    · cases h
      exact ⟨candidate, byteSplit_eq_some hsplit, hblob⟩
    · cases h
      exact ⟨candidate, byteSplit_eq_some hsplit, hprogram⟩
    · cases h
  · cases h

theorem findPrefix_none {text rest : List Char} (h : findPrefix text = (none, rest)) : rest = text := by
  unfold findPrefix at h
  split at h
  · split_ifs at h <;> cases h
    rfl
  · cases h
    rfl

end IdText

theorem not_hex_of_lower {c d : Char} (h : c.toLower = d) (hd : d = 'l' ∨ d = 'r') : hexValue c = none := by
  have hcode : c.toNat = 76 ∨ c.toNat = 82 ∨ c.toNat = 108 ∨ c.toNat = 114 := by
    rcases hd with rfl | rfl
    · rcases toLower_eq h with rfl | hc
      · decide
      · have : 'l'.toNat = 108 := rfl
        omega
    · rcases toLower_eq h with rfl | hc
      · decide
      · have : 'r'.toNat = 114 := rfl
        omega
  unfold hexValue
  dsimp only
  rw [if_neg (by omega), if_neg (by omega), if_neg (by omega)]

theorem Carries.not_hex {kind : IdPrefix} {text rest : List Char} (h : Carries kind text rest) :
    ∃ c ∈ text, hexValue c = none := by
  obtain ⟨front, rfl, hlower⟩ := h
  have hsecond : ∃ d ∈ kind.text, d = 'l' ∨ d = 'r' := by
    cases kind <;> simp [IdPrefix.text]
  obtain ⟨d, hd, hletter⟩ := hsecond
  rw [← hlower] at hd
  obtain ⟨c, hc, hcd⟩ := List.mem_map.mp hd
  exact ⟨c, List.mem_append_left _ hc, not_hex_of_lower hcd hletter⟩

/-- 64 hex digits and the bytes that they spell. -/
structure Spells (digits : List Char) (bytes : Bytes32) : Prop where
  length : digits.length = 64
  hex : ∀ c ∈ digits, (hexValue c).isSome = true
  decodes : hexDecode digits = some bytes.bytes

theorem spells_of_decodes {digits : List Char} {bytes : Bytes32} (h : hexDecode digits = some bytes.bytes) :
    Spells digits bytes := by
  obtain ⟨hlen, hhex⟩ := hexDecode_digits h
  refine ⟨?_, hhex, h⟩
  rw [hlen, FixedBytes.length_bytes]

def PrefixedSpells (kind : IdPrefix) (text : List Char) (bytes : Bytes32) : Prop :=
  ∃ space digits, Carries kind text (space ++ digits) ∧ (∀ c ∈ space, isWhiteSpace c = true) ∧
    Spells digits bytes

def ReadsAs (text : List Char) (bytes : Bytes32) : Option IdPrefix → Prop
  | none => Spells text bytes
  | some kind => PrefixedSpells kind text bytes

namespace IdText

variable {hexError : List Char → String}

theorem findPrefix_digits {text : List Char} {bytes : Bytes32} (h : Spells text bytes) :
    findPrefix text = (none, text) := by
  rcases hf : findPrefix text with ⟨_ | kind, rest⟩
  · rw [findPrefix_none hf]
  · obtain ⟨c, hc, hnone⟩ := (carries_of_findPrefix hf).not_hex
    have hsome := h.hex c hc
    rw [hnone] at hsome
    cases hsome

theorem readsAs_iff {text : List Char} (htrim : trim text = text) (found : Option IdPrefix) (bytes : Bytes32) :
    ReadsAs text bytes found ↔ ∃ rest, findPrefix text = (found, rest) ∧
      hexDecode (trim rest) = some bytes.bytes := by
  constructor
  · intro h
    cases found with
    | none =>
      have h : Spells text bytes := h
      exact ⟨text, findPrefix_digits h, htrim.symm ▸ h.decodes⟩
    | some kind =>
      obtain ⟨space, digits, hcarries, hspace, hdigits⟩ := h
      refine ⟨space ++ digits, findPrefix_of_carries hcarries, ?_⟩
      rw [trim_digits hspace hdigits.hex]
      exact hdigits.decodes
  · rintro ⟨rest, hf, hdecode⟩
    cases found with
    | none =>
      obtain rfl := findPrefix_none hf
      rw [htrim] at hdecode
      exact spells_of_decodes hdecode
    | some kind =>
      obtain ⟨front, htext, hlower⟩ := carries_of_findPrefix hf
      have hend : NoTrailing rest :=
        (htrim ▸ noTrailing_trim text).suffix ⟨front, htext.symm⟩
      rw [trim_of_noTrailing hend] at hdecode
      refine ⟨rest.takeWhile isWhiteSpace, rest.dropWhile isWhiteSpace, ⟨front, ?_, hlower⟩,
        fun c hc => List.mem_takeWhile_imp hc, spells_of_decodes hdecode⟩
      rw [List.takeWhile_append_dropWhile]
      exact htext

theorem trim_trim (cs : List Char) : trim (trim cs) = trim cs := by
  rw [trim_of_noTrailing (noTrailing_trim cs), List.dropWhile_eq_self_iff]
  intro hl
  have hbegin : trim cs <+: cs.dropWhile isWhiteSpace := List.rdropWhile_prefix _ _
  rw [hbegin.getElem hl]
  exact List.dropWhile_get_zero_not _ _ _

theorem parsePrefixedHexId_eq_ok {input : String} {found : Option IdPrefix} {bytes : Bytes32} :
    parsePrefixedHexId hexError input = .ok (found, bytes) ↔ ReadsAs (trim input.toList) bytes found := by
  rw [readsAs_iff (trim_trim _)]
  unfold parsePrefixedHexId
  dsimp only
  rw [decodeHex_eq_hexDecode]
  constructor
  · intro h
    split_ifs at h with hempty
    split at h
    · cases h
    · next decoded hdecode =>
      split_ifs at h with hlen
      cases h
      exact ⟨_, rfl, hdecode⟩
  · rintro ⟨rest, hf, hdecode⟩
    rw [hf]
    dsimp only
    have hempty : ¬ (trim input.toList).isEmpty = true := by
      intro hnil
      rw [List.isEmpty_iff.mp hnil] at hf
      cases hf
      have hbytes : bytes.bytes = [] := (Option.some.inj hdecode).symm
      have hlen := bytes.length_bytes
      rw [hbytes] at hlen
      cases hlen
    rw [if_neg hempty, hdecode]
    exact dif_pos bytes.length_bytes

theorem parseUnless_eq_ok {other : IdPrefix} {message input : String} {bytes : Bytes32} :
    parseUnless hexError other message input = .ok bytes ↔
      ∃ found, found ≠ some other ∧ ReadsAs (trim input.toList) bytes found := by
  unfold parseUnless
  constructor
  · intro h
    split at h
    · cases h
    · next found decoded hparse =>
      split_ifs at h with hother
      cases h
      exact ⟨found, hother, parsePrefixedHexId_eq_ok.mp hparse⟩
  · rintro ⟨found, hother, hreads⟩
    rw [parsePrefixedHexId_eq_ok.mpr hreads]
    exact if_neg hother

theorem parseUnless_eq_ok_iff {kind other : IdPrefix} (hkind : ∀ k, k ≠ other ↔ k = kind)
    {message input : String} {bytes : Bytes32} :
    parseUnless hexError other message input = .ok bytes ↔
      Spells (trim input.toList) bytes ∨ PrefixedSpells kind (trim input.toList) bytes := by
  rw [parseUnless_eq_ok]
  constructor
  · rintro ⟨found, hother, hreads⟩
    cases found with
    | none => exact .inl hreads
    | some k =>
      obtain rfl := (hkind k).mp fun hk => hother (congrArg some hk)
      exact .inr hreads
  · rintro (hspells | hprefixed)
    · exact ⟨none, nofun, hspells⟩
    · exact ⟨some kind, fun hk => (hkind kind).mpr rfl (Option.some.inj hk), hprefixed⟩

theorem parseUnless_of_carries {other : IdPrefix} {message input : String} {rest : List Char}
    (h : Carries other (trim input.toList) rest) (bytes : Bytes32) :
    parseUnless hexError other message input ≠ .ok bytes := by
  intro hok
  obtain ⟨found, hother, hreads⟩ := parseUnless_eq_ok.mp hok
  obtain ⟨rest', hf, -⟩ := (readsAs_iff (trim_trim _) found bytes).mp hreads
  rw [findPrefix_of_carries h] at hf
  cases hf
  exact hother rfl

theorem prefixedSpells_printed (kind : IdPrefix) (bytes : Bytes32) :
    PrefixedSpells kind (trim (kind.text ++ (hexEncode bytes.bytes).toList)) bytes := by
  have hspells : Spells (hexEncode bytes.bytes).toList bytes := spells_of_decodes (hexDecode_hexEncode _)
  have hdigits := not_whiteSpace_of_hex hspells.hex
  have hletters : ∀ c ∈ kind.text, ¬ isWhiteSpace c = true := by
    cases kind <;> simp [IdPrefix.text, isWhiteSpace]
  have htrim : trim (kind.text ++ (hexEncode bytes.bytes).toList) = _ := trim_of_none fun c hc =>
    (List.mem_append.mp hc).elim (hletters c) (hdigits c)
  have hlower : kind.text.map Char.toLower = kind.text := by cases kind <;> rfl
  rw [htrim]
  exact ⟨[], _, ⟨kind.text, rfl, hlower⟩, nofun, hspells⟩

theorem map_eq_ok {ε α : Type} {f : Bytes32 → α} {g : α → Bytes32} (hfg : ∀ a, f (g a) = a)
    (hgf : ∀ b, g (f b) = b) {x : Except ε Bytes32} {a : α} : x.map f = .ok a ↔ x = .ok (g a) := by
  cases x with
  | error e => exact ⟨nofun, nofun⟩
  | ok b =>
    constructor
    · intro h
      rw [← Except.ok.inj h, hgf]
    · intro h
      rw [Except.ok.inj h, ← congrArg Except.ok (hfg a)]
      rfl

theorem parseProgramIdStr_eq {s : String} {p : ProgramId} : parseProgramIdStr hexError s = .ok p ↔
    parseUnless hexError .blob "expected program id, got blob id prefix" s = .ok p.bytes :=
  map_eq_ok (fun _ => rfl) fun _ => rfl

theorem parseBlobIdStr_eq {s : String} {b : BlobId} : parseBlobIdStr hexError s = .ok b ↔
    parseUnless hexError .program "expected blob id, got program id prefix" s = .ok b.bytes :=
  map_eq_ok (fun _ => rfl) fun _ => rfl

theorem parseProgramIdStr_eq_ok {s : String} {p : ProgramId} :
    parseProgramIdStr hexError s = .ok p ↔
      Spells (trim s.toList) p.bytes ∨ PrefixedSpells .program (trim s.toList) p.bytes := by
  have hkind : ∀ k, k ≠ IdPrefix.blob ↔ k = .program := fun k => by cases k <;> decide
  rw [parseProgramIdStr_eq, parseUnless_eq_ok_iff hkind]

theorem parseBlobIdStr_eq_ok {s : String} {b : BlobId} :
    parseBlobIdStr hexError s = .ok b ↔
      Spells (trim s.toList) b.bytes ∨ PrefixedSpells .blob (trim s.toList) b.bytes := by
  have hkind : ∀ k, k ≠ IdPrefix.program ↔ k = .blob := fun k => by cases k <;> decide
  rw [parseBlobIdStr_eq, parseUnless_eq_ok_iff hkind]

end IdText

/-- Each reader accepts 64 hex digits, with or without its own prefix, and gives the bytes that they
spell. So what is printed is read back, an id with the other prefix is refused, and digits alone are not
taken for a prefix. -/
theorem id_parsing_inverts_printing (hexError : List Char → String) :
    (∀ s p, IdText.parseProgramIdStr hexError s = .ok p ↔
        Spells (trim s.toList) p.bytes ∨ PrefixedSpells .program (trim s.toList) p.bytes) ∧
      (∀ s b, IdText.parseBlobIdStr hexError s = .ok b ↔
        Spells (trim s.toList) b.bytes ∨ PrefixedSpells .blob (trim s.toList) b.bytes) ∧
      (∀ p : ProgramId, IdText.parseProgramIdStr hexError p.toPrefixedString = .ok p) ∧
      (∀ b : BlobId, IdText.parseBlobIdStr hexError b.toPrefixedString = .ok b) ∧
      (∀ s rest p, Carries .blob (trim s.toList) rest → IdText.parseProgramIdStr hexError s ≠ .ok p) ∧
      (∀ s rest b, Carries .program (trim s.toList) rest → IdText.parseBlobIdStr hexError s ≠ .ok b) ∧
      ∀ s bytes, Spells (trim s.toList) bytes →
        IdText.parsePrefixedHexId hexError s = .ok (none, bytes) := by
  refine ⟨fun s p => IdText.parseProgramIdStr_eq_ok, fun s b => IdText.parseBlobIdStr_eq_ok, fun p => ?_,
    fun b => ?_, fun s rest p hcarries hok => ?_, fun s rest b hcarries hok => ?_, fun s bytes hspells => ?_⟩
  · have hprinted := IdText.prefixedSpells_printed .program p.bytes
    rw [IdText.parseProgramIdStr_eq_ok, ProgramId.toPrefixedString, String.toList_append]
    exact .inr hprinted
  · have hprinted := IdText.prefixedSpells_printed .blob b.bytes
    rw [IdText.parseBlobIdStr_eq_ok, BlobId.toPrefixedString, String.toList_append]
    exact .inr hprinted
  · exact IdText.parseUnless_of_carries hcarries p.bytes (IdText.parseProgramIdStr_eq.mp hok)
  · exact IdText.parseUnless_of_carries hcarries b.bytes (IdText.parseBlobIdStr_eq.mp hok)
  · exact IdText.parsePrefixedHexId_eq_ok.mpr hspells

end Onvm
