import ScriptLint.Text.Utf8

/-! The bytes of a text, read back.

    Utf8.decode? bs = some s  ↔  bs = Bytes.ofString s      (decode?_eq_some_iff)

An encoded character is read as one part, whatever follows it (`exists_encodes`),
and a well-formed part is the encoding of its character (`encode_of_part`); texts
follow by induction.  As no byte of a character is NUL, unless the character is,
a text can be closed by one and found again (`cutAtNul?_append`). -/

namespace ScriptLint

/-! ## Bytes -/

/-- What holds of the bytes from 0 to 255 holds of every byte. -/
theorem forall_byte {P : UInt8 → Prop} (h : ∀ n, n < 256 → P n.toUInt8) (b : UInt8) : P b := by
  have hb : b.toNat.toUInt8 = b := by simp
  exact hb ▸ h b.toNat b.toNat_lt

namespace Utf8

/-! ## One character -/

theorem isTrailing_iff {x : UInt8} : isTrailing x = true ↔ 0x80 ≤ x ∧ x ≤ 0xBF := by
  rw [isTrailing, Bool.and_eq_true, decide_eq_true_eq, decide_eq_true_eq]

/-- `b` leads `n` trailing bytes, the first of which can be `x`. -/
def Leads (b : UInt8) (n : Nat) (x : UInt8) : Prop :=
  ∃ low high, lead? b = some ⟨n, low, high⟩ ∧ low ≤ x ∧ x ≤ high

theorem leads_two {b x : UInt8} (h1 : 0xC2 ≤ b) (h2 : b < 0xE0) (hx : isTrailing x = true) :
    Leads b 1 x := by
  refine ⟨0x80, 0xBF, ?_, isTrailing_iff.mp hx⟩
  unfold lead?
  rw [if_neg (UInt8.not_lt.mpr h1), if_pos h2]

/-- The narrowed ranges are those of the forms that would be overlong or a surrogate. -/
theorem leads_three {b x : UInt8} (h1 : 0xE0 ≤ b) (h2 : b < 0xF0) (hx : isTrailing x = true)
    (hlong : b = 0xE0 → 0xA0 ≤ x) (hsurrogate : b = 0xED → x ≤ 0x9F) : Leads b 2 x := by
  rw [isTrailing_iff] at hx
  by_cases hE0 : b = 0xE0
  · subst hE0
    exact ⟨0xA0, 0xBF, rfl, hlong rfl, hx.2⟩
  by_cases hED : b = 0xED
  · subst hED
    exact ⟨0x80, 0x9F, rfl, hx.1, hsurrogate rfl⟩
  refine ⟨0x80, 0xBF, ?_, hx⟩
  unfold lead?
  rw [if_neg, if_neg, if_neg hE0, if_neg hED, if_pos h2] <;> grind

/-- The narrowed ranges are those of the forms that would be overlong or above U+10FFFF. -/
theorem leads_four {b x : UInt8} (h1 : 0xF0 ≤ b) (h2 : b ≤ 0xF4) (hx : isTrailing x = true)
    (hlong : b = 0xF0 → 0x90 ≤ x) (hlarge : b = 0xF4 → x ≤ 0x8F) : Leads b 3 x := by
  rw [isTrailing_iff] at hx
  by_cases hF0 : b = 0xF0
  · subst hF0
    exact ⟨0x90, 0xBF, rfl, hlong rfl, hx.2⟩
  by_cases hF4 : b = 0xF4
  · subst hF4
    exact ⟨0x80, 0x8F, rfl, hx.1, hlarge rfl⟩
  refine ⟨0x80, 0xBF, ?_, hx⟩
  unfold lead?
  rw [if_neg, if_neg, if_neg, if_neg, if_neg, if_neg hF0, if_pos] <;> grind

theorem trail_append {low high x : UInt8} {t : Bytes} (hlow : low ≤ x) (hhigh : x ≤ high)
    (ht : ∀ y ∈ t, isTrailing y = true) (rest : Bytes) :
    trail (t.length + 1) low high (x :: t ++ rest) = x :: t := by
  induction t generalizing x low high with
  | nil => simp [trail, hlow, hhigh]
  | cons y t ih =>
    have hy := isTrailing_iff.mp (ht y List.mem_cons_self)
    show (if low ≤ x ∧ x ≤ high then x :: trail (t.length + 1) 0x80 0xBF (y :: t ++ rest) else []) = _
    rw [if_pos ⟨hlow, hhigh⟩, ih hy.1 hy.2 fun z hz => ht z (List.mem_cons_of_mem y hz)]

/-- `b :: t` encodes `c`: it is one part, whatever follows it. -/
structure Encodes (b : UInt8) (t : Bytes) (c : Char) : Prop where
  trailing : ∀ y ∈ t, isTrailing y = true
  part_eq : ∀ rest, part b (t ++ rest) = (some c, t.length)

theorem encodes_of_leads {b x : UInt8} {t : Bytes} {c : Char} (h : Leads b (t.length + 1) x)
    (ht : ∀ y ∈ x :: t, isTrailing y = true) (hc : assemble b (x :: t) = c.toNat) :
    Encodes b (x :: t) c := by
  obtain ⟨low, high, hlead, hlow, hhigh⟩ := h
  have hb : ¬ b < 0x80 := by
    intro hb
    have hC2 : b < 0xC2 := by grind
    rw [lead?, if_pos hC2] at hlead
    cases hlead
  have htrail := trail_append hlow hhigh fun y hy => ht y (List.mem_cons_of_mem x hy)
  refine ⟨ht, fun rest => ?_⟩
  unfold part
  rw [if_neg hb, hlead]
  simp only [htrail, List.length_cons, if_true, hc, Char.ofNat_toNat]

theorem encodes_one {c : Char} (h : c.toNat ≤ 0x7F) : Encodes (UInt8.ofNat c.toNat) [] c := by
  have hn : (UInt8.ofNat c.toNat).toNat = c.toNat := by
    rw [UInt8.toNat_ofNat']
    omega
  refine ⟨nofun, fun rest => ?_⟩
  unfold part
  rw [if_pos, hn, Char.ofNat_toNat]
  · rfl
  · rw [UInt8.lt_iff_toNat_lt, hn]
    exact Nat.lt_succ_of_le h

theorem assemble_two (b x : UInt8) :
    assemble b [x] = b.toNat % 32 * 64 + x.toNat % 64 := rfl

theorem assemble_three (b x y : UInt8) :
    assemble b [x, y] = (b.toNat % 16 * 64 + x.toNat % 64) * 64 + y.toNat % 64 := rfl

theorem assemble_four (b x y z : UInt8) : assemble b [x, y, z] =
    ((b.toNat % 8 * 64 + x.toNat % 64) * 64 + y.toNat % 64) * 64 + z.toNat % 64 := rfl

theorem isTrailing_ofNat (n : Nat) : isTrailing (UInt8.ofNat (n % 64 + 128)) = true := by
  simp only [isTrailing_iff, UInt8.le_iff_toNat_le, UInt8.toNat_ofNat', UInt8.reduceToNat]
  omega

theorem encodes_two {c : Char} (h1 : 0x7F < c.toNat) (h2 : c.toNat ≤ 0x7FF) :
    Encodes (UInt8.ofNat (c.toNat / 64 % 32 + 192)) [UInt8.ofNat (c.toNat % 64 + 128)] c := by
  refine encodes_of_leads (leads_two ?_ ?_ (isTrailing_ofNat _)) ?_ ?_
  · simp only [UInt8.le_iff_toNat_le, UInt8.toNat_ofNat', UInt8.reduceToNat]
    omega
  · simp only [UInt8.lt_iff_toNat_lt, UInt8.toNat_ofNat', UInt8.reduceToNat]
    omega
  · exact List.forall_mem_singleton.mpr (isTrailing_ofNat _)
  · simp only [assemble_two, UInt8.toNat_ofNat']
    omega

theorem encodes_three {c : Char} (h1 : 0x7FF < c.toNat) (h2 : c.toNat ≤ 0xFFFF) :
    Encodes (UInt8.ofNat (c.toNat / 4096 % 16 + 224))
      [UInt8.ofNat (c.toNat / 64 % 64 + 128), UInt8.ofNat (c.toNat % 64 + 128)] c := by
  have hvalid : c.toNat < 0xD800 ∨ (0xDFFF < c.toNat ∧ c.toNat < 0x110000) := c.valid
  refine encodes_of_leads (leads_three ?_ ?_ (isTrailing_ofNat _) ?_ ?_) ?_ ?_
  · simp only [UInt8.le_iff_toNat_le, UInt8.toNat_ofNat', UInt8.reduceToNat]
    omega
  · simp only [UInt8.lt_iff_toNat_lt, UInt8.toNat_ofNat', UInt8.reduceToNat]
    omega
  · simp only [← UInt8.toNat_inj, UInt8.le_iff_toNat_le, UInt8.toNat_ofNat', UInt8.reduceToNat]
    omega
  · simp only [← UInt8.toNat_inj, UInt8.le_iff_toNat_le, UInt8.toNat_ofNat', UInt8.reduceToNat]
    omega
  · simp only [List.forall_mem_cons, isTrailing_ofNat, true_and]
    exact nofun
  · simp only [assemble_three, UInt8.toNat_ofNat']
    omega

theorem encodes_four {c : Char} (h : 0xFFFF < c.toNat) :
    Encodes (UInt8.ofNat (c.toNat / 262144 % 8 + 240))
      [UInt8.ofNat (c.toNat / 4096 % 64 + 128), UInt8.ofNat (c.toNat / 64 % 64 + 128),
        UInt8.ofNat (c.toNat % 64 + 128)] c := by
  have hvalid : c.toNat < 0xD800 ∨ (0xDFFF < c.toNat ∧ c.toNat < 0x110000) := c.valid
  refine encodes_of_leads (leads_four ?_ ?_ (isTrailing_ofNat _) ?_ ?_) ?_ ?_
  · simp only [UInt8.le_iff_toNat_le, UInt8.toNat_ofNat', UInt8.reduceToNat]
    omega
  · simp only [UInt8.le_iff_toNat_le, UInt8.toNat_ofNat', UInt8.reduceToNat]
    omega
  · simp only [← UInt8.toNat_inj, UInt8.le_iff_toNat_le, UInt8.toNat_ofNat', UInt8.reduceToNat]
    omega
  · simp only [← UInt8.toNat_inj, UInt8.le_iff_toNat_le, UInt8.toNat_ofNat', UInt8.reduceToNat]
    omega
  · simp only [List.forall_mem_cons, isTrailing_ofNat, true_and]
    exact nofun
  · simp only [assemble_four, UInt8.toNat_ofNat']
    omega

section
variable {c : Char}

theorem utf8EncodeChar_one (h : c.toNat ≤ 0x7F) :
    String.utf8EncodeChar c = [UInt8.ofNat c.toNat] :=
  if_pos h

theorem utf8EncodeChar_two (h1 : 0x7F < c.toNat) (h2 : c.toNat ≤ 0x7FF) :
    String.utf8EncodeChar c =
      [UInt8.ofNat (c.toNat / 64 % 32 + 192), UInt8.ofNat (c.toNat % 64 + 128)] :=
  (if_neg (Nat.not_le.mpr h1)).trans (if_pos h2)

theorem utf8EncodeChar_three (h1 : 0x7FF < c.toNat) (h2 : c.toNat ≤ 0xFFFF) :
    String.utf8EncodeChar c =
      [UInt8.ofNat (c.toNat / 4096 % 16 + 224), UInt8.ofNat (c.toNat / 64 % 64 + 128),
        UInt8.ofNat (c.toNat % 64 + 128)] :=
  (if_neg (c := c.toNat ≤ 0x7F) (by omega)).trans
    ((if_neg (Nat.not_le.mpr h1)).trans (if_pos h2))

theorem utf8EncodeChar_four (h : 0xFFFF < c.toNat) :
    String.utf8EncodeChar c =
      [UInt8.ofNat (c.toNat / 262144 % 8 + 240), UInt8.ofNat (c.toNat / 4096 % 64 + 128),
        UInt8.ofNat (c.toNat / 64 % 64 + 128), UInt8.ofNat (c.toNat % 64 + 128)] :=
  (if_neg (c := c.toNat ≤ 0x7F) (by omega)).trans
    ((if_neg (c := c.toNat ≤ 0x7FF) (by omega)).trans (if_neg (Nat.not_le.mpr h)))

end

/-- The forms of one to four bytes between them encode every character. -/
theorem exists_encodes (c : Char) : ∃ b t, String.utf8EncodeChar c = b :: t ∧ Encodes b t c := by
  by_cases h1 : c.toNat ≤ 0x7F
  · exact ⟨_, _, utf8EncodeChar_one h1, encodes_one h1⟩
  have h1 := Nat.lt_of_not_le h1
  by_cases h2 : c.toNat ≤ 0x7FF
  · exact ⟨_, _, utf8EncodeChar_two h1 h2, encodes_two h1 h2⟩
  have h2 := Nat.lt_of_not_le h2
  by_cases h3 : c.toNat ≤ 0xFFFF
  · exact ⟨_, _, utf8EncodeChar_three h2 h3, encodes_three h2 h3⟩
  have h3 := Nat.lt_of_not_le h3
  exact ⟨_, _, utf8EncodeChar_four h3, encodes_four h3⟩

theorem Encodes.isTrailing_head {b : UInt8} {t : Bytes} {c : Char} (h : Encodes b t c) :
    isTrailing b = false := by
  by_cases hb : isTrailing b = true
  · rw [isTrailing_iff] at hb
    have hlead : lead? b = none := by
      rw [lead?, if_pos]
      grind
    have hp := h.part_eq []
    rw [part, if_neg (UInt8.not_lt.mpr hb.1), hlead] at hp
    cases hp
  · exact Bool.eq_false_iff.mpr hb

/-! ## One character, the other way -/

/-- What a lead byte asks of the bytes after it. -/
theorem lead?_spec (b : UInt8) : ∀ l ∈ lead? b, 0x80 ≤ l.low ∧ l.high ≤ 0xBF ∧
    ((l.trailing = 1 ∧ 0xC2 ≤ b ∧ b < 0xE0) ∨
     (l.trailing = 2 ∧ 0xE0 ≤ b ∧ b < 0xF0 ∧ (b = 0xE0 → 0xA0 ≤ l.low) ∧
       (b = 0xED → l.high ≤ 0x9F)) ∨
     (l.trailing = 3 ∧ 0xF0 ≤ b ∧ b ≤ 0xF4 ∧ (b = 0xF0 → 0x90 ≤ l.low) ∧
       (b = 0xF4 → l.high ≤ 0x8F))) := by
  revert b
  exact forall_byte (by decide +kernel)

theorem isTrailing_of_mem_trail {n : Nat} {bs : Bytes} {y : UInt8}
    (h : y ∈ trail n 0x80 0xBF bs) : isTrailing y = true := by
  induction bs generalizing n with
  | nil => cases n <;> cases h
  | cons b bs ih =>
    cases n with
    | zero => cases h
    | succ n =>
      rw [trail] at h
      split at h
      next hb =>
        rcases List.mem_cons.mp h with rfl | h
        · exact isTrailing_iff.mpr hb
        · exact ih h
      next => cases h

theorem of_trail_eq_cons {n : Nat} {low high x : UInt8} {bs t : Bytes}
    (h : trail n low high bs = x :: t) :
    low ≤ x ∧ x ≤ high ∧ ∀ y ∈ t, isTrailing y = true := by
  cases n with
  | zero => cases h
  | succ n =>
    cases bs with
    | nil => cases h
    | cons b bs =>
      rw [trail] at h
      split at h
      next hb =>
        cases h
        exact ⟨hb.1, hb.2, fun y hy => isTrailing_of_mem_trail hy⟩
      next => cases h

theorem trail_initial (n : Nat) (low high : UInt8) (bs : Bytes) : trail n low high bs <+: bs := by
  fun_induction trail n low high bs with
  | case1 n low high b rest h ih => exact List.cons_prefix_cons.mpr ⟨rfl, ih⟩
  | case2 => exact List.nil_prefix
  | case3 => exact List.nil_prefix

theorem toNat_of_isTrailing {x : UInt8} (h : isTrailing x = true) :
    0x80 ≤ x.toNat ∧ x.toNat ≤ 0xBF := by
  simpa [isTrailing_iff, UInt8.le_iff_toNat_le] using h

theorem toNat_ofNat_of_valid {n : Nat} (h : n.isValidChar) : (Char.ofNat n).toNat = n := by
  rw [Char.ofNat, dif_pos h]
  rfl

theorem encode_one {b : UInt8} (hb : b < 0x80) :
    String.utf8EncodeChar (Char.ofNat b.toNat) = [b] := by
  simp only [UInt8.lt_iff_toNat_lt, UInt8.reduceToNat] at hb
  have hn : (Char.ofNat b.toNat).toNat = b.toNat := toNat_ofNat_of_valid (.inl (by omega))
  rw [utf8EncodeChar_one (by omega), hn, UInt8.ofNat_toNat]

theorem encode_two {b x : UInt8} (h1 : 0xC2 ≤ b) (h2 : b < 0xE0) (hx : isTrailing x = true) :
    String.utf8EncodeChar (Char.ofNat (assemble b [x])) = [b, x] := by
  simp only [UInt8.le_iff_toNat_le, UInt8.lt_iff_toNat_lt, UInt8.reduceToNat] at h1 h2
  have hx := toNat_of_isTrailing hx
  generalize hv : assemble b [x] = v
  rw [assemble_two] at hv
  have hn : (Char.ofNat v).toNat = v := toNat_ofNat_of_valid (.inl (by omega))
  generalize Char.ofNat v = c at hn
  rw [utf8EncodeChar_two (by omega) (by omega)]
  simp only [List.cons.injEq, ← UInt8.toNat_inj, UInt8.toNat_ofNat', and_true]
  omega

theorem encode_three {b x y : UInt8} (h1 : 0xE0 ≤ b) (h2 : b < 0xF0) (hx : isTrailing x = true)
    (hlong : b = 0xE0 → 0xA0 ≤ x) (hsurrogate : b = 0xED → x ≤ 0x9F)
    (hy : isTrailing y = true) :
    String.utf8EncodeChar (Char.ofNat (assemble b [x, y])) = [b, x, y] := by
  simp only [UInt8.le_iff_toNat_le, UInt8.lt_iff_toNat_lt, ← UInt8.toNat_inj,
    UInt8.reduceToNat] at h1 h2 hlong hsurrogate
  have hx := toNat_of_isTrailing hx
  have hy := toNat_of_isTrailing hy
  generalize hv : assemble b [x, y] = v
  rw [assemble_three] at hv
  have hvalid : v < 0xD800 ∨ (0xDFFF < v ∧ v < 0x110000) := by omega
  have hn : (Char.ofNat v).toNat = v := toNat_ofNat_of_valid hvalid
  generalize Char.ofNat v = c at hn
  rw [utf8EncodeChar_three (by omega) (by omega)]
  simp only [List.cons.injEq, ← UInt8.toNat_inj, UInt8.toNat_ofNat', and_true]
  omega

theorem encode_four {b x y z : UInt8} (h1 : 0xF0 ≤ b) (h2 : b ≤ 0xF4) (hx : isTrailing x = true)
    (hlong : b = 0xF0 → 0x90 ≤ x) (hlarge : b = 0xF4 → x ≤ 0x8F)
    (hy : isTrailing y = true) (hz : isTrailing z = true) :
    String.utf8EncodeChar (Char.ofNat (assemble b [x, y, z])) = [b, x, y, z] := by
  simp only [UInt8.le_iff_toNat_le, ← UInt8.toNat_inj, UInt8.reduceToNat] at h1 h2 hlong hlarge
  have hx := toNat_of_isTrailing hx
  have hy := toNat_of_isTrailing hy
  have hz := toNat_of_isTrailing hz
  generalize hv : assemble b [x, y, z] = v
  rw [assemble_four] at hv
  have hvalid : v < 0xD800 ∨ (0xDFFF < v ∧ v < 0x110000) := by omega
  have hn : (Char.ofNat v).toNat = v := toNat_ofNat_of_valid hvalid
  generalize Char.ofNat v = c at hn
  rw [utf8EncodeChar_four (by omega)]
  simp only [List.cons.injEq, ← UInt8.toNat_inj, UInt8.toNat_ofNat', and_true]
  omega

theorem encode_of_lead {b x : UInt8} {t : Bytes} {l : Lead} (h : lead? b = some l)
    (hlow : l.low ≤ x) (hhigh : x ≤ l.high) (ht : ∀ y ∈ t, isTrailing y = true)
    (hlen : t.length + 1 = l.trailing) :
    String.utf8EncodeChar (Char.ofNat (assemble b (x :: t))) = b :: x :: t := by
  obtain ⟨h80, hBF, hforms⟩ := lead?_spec b l h
  have hx : isTrailing x = true :=
    isTrailing_iff.mpr ⟨UInt8.le_trans h80 hlow, UInt8.le_trans hhigh hBF⟩
  rcases hforms with ⟨hn, h1, h2⟩ | ⟨hn, h1, h2, h3, h4⟩ | ⟨hn, h1, h2, h3, h4⟩
  · have hlen : t.length = 0 := by omega
    obtain rfl := List.length_eq_zero_iff.mp hlen
    exact encode_two h1 h2 hx
  · have hlen : t.length = 1 := by omega
    match t, hlen with
    | [y], _ =>
      exact encode_three h1 h2 hx (fun hb => UInt8.le_trans (h3 hb) hlow)
        (fun hb => UInt8.le_trans hhigh (h4 hb)) (ht y List.mem_cons_self)
  · have hlen : t.length = 2 := by omega
    match t, hlen with
    | [y, z], _ =>
      exact encode_four h1 h2 hx (fun hb => UInt8.le_trans (h3 hb) hlow)
        (fun hb => UInt8.le_trans hhigh (h4 hb)) (ht y List.mem_cons_self)
        (ht z (List.mem_cons_of_mem y List.mem_cons_self))

/-- A well-formed part is the encoding of its character. -/
theorem encode_of_part {b : UInt8} {rest : Bytes} {c : Char} {k : Nat}
    (h : part b rest = (some c, k)) : String.utf8EncodeChar c = b :: rest.take k := by
  unfold part at h
  split at h
  next hb =>
    cases h
    exact encode_one hb
  next =>
    split at h
    next => cases h
    next l hl =>
      dsimp only at h
      split at h
      next hlen =>
        cases h
        rw [← List.prefix_iff_eq_take.mp (trail_initial ..)]
        match ht : trail l.trailing l.low l.high rest with
        | [] =>
          -- every lead byte asks for a trailing byte
          rw [ht] at hlen
          have := (lead?_spec b l hl).2.2
          simp only [← hlen, List.length_nil] at this
          omega
        | x :: t =>
          rw [ht] at hlen
          obtain ⟨hlow, hhigh, htrail⟩ := of_trail_eq_cons ht
          exact encode_of_lead hl hlow hhigh htrail hlen
      next => cases h

/-! ## Texts -/

theorem scalars_encode (cs : List Char) (rest : Bytes) :
    scalars (cs.flatMap String.utf8EncodeChar ++ rest) = cs.map some ++ scalars rest := by
  induction cs with
  | nil => rfl
  | cons c cs ih =>
    obtain ⟨b, t, hc, he⟩ := exists_encodes c
    rw [List.flatMap_cons, hc, List.append_assoc, List.cons_append, scalars, he.part_eq,
      List.drop_left, ih]
    rfl

theorem scalars_ofString (s : String) : scalars (Bytes.ofString s) = s.toList.map some := by
  have h := scalars_encode s.toList []
  rw [List.append_nil] at h
  rw [Bytes.ofString, h, scalars, List.append_nil]

@[simp]
theorem decode?_ofString (s : String) : decode? (Bytes.ofString s) = some s := by
  simp [decode?, scalars_ofString]

@[simp]
theorem decodeLossy_ofString (s : String) : decodeLossy (Bytes.ofString s) = s := by
  have hsome : (fun part : Option Char => part.getD '\uFFFD') ∘ some = id := rfl
  rw [decodeLossy, scalars_ofString, List.map_map, hsome, List.map_id, String.ofList_toList]

theorem decodeLossy_eq_empty_iff {bs : Bytes} : decodeLossy bs = "" ↔ bs = [] := by
  rw [decodeLossy, String.ofList_eq_empty_iff, List.map_eq_nil_iff]
  cases bs with
  | nil => simp [scalars]
  | cons b rest => simp [scalars]

theorem encode_scalars {bs : Bytes} (h : (scalars bs).all Option.isSome = true) :
    ((scalars bs).filterMap id).flatMap String.utf8EncodeChar = bs := by
  fun_induction scalars bs with
  | case1 => rfl
  | case2 b rest ih =>
    match hp : part b rest with
    | (none, k) =>
      rw [hp] at h
      cases h
    | (some c, k) =>
      rw [hp] at h ih
      have htail := ih h
      show (c :: (scalars (rest.drop k)).filterMap id).flatMap String.utf8EncodeChar = _
      rw [List.flatMap_cons, htail, encode_of_part hp, List.cons_append, List.take_append_drop]

/-- A byte string is well-formed iff it is the bytes of a text. -/
theorem decode?_eq_some_iff {bs : Bytes} {s : String} :
    decode? bs = some s ↔ bs = Bytes.ofString s := by
  constructor
  · intro h
    unfold decode? at h
    dsimp only at h
    split at h
    next hall =>
      cases h
      rw [Bytes.ofString, String.toList_ofList, encode_scalars hall]
    next => cases h
  · rintro rfl
    exact decode?_ofString s

theorem illFormedFrom_encode (n : Nat) (cs : List Char) :
    illFormedFrom n (cs.flatMap String.utf8EncodeChar) = none := by
  induction cs generalizing n with
  | nil => rw [List.flatMap_nil, illFormedFrom]
  | cons c cs ih =>
    obtain ⟨b, t, hc, he⟩ := exists_encodes c
    rw [List.flatMap_cons, hc, List.cons_append, illFormedFrom, he.part_eq]
    simp only [List.drop_left, ih]

end Utf8

namespace Bytes

theorem zero_notMem_encode {c : Char} (h : c ≠ '\x00') : 0 ∉ String.utf8EncodeChar c := by
  obtain ⟨b, t, hc, he⟩ := Utf8.exists_encodes c
  rw [hc]
  intro h0
  rcases List.mem_cons.mp h0 with rfl | h0
  · have hp := he.part_eq []
    cases congrArg Prod.fst hp
    exact h rfl
  · cases he.trailing 0 h0

theorem zero_notMem_ofString {s : String} (h : '\x00' ∉ s.toList) : 0 ∉ ofString s := by
  intro h0
  obtain ⟨c, hc, h0⟩ := List.mem_flatMap.mp h0
  refine zero_notMem_encode ?_ h0
  rintro rfl
  exact h hc

/-- A text without U+0000 is cut off at the NUL that follows it. -/
theorem cutAtNul?_append {x : Bytes} (h : 0 ∉ x) (y : Bytes) :
    cutAtNul? (x ++ 0 :: y) = some (x, y) := by
  have hx : ∀ b ∈ x, (b != 0) = true := by
    intro b hb
    rw [bne_iff_ne]
    rintro rfl
    exact h hb
  unfold cutAtNul?
  rw [List.dropWhile_append_of_pos hx, List.takeWhile_append_of_pos hx]
  simp

theorem ofString_inj {s t : String} (h : ofString s = ofString t) : s = t := by
  have hs := Utf8.decode?_ofString s
  rw [h, Utf8.decode?_ofString] at hs
  exact (Option.some.inj hs).symm

theorem ofString_ne_nil {s : String} (h : s ≠ "") : ofString s ≠ [] :=
  fun hs => h (ofString_inj (t := "") hs)

/-- The first byte of a closed text is not in the middle of a character. -/
theorem exists_head (s : String) (rest : Bytes) :
    ∃ b t, ofString s ++ 0 :: rest = b :: t ∧ Utf8.isTrailing b = false := by
  unfold ofString
  cases s.toList with
  | nil => exact ⟨0, rest, rfl, rfl⟩
  | cons c cs =>
    obtain ⟨b, t, hc, he⟩ := Utf8.exists_encodes c
    refine ⟨b, t ++ (cs.flatMap String.utf8EncodeChar ++ 0 :: rest), ?_, he.isTrailing_head⟩
    rw [List.flatMap_cons, hc, List.append_assoc, List.cons_append]

end Bytes

end ScriptLint
