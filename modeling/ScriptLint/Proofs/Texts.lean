import ScriptLint.Proofs.Utf8

/-! Byte strings that are texts, and where a text can be cut.

    illFormedAt? bs = none    ↔  IsText bs           (illFormedAt?_eq_none_iff)
    illFormedAt? bs = some n  ↔  LongestText bs n    (illFormedAt?_eq_some_iff)

A text falls into two texts at every byte that is not a trailing one
(`isBoundary_iff`), and what stands before a NUL of a text is a text
(`IsText.of_append_zero`). -/

namespace ScriptLint

/-! ## NUL -/

namespace Bytes

theorem cutAtNul?_eq_none {bs : Bytes} (h : 0 ∉ bs) : cutAtNul? bs = none := by
  have hbs : ∀ b ∈ bs, (b != 0) = true := by
    intro b hb
    rw [bne_iff_ne]
    rintro rfl
    exact h hb
  have hd : (bs ++ []).dropWhile (· != 0) = [] := List.dropWhile_append_of_pos hbs
  rw [List.append_nil] at hd
  rw [cutAtNul?, hd]

theorem cutAtNul?_eq_some_iff {bs x y : Bytes} :
    cutAtNul? bs = some (x, y) ↔ bs = x ++ 0 :: y ∧ 0 ∉ x := by
  constructor
  · intro h
    by_cases h0 : 0 ∈ bs
    · obtain ⟨front, back, rfl, hfront⟩ := List.eq_append_cons_of_mem h0
      rw [cutAtNul?_append hfront] at h
      cases h
      exact ⟨rfl, hfront⟩
    · rw [cutAtNul?_eq_none h0] at h
      cases h
  · rintro ⟨rfl, hx⟩
    exact cutAtNul?_append hx y

theorem cutAtNul?_eq_none_iff {bs : Bytes} : cutAtNul? bs = none ↔ 0 ∉ bs := by
  constructor
  · intro h h0
    obtain ⟨front, back, rfl, hfront⟩ := List.eq_append_cons_of_mem h0
    rw [cutAtNul?_append hfront] at h
    cases h
  · exact cutAtNul?_eq_none

theorem ofString_ofList (cs : List Char) :
    ofString (String.ofList cs) = cs.flatMap String.utf8EncodeChar := by
  rw [ofString, String.toList_ofList]

theorem nul_notMem_of_ofString {s : String} (h : 0 ∉ ofString s) : '\x00' ∉ s.toList := by
  intro hmem
  exact h (List.mem_flatMap.mpr ⟨'\x00', hmem, List.mem_singleton.mpr rfl⟩)

end Bytes

namespace Utf8

/-! ## Texts -/

/-- The bytes of a text. -/
def IsText (bs : Bytes) : Prop :=
  ∃ s, bs = Bytes.ofString s

theorem isText_iff_decode? {bs : Bytes} : IsText bs ↔ ∃ s, decode? bs = some s := by
  simp only [IsText, decode?_eq_some_iff]

theorem isText_encode (cs : List Char) : IsText (cs.flatMap String.utf8EncodeChar) :=
  ⟨String.ofList cs, (Bytes.ofString_ofList cs).symm⟩

theorem isText_iff_all {bs : Bytes} : IsText bs ↔ (scalars bs).all Option.isSome = true := by
  constructor
  · rintro ⟨s, rfl⟩
    simp [scalars_ofString]
  · intro h
    rw [← encode_scalars h]
    exact isText_encode _

/-- A text can be taken off the front. -/
theorem isText_append_iff {s : String} {bs : Bytes} :
    IsText (Bytes.ofString s ++ bs) ↔ IsText bs := by
  rw [isText_iff_all, isText_iff_all, Bytes.ofString, scalars_encode]
  simp

/-- A byte string that begins with a text, and not with the empty one, begins with a
well-formed part. -/
theorem exists_part {b : UInt8} {rest : Bytes} {n : Nat}
    (h : IsText ((b :: rest).take (n + 1))) : ∃ c k, part b rest = (some c, k) := by
  obtain ⟨s, hs⟩ := h
  unfold Bytes.ofString at hs
  cases hc : s.toList with
  | nil =>
    rw [hc] at hs
    cases hs
  | cons c cs =>
    obtain ⟨b', t, hbt, he⟩ := exists_encodes c
    rw [hc, List.flatMap_cons, hbt, List.take_succ_cons, List.cons_append, List.cons.injEq] at hs
    obtain ⟨rfl, ht⟩ := hs
    refine ⟨c, t.length, ?_⟩
    rw [← List.take_append_drop n rest, ht, List.append_assoc]
    exact he.part_eq _

/-! ## The longest text in front -/

/-- The first `n` bytes are a text, no longer prefix is, and `n` is not the whole length. -/
structure LongestText (bs : Bytes) (n : Nat) : Prop where
  lt_length : n < bs.length
  isText : IsText (bs.take n)
  longest : ∀ k, k ≤ bs.length → IsText (bs.take k) → k ≤ n

theorem LongestText.unique {bs : Bytes} {m n : Nat} (hm : LongestText bs m)
    (hn : LongestText bs n) : m = n :=
  Nat.le_antisymm (hn.longest m (Nat.le_of_lt hm.lt_length) hm.isText)
    (hm.longest n (Nat.le_of_lt hn.lt_length) hn.isText)

theorem LongestText.not_isText {bs : Bytes} {n : Nat} (h : LongestText bs n) : ¬ IsText bs := by
  intro ht
  rw [← List.take_length (l := bs)] at ht
  have hle := h.longest bs.length (Nat.le_refl _) ht
  have hlt := h.lt_length
  omega

/-- A well-formed part in front: its bytes are those of its character. -/
theorem append_of_part {b : UInt8} {rest : Bytes} {c : Char} {k : Nat}
    (h : part b rest = (some c, k)) :
    b :: rest = Bytes.ofString (String.ofList [c]) ++ rest.drop k := by
  rw [Bytes.ofString_ofList, List.flatMap_singleton, encode_of_part h, List.cons_append,
    List.take_append_drop]

theorem part_le (b : UInt8) (rest : Bytes) : (part b rest).2 ≤ rest.length := by
  unfold part
  split
  · exact Nat.zero_le _
  · split
    · exact Nat.zero_le _
    · next l _ =>
      have hle := (trail_initial l.trailing l.low l.high rest).length_le
      dsimp only
      split <;> exact hle

theorem length_of_part {b : UInt8} {rest : Bytes} {c : Char} {k : Nat}
    (h : part b rest = (some c, k)) : (Bytes.ofString (String.ofList [c])).length = 1 + k := by
  have hk := part_le b rest
  have hlen := congrArg List.length (append_of_part h)
  rw [h] at hk
  rw [List.length_cons, List.length_append, List.length_drop] at hlen
  omega

/-- A text in front puts the end of the longest text further back. -/
theorem LongestText.append {bs : Bytes} {n : Nat} (h : LongestText bs n) (s : String) :
    LongestText (Bytes.ofString s ++ bs) ((Bytes.ofString s).length + n) := by
  refine ⟨?_, ?_, ?_⟩
  · rw [List.length_append]
    have := h.lt_length
    omega
  · rw [List.take_length_add_append, isText_append_iff]
    exact h.isText
  · intro k hk ht
    by_cases hle : k ≤ (Bytes.ofString s).length
    · omega
    · obtain ⟨j, rfl⟩ : ∃ j, k = (Bytes.ofString s).length + j :=
        ⟨k - (Bytes.ofString s).length, by omega⟩
      rw [List.take_length_add_append, isText_append_iff] at ht
      rw [List.length_append] at hk
      have := h.longest j (by omega) ht
      omega

theorem longestText_zero {b : UInt8} {rest : Bytes} {k : Nat} (h : part b rest = (none, k)) :
    LongestText (b :: rest) 0 := by
  refine ⟨Nat.succ_pos _, ⟨"", rfl⟩, ?_⟩
  intro n _ ht
  cases n with
  | zero => exact Nat.le_refl 0
  | succ n =>
    obtain ⟨c, i, hp⟩ := exists_part ht
    rw [h] at hp
    cases hp

/-- The search passes over characters and stops at the first ill-formed part. -/
theorem illFormedFrom_spec (n : Nat) (bs : Bytes) :
    (illFormedFrom n bs = none ∧ IsText bs) ∨
    ∃ m, illFormedFrom n bs = some (n + m) ∧ LongestText bs m := by
  fun_induction illFormedFrom n bs with
  | case1 n => exact .inl ⟨rfl, "", rfl⟩
  | case2 n b rest k hp => exact .inr ⟨0, rfl, longestText_zero hp⟩
  | case3 n b rest c k hp ih =>
    rw [append_of_part hp, isText_append_iff]
    rcases ih with ⟨hn, ht⟩ | ⟨m, hm, hl⟩
    · exact .inl ⟨hn, ht⟩
    · refine .inr ⟨1 + k + m, ?_, ?_⟩
      · rw [hm]
        congr 1
        omega
      · have := hl.append (String.ofList [c])
        rwa [length_of_part hp] at this

theorem illFormedAt?_eq_none_iff {bs : Bytes} : illFormedAt? bs = none ↔ IsText bs := by
  rcases illFormedFrom_spec 0 bs with ⟨hn, ht⟩ | ⟨m, hm, hl⟩
  · exact ⟨fun _ => ht, fun _ => hn⟩
  · constructor
    · intro hn
      rw [illFormedAt?, hm] at hn
      cases hn
    · intro ht
      exact absurd ht hl.not_isText

/-- An ill-formed byte string is reported where its longest text ends. -/
theorem illFormedAt?_eq_some_iff {bs : Bytes} {n : Nat} :
    illFormedAt? bs = some n ↔ LongestText bs n := by
  rcases illFormedFrom_spec 0 bs with ⟨hn, ht⟩ | ⟨m, hm, hl⟩
  · constructor
    · intro hs
      rw [illFormedAt?, hn] at hs
      cases hs
    · intro hs
      exact absurd ht hs.not_isText
  · rw [illFormedAt?, hm, Nat.zero_add, Option.some.injEq]
    constructor
    · rintro rfl
      exact hl
    · intro hs
      exact hl.unique hs

/-! ## Boundaries -/

/-- Offset `n` lies between two characters of a text, or at one of its ends. -/
def IsBoundary (bs : Bytes) (n : Nat) : Prop :=
  ∃ front back, bs = Bytes.ofString front ++ Bytes.ofString back ∧
    (Bytes.ofString front).length = n

theorem isTrailing_head {s : String} {b : UInt8} {rest : Bytes}
    (h : Bytes.ofString s = b :: rest) : isTrailing b = false := by
  obtain ⟨b', t, hhead, hb⟩ := Bytes.exists_head s []
  rw [h, List.cons_append, List.cons.injEq] at hhead
  rw [hhead.1]
  exact hb

/-- A byte that is not a trailing one has whole characters before it. -/
theorem exists_cut {cs : List Char} {n : Nat} {b : UInt8} {rest : Bytes}
    (h : (cs.flatMap String.utf8EncodeChar).drop n = b :: rest) (hb : isTrailing b = false) :
    ∃ front back, cs = front ++ back ∧ (front.flatMap String.utf8EncodeChar).length = n := by
  induction cs generalizing n with
  | nil =>
    rw [List.flatMap_nil, List.drop_nil] at h
    cases h
  | cons c cs ih =>
    obtain ⟨b', t, hc, he⟩ := exists_encodes c
    rw [List.flatMap_cons, hc] at h
    cases n with
    | zero => exact ⟨[], c :: cs, rfl, rfl⟩
    | succ n =>
      rw [List.cons_append, List.drop_succ_cons] at h
      by_cases hn : n < t.length
      · -- inside the first character all bytes are trailing ones
        rw [List.drop_append_of_le_length (Nat.le_of_lt hn), List.drop_eq_getElem_cons hn,
          List.cons_append, List.cons.injEq] at h
        have htrail := he.trailing t[n] (List.getElem_mem hn)
        rw [h.1, hb] at htrail
        cases htrail
      · rw [List.drop_append, List.drop_eq_nil_of_le (Nat.le_of_not_lt hn), List.nil_append] at h
        obtain ⟨front, back, rfl, hlen⟩ := ih h
        refine ⟨c :: front, back, rfl, ?_⟩
        rw [List.flatMap_cons, hc, List.length_append, List.length_cons, hlen]
        omega

/-- A text can be cut before every byte that is not a trailing one, and only there. -/
theorem isBoundary_iff {bs : Bytes} (h : IsText bs) {n : Nat} {b : UInt8} {rest : Bytes}
    (hd : bs.drop n = b :: rest) : IsBoundary bs n ↔ isTrailing b = false := by
  constructor
  · rintro ⟨front, back, rfl, rfl⟩
    rw [List.drop_left] at hd
    exact isTrailing_head hd
  · intro hb
    obtain ⟨s, rfl⟩ := h
    obtain ⟨front, back, hcs, hlen⟩ := exists_cut hd hb
    refine ⟨String.ofList front, String.ofList back, ?_, ?_⟩
    · rw [Bytes.ofString_ofList, Bytes.ofString_ofList, ← List.flatMap_append, ← hcs]
      rfl
    · rw [Bytes.ofString_ofList]
      exact hlen

theorem IsBoundary.isText_drop {bs : Bytes} {n : Nat} (h : IsBoundary bs n) :
    IsText (bs.drop n) := by
  obtain ⟨front, back, rfl, rfl⟩ := h
  rw [List.drop_left]
  exact ⟨back, rfl⟩

/-- What stands before the first NUL of a text is a text. -/
theorem IsText.of_append_zero {x y : Bytes} (h : IsText (x ++ 0 :: y)) (hx : 0 ∉ x) :
    IsText x := by
  obtain ⟨s, hs⟩ := h
  have hnul : '\x00' ∈ s.toList := by
    apply Classical.byContradiction
    intro hnul
    apply Bytes.zero_notMem_ofString hnul
    rw [← hs]
    exact List.mem_append_right x List.mem_cons_self
  obtain ⟨front, back, hcs, hfront⟩ := List.eq_append_cons_of_mem hnul
  have hsplit : Bytes.ofString s =
      Bytes.ofString (String.ofList front) ++ 0 :: back.flatMap String.utf8EncodeChar := by
    rw [Bytes.ofString, hcs, List.flatMap_append, List.flatMap_cons, Bytes.ofString_ofList]
    rfl
  have h0 : 0 ∉ Bytes.ofString (String.ofList front) := by
    apply Bytes.zero_notMem_ofString
    rwa [String.toList_ofList]
  -- both are what stands before the first NUL
  have hcut := Bytes.cutAtNul?_append hx y
  rw [hs, hsplit, Bytes.cutAtNul?_append h0] at hcut
  cases hcut
  exact ⟨_, rfl⟩

end Utf8

end ScriptLint
