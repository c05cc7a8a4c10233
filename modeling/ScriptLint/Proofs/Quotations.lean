import Mathlib.Data.List.Forall2
import ScriptLint.Session
import ScriptLint.Proofs.Texts

/-! What a message quotes of a text.

A quotation is a range of the text, read as UTF-8 with one U+FFFD for each part that is ill-formed.
Which parts these are is said here by the encodings of characters alone (`Utf8.Replaced`): where
no character stands, the longest part that begins one, or a single byte that begins none.

    Utf8.Lossy bs cs       ↔  cs = (Utf8.decodeLossy bs).toList       (lossy_iff)
    Quotes text span s     ↔  s = quotation text span                 (quotes_iff) -/

namespace ScriptLint

namespace Utf8

/-! ## Ill-formed parts -/

/-- The encoding of some character begins like this. -/
def Begins (bs : Bytes) : Prop :=
  ∃ c : Char, bs <+: String.utf8EncodeChar c

/-- No character stands in front of a byte string, and its first `n` bytes are replaced:
the longest part that begins a character, or one byte. -/
structure Replaced (bs : Bytes) (n : Nat) : Prop where
  no_char : ∀ c : Char, ¬ String.utf8EncodeChar c <+: bs
  pos : 0 < n
  le_length : n ≤ bs.length
  begins : Begins (bs.take n) ∨ n = 1
  longest : ∀ k, k ≤ bs.length → Begins (bs.take k) → k ≤ n

/-- The characters of a byte string, with one U+FFFD for each part that is ill-formed. -/
inductive Lossy : Bytes → List Char → Prop
  | nil : Lossy [] []
  | char {c : Char} {bs : Bytes} {cs : List Char} (h : Lossy bs cs) :
      Lossy (String.utf8EncodeChar c ++ bs) (c :: cs)
  | replaced {bs : Bytes} {n : Nat} {cs : List Char} (hn : Replaced bs n)
      (h : Lossy (bs.drop n) cs) : Lossy bs ('\uFFFD' :: cs)

theorem Replaced.unique {bs : Bytes} {m n : Nat} (hm : Replaced bs m) (hn : Replaced bs n) :
    m = n := by
  have hle : ∀ {i j}, Replaced bs i → Replaced bs j → i ≤ j := by
    intro i j hi hj
    rcases hi.begins with hb | rfl
    · exact hj.longest i hi.le_length hb
    · exact hj.pos
  exact Nat.le_antisymm (hle hm hn) (hle hn hm)

/-- A character in front is the first part. -/
theorem part_of_char {c : Char} {b : UInt8} {rest : Bytes}
    (h : String.utf8EncodeChar c <+: b :: rest) : ∃ k, part b rest = (some c, k) := by
  obtain ⟨b', t, hc, he⟩ := exists_encodes c
  rw [hc, List.cons_prefix_cons] at h
  obtain ⟨rfl, tail, rfl⟩ := h
  exact ⟨_, he.part_eq tail⟩

theorem length_trail_le (n : Nat) (low high : UInt8) (bs : Bytes) :
    (trail n low high bs).length ≤ n := by
  fun_induction trail n low high bs with
  | case1 n low high b rest h ih => exact Nat.succ_le_succ ih
  | case2 => exact Nat.zero_le _
  | case3 => exact Nat.zero_le _

/-- Bytes that can trail in one string can trail in another that begins with them. -/
theorem length_le_trail {n : Nat} {low high : UInt8} {t p rest : Bytes}
    (h : trail n low high t = t) (ht : p <+: t) (hr : p <+: rest) :
    p.length ≤ (trail n low high rest).length := by
  induction p generalizing n low high t rest with
  | nil => exact Nat.zero_le _
  | cons x p ih =>
    obtain ⟨t', rfl⟩ := ht
    obtain ⟨rest', rfl⟩ := hr
    cases n with
    | zero => cases h
    | succ n =>
      simp only [List.cons_append, trail] at h ⊢
      split at h
      next hx =>
        rw [if_pos hx]
        have htail := List.tail_eq_of_cons_eq h
        exact Nat.succ_le_succ (ih htail (List.prefix_append ..) (List.prefix_append ..))
      next => cases h

/-- A lead byte with acceptable trailing bytes begins a character, even if there are too few. -/
theorem begins_of_lead {b x : UInt8} {t : Bytes} {l : Lead} (h : lead? b = some l)
    (hlow : l.low ≤ x) (hhigh : x ≤ l.high) (ht : ∀ y ∈ t, isTrailing y = true)
    (hlen : t.length < l.trailing) : Begins (b :: x :: t) := by
  have hpad : ∀ y ∈ t ++ List.replicate (l.trailing - 1 - t.length) 0x80, isTrailing y = true := by
    intro y hy
    rcases List.mem_append.mp hy with hy | hy
    · exact ht y hy
    · rw [List.eq_of_mem_replicate hy]
      rfl
  have hencode := encode_of_lead h hlow hhigh hpad (by
    rw [List.length_append, List.length_replicate]
    omega)
  exact ⟨_, _, hencode.symm⟩

/-- What begins a character takes no more bytes than the first part. -/
theorem le_part_of_begins {b : UInt8} {rest : Bytes} {i : Nat} (hi : i ≤ rest.length)
    (h : Begins (b :: rest.take i)) : i ≤ (part b rest).2 := by
  obtain ⟨c, hc⟩ := h
  obtain ⟨b', t, hbt, he⟩ := exists_encodes c
  rw [hbt, List.cons_prefix_cons] at hc
  obtain ⟨rfl, ht⟩ := hc
  have hpart := he.part_eq []
  rw [List.append_nil] at hpart
  have hle := ht.length_le
  rw [List.length_take_of_le hi] at hle
  unfold part at hpart ⊢
  by_cases hb : b < 0x80
  · rw [if_pos hb] at hpart
    rw [← (Prod.mk.inj hpart).2] at hle
    rwa [if_pos hb]
  rw [if_neg hb] at hpart ⊢
  cases hl : lead? b with
  | none =>
    rw [hl] at hpart
    cases hpart
  | some l =>
    rw [hl] at hpart
    dsimp only at hpart ⊢
    split at hpart
    next =>
      have htrail : trail l.trailing l.low l.high t = t :=
        (trail_initial ..).eq_of_length (Prod.mk.inj hpart).2
      have hlong := length_le_trail htrail ht (List.take_prefix i rest)
      rw [List.length_take_of_le hi] at hlong
      split <;> exact hlong
    next => cases hpart

/-- An ill-formed part begins a character, unless it is a single byte. -/
theorem begins_of_part {b : UInt8} {rest : Bytes} {k : Nat} (h : part b rest = (none, k)) :
    Begins (b :: rest.take k) ∨ k = 0 := by
  unfold part at h
  split at h
  next => cases h
  next =>
  split at h
  next =>
    cases h
    exact .inr rfl
  next l hl =>
  dsimp only at h
  split at h
  next => cases h
  next =>
  cases h
  have hle := length_trail_le l.trailing l.low l.high rest
  rw [← List.prefix_iff_eq_take.mp (trail_initial ..)]
  match ht : trail l.trailing l.low l.high rest with
  | [] => exact .inr rfl
  | x :: t =>
    obtain ⟨hlow, hhigh, htrail⟩ := of_trail_eq_cons ht
    rw [ht] at hle
    exact .inl (begins_of_lead hl hlow hhigh htrail hle)

/-- The bytes of an ill-formed part are those that are replaced. -/
theorem replaced_of_part {b : UInt8} {rest : Bytes} {k : Nat} (h : part b rest = (none, k)) :
    Replaced (b :: rest) (k + 1) := by
  refine ⟨fun c hc => ?_, Nat.succ_pos k, ?_, ?_, ?_⟩
  · obtain ⟨i, hp⟩ := part_of_char hc
    rw [h] at hp
    cases hp
  · have hle := part_le b rest
    rw [h] at hle
    exact Nat.succ_le_succ hle
  · rw [List.take_succ_cons, Nat.add_eq_right]
    exact begins_of_part h
  · intro j hj hb
    cases j with
    | zero => exact Nat.zero_le _
    | succ i =>
      have hle := le_part_of_begins (Nat.le_of_succ_le_succ hj) hb
      rw [h] at hle
      exact Nat.succ_le_succ hle

/-! ## Lossy reading -/

theorem lossy_scalars (bs : Bytes) : Lossy bs ((scalars bs).map (·.getD '\uFFFD')) := by
  fun_induction scalars bs with
  | case1 => exact .nil
  | case2 b rest ih =>
    rcases hp : part b rest with ⟨_ | c, k⟩
    · rw [hp] at ih
      exact .replaced (replaced_of_part hp) ih
    · rw [hp] at ih
      have hbytes : b :: rest = String.utf8EncodeChar c ++ rest.drop k := by
        rw [encode_of_part hp, List.cons_append, List.take_append_drop]
      rw [hbytes]
      exact .char ih

/-- A byte string can be read in one way only. -/
theorem Lossy.eq_scalars {bs : Bytes} {cs : List Char} (h : Lossy bs cs) :
    cs = (scalars bs).map (·.getD '\uFFFD') := by
  induction h with
  | nil => simp [scalars]
  | @char c bs cs _ ih =>
    have hscalars := scalars_encode [c] bs
    rw [List.flatMap_singleton] at hscalars
    rw [hscalars, ih]
    rfl
  | @replaced bs n cs hn _ ih =>
    obtain ⟨b, rest, rfl⟩ := List.exists_cons_of_length_pos (Nat.lt_of_lt_of_le hn.pos hn.le_length)
    rcases hp : part b rest with ⟨_ | c, k⟩
    · obtain rfl := hn.unique (replaced_of_part hp)
      rw [ih, scalars, hp]
      rfl
    · refine absurd ?_ (hn.no_char c)
      rw [encode_of_part hp]
      exact List.cons_prefix_cons.mpr ⟨rfl, List.take_prefix ..⟩

theorem lossy_iff {bs : Bytes} {cs : List Char} : Lossy bs cs ↔ cs = (decodeLossy bs).toList := by
  rw [decodeLossy, String.toList_ofList]
  constructor
  · intro h
    exact h.eq_scalars
  · rintro rfl
    exact lossy_scalars bs

end Utf8

/-! ## Quotations -/

namespace Session

/-- What a message quotes of a text: the bytes of a range, read with replacements, or nothing
when the range reaches past the end. -/
inductive Quotes (text : Bytes) (span : Span) : String → Prop
  | inside {front bytes back : Bytes} {s : String} (htext : text = front ++ (bytes ++ back))
      (hfirst : span.first = front.length) (hstop : span.stop = front.length + bytes.length)
      (h : Utf8.Lossy bytes s.toList) : Quotes text span s
  | outside (h : text.length < span.stop) : Quotes text span ""

theorem slice?_append {front bytes back : Bytes} {span : Span} (hfirst : span.first = front.length)
    (hstop : span.stop = front.length + bytes.length) :
    span.slice? (front ++ (bytes ++ back)) = some bytes := by
  have hle : span.stop ≤ (front ++ (bytes ++ back)).length := by
    rw [hstop, List.length_append, List.length_append]
    omega
  have hlength : span.length = bytes.length := by
    rw [Span.length, hstop, hfirst, Nat.add_sub_cancel_left]
  rw [Span.slice?, if_pos hle, hfirst, hlength, List.drop_left, List.take_left]

/-- There is one quotation of a range, and the session makes it. -/
theorem quotes_iff {text : Bytes} {span : Span} {s : String} :
    Quotes text span s ↔ s = quotation text span := by
  constructor
  · intro h
    cases h with
    | inside htext hfirst hstop h =>
      rw [quotation, htext, slice?_append hfirst hstop]
      exact String.toList_inj.mp (Utf8.lossy_iff.mp h)
    | outside h => rw [quotation, Span.slice?, if_neg (Nat.not_le.mpr h)]
  · rintro rfl
    by_cases hle : span.stop ≤ text.length
    · have hfirst := span.first_le_stop
      have htext : text = text.take span.first ++
          ((text.drop span.first).take span.length ++ (text.drop span.first).drop span.length) := by
        rw [List.take_append_drop, List.take_append_drop]
      rw [quotation, Span.slice?, if_pos hle]
      refine .inside htext ?_ ?_ (Utf8.lossy_iff.mpr rfl)
      · rw [List.length_take_of_le (Nat.le_trans hfirst hle)]
      · rw [List.length_take, List.length_take, List.length_drop, Span.length]
        omega
    · rw [quotation, Span.slice?, if_neg hle]
      exact .outside (Nat.lt_of_not_le hle)

/-- Several ranges are quoted one by one. -/
theorem forall₂_quotes_iff {text : Bytes} {spans : List Span} {quoted : List String} :
    List.Forall₂ (Quotes text) spans quoted ↔ quoted = spans.map (quotation text) := by
  induction spans generalizing quoted with
  | nil => rw [List.forall₂_nil_left_iff, List.map_nil]
  | cons span spans ih =>
    rw [List.forall₂_cons_left_iff, List.map_cons]
    constructor
    · rintro ⟨s, rest, hs, hrest, rfl⟩
      rw [quotes_iff.mp hs, ih.mp hrest]
    · rintro rfl
      exact ⟨_, _, quotes_iff.mpr rfl, ih.mpr rfl, rfl⟩

end Session

end ScriptLint
