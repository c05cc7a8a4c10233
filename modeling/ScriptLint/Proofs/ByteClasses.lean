import ScriptLint.Proofs.Laminar
import ScriptLint.Proofs.Grammar

/-! What the findings of a script depend on.

Two bytes are alike when they are equal, or when neither has a meaning of its own and both or
neither are letters (`Alike`).  To exchange alike bytes changes no finding, and bytes that are
not alike can be told apart:

    Alike b c ↔ ∀ before after, analyze (before ++ b :: after) = analyze (before ++ c :: after)

The scanner compares bytes; that it sees no more of them than their marks is the simulation of
one scanner by the other (`analyze_eq_scan`).  So bytes with one mark are read alike.  Marks are
told apart by probes: a `Probe` is a script with one byte left open, and the marks with which
it has no findings. -/

namespace ScriptLint.Lexer

open Grammar (marks)

/-! ## Alike bytes -/

/-- The bytes with a meaning of their own: quotes, the backtick, `/`, `*`, `@`, `#`, braces,
`$`, the backslash, `!`, line feed and carriage return. -/
def meaningful : List UInt8 :=
  [0x27, 0x22, 0x60, 0x2F, 0x2A, 0x40, 0x23, 0x7B, 0x7D, 0x24, 0x5C, 0x21, 0x0A, 0x0D]

/-- An ASCII letter, `_`, or a byte of a character outside ASCII. -/
def Letter (b : UInt8) : Prop :=
  0x41 ≤ b ∧ b ≤ 0x5A ∨ 0x61 ≤ b ∧ b ≤ 0x7A ∨ b = 0x5F ∨ 0x80 ≤ b

instance (b : UInt8) : Decidable (Letter b) :=
  inferInstanceAs (Decidable (_ ∨ _))

/-- The same byte, or two without a meaning of their own, both of them letters or neither. -/
def Alike (b c : UInt8) : Prop :=
  b = c ∨ b ∉ meaningful ∧ c ∉ meaningful ∧ (Letter b ↔ Letter c)

instance (b c : UInt8) : Decidable (Alike b c) :=
  inferInstanceAs (Decidable (_ ∨ _))

theorem ofByte_eq_letter_iff : ∀ b, Mark.ofByte b = .letter ↔ Letter b :=
  forall_byte (by decide +kernel)

theorem ofByte_eq_other_iff : ∀ b, Mark.ofByte b = .other ↔ b ∉ meaningful ∧ ¬ Letter b :=
  forall_byte (by decide +kernel)

theorem notMem_of_letter : ∀ b, Letter b → b ∉ meaningful :=
  forall_byte (by decide +kernel)

theorem letter_or_other_of_byte?_eq_none {m : Mark} (h : m.byte? = none) :
    m = .letter ∨ m = .other := by
  cases m with
  | letter => exact .inl rfl
  | other => exact .inr rfl
  | _ => cases h

/-- Alike bytes are those with the same mark. -/
theorem alike_iff_ofByte_eq {b c : UInt8} : Alike b c ↔ Mark.ofByte b = Mark.ofByte c := by
  constructor
  · rintro (rfl | ⟨hb, hc, hletter⟩)
    · rfl
    · by_cases h : Letter b
      · rw [(ofByte_eq_letter_iff b).mpr h, (ofByte_eq_letter_iff c).mpr (hletter.mp h)]
      · have h' : ¬ Letter c := fun hc => h (hletter.mpr hc)
        rw [(ofByte_eq_other_iff b).mpr ⟨hb, h⟩, (ofByte_eq_other_iff c).mpr ⟨hc, h'⟩]
  · intro h
    cases hbyte : (Mark.ofByte b).byte? with
    | some d =>
      left
      rw [eq_of_ofByte rfl hbyte]
      rw [h] at hbyte
      exact (eq_of_ofByte rfl hbyte).symm
    | none =>
      right
      rcases letter_or_other_of_byte?_eq_none hbyte with hb | hb
      · have hc := h.symm.trans hb
        rw [ofByte_eq_letter_iff] at hb hc
        exact ⟨notMem_of_letter b hb, notMem_of_letter c hc, iff_of_true hb hc⟩
      · have hc := h.symm.trans hb
        rw [ofByte_eq_other_iff] at hb hc
        exact ⟨hb.1, hc.1, iff_of_false hb.2 hc.2⟩

/-- Only the marks of a script count. -/
theorem analyze_congr {text text' : Bytes} (h : marks text = marks text') :
    analyze text = analyze text' := by
  have hlen : text.length = text'.length := by
    have := congrArg List.length h
    unfold marks at this
    rwa [List.length_map, List.length_map] at this
  unfold marks at h
  rw [analyze_eq_scan, analyze_eq_scan, h, hlen]

/-! ## Probes -/

def Mark.all : List Mark :=
  [.quote .single, .quote .double, .backtick, .slash, .star, .at, .hash, .braceOpen, .braceClose,
    .dollar, .backslash, .bang, .lineFeed, .carriageReturn, .letter, .other]

theorem Mark.mem_all (m : Mark) : m ∈ all := by
  cases m with
  | quote q => cases q <;> decide
  | _ => decide

/-- A script with one byte left open, and the marks of that byte with which it has no findings. -/
structure Probe where
  before : Bytes
  after : Bytes
  accepts : Mark → Bool

namespace Probe

/-- Whether the script has no findings when the open byte has mark `m`. -/
def passes (p : Probe) (m : Mark) : Bool :=
  (Scan.start (marks p.before ++ m :: marks p.after)).finish.findings.isEmpty

/-- Scripts that tell all marks apart between them. -/
def all : List Probe :=
  -- a quote or backtick that closes, the two bytes that end a comment, a brace that ends a
  -- substitution, and `!` behind a first `#`
  [⟨[0x27], [], (· == .quote .single)⟩,
   ⟨[0x22], [], (· == .quote .double)⟩,
   ⟨[0x60], [], (· == .backtick)⟩,
   ⟨[0x2F, 0x2A], [0x2F], (· == .star)⟩,
   ⟨[0x2F, 0x2A, 0x2A], [], (· == .slash)⟩,
   ⟨[0x60, 0x24, 0x7B], [0x60], (· == .braceClose)⟩,
   ⟨[0x23], [0x40], (· == .bang)⟩,
   -- the two bytes that begin a substitution
   ⟨[0x60], [0x7B, 0x60], (! [.backtick, .dollar].contains ·)⟩,
   ⟨[0x60, 0x24], [0x60], (! [.backtick, .braceOpen, .backslash].contains ·)⟩,
   -- a backslash before a quote, a break behind a comment, and one break of two bytes
   ⟨[0x27], [0x27], (! [.quote .single, .backslash, .lineFeed, .carriageReturn].contains ·)⟩,
   ⟨[0x2F, 0x2F], [0x40], (! ·.isBreak)⟩,
   ⟨[0x27, 0x5C, 0x0D], [0x27],
     (! [.quote .single, .backslash, .carriageReturn].contains ·)⟩,
   -- what can stand in code, and what can follow `#`
   ⟨[], [0x61], (! [.quote .single, .quote .double, .backtick, .at].contains ·)⟩,
   ⟨[], [], (! [.quote .single, .quote .double, .backtick, .at, .hash].contains ·)⟩,
   ⟨[0x23], [], fun m => m.startsIdentifier || m == .bang⟩]

theorem passes_eq_accepts :
    ∀ p ∈ all, ∀ m ∈ Mark.all, p.passes m = p.accepts m := by
  decide +kernel

theorem eq_of_accepts :
    ∀ m ∈ Mark.all, ∀ m' ∈ Mark.all, (∀ p ∈ all, p.accepts m = p.accepts m') → m = m' := by
  decide +kernel

theorem eq_of_passes {m m' : Mark} (h : ∀ p ∈ all, p.passes m = p.passes m') : m = m' := by
  refine eq_of_accepts m m.mem_all m' m'.mem_all fun p hp => ?_
  rw [← passes_eq_accepts p hp m m.mem_all, ← passes_eq_accepts p hp m' m'.mem_all]
  exact h p hp

theorem length_le : ∀ p ∈ all, p.before.length + 1 + p.after.length ≤ maxOffset := by
  decide

theorem passes_iff {p : Probe} (hp : p ∈ all) (b : UInt8) :
    p.passes (Mark.ofByte b) = true ↔ analyze (p.before ++ b :: p.after) = .ok [] := by
  have hlen : (p.before ++ b :: p.after).length ≤ maxOffset := by
    have := length_le p hp
    rw [List.length_append, List.length_cons]
    omega
  have hmarks : (p.before ++ b :: p.after).map Mark.ofByte =
      marks p.before ++ Mark.ofByte b :: marks p.after := List.map_append
  unfold passes
  rw [analyze_eq_scan, if_pos hlen, hmarks, List.isEmpty_iff, Except.ok.injEq, List.eq_nil_iff_forall_not_mem,
    List.eq_nil_iff_forall_not_mem]
  simp only [mem_scan_iff]

end Probe

/-! ## Top theorem -/

theorem analyze_exchange {b c : UInt8} (h : Alike b c) (before after : Bytes) :
    analyze (before ++ b :: after) = analyze (before ++ c :: after) := by
  apply analyze_congr
  unfold marks
  rw [List.map_append, List.map_append, List.map_cons, List.map_cons, alike_iff_ofByte_eq.mp h]

/-- Bytes that no script tells apart are alike. -/
theorem alike_of_analyze_eq {b c : UInt8}
    (h : ∀ before after, analyze (before ++ b :: after) = analyze (before ++ c :: after)) :
    Alike b c := by
  rw [alike_iff_ofByte_eq]
  refine Probe.eq_of_passes fun p hp => ?_
  rw [Bool.eq_iff_iff, Probe.passes_iff hp, Probe.passes_iff hp, h]

/-- Alike bytes in every place are the same marks. -/
theorem marks_eq_of_alike {text text' : Bytes} (hlen : text.length = text'.length)
    (h : ∀ (i : Nat) (b c : UInt8), text[i]? = some b → text'[i]? = some c → Alike b c) :
    marks text = marks text' := by
  refine List.ext_getElem? fun i => ?_
  unfold marks
  rw [List.getElem?_map, List.getElem?_map]
  by_cases hi : i < text.length
  · have hi' : i < text'.length := hlen ▸ hi
    have hb := List.getElem?_eq_getElem hi
    have hc := List.getElem?_eq_getElem hi'
    rw [hb, hc, Option.map_some, Option.map_some, alike_iff_ofByte_eq.mp (h i _ _ hb hc)]
  · have hi' : ¬ i < text'.length := hlen ▸ hi
    rw [List.getElem?_eq_none (Nat.le_of_not_lt hi), List.getElem?_eq_none (Nat.le_of_not_lt hi')]

/-- Scripts of the same length with alike bytes in every place have the same findings; and
no coarser relation of bytes would do, as bytes that are not alike are told apart by some script. -/
theorem analyze_alike :
    (∀ text text' : Bytes, text.length = text'.length →
      (∀ (i : Nat) (b c : UInt8), text[i]? = some b → text'[i]? = some c → Alike b c) →
      analyze text = analyze text') ∧
    ∀ b c : UInt8, Alike b c ↔
      ∀ before after, analyze (before ++ b :: after) = analyze (before ++ c :: after) :=
  ⟨fun _ _ hlen h => analyze_congr (marks_eq_of_alike hlen h),
    fun _ _ => ⟨analyze_exchange, alike_of_analyze_eq⟩⟩

/-- An open string, a private name and a stray `@`. -/
def latinScript : Bytes :=
  [0x27, 0x61, 0x62, 0x0A, 0x23, 0x7A, 0x30, 0x40]

/-- The same script with other letters, some of them bytes of characters outside ASCII. -/
def foreignScript : Bytes :=
  [0x27, 0xC3, 0xA9, 0x0A, 0x23, 0xFF, 0x20, 0x40]

theorem analyze_alike_foreignScript :
    latinScript.length = foreignScript.length ∧
    (∀ (i : Nat) (b c : UInt8), latinScript[i]? = some b → foreignScript[i]? = some c → Alike b c) ∧
    analyze latinScript = analyze foreignScript ∧
    analyze foreignScript = .ok
      [⟨.unclosedString, .ofLength 0 3, []⟩, ⟨.strayAt, .ofLength 7 1, [.ofLength 7 1]⟩] := by
  have hlen : latinScript.length = foreignScript.length := rfl
  have halike : ∀ (i : Nat) (b c : UInt8), latinScript[i]? = some b → foreignScript[i]? = some c →
      Alike b c := by
    intro i b c hb hc
    have hi : i < 8 := (List.getElem?_eq_some_iff.mp hb).1
    have hall : ∀ i < 8, ∀ b ∈ latinScript[i]?, ∀ c ∈ foreignScript[i]?, Alike b c := by
      decide +kernel
    exact hall i hi b hb c hc
  exact ⟨hlen, halike, analyze_alike.1 _ _ hlen halike,
    analyze_of_perm (by decide) (by decide +kernel) (by decide)⟩

end ScriptLint.Lexer
