import ScriptLint.Locale.Directory

/-! Message catalogs.

A catalog numbers its messages from zero.  Each message has a default text and,
for some locales, a translation.  Looking a message up by locale index falls
back to the default text, so an index that names no locale asks for it.

All texts lie in one pool, and a message's texts are places in it: one for its
default text, and one slot for each locale.  The slots of all messages stand in one
array, row after row (`Catalog.slot?`). -/

namespace ScriptLint

namespace Catalog

/-- Where a text lies in the pool, without its NUL. -/
structure TextSpan where
  start : Nat
  length : Nat
  deriving DecidableEq

namespace TextSpan

def stop (span : TextSpan) : Nat :=
  span.start + span.length

def isEmpty (span : TextSpan) : Bool :=
  span.length == 0

/-- The pool reaches as far as the span, and can be cut at both ends of it. -/
structure Inside (span : TextSpan) (pool : Bytes) : Prop where
  stop_le : span.stop ≤ pool.length
  cut_start : Utf8.canCut pool span.start = true
  cut_stop : Utf8.canCut pool span.stop = true

instance (span : TextSpan) (pool : Bytes) : Decidable (span.Inside pool) :=
  decidable_of_iff (span.stop ≤ pool.length ∧ Utf8.canCut pool span.start = true ∧
      Utf8.canCut pool span.stop = true)
    ⟨fun h => ⟨h.1, h.2.1, h.2.2⟩, fun h => ⟨h.stop_le, h.cut_start, h.cut_stop⟩⟩

/-- The text that lies there; `none` when the pool cannot be cut like that. -/
def text? (span : TextSpan) (pool : Bytes) : Option String :=
  if span.Inside pool then some (Utf8.decodeLossy ((pool.drop span.start).take span.length))
  else none

end TextSpan

/-- What a message has for a locale. -/
inductive Slot where
  | translated (span : TextSpan)
  | useDefault
  deriving DecidableEq

/-- A slot has a text in the pool, or none. -/
def Slot.Inside (pool : Bytes) : Slot → Prop
  | .translated span => span.Inside pool
  | .useDefault => True

instance (pool : Bytes) : (slot : Slot) → Decidable (slot.Inside pool)
  | .translated span => inferInstanceAs (Decidable (span.Inside pool))
  | .useDefault => .isTrue trivial

/-- The places of texts in a pool, for `width` locales: every message has one slot for each
locale, and no place lies outside the pool. -/
structure LaidOut (pool : Bytes) (width : Nat) (defaults : Array TextSpan)
    (translations : Array Slot) : Prop where
  size_eq : translations.size = defaults.size * width
  defaults_inside : ∀ span ∈ defaults, span.Inside pool
  translations_inside : ∀ slot ∈ translations, slot.Inside pool

theorem laidOut_empty (pool : Bytes) (width : Nat) : LaidOut pool width #[] #[] :=
  ⟨(Nat.zero_mul width).symm, by simp, by simp⟩

end Catalog

structure Catalog where
  locales : Locale.Directory
  pool : Bytes
  /-- The default texts, by message. -/
  defaults : Array Catalog.TextSpan
  /-- The slots of all messages, row after row. -/
  translations : Array Catalog.Slot
  laidOut : Catalog.LaidOut pool locales.size defaults translations
  deriving DecidableEq

namespace Catalog

/-- A catalog without messages. -/
def ofLocales (locales : Locale.Directory) : Catalog :=
  ⟨locales, [], #[], #[], laidOut_empty [] locales.size⟩

def localeCount (c : Catalog) : Nat :=
  c.locales.size

def messageCount (c : Catalog) : Nat :=
  c.defaults.size

/-- The slot of a message for a locale; `none` for an index that names no locale.  Without
that check the index would run into the row of another message. -/
def slot? (c : Catalog) (message locale : Nat) : Option Slot :=
  if c.localeCount ≤ locale then none else c.translations[message * c.localeCount + locale]?

/-- The text that a slot of a message asks for, which is the default text unless the slot has
one of its own. -/
def slotText? (c : Catalog) (message : Nat) (slot : Option Slot) : Option String :=
  match slot with
  | some (.translated span) => span.text? c.pool
  | _ => (c.defaults[message]?).bind (·.text? c.pool)

/-- The text of a message in a locale, or its default text; `none` for an unknown message. -/
def lookup? (c : Catalog) (id locale : Nat) : Option String :=
  c.slotText? id (c.slot? id locale)

/-- Whether a message has a text of its own in a locale. -/
def hasTranslation (c : Catalog) (id locale : Nat) : Bool :=
  match c.slot? id locale with
  | some (.translated _) => true
  | _ => false

/-- Checks a message number: it must fit its 16 bits, and the catalog must have the message. -/
def messageId (c : Catalog) (raw : Nat) : Except RequestError Nat :=
  if raw < maxMessages ∧ raw < c.messageCount then .ok raw
  else .error (.invalidMessageId raw c.messageCount)

theorem TextSpan.Inside.text?_ne_none {span : TextSpan} {pool : Bytes} (h : span.Inside pool) :
    span.text? pool ≠ none := by
  rw [text?, if_pos h]
  exact Option.some_ne_none _

/-- The place of a slot lies in the row of its message and in no other. -/
theorem slotIndex_lt_iff {width locale : Nat} (h : locale < width) (message count : Nat) :
    message * width + locale < count * width ↔ message < count := by
  constructor
  · intro hlt
    apply Nat.lt_of_not_le
    intro hle
    have := Nat.mul_le_mul_right width hle
    omega
  · intro hlt
    have := Nat.mul_le_mul_right width (Nat.succ_le_of_lt hlt)
    rw [Nat.succ_mul] at this
    omega

/-- An unknown message has no slot, whatever the locale. -/
theorem slot?_eq_none_of_le (c : Catalog) {message : Nat} (h : c.messageCount ≤ message)
    (locale : Nat) : c.slot? message locale = none := by
  unfold slot?
  split
  next => rfl
  next hlt =>
    have hsize : c.translations.size = c.messageCount * c.localeCount := c.laidOut.size_eq
    rw [Array.getElem?_eq_none_iff, hsize]
    apply Nat.le_of_not_lt
    intro hindex
    have hmessage := (slotIndex_lt_iff (Nat.lt_of_not_le hlt) message c.messageCount).mp hindex
    omega

theorem mem_of_slot? {c : Catalog} {message locale : Nat} {slot : Slot}
    (h : c.slot? message locale = some slot) : slot ∈ c.translations := by
  unfold slot? at h
  split at h
  next => cases h
  next => exact Array.mem_of_getElem? h

theorem slotText?_ne_none (c : Catalog) {message : Nat} (h : message < c.messageCount)
    {slot : Option Slot} (hslot : ∀ s ∈ slot, s ∈ c.translations) :
    c.slotText? message slot ≠ none := by
  have hdefault : (c.defaults[message]?).bind (·.text? c.pool) ≠ none := by
    rw [Array.getElem?_eq_getElem h]
    exact (c.laidOut.defaults_inside _ (Array.getElem_mem h)).text?_ne_none
  match slot with
  | none => exact hdefault
  | some .useDefault => exact hdefault
  | some (.translated span) =>
    exact TextSpan.Inside.text?_ne_none (c.laidOut.translations_inside _ (hslot _ rfl))

/-- Exactly the unknown messages have no text, in whatever locale. -/
theorem lookup?_eq_none_iff (c : Catalog) (id locale : Nat) :
    c.lookup? id locale = none ↔ c.messageCount ≤ id := by
  constructor
  · intro h
    apply Nat.le_of_not_lt
    intro hlt
    exact c.slotText?_ne_none hlt (fun slot hslot => mem_of_slot? hslot) h
  · intro hle
    have hdefault : c.defaults[id]? = none := Array.getElem?_eq_none_iff.mpr hle
    rw [lookup?, c.slot?_eq_none_of_le hle]
    show (c.defaults[id]?).bind _ = none
    rw [hdefault]
    rfl

end Catalog

end ScriptLint
