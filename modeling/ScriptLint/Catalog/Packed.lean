import ScriptLint.Catalog.Basic
import ScriptLint.Event

/-! Packed catalogs, and how they are loaded.

A packed catalog has three segments: the locale table; the mapping, with a row
of offsets for each message (one for each locale, and last the default text's);
and the string pool, in which an offset points at a NUL-terminated text.  Offset
zero means that there is no text, so the pool begins with a byte that is not used.

`Packed.load` checks everything once, in a fixed order, and names the first fault.
The rows of offsets are taken apart into the default texts and the slots of the
locales, and every offset becomes the place of a text (`laidOut_of_readRows`). -/

namespace ScriptLint.Catalog

structure Packed where
  localeTable : Bytes
  mapping : List Nat
  pool : Bytes
  deriving DecidableEq

/-! ## Algorithm -/

/-- Finds the text at an offset of the pool; offset zero leaves it to the default text. -/
def resolveSlot (pool : Bytes) (message offset : Nat) : Except Error Slot :=
  if offset = 0 then .ok .useDefault
  else if Utf8.canCut pool offset = false ∨ pool.length ≤ offset then
    .error (.offsetOutOfRange message offset)
  else
    match (pool.drop offset).findIdx? (· == 0) with
    | none => .error (.unterminatedString message offset)
    | some length =>
      -- the pool was found to be in reach of offsets, so this never happens
      if maxOffset < length then .error (.poolTooLarge pool.length)
      else .ok (.translated ⟨offset, length⟩)

/-- Finds the default text, which must be there and must not be empty. -/
def resolveDefault (pool : Bytes) (message offset : Nat) : Except Error TextSpan :=
  match resolveSlot pool message offset with
  | .error e => .error e
  | .ok .useDefault => .error (.missingDefault message)
  | .ok (.translated span) => if span.isEmpty then .error (.emptyDefault message) else .ok span

/-- The places of the texts of some messages. -/
structure Slots where
  defaults : Array TextSpan
  translations : Array Slot

/-- Reads the next row of offsets: the default text first, then the locales in order. -/
def readRow (pool : Bytes) (slots : Slots) (row : List Nat) : Except Error Slots :=
  match row.getLast? with
  | none => .error (.missingDefault slots.defaults.size)
  | some last =>
    match resolveDefault pool slots.defaults.size last with
    | .error e => .error e
    | .ok span =>
      match row.dropLast.mapM (resolveSlot pool slots.defaults.size) with
      | .error e => .error e
      | .ok translated =>
        .ok ⟨slots.defaults.push span, slots.translations ++ translated.toArray⟩

/-- Reads `count` rows of `stride` offsets each. -/
def readRows (pool : Bytes) (stride : Nat) : Nat → List Nat → Slots → Except Error Slots
  | 0, _, slots => .ok slots
  | count + 1, mapping, slots =>
    match readRow pool slots (mapping.take stride) with
    | .error e => .error e
    | .ok slots => readRows pool stride count (mapping.drop stride) slots

/-- Checks the pool as a whole. -/
def checkPool (pool : Bytes) : Except Error Unit :=
  if pool.head? ≠ some 0 then .error .missingReservedOffset
  else if maxOffset < pool.length then .error (.poolTooLarge pool.length)
  else
    match Utf8.illFormedAt? pool with
    | some offset => .error (.invalidUtf8 offset)
    | none => .ok ()

/-! ## Places of texts -/

theorem inside_of_resolveSlot {pool : Bytes} {message offset : Nat} {slot : Slot}
    (h : resolveSlot pool message offset = .ok slot) : slot.Inside pool := by
  unfold resolveSlot at h
  split at h
  next =>
    cases h
    trivial
  next =>
  split at h
  next => cases h
  next hrange =>
  split at h
  next => cases h
  next length hlength =>
  split at h
  next => cases h
  next =>
  cases h
  obtain ⟨hlt, hnul, -⟩ := List.findIdx?_eq_some_iff_getElem.mp hlength
  rw [List.length_drop] at hlt
  have hstop : offset + length < pool.length := by omega
  refine ⟨Nat.le_of_lt hstop, ?_, ?_⟩
  · exact Bool.of_not_eq_false fun hcut => hrange (.inl hcut)
  · -- the text ends before its NUL, which is no trailing byte
    rw [List.getElem_drop, beq_iff_eq] at hnul
    show Utf8.canCut pool (offset + length) = true
    simp [Utf8.canCut, List.getElem?_eq_getElem hstop, hnul, Utf8.isTrailing]

theorem inside_of_resolveDefault {pool : Bytes} {message offset : Nat} {span : TextSpan}
    (h : resolveDefault pool message offset = .ok span) : span.Inside pool := by
  unfold resolveDefault at h
  split at h
  next => cases h
  next => cases h
  next found hfound =>
  split at h
  next => cases h
  next =>
  cases h
  exact inside_of_resolveSlot hfound

/-- Texts that are found one after the other lie in the pool. -/
theorem inside_of_mapM {pool : Bytes} {message : Nat} {offsets : List Nat} {found : List Slot}
    (h : offsets.mapM (resolveSlot pool message) = .ok found) :
    found.length = offsets.length ∧ ∀ slot ∈ found, slot.Inside pool := by
  induction offsets generalizing found with
  | nil =>
    cases h
    exact ⟨rfl, nofun⟩
  | cons offset offsets ih =>
    rw [List.mapM_cons] at h
    cases hslot : resolveSlot pool message offset with
    | error e =>
      rw [hslot] at h
      cases h
    | ok slot =>
      cases hrest : offsets.mapM (resolveSlot pool message) with
      | error e =>
        rw [hslot, hrest] at h
        cases h
      | ok rest =>
        rw [hslot, hrest] at h
        cases h
        obtain ⟨hlength, hinside⟩ := ih hrest
        exact ⟨congrArg (· + 1) hlength,
          List.forall_mem_cons.mpr ⟨inside_of_resolveSlot hslot, hinside⟩⟩

/-- A row for `width` locales leaves the places laid out. -/
theorem laidOut_of_readRow {pool : Bytes} {width : Nat} {slots slots' : Slots} {row : List Nat}
    (hrow : row.length = width + 1) (hs : LaidOut pool width slots.defaults slots.translations)
    (h : readRow pool slots row = .ok slots') :
    LaidOut pool width slots'.defaults slots'.translations := by
  unfold readRow at h
  split at h
  next => cases h
  next last _ =>
  split at h
  next => cases h
  next span hspan =>
  split at h
  next => cases h
  next translated htranslated =>
  cases h
  obtain ⟨hlength, hinside⟩ := inside_of_mapM htranslated
  refine ⟨?_, fun span' hspan' => ?_, fun slot hslot => ?_⟩
  · rw [List.length_dropLast, hrow, Nat.add_sub_cancel] at hlength
    have hwidth : translated.toArray.size = width := hlength
    rw [Array.size_append, hwidth, hs.size_eq, Array.size_push, Nat.succ_mul]
  · rcases Array.mem_push.mp hspan' with hspan' | rfl
    · exact hs.defaults_inside span' hspan'
    · exact inside_of_resolveDefault hspan
  · rcases Array.mem_append.mp hslot with hslot | hslot
    · exact hs.translations_inside slot hslot
    · exact hinside slot (List.mem_toArray.mp hslot)

theorem laidOut_of_readRows {pool : Bytes} {width count : Nat} {mapping : List Nat}
    {slots slots' : Slots} (hmapping : mapping.length = count * (width + 1))
    (hs : LaidOut pool width slots.defaults slots.translations)
    (h : readRows pool (width + 1) count mapping slots = .ok slots') :
    LaidOut pool width slots'.defaults slots'.translations := by
  induction count generalizing mapping slots with
  | zero =>
    cases h
    exact hs
  | succ count ih =>
    rw [readRows] at h
    rw [Nat.succ_mul] at hmapping
    split at h
    next => cases h
    next next hnext =>
    refine ih ?_ (laidOut_of_readRow ?_ hs hnext) h
    · rw [List.length_drop]
      omega
    · rw [List.length_take]
      omega

/-! ## Loading -/

/-- Loads a packed catalog. -/
def Packed.load (p : Packed) : Except Error Catalog :=
  match Locale.Directory.ofTable p.localeTable with
  | .error e => .error e
  | .ok locales =>
    let stride := locales.size + 1
    let count := p.mapping.length / stride
    if haligned : p.mapping.length % stride ≠ 0 then
      .error (.misalignedMapping p.mapping.length stride)
    else if maxMessages < count then .error (.tooManyMessages count)
    else
      match checkPool p.pool with
      | .error e => .error e
      | .ok () =>
        match hrows : readRows p.pool stride count p.mapping ⟨#[], #[]⟩ with
        | .error e => .error e
        | .ok slots =>
          have hdvd := Nat.dvd_of_mod_eq_zero (Decidable.not_not.mp haligned)
          have hlength := (Nat.div_mul_cancel hdvd).symm
          .ok ⟨locales, p.pool, slots.defaults, slots.translations,
            laidOut_of_readRows hlength (laidOut_empty p.pool locales.size) hrows⟩

/-- The events of loading a catalog. -/
def loadEvents : Except Error Catalog → List Event
  | .ok c => [.catalogLoaded c.messageCount c.localeCount]
  | .error _ => []

end ScriptLint.Catalog
